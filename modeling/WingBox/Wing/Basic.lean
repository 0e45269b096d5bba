import WingBox.Fault.Basic
import WingBox.Space.Transform
import WingBox.Wire

/-!
# Wings

A `Wing` is a row of sections, each of which places one profile at its leading edge, scaled by
its chord.  Between two sections the wing is ruled, so the midplane of a segment is the bilinear
patch between two chord lines.

Points of the midplane have coordinates eta and xsi.  Eta runs along the leading edge projected
across the chords, from 0 at the first section to 1 at the last; xsi runs along the chord.

* `Wing.ofSections` and `Wing.withProfile` build wings and refuse those without extent;
* `Wing.point` goes from coordinates to space, `Wing.etaXsi` back to the nearest point;
* `Wing.etaDirection` and `Wing.midplaneNormal` are directions of the midplane.
-/

namespace WingBox

open Scalar

variable {K : Type} [Scalar K]

/-! ### Sections and profiles -/

/-- A section of a wing. -/
structure WingSection (K : Type) where
  /-- The name. -/
  elementUid : String
  /-- The leading edge point. -/
  leadingEdge : Vec K
  /-- The length of the chord. -/
  chord : K
  /-- The height of the profile relative to the chord. -/
  thickness : K

namespace WingSection

/-- The trailing edge point. -/
def trailingEdge (s : WingSection K) : Vec K := s.leadingEdge + s.chord • Vec.xAxis

/-- The point at `xsi` on the chord. -/
def chordPoint (s : WingSection K) (xsi : K) : Vec K :=
  Vec.lerp s.leadingEdge s.trailingEdge xsi

/-- The distance of two sections across the chords. -/
def spanDistance (s t : WingSection K) : K :=
  let d := t.leadingEdge - s.leadingEdge
  sqrt (d.y * d.y + d.z * d.z)

end WingSection

/-- A point of a profile of chord and height one. -/
structure ProfilePoint (K : Type) where
  /-- The place along the chord. -/
  x : K
  /-- The height above the chord. -/
  y : K

namespace ProfilePoint

/-- The profile point in a section. -/
def place (p : ProfilePoint K) (s : WingSection K) : Vec K :=
  s.leadingEdge + ⟨p.x * s.chord, 0, p.y * s.thickness * s.chord⟩

end ProfilePoint

/-- A symmetric hexagon, upper side first. -/
def hexagon : List (ProfilePoint K) :=
  [⟨0, 0⟩, ⟨0.1, 0.5⟩, ⟨0.9, 0.5⟩, ⟨1, 0⟩, ⟨0.9, -0.5⟩, ⟨0.1, -0.5⟩]

/-- A wing of at least two sections. -/
structure Wing (K : Type) where
  /-- The name. -/
  uid : String
  /-- The sections from inner to outer. -/
  sections : List (WingSection K)
  /-- There is at least one segment. -/
  two_le_length : 2 ≤ sections.length
  /-- The profile, which starts at the leading edge with the upper side. -/
  profile : List (ProfilePoint K)
  /-- The place of the trailing edge in the profile. -/
  trailingIndex : Nat
  /-- Leads from the wing to the aircraft. -/
  transformation : Transform K

namespace Wing

/-! ### Building wings -/

/-- The sections have different names and some extent. -/
def checkSections (wing : String) (seen : List String) :
    List (WingSection K) → Except (Error K) Unit
  | [] => .ok ()
  | s :: ss =>
    if s.elementUid ∈ seen then .error (.config wing (.duplicateSection s.elementUid))
    else if s.chord ≤ tolerance ∨ s.thickness ≤ 0 then
      .error (.config wing (.flatSection s.elementUid))
    else checkSections wing (s.elementUid :: seen) ss

/-- Neighbouring sections are apart in span. -/
def checkSpan (wing : String) : List (WingSection K) → Except (Error K) Unit
  | s :: t :: rest =>
    if s.spanDistance t < tolerance then
      .error (.config wing (.coincidentSections s.elementUid t.elementUid))
    else checkSpan wing (t :: rest)
  | _ => .ok ()

/-- The wing of some sections. -/
def ofSections (uid : String) (sections : List (WingSection K)) : Except (Error K) (Wing K) :=
  if h : 2 ≤ sections.length then do
    checkSections uid [] sections
    checkSpan uid sections
    return ⟨uid, sections, h, hexagon, 3, Transform.identity⟩
  else .error (.config uid .fewSections)

/-- The place of the last point of a profile that is farthest back. -/
def trailingPlace (profile : List (ProfilePoint K)) : Nat :=
  ((maxBy? (fun (p, _) => p.x) profile.zipIdx).map (·.2)).getD 0

/-- The wing with another profile.  Its first point is the leading edge, the last one of those
farthest back the trailing edge. -/
def withProfile (w : Wing K) (profile : List (ProfilePoint K)) : Except (Error K) (Wing K) :=
  match profile with
  | first :: _ :: _ :: _ =>
    let trailing := trailingPlace profile
    if trailing = 0 ∨ ∃ p ∈ profile, p.x < first.x then .error (.config w.uid .profileStart)
    else .ok { w with profile, trailingIndex := trailing }
  | _ => .error (.config w.uid .fewProfilePoints)

/-- The wing at another place of the aircraft. -/
def withTransformation (w : Wing K) (transformation : Transform K) : Wing K :=
  { w with transformation }

/-! ### Segments -/

/-- The wing between two sections. -/
structure Segment (K : Type) where
  /-- The section at the inner end. -/
  inner : WingSection K
  /-- The section at the outer end. -/
  outer : WingSection K
  /-- The span at the inner end. -/
  lo : K
  /-- The span at the outer end. -/
  hi : K

/-- The segments between sections, from span `s` on. -/
def segmentsFrom (s : K) : List (WingSection K) → List (Segment K)
  | a :: b :: rest =>
    let e := s + a.spanDistance b
    ⟨a, b, s, e⟩ :: segmentsFrom e (b :: rest)
  | _ => []

/-- The segments from inner to outer. -/
def segments (w : Wing K) : List (Segment K) := segmentsFrom 0 w.sections

theorem segments_ne_nil (w : Wing K) : w.segments ≠ [] := by
  have h := w.two_le_length
  unfold segments
  match hs : w.sections with
  | [] => simp [hs] at h
  | [_] => simp [hs] at h
  | _ :: _ :: _ => simp [segmentsFrom]

/-- The innermost segment. -/
def firstSegment (w : Wing K) : Segment K := w.segments.head w.segments_ne_nil

/-- The outermost segment. -/
def lastSegment (w : Wing K) : Segment K := w.segments.getLast w.segments_ne_nil

/-- The span of the whole wing. -/
def totalSpan (w : Wing K) : K := w.lastSegment.hi

/-- The span at every section. -/
def stations (w : Wing K) : List K := 0 :: w.segments.map (·.hi)

namespace Segment

/-- The span from end to end. -/
def size (g : Segment K) : K := g.hi - g.lo

/-- The point of the midplane at `t` between the sections and `xsi` along the chord. -/
def point (g : Segment K) (t xsi : K) : Vec K :=
  let leading := Vec.lerp g.inner.leadingEdge g.outer.leadingEdge t
  let trailing := Vec.lerp g.inner.trailingEdge g.outer.trailingEdge t
  Vec.lerp leading trailing xsi

end Segment

/-- The segment at `eta` and the place in it, which may lie beyond the ends of the wing. -/
def locate (w : Wing K) (eta : K) : Segment K × K :=
  let s := eta * w.totalSpan
  let g := (w.segments.reverse.find? (·.lo ≤ s)).getD w.firstSegment
  (g, (s - g.lo) / g.size)

/-- The point of the midplane with given coordinates. -/
def point (w : Wing K) (eta xsi : K) : Vec K :=
  let (g, t) := w.locate eta
  g.point t xsi

/-! ### From points to coordinates -/

/-- When the search for coordinates has come to rest. -/
def restingStep : K := 1e-15

/-- How far beyond its ends a segment claims a point. -/
def segmentMargin : K := 1e-9

namespace Segment

/-- The change of coordinates that brings `(t, xsi)` nearest to `p` on the tangent plane, where
there is one. -/
def step? (g : Segment K) (p : Vec K) (t xsi : K) : Option (K × K) :=
  let r := g.point t xsi - p
  let leading := g.outer.leadingEdge - g.inner.leadingEdge
  let trailing := g.outer.trailingEdge - g.inner.trailingEdge
  let jt := (1 - xsi) • leading + xsi • trailing
  let jx := g.point t 1 - g.point t 0
  let a := jt.dot jt
  let b := jt.dot jx
  let c := jx.dot jt
  let d := jx.dot jx
  let det := a * d - c * b
  if det == 0 then none
  else
    let u := jt.dot r
    let v := jx.dot r
    some (d / det * u + -b / det * v, -c / det * u + a / det * v)

/-- Coordinates improved by at most `steps` steps. -/
def refine (g : Segment K) (p : Vec K) : (steps : Nat) → (t xsi : K) → K × K
  | 0, t, xsi => (t, xsi)
  | n + 1, t, xsi =>
    match g.step? p t xsi with
    | none => (t, xsi)
    | some (dt, dx) =>
      if sqrt (dt * dt + dx * dx) < restingStep then (t - dt, xsi - dx)
      else g.refine p n (t - dt) (xsi - dx)

/-- A point of the midplane of a segment near to a given one. -/
structure Solution (K : Type) where
  /-- The segment. -/
  segment : Segment K
  /-- The place between the sections. -/
  t : K
  /-- The place along the chord. -/
  xsi : K
  /-- The distance to the given point. -/
  residual : K

/-- The point of the midplane of the segment nearest to `p`, searched from its middle. -/
def solve (g : Segment K) (p : Vec K) : Solution K :=
  let (t, xsi) := g.refine p 30 0.5 0.5
  ⟨g, t, xsi, (g.point t xsi - p).norm⟩

/-- The solution lies within its segment. -/
def Solution.Inside (s : Solution K) : Prop :=
  -segmentMargin ≤ s.t ∧ s.t ≤ 1 + segmentMargin

instance (s : Solution K) : Decidable s.Inside := inferInstanceAs (Decidable (_ ∧ _))

end Segment

/-- The solution that counts: the nearest one within its segment, else that of the end of the
wing beyond which the point lies. -/
def solve (w : Wing K) (p : Vec K) : Segment.Solution K :=
  let inside := (w.segments.map (·.solve p)).filter fun s => s.Inside
  match minBy? (·.residual) inside with
  | some s => s
  | none =>
    let first := w.firstSegment.solve p
    if first.t < 0 then first else w.lastSegment.solve p

/-- The coordinates of the point of the midplane that is nearest to `p`. -/
def etaXsi (w : Wing K) (p : Vec K) : K × K :=
  let s := w.solve p
  ((s.segment.lo + s.t * s.segment.size) / w.totalSpan, s.xsi)

/-! ### Directions -/

/-- When chord and span are too nearly parallel to have a normal. -/
def normalBound : K := 1e-12

/-- The direction of the leading edge. -/
def etaDirection (w : Wing K) (eta : K) : Except (Error K) (Vec K) :=
  let (g, _) := w.locate eta
  Error.require (.geometry w.uid (.noSpanDirection eta))
    ((g.outer.leadingEdge - g.inner.leadingEdge).normalize? tolerance)

/-- The unit normal of the midplane, which points to the upper side. -/
def midplaneNormal (w : Wing K) (eta : K) : Except (Error K) (Vec K) := do
  let chord ← Error.require (.geometry w.uid (.zeroChord eta))
    ((w.point eta 1 - w.point eta 0).normalize? tolerance)
  Error.require (.geometry w.uid (.degenerateMidplane eta))
    ((chord.cross (← w.etaDirection eta)).normalize? normalBound)

/-! ### Lines -/

/-- The line through the points at `xsi` of all chords. -/
def chordwiseLine (w : Wing K) (xsi : K) : Except (Error K) (Wire K) :=
  Error.require (.geometry w.uid .degenerateEdgeLine)
    (Wire.ofPoints? (w.sections.map (·.chordPoint xsi)))

/-- The leading edge. -/
def leadingEdge (w : Wing K) : Except (Error K) (Wire K) := w.chordwiseLine 0

/-- The trailing edge. -/
def trailingEdge (w : Wing K) : Except (Error K) (Wire K) := w.chordwiseLine 1

/-- The line between two points of the midplane. -/
def midplaneLine (w : Wing K) (a b : Vec K) : Except (Error K) (Wire K) :=
  Error.require (.geometry w.uid .coincidentMidplanePoints) (Wire.segment? a b)

/-! ### Section elements -/

/-- The place of a section element and the section. -/
def section? (w : Wing K) (uid : String) : Except (Error K) (Nat × WingSection K) :=
  Error.require (.notFound .sectionElement uid)
    ((w.sections.zipIdx.find? fun (s, _) => s.elementUid == uid).map fun (s, i) => (i, s))

/-- The point at `xsi` on the chord of a section element. -/
def elementPoint (w : Wing K) (uid : String) (xsi : K) : Except (Error K) (Vec K) := do
  let (_, s) ← w.section? uid
  return s.chordPoint xsi

/-- The first section element at the span of the midplane point that is nearest to `p`. -/
def elementAt? (w : Wing K) (p : Vec K) : Option String :=
  let s := (w.etaXsi p).1 * w.totalSpan
  ((List.zip w.stations w.sections).find? fun (station, _) => abs (station - s) < tolerance).map
    fun (_, s) => s.elementUid

end Wing

end WingBox
