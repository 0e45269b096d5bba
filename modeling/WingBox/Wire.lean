import WingBox.Surface.Edge

/-!
# Wires

A `Wire` is a chain of straight edges through at least two points.  Its parameters are
arclengths divided by the whole length: 0 at the first point, 1 at the last.

* `Wire.ofPoints?` drops points that coincide with the one before;
* `Wire.pointAt` and `Wire.tangentAt` go from parameters to space;
* `Wire.project` goes back to the parameter of the nearest point.
-/

namespace WingBox

open Scalar

/-- A chain of straight edges. -/
structure Wire (K : Type) where
  /-- The points in order. -/
  points : List (Vec K)
  /-- There is at least one edge. -/
  two_le_length : 2 ≤ points.length

namespace Wire

variable {K : Type} [Scalar K]

/-! ### Building wires -/

/-- The points that do not coincide with the one kept before them, of which `q` is the first. -/
def distinctAfter (q : Vec K) : List (Vec K) → List (Vec K)
  | [] => []
  | p :: ps =>
    if tolerance ≤ (p - q).norm then p :: distinctAfter p ps else distinctAfter q ps

/-- The points that do not coincide with the one kept before them. -/
def distinct : List (Vec K) → List (Vec K)
  | [] => []
  | p :: ps => p :: distinctAfter p ps

/-- The wire through the distinct points of a list, if there are two. -/
def ofPoints? (ps : List (Vec K)) : Option (Wire K) :=
  if h : 2 ≤ (distinct ps).length then some ⟨distinct ps, h⟩ else none

/-- The wire of a single edge, unless its ends coincide. -/
def segment? (a b : Vec K) : Option (Wire K) := ofPoints? [a, b]

/-! ### Points and edges -/

omit [Scalar K] in
theorem points_ne_nil (w : Wire K) : w.points ≠ [] := by
  intro h
  have := w.two_le_length
  simp [h] at this

/-- The first point. -/
def start (w : Wire K) : Vec K := w.points.head w.points_ne_nil

/-- The last point. -/
def stop (w : Wire K) : Vec K := w.points.getLast w.points_ne_nil

/-- The edges in order. -/
def edges (w : Wire K) : List (Edge K) := List.zipWith Edge.mk w.points w.points.tail

omit [Scalar K] in
@[simp] theorem length_edges (w : Wire K) : w.edges.length = w.points.length - 1 := by
  simp [edges]

/-- The wire ends where it begins. -/
def Closed (w : Wire K) : Prop := 2 < w.points.length ∧ w.start.Near w.stop

instance (w : Wire K) : Decidable w.Closed := inferInstanceAs (Decidable (_ ∧ _))

/-- The wire run the other way. -/
def reversed (w : Wire K) : Wire K :=
  ⟨w.points.reverse, by simpa using w.two_le_length⟩

/-- The wire with its first point added at the end, unless it is closed. -/
def closed (w : Wire K) : Wire K :=
  if w.Closed then w
  else ⟨w.points ++ [w.start], by have := w.two_le_length; simp; omega⟩

/-- The image under a transformation. -/
def transformed (m : Transform K) (w : Wire K) : Wire K :=
  ⟨w.points.map m.apply, by simpa using w.two_le_length⟩

/-! ### Arclength -/

/-- The whole length. -/
def length (w : Wire K) : K := sum (w.edges.map Edge.length)

/-- The parameters of the points. -/
def parameters (w : Wire K) : List K :=
  (partialSums (w.edges.map Edge.length)).map (· / w.length)

/-- An edge of a wire and the arclengths between which it lies. -/
structure Span (K : Type) where
  /-- The edge. -/
  edge : Edge K
  /-- The arclength at its start. -/
  lo : K
  /-- The arclength at its end. -/
  hi : K

/-- The spans of some edges, from arclength `s` on. -/
def spansFrom (s : K) : List (Edge K) → List (Span K)
  | [] => []
  | e :: es => ⟨e, s, s + e.length⟩ :: spansFrom (s + e.length) es

/-- The spans of all edges. -/
def spans (w : Wire K) : List (Span K) := spansFrom 0 w.edges

@[simp] theorem length_spansFrom (s : K) (es : List (Edge K)) :
    (spansFrom s es).length = es.length := by
  induction es generalizing s with
  | nil => rfl
  | cons e es ih => simp [spansFrom, ih]

theorem spans_ne_nil (w : Wire K) : w.spans ≠ [] := by
  have h : w.spans.length = w.points.length - 1 := by simp [spans]
  have := w.two_le_length
  intro hn
  simp [hn] at h
  omega

/-! ### Parameters and points -/

/-- The arclength of a parameter, kept within the wire. -/
def arclength (w : Wire K) (t : K) : K := clamp 0 1 t * w.length

/-- The first span that ends after the parameter, else the last one. -/
def locate (w : Wire K) (t : K) : Span K :=
  (w.spans.find? fun r => w.arclength t < r.hi).getD (w.spans.getLast w.spans_ne_nil)

/-- The point at a parameter, which is clamped to the wire. -/
def pointAt (w : Wire K) (t : K) : Vec K :=
  let r := w.locate t
  let size := r.hi - r.lo
  r.edge.pointAt (if 0 < size then (w.arclength t - r.lo) / size else 0)

/-- The direction at a parameter; at a point between edges that of the later edge. -/
def tangentAt (w : Wire K) (t : K) : Vec K := (w.locate t).edge.span.normalize

/-- How much nearer a later point must be to replace an earlier one. -/
def projectionGap : K := tolerance * 1e-3

/-- The distance of `p` to the nearest point of a span, and that point's arclength. -/
def Span.nearest (r : Span K) (p : Vec K) : K × K :=
  let d := r.edge.span
  let t := clamp 0 1 ((p - r.edge.start).dot d / d.normSq)
  (p.distance (r.edge.start + t • d), r.lo + t * d.norm)

/-- The better of two candidates, given by distance and arclength. -/
def nearer (best : Option (K × K)) (c : K × K) : Option (K × K) :=
  match best with
  | some b => if c.1 < b.1 - projectionGap then some c else best
  | none => if Bounded c.1 then some c else none

/-- The parameter of the point of the wire that is nearest to `p`. -/
def project (w : Wire K) (p : Vec K) : K :=
  match w.spans.foldl (fun best r => nearer best (r.nearest p)) none with
  | some (_, s) => s / w.length
  | none => 0 / w.length

/-- The distance of a point to the wire. -/
def distance (w : Wire K) (p : Vec K) : K := (w.pointAt (w.project p)).distance p

end Wire

end WingBox
