import Mathlib.Data.List.Basic
import Mathlib.Tactic.SplitIfs
import WingBox.Definition.Ribs

/-!
# Lines read from words

A line is written as one word, so the spar named "leadingEdge" and the leading edge are written
alike.  `NamedLine.reread` is the line that the word of a line names, and every definition that
holds lines can be reread line by line.

* `NamedLine.Plain`, `RibDatum.Plain`: the line, or reference, is not a spar whose name is one of
  the words with a meaning of their own; references have two such words more than lines;
* `Description.reread_eq_iff`: a description is what it is reread as exactly if all its lines and
  references are plain.
-/

namespace WingBox

variable {K : Type}

theorem optionMap_eq_self_iff {α : Type} {f : α → α} {o : Option α} :
    o.map f = o ↔ ∀ x ∈ o.toList, f x = x := by
  cases o with
  | none => simp
  | some x => simp

theorem listMap_eq_self_iff {α : Type} {f : α → α} {xs : List α} :
    xs.map f = xs ↔ ∀ x ∈ xs, f x = x := by
  have h := List.map_inj_left (f := f) (g := id) (l := xs)
  rwa [List.map_id] at h

/-! ### Lines -/

namespace NamedLine

/-- The words that name the edges of the wing. -/
def edgeWords : List String := ["leadingEdge", "trailingEdge"]

/-- The line that the word of a line names. -/
def reread (l : NamedLine) : NamedLine := ofText l.text

/-- The line is no spar that has the name of an edge. -/
def Plain (l : NamedLine) : Prop := ∀ uid, l = spar uid → uid ∉ edgeWords

theorem plain_spar_iff {uid : String} :
    (spar uid).Plain ↔ uid ≠ "leadingEdge" ∧ uid ≠ "trailingEdge" := by
  simp [Plain, edgeWords]

theorem reread_eq_iff {l : NamedLine} : l.reread = l ↔ l.Plain := by
  cases l with
  | leadingEdge => exact ⟨fun _ _ => nofun, fun _ => rfl⟩
  | trailingEdge => exact ⟨fun _ _ => nofun, fun _ => rfl⟩
  | spar uid =>
    rw [plain_spar_iff, reread, text, ofText]
    split_ifs with hleading htrailing
    · exact ⟨nofun, fun h => absurd hleading h.1⟩
    · exact ⟨nofun, fun h => absurd htrailing h.2⟩
    · exact ⟨fun _ => ⟨hleading, htrailing⟩, fun _ => rfl⟩

end NamedLine

namespace RibDatum

/-- The words that name what is no spar. -/
def words : List String := "globalX" :: "globalY" :: NamedLine.edgeWords

/-- The reference that the word of a reference names. -/
def reread (r : RibDatum) : RibDatum := ofText r.text

/-- The reference is no spar that has the name of something else. -/
def Plain (r : RibDatum) : Prop := ∀ uid, r = line (.spar uid) → uid ∉ words

theorem plain_spar_iff {uid : String} :
    (line (.spar uid)).Plain ↔ uid ≠ "globalX" ∧ uid ≠ "globalY" ∧ (NamedLine.spar uid).Plain := by
  simp [Plain, words, NamedLine.Plain]

theorem reread_eq_iff {r : RibDatum} : r.reread = r ↔ r.Plain := by
  match r with
  | globalX | globalY | line .leadingEdge | line .trailingEdge =>
    exact ⟨fun _ _ => nofun, fun _ => rfl⟩
  | line (.spar uid) =>
    rw [plain_spar_iff, reread, text, NamedLine.text, ofText]
    split_ifs with hx hy
    · exact ⟨nofun, fun h => absurd hx h.1⟩
    · exact ⟨nofun, fun h => absurd hy h.2.1⟩
    · have hline := NamedLine.reread_eq_iff (l := .spar uid)
      rw [line.injEq]
      exact hline.trans ⟨fun h => ⟨hx, hy, h⟩, fun h => h.2.2⟩

end RibDatum

/-! ### Ribs -/

/-- A rotation with its reference reread. -/
def RibRotation.reread (r : RibRotation K) : RibRotation K :=
  { r with reference := r.reference.map .reread }

namespace RibSet

/-- The lines of a set. -/
def lines (s : RibSet K) : List NamedLine := [s.ribReference, s.ribStart, s.ribEnd]

/-- The references of a set. -/
def data (s : RibSet K) : List RibDatum := s.rotation.reference.toList

/-- The set with its lines and its reference reread. -/
def reread (s : RibSet K) : RibSet K :=
  { s with
    ribReference := s.ribReference.reread
    ribStart := s.ribStart.reread
    ribEnd := s.ribEnd.reread
    rotation := s.rotation.reread }

theorem reread_eq_iff {s : RibSet K} :
    s.reread = s ↔ (∀ l ∈ s.lines, l.Plain) ∧ ∀ r ∈ s.data, r.Plain := by
  obtain ⟨ribReference, start, stop, ribStart, ribEnd, count, crossing, z, reference⟩ := s
  simp only [reread, RibRotation.reread, mk.injEq, RibRotation.mk.injEq, true_and, lines, data,
    List.forall_mem_cons, List.not_mem_nil, false_implies, implies_true, and_true, and_assoc,
    NamedLine.reread_eq_iff, optionMap_eq_self_iff, RibDatum.reread_eq_iff]

end RibSet

namespace RibEnd

/-- The lines of an end. -/
def lines : RibEnd K → List NamedLine
  | curve reference _ => [reference]
  | _ => []

/-- The end with its line reread. -/
def reread : RibEnd K → RibEnd K
  | curve reference eta => curve reference.reread eta
  | p => p

theorem reread_eq_iff {p : RibEnd K} : p.reread = p ↔ ∀ l ∈ p.lines, l.Plain := by
  cases p with
  | etaXsi eta xsi uid => exact ⟨fun _ => List.forall_mem_nil _, fun _ => rfl⟩
  | sparPosition uid => exact ⟨fun _ => List.forall_mem_nil _, fun _ => rfl⟩
  | curve reference eta =>
    rw [reread, curve.injEq, lines, List.forall_mem_singleton, NamedLine.reread_eq_iff]
    exact and_iff_left rfl

end RibEnd

namespace ExplicitRib

/-- The lines of a rib. -/
def lines (r : ExplicitRib K) : List NamedLine :=
  r.start.lines ++ r.stop.lines ++ [r.ribStart, r.ribEnd]

/-- The rib with its lines reread. -/
def reread (r : ExplicitRib K) : ExplicitRib K where
  start := r.start.reread
  stop := r.stop.reread
  ribStart := r.ribStart.reread
  ribEnd := r.ribEnd.reread

theorem reread_eq_iff {r : ExplicitRib K} : r.reread = r ↔ ∀ l ∈ r.lines, l.Plain := by
  obtain ⟨start, stop, ribStart, ribEnd⟩ := r
  simp only [reread, mk.injEq, lines, List.forall_mem_append, List.forall_mem_cons,
    List.not_mem_nil, false_implies, implies_true, and_true, and_assoc, RibEnd.reread_eq_iff,
    NamedLine.reread_eq_iff]

end ExplicitRib

namespace RibsDeclaration

/-- The lines of a declaration. -/
def lines (d : RibsDeclaration K) : List NamedLine :=
  d.ribsPositioning.toList.flatMap RibSet.lines
    ++ d.explicitPositioning.toList.flatMap ExplicitRib.lines

/-- The references of a declaration. -/
def data (d : RibsDeclaration K) : List RibDatum := d.ribsPositioning.toList.flatMap RibSet.data

/-- The declaration with its lines and references reread. -/
def reread (d : RibsDeclaration K) : RibsDeclaration K :=
  { d with
    ribsPositioning := d.ribsPositioning.map .reread
    explicitPositioning := d.explicitPositioning.map .reread }

theorem reread_eq_iff {d : RibsDeclaration K} :
    d.reread = d ↔ (∀ l ∈ d.lines, l.Plain) ∧ ∀ r ∈ d.data, r.Plain := by
  obtain ⟨uid, set, rib, crossSection⟩ := d
  simp only [reread, mk.injEq, true_and, and_true, lines, data, optionMap_eq_self_iff,
    RibSet.reread_eq_iff, ExplicitRib.reread_eq_iff, List.forall_mem_append,
    List.forall_mem_flatMap, imp_and, forall_and]
  exact and_right_comm

end RibsDeclaration

/-! ### Descriptions -/

namespace Description

/-- The lines that ribs name. -/
def lines (d : Description K) : List NamedLine := d.ribsDefinitions.flatMap RibsDeclaration.lines

/-- The references that ribs name. -/
def data (d : Description K) : List RibDatum := d.ribsDefinitions.flatMap RibsDeclaration.data

/-- The description with all lines and references reread. -/
def reread (d : Description K) : Description K :=
  { d with ribsDefinitions := d.ribsDefinitions.map .reread }

/-- No line or reference is a spar that has the name of something else. -/
structure Plain (d : Description K) : Prop where
  /-- The lines are plain. -/
  lines : ∀ l ∈ d.lines, l.Plain
  /-- The references are plain. -/
  data : ∀ r ∈ d.data, r.Plain

/-- **A description is what it is reread as if it is plain, and only then.** -/
theorem reread_eq_iff {d : Description K} : d.reread = d ↔ d.Plain := by
  have hplain : d.Plain ↔ (∀ l ∈ d.lines, l.Plain) ∧ ∀ r ∈ d.data, r.Plain :=
    ⟨fun h => ⟨h.lines, h.data⟩, fun h => ⟨h.1, h.2⟩⟩
  rw [hplain]
  obtain ⟨positions, segments, ribs⟩ := d
  simp only [reread, mk.injEq, true_and, lines, data, listMap_eq_self_iff,
    RibsDeclaration.reread_eq_iff, List.forall_mem_flatMap, imp_and, forall_and]

end Description

end WingBox
