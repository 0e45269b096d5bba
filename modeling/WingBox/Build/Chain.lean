import WingBox.Wire

/-!
# Wires from loose edges

`Wire.chain` joins edges that share ends into wires, `Edge.looseEnds` are the points at which
exactly one edge ends.

A chain starts with the first edge that is left and grows at either end by the last of the edges
left that touches it, until it closes or nothing touches it.
-/

namespace WingBox

open Scalar

variable {K : Type} [Scalar K]

/-! ### Picking edges -/

/-- The last element that satisfies `p`, and the others in order. -/
def takeLast? {α : Type} (p : α → Bool) : List α → Option (α × List α)
  | [] => none
  | x :: xs =>
    match takeLast? p xs with
    | some (y, rest) => some (y, x :: rest)
    | none => if p x then some (x, xs) else none

theorem length_of_takeLast? {α : Type} {p : α → Bool} {xs rest : List α} {y : α}
    (h : takeLast? p xs = some (y, rest)) : rest.length < xs.length := by
  induction xs generalizing y rest with
  | nil => simp [takeLast?] at h
  | cons x xs ih =>
    rw [takeLast?] at h
    split at h
    · rename_i z zs hz
      have := ih hz
      simp only [Option.some.injEq, Prod.mk.injEq] at h
      obtain ⟨rfl, rfl⟩ := h
      simp only [List.length_cons]
      omega
    · split at h
      · simp only [Option.some.injEq, Prod.mk.injEq] at h
        obtain ⟨-, rfl⟩ := h
        simp
      · exact absurd h (by simp)

/-! ### Chains -/

/-- A chain of points: its first one, its last one and those between. -/
structure Chain (K : Type) where
  /-- The first point. -/
  front : Vec K
  /-- The points between the ends. -/
  inner : List (Vec K)
  /-- The last point. -/
  back : Vec K

namespace Chain

/-- The chain of a single edge. -/
def ofEdge (e : Edge K) : Chain K := ⟨e.start, [], e.stop⟩

/-- The points in order. -/
def points (c : Chain K) : List (Vec K) := c.front :: (c.inner ++ [c.back])

/-- The chain ends where it begins. -/
def Closed (c : Chain K) : Prop := c.inner ≠ [] ∧ c.front.Near c.back

instance (c : Chain K) : Decidable c.Closed := inferInstanceAs (Decidable (_ ∧ _))

/-- An end of the edge is an end of the chain. -/
def touches (c : Chain K) (e : Edge K) : Bool :=
  e.start.Near c.back || e.stop.Near c.back || e.start.Near c.front || e.stop.Near c.front

/-- The chain grown by an edge that touches it: at its back if the edge touches that, else at its
front. -/
def grow (c : Chain K) (e : Edge K) : Chain K :=
  if e.start.Near c.back then ⟨c.front, c.inner ++ [c.back], e.stop⟩
  else if e.stop.Near c.back then ⟨c.front, c.inner ++ [c.back], e.start⟩
  else if e.stop.Near c.front then ⟨e.start, c.front :: c.inner, c.back⟩
  else ⟨e.stop, c.front :: c.inner, c.back⟩

/-- The chain grown as far as it goes, and the edges that are left. -/
def growAll (c : Chain K) (es : List (Edge K)) : Chain K × List (Edge K) :=
  if c.Closed then (c, es)
  else
    match h : takeLast? c.touches es with
    | none => (c, es)
    | some (e, rest) =>
      have := length_of_takeLast? h
      (c.grow e).growAll rest
termination_by es.length

theorem length_growAll (c : Chain K) (es : List (Edge K)) :
    (c.growAll es).2.length ≤ es.length := by
  fun_induction growAll c es with
  | case1 => simp
  | case2 => simp
  | case3 c es _ e rest h this ih => omega

/-- The chain with its last point moved onto its first one where they coincide and more than two
edges lie between them. -/
def snapped (c : Chain K) : Chain K :=
  if 2 ≤ c.inner.length ∧ c.front.Near c.back then { c with back := c.front } else c

end Chain

/-! ### Wires -/

/-- The chains of some edges in the order of their first edges. -/
def Chain.all : List (Edge K) → List (Chain K)
  | [] => []
  | e :: es =>
    let grown := (Chain.ofEdge e).growAll es
    have := length_growAll (Chain.ofEdge e) es
    grown.1 :: Chain.all grown.2
termination_by es => es.length
decreasing_by simp only [List.length_cons]; omega

/-- The wires that edges make, without degenerate edges. -/
def Wire.chain (es : List (Edge K)) : List (Wire K) :=
  (Chain.all (es.filter fun e => ¬e.Degenerate)).filterMap fun c =>
    Wire.ofPoints? c.snapped.points

/-! ### Loose ends -/

/-- A point and how many edges end there. -/
structure Node (K : Type) where
  /-- The point at which the first of the edges ends. -/
  point : Vec K
  /-- How many edges end there. -/
  count : Nat

/-- One more end at `p`. -/
def Node.add (p : Vec K) : List (Node K) → List (Node K)
  | [] => [⟨p, 1⟩]
  | n :: ns =>
    if n.point.Near p then { n with count := n.count + 1 } :: ns else n :: Node.add p ns

/-- The points at which edges end, with degenerate edges left out. -/
def Edge.nodes (es : List (Edge K)) : List (Node K) :=
  (es.filter fun e => ¬e.Degenerate).foldl (fun ns e => Node.add e.stop (Node.add e.start ns)) []

/-- The points at which exactly one edge ends. -/
def Edge.looseEnds (es : List (Edge K)) : List (Vec K) :=
  ((Edge.nodes es).filter (·.count == 1)).map Node.point

end WingBox
