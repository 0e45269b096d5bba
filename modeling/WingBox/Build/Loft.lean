import WingBox.Build.Patch

/-!
# Lofts

A loft joins consecutive closed profiles with ruled strips.  A profile is a loop of points without
a repeated last one; point `k` of a profile is ruled to point `k` of the next.
-/

namespace WingBox

namespace Loft

variable {K : Type} [Scalar K]

/-- Edges of a profile: edge `k` joins the points `k` and `k + 1`, the last edge the last point
and the first. -/
structure EdgeRange where
  /-- The first edge. -/
  first : Nat
  /-- The edge after the last one. -/
  stop : Nat

/-- The points of a loop, each with the next one. -/
def sides (profile : List (Vec K)) : List (Vec K × Vec K) :=
  match profile with
  | [] => []
  | p :: ps => List.zip profile (ps ++ [p])

/-- The facets that rule some sides of a profile to the same sides of the next one. -/
def strips (edges : EdgeRange) (inner outer : List (Vec K)) : List (Triangle K) :=
  let pairs := List.zip (sides inner) (sides outer)
  ((pairs.take edges.stop).drop edges.first).flatMap fun ((a, b), (c, d)) =>
    (Face.quad a b c d).facets

/-- The faces between consecutive profiles along some of their edges, one face a pair. -/
def faces (profiles : List (List (Vec K))) (edges : EdgeRange) :
    Except ShapeFault (List (Face K)) :=
  match profiles with
  | first :: second :: rest =>
    let n := first.length
    if n < 3 ∨ ∃ p ∈ second :: rest, p.length ≠ n then .error (.degenerate .unequalProfiles)
    else if n < edges.stop ∨ edges.stop ≤ edges.first then
      .error (.degenerate (.edgeRange edges.first edges.stop n))
    else
      .ok (List.zipWith (fun inner outer => ⟨strips edges inner outer⟩) profiles (second :: rest))
  | _ => .error (.degenerate (.fewProfiles profiles.length))

end Loft

end WingBox
