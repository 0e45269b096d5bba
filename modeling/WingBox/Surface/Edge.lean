import WingBox.Space.Transform

/-!
# Straight edges

An `Edge` joins two points.  An edge shorter than the tolerance is `Degenerate`; two edges
`Coincide` when their ends do, in either order.
-/

namespace WingBox

open Scalar

/-- A straight edge between two points. -/
structure Edge (K : Type) where
  /-- Where the edge begins. -/
  start : Vec K
  /-- Where the edge ends. -/
  stop : Vec K

namespace Edge

variable {K : Type} [Scalar K]

/-- The vector from start to end. -/
def span (e : Edge K) : Vec K := e.stop - e.start

/-- The length. -/
def length (e : Edge K) : K := e.span.norm

/-- The point half way. -/
def midpoint (e : Edge K) : Vec K := Vec.center e.start e.stop

/-- The edge run the other way. -/
def reversed (e : Edge K) : Edge K := ⟨e.stop, e.start⟩

/-- The point at `t` on the line of the edge, 0 at its start and 1 at its end. -/
def pointAt (e : Edge K) (t : K) : Vec K := Vec.lerp e.start e.stop t

/-- The image under a transformation. -/
def transformed (m : Transform K) (e : Edge K) : Edge K := ⟨m.apply e.start, m.apply e.stop⟩

/-- The edge is too short to have a direction. -/
def Degenerate (e : Edge K) : Prop := e.length < tolerance

instance (e : Edge K) : Decidable e.Degenerate := inferInstanceAs (Decidable (_ < _))

/-- The edges have the same ends, in either order. -/
def Coincide (e f : Edge K) : Prop :=
  (e.start.Near f.start ∧ e.stop.Near f.stop) ∨ (e.start.Near f.stop ∧ e.stop.Near f.start)

instance (e f : Edge K) : Decidable (e.Coincide f) := inferInstanceAs (Decidable (_ ∨ _))

/-- The distance of `p` to the nearest point of the edge. -/
def distance (e : Edge K) (p : Vec K) : K :=
  let d := e.span
  if d.normSq < tolerance * tolerance then p.distance e.start
  else p.distance (e.start + clamp 0 1 ((p - e.start).dot d / d.normSq) • d)

end Edge

end WingBox
