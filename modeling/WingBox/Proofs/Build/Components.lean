import WingBox.Proofs.Build.Wires

/-!
# Components of edges

Points are connected if edges with some length lead from one to the other.  If at most two of them
end at each point, no point is visited twice by the wires that `Wire.chain` makes
(`Wire.nodup_visits`), so each wire keeps to itself.

* `Wire.pointSet_eq`: the points of a wire are a component, since its edges connect them and no
  edge leads to another wire;
* `Wire.perm_within`: the edges of a wire are those of its component;
* `Wire.closed_iff_isCycle`: the closed wires are the components at whose points two edges end;
* `Wire.mem_looseEnds_iff`: the open wires end at the loose ends.

`Wire.chain_lossless` sums this up for finite ends.
-/

namespace WingBox

open Relation Scalar

variable {K : Type} [Scalar K] {es : List (Edge K)} {p q : Vec K} {w v : Wire K}

omit [Scalar K] in
theorem Vec.nodup_of_times_le_one {ps : List (Vec K)} (h : ∀ p : Vec K, p.times ps ≤ 1) :
    ps.Nodup := by
  classical
  induction ps with
  | nil => exact .nil
  | cons q ps ih =>
    have hcons (p : Vec K) : p.times ps + (if q = p then 1 else 0) ≤ 1 := by simpa using h p
    refine List.nodup_cons.2 ⟨?_, ih fun p => le_of_add_le_left (hcons p)⟩
    have hq := hcons q
    rw [if_pos rfl] at hq
    exact Vec.times_eq_zero_iff.1 (by omega)

namespace Edge

/-! ### Connected points -/

/-- An edge with some length has these ends. -/
def Linked (es : List (Edge K)) (p q : Vec K) : Prop := ∃ e ∈ proper es, e.segment = s(p, q)

/-- Edges lead from one point to the other. -/
def Connected (es : List (Edge K)) : Vec K → Vec K → Prop := ReflTransGen (Linked es)

/-- The components of edges, given by their points. -/
def components (es : List (Edge K)) : Set (Set (Vec K)) :=
  {S | ∃ p, 0 < degree es p ∧ S = {q | Connected es p q}}

/-- Two edges end at each point of a component. -/
def IsCycle (es : List (Edge K)) (S : Set (Vec K)) : Prop := ∀ p ∈ S, degree es p = 2

open Classical in
/-- The segments of the edges between points of a set. -/
noncomputable def within (es : List (Edge K)) (S : Set (Vec K)) : List (Sym2 (Vec K)) :=
  ((proper es).map segment).filter fun s => ∀ p ∈ s, p ∈ S

theorem linked_iff_mem_map : Linked es p q ↔ s(p, q) ∈ (proper es).map segment := by
  rw [List.mem_map]
  rfl

theorem Connected.symm (h : Connected es p q) : Connected es q p := by
  have : Std.Symm (Linked es) := by
    refine ⟨fun p q hpq => ?_⟩
    rw [linked_iff_mem_map] at hpq ⊢
    rwa [Sym2.eq_swap]
  exact ReflTransGen.stdSymm.symm p q h

/-- The edges between points connect the first one with all. -/
theorem connected_of_segments {ps : List (Vec K)}
    (h : Vec.segments (p :: ps) ⊆ (proper es).map segment) : ∀ q ∈ p :: ps, Connected es p q := by
  induction ps generalizing p with
  | nil =>
    intro q hq
    rw [List.mem_singleton.1 hq]
    exact .refl
  | cons r ps ih =>
    rw [Vec.segments_cons_cons, List.cons_subset] at h
    intro q hq
    rcases List.mem_cons.1 hq with rfl | hq
    · exact .refl
    · exact .head (linked_iff_mem_map.2 h.1) (ih h.2 q hq)

end Edge

namespace Wire

/-- The points of a wire in no order. -/
def pointSet (w : Wire K) : Set (Vec K) := {p | p ∈ w.points}

omit [Scalar K] in
theorem mem_points_iff : p ∈ w.points ↔ ∃ s ∈ w.segments, p ∈ s :=
  Vec.mem_iff_exists_segment w.two_le_length

section Filter

omit [Scalar K]

open Classical

theorem filter_segments_self (w : Wire K) :
    w.segments.filter (fun s => ∀ p ∈ s, p ∈ w.pointSet) = w.segments := by
  refine List.filter_eq_self.2 fun s hs => decide_eq_true fun p hp => ?_
  exact mem_points_iff.2 ⟨s, hs, hp⟩

theorem filter_segments_of_disjoint {ws : List (Wire K)}
    (hws : ∀ v ∈ ws, List.Disjoint v.points w.points) :
    (ws.flatMap segments).filter (fun s => ∀ p ∈ s, p ∈ w.pointSet) = [] := by
  refine List.filter_eq_nil_iff.2 fun s hs hin => ?_
  obtain ⟨v, hv, hs⟩ := List.mem_flatMap.1 hs
  induction s with
  | h p q =>
    have hp : p ∈ v.points := mem_points_iff.2 ⟨_, hs, Sym2.mem_mk_left _ _⟩
    exact hws v hv hp (of_decide_eq_true hin p (Sym2.mem_mk_left _ _))

end Filter

section Separated

variable (h : Edge.Separated es)

include h

theorem segments_subset (hw : w ∈ chain es) : w.segments ⊆ (Edge.proper es).map Edge.segment :=
  fun _ hs => (perm_segments_chain h).subset (List.mem_flatMap.2 ⟨w, hw, hs⟩)

/-- An edge with some length has a wire through its ends. -/
theorem exists_wire_of_linked (hpq : Edge.Linked es p q) :
    ∃ w ∈ chain es, s(p, q) ∈ w.segments := by
  rw [Edge.linked_iff_mem_map, ← (perm_segments_chain h).mem_iff] at hpq
  exact List.mem_flatMap.1 hpq

open Classical in
theorem degree_pos_iff : 0 < Edge.degree es p ↔ ∃ w ∈ chain es, p ∈ w.points := by
  rw [Edge.degree, List.countP_pos_iff]
  constructor
  · rintro ⟨e, he, hp⟩
    have hsegment := (perm_segments_chain h).mem_iff.2 (List.mem_map_of_mem he)
    obtain ⟨w, hw, hs⟩ := List.mem_flatMap.1 hsegment
    exact ⟨w, hw, mem_points_iff.2 ⟨_, hs, of_decide_eq_true hp⟩⟩
  · rintro ⟨w, hw, hp⟩
    obtain ⟨s, hs, hps⟩ := mem_points_iff.1 hp
    obtain ⟨e, he, rfl⟩ := List.mem_map.1 (segments_subset h hw hs)
    exact ⟨e, he, decide_eq_true hps⟩

/-! ### Points at which at most two edges end -/

variable (hdegree : ∀ p, Edge.degree es p ≤ 2)

include hdegree

/-- A point is visited by no wire, or once: by a wire that leads through it, or by one that ends
there. -/
theorem visit_cases (p : Vec K) :
    (p.times ((chain es).flatMap visits) = 0 ∧ Edge.degree es p = 0 ∧ ending (chain es) p = 0) ∨
      p.times ((chain es).flatMap visits) = 1 ∧
        (Edge.degree es p = 2 ∧ ending (chain es) p = 0 ∨
          Edge.degree es p = 1 ∧ ending (chain es) p = 1) := by
  have htwice := degree_add_ending h p
  have hending := ending_le_one (pairwise_chain h) p
  have hle := hdegree p
  omega

/-- No point is visited twice. -/
theorem nodup_visits : ((chain es).flatMap visits).Nodup := by
  refine Vec.nodup_of_times_le_one fun p => ?_
  have hcases := visit_cases h hdegree p
  omega

/-- Different wires have no point in common. -/
theorem pairwise_disjoint :
    (chain es).Pairwise fun w v => List.Disjoint w.points v.points := by
  refine (List.nodup_flatMap.1 (nodup_visits h hdegree)).2.imp_of_mem fun {w v} hw hv hwv => ?_
  intro p hpw hpv
  rw [← (isTrail_of_mem_chain h hw).mem_visits_iff] at hpw
  rw [← (isTrail_of_mem_chain h hv).mem_visits_iff] at hpv
  exact hwv hpw hpv

theorem eq_of_mem_points (hw : w ∈ chain es) (hv : v ∈ chain es) (hpw : p ∈ w.points)
    (hpv : p ∈ v.points) : w = v := by
  have : Std.Symm fun w v : Wire K => List.Disjoint w.points v.points :=
    ⟨fun _ _ => List.Disjoint.symm⟩
  by_contra hne
  exact (pairwise_disjoint h hdegree).forall hw hv hne hpw hpv

/-- The points of a wire are those that are connected with one of them. -/
theorem pointSet_eq (hw : w ∈ chain es) (hp : p ∈ w.points) :
    w.pointSet = {q | Edge.Connected es p q} := by
  have hfrom : ∀ q ∈ w.points, Edge.Connected es w.start q := by
    rw [points_eq]
    exact Edge.connected_of_segments (w.segments_eq ▸ segments_subset h hw)
  ext q
  constructor
  · intro hq
    exact (hfrom p hp).symm.trans (hfrom q hq)
  · intro hpq
    induction hpq with
    | refl => exact hp
    | tail hpq hlink ih =>
      obtain ⟨v, hv, hs⟩ := exists_wire_of_linked h hlink
      obtain rfl := eq_of_mem_points h hdegree hw hv ih
        (mem_points_iff.2 ⟨_, hs, Sym2.mem_mk_left _ _⟩)
      exact mem_points_iff.2 ⟨_, hs, Sym2.mem_mk_right _ _⟩

/-- The edges of a wire are all edges between its points. -/
theorem perm_within (hw : w ∈ chain es) : w.segments.Perm (Edge.within es w.pointSet) := by
  classical
  obtain ⟨before, after, hchain⟩ := List.append_of_mem hw
  have hdisjoint := pairwise_disjoint h hdegree
  rw [hchain, List.pairwise_append, List.pairwise_cons] at hdisjoint
  obtain ⟨-, ⟨hafter, -⟩, hbefore⟩ := hdisjoint
  have hperm := (perm_segments_chain h).filter fun s => ∀ p ∈ s, p ∈ w.pointSet
  rw [hchain, List.flatMap_append, List.flatMap_cons, List.filter_append, List.filter_append,
    filter_segments_self, filter_segments_of_disjoint fun v hv => hbefore v hv w List.mem_cons_self,
    filter_segments_of_disjoint fun v hv => (hafter v hv).symm, List.append_nil,
    List.nil_append] at hperm
  exact hperm

theorem degree_add_ending_of_mem (hw : w ∈ chain es) (hp : p ∈ w.points) :
    Edge.degree es p + ending (chain es) p = 2 := by
  rw [← (isTrail_of_mem_chain h hw).mem_visits_iff] at hp
  have hvisit := Vec.times_pos_iff.2 (List.mem_flatMap.2 ⟨w, hw, hp⟩)
  have hcases := visit_cases h hdegree p
  omega

/-- A wire is closed if two edges end at each of its points. -/
theorem closed_iff_isCycle (hw : w ∈ chain es) : w.Closed ↔ Edge.IsCycle es w.pointSet := by
  constructor
  · intro hclosed p hp
    have hnone : ¬ 0 < ending (chain es) p := by
      rw [ending_pos_iff]
      rintro ⟨v, hv, hend⟩
      obtain rfl := eq_of_mem_points h hdegree hw hv hp hend.mem_points
      exact hend.1 hclosed
    have htwo := degree_add_ending_of_mem h hdegree hw hp
    omega
  · intro hcycle
    by_contra hopen
    have hend : w.EndsAt w.start := ⟨hopen, .inl rfl⟩
    have hpos := ending_pos_iff.2 ⟨w, hw, hend⟩
    have htwo := degree_add_ending_of_mem h hdegree hw hend.mem_points
    have hstart := hcycle w.start hend.mem_points
    omega

/-- The loose ends are the ends of the open wires. -/
theorem mem_looseEnds_iff : p ∈ Edge.looseEnds es ↔ ∃ w ∈ chain es, w.EndsAt p := by
  rw [h.mem_looseEnds_iff, ← ending_pos_iff]
  have hcases := visit_cases h hdegree p
  omega

end Separated

/-- **No edge is lost, and wires that do not branch are the components.**  Let the ends of the edges
be finite, and any two of them be one point or at least the tolerance apart.  Then the wires have
exactly the edges that have some length.  If at most two of these end at each point, each component
is the points of one wire and its edges are the edges of this wire; the wires are closed for cycles
and end at the loose ends. -/
theorem chain_lossless [Vec.Measured K] (hfinite : ∀ p ∈ Edge.ends es, p.Finite)
    (hapart : ∀ p ∈ Edge.ends es, ∀ q ∈ Edge.ends es, p = q ∨ tolerance ≤ (p - q).norm) :
    ((chain es).flatMap segments).Perm ((Edge.proper es).map Edge.segment) ∧
      ((∀ p, Edge.degree es p ≤ 2) →
        ((chain es).map pointSet).Nodup ∧
        (∀ S, S ∈ (chain es).map pointSet ↔ S ∈ Edge.components es) ∧
        (∀ w ∈ chain es, w.segments.Perm (Edge.within es w.pointSet) ∧
          (w.Closed ↔ Edge.IsCycle es w.pointSet)) ∧
        ∀ p, p ∈ Edge.looseEnds es ↔ ∃ w ∈ chain es, w.EndsAt p) := by
  have h := Edge.separated_of_finite hfinite hapart
  refine ⟨perm_segments_chain h, fun hdegree => ⟨?nodup, ?components, fun w hw => ?_, fun p => ?_⟩⟩
  case nodup =>
    refine List.pairwise_map.2 ((pairwise_disjoint h hdegree).imp fun {w v} hdisjoint heq => ?_)
    have hstart : w.start ∈ v.pointSet := heq ▸ List.head_mem w.points_ne_nil
    exact hdisjoint (List.head_mem _) hstart
  case components =>
    intro S
    rw [List.mem_map]
    constructor
    · rintro ⟨w, hw, rfl⟩
      have hstart : w.start ∈ w.points := List.head_mem _
      exact ⟨w.start, (degree_pos_iff h).2 ⟨w, hw, hstart⟩, pointSet_eq h hdegree hw hstart⟩
    · rintro ⟨p, hp, rfl⟩
      obtain ⟨w, hw, hpw⟩ := (degree_pos_iff h).1 hp
      exact ⟨w, hw, pointSet_eq h hdegree hw hpw⟩
  · exact ⟨perm_within h hdegree hw, closed_iff_isCycle h hdegree hw⟩
  · exact mem_looseEnds_iff h hdegree

end Wire

/-! Two edges between two points make a closed wire, but a cycle with an infinite end makes an open
one. -/

namespace Edge

/-- An edge there and an edge back. -/
def roundTrip : List (Edge ℝ) := [⟨⟨0, 0, 0⟩, ⟨1, 0, 0⟩⟩, ⟨⟨1, 0, 0⟩, ⟨0, 0, 0⟩⟩]

theorem separated_roundTrip : Separated roundTrip := by
  refine separated_of_whole ?_
  simp only [ends, roundTrip, List.flatMap_cons, List.flatMap_nil, List.cons_append,
    List.nil_append, List.append_nil, List.forall_mem_cons]
  exact ⟨⟨0, 0, 0, by simp⟩, ⟨1, 0, 0, by simp⟩, ⟨1, 0, 0, by simp⟩, ⟨0, 0, 0, by simp⟩,
    List.forall_mem_nil _⟩

theorem proper_roundTrip : proper roundTrip = roundTrip :=
  separated_roundTrip.proper_eq (by simp [roundTrip])

theorem degree_roundTrip (p : Vec ℝ) : degree roundTrip p = 2 ∨ degree roundTrip p = 0 := by
  classical
  rw [degree, proper_roundTrip]
  by_cases hp : p = ⟨0, 0, 0⟩ ∨ p = ⟨1, 0, 0⟩
  · simp [roundTrip, segment, hp, hp.symm]
  · simp [roundTrip, segment, hp, mt Or.symm hp]

theorem degree_roundTrip_start : degree roundTrip ⟨0, 0, 0⟩ = 2 := by
  rw [degree, proper_roundTrip]
  simp [roundTrip, segment]

/-- A cycle through a point that is infinitely far away. -/
def unbounded : List (Edge Float) :=
  [⟨⟨0, 0, 0⟩, ⟨1 / 0, 0, 0⟩⟩, ⟨⟨1 / 0, 0, 0⟩, ⟨0, 1, 0⟩⟩, ⟨⟨0, 1, 0⟩, ⟨0, 0, 0⟩⟩]

theorem proper_unbounded : proper unbounded = unbounded :=
  List.filter_eq_self.2 (by decide +kernel)

theorem mem_ends_unbounded {p : Vec Float} :
    p ∈ ends unbounded ↔ p = ⟨0, 0, 0⟩ ∨ p = ⟨1 / 0, 0, 0⟩ ∨ p = ⟨0, 1, 0⟩ := by
  simp only [ends, unbounded, List.flatMap_cons, List.flatMap_nil, List.mem_append, List.mem_cons,
    List.not_mem_nil, or_false]
  tauto

/-- Two edges end at each of the three points. -/
theorem degree_unbounded (p : Vec Float) :
    degree unbounded p ≤ 2 ∧ (p ∈ ends unbounded → degree unbounded p = 2) := by
  classical
  have hfar : (⟨0, 0, 0⟩ : Vec Float) ≠ ⟨1 / 0, 0, 0⟩ := by decide +kernel
  have hside : (⟨0, 0, 0⟩ : Vec Float) ≠ ⟨0, 1, 0⟩ := by decide +kernel
  have hback : (⟨1 / 0, 0, 0⟩ : Vec Float) ≠ ⟨0, 1, 0⟩ := by decide +kernel
  rw [degree, proper_unbounded, mem_ends_unbounded]
  simp only [unbounded, segment, List.countP_cons, List.countP_nil, Sym2.mem_iff,
    decide_eq_true_eq]
  grind

/-- Edges lead from the point far away to the others. -/
theorem connected_unbounded {p : Vec Float} :
    Connected unbounded ⟨1 / 0, 0, 0⟩ p ↔ p ∈ ends unbounded := by
  constructor
  · intro h
    rcases h.cases_tail with rfl | ⟨q, -, e, he, hsegment⟩
    · exact mem_ends_unbounded.2 (.inr (.inl rfl))
    · exact mem_ends_iff.2 ⟨e, proper_subset _ he, hsegment ▸ Sym2.mem_mk_right q p⟩
  · intro hp
    have hsegments : Vec.segments [⟨1 / 0, 0, 0⟩, ⟨0, 1, 0⟩, ⟨0, 0, 0⟩] ⊆
        (proper unbounded).map segment := by
      rw [proper_unbounded]
      exact List.subset_cons_self _ _
    refine connected_of_segments hsegments p ?_
    simpa [or_comm, or_assoc, or_left_comm] using mem_ends_unbounded.1 hp

/-- A cycle need not be closed if an end of it is infinite: the ends of these edges are one
point or apart, and two edges end at each, but their wire is open. -/
theorem chain_open_unbounded :
    (∀ p ∈ ends unbounded, ∀ q ∈ ends unbounded, p = q ∨ tolerance ≤ (p - q).norm) ∧
      (∀ p, degree unbounded p ≤ 2) ∧
      ∃ w ∈ Wire.chain unbounded, w.pointSet ∈ components unbounded ∧
        ¬ (w.Closed ↔ IsCycle unbounded w.pointSet) := by
  obtain ⟨w, hchain, hpoints, hopen⟩ : ∃ w, Wire.chain unbounded = [w] ∧
      w.points = [⟨1 / 0, 0, 0⟩, ⟨0, 1, 0⟩, ⟨0, 0, 0⟩, ⟨1 / 0, 0, 0⟩] ∧ ¬ w.Closed :=
    Wire.chain_triple (by decide +kernel) (by decide +kernel) (by decide +kernel)
      (by decide +kernel) (by decide +kernel) (by decide +kernel)
  have hmem (p : Vec Float) : p ∈ w.points ↔ p ∈ ends unbounded := by
    rw [hpoints, mem_ends_unbounded]
    simp only [List.mem_cons, List.not_mem_nil, or_false]
    tauto
  have hdegree {p : Vec Float} (hp : p ∈ ends unbounded) : degree unbounded p = 2 :=
    (degree_unbounded p).2 hp
  have hfar : (⟨1 / 0, 0, 0⟩ : Vec Float) ∈ ends unbounded := mem_ends_unbounded.2 (.inr (.inl rfl))
  refine ⟨by decide +kernel, fun p => (degree_unbounded p).1, w,
    hchain ▸ List.mem_singleton_self w, ⟨⟨1 / 0, 0, 0⟩, hdegree hfar ▸ Nat.two_pos, ?_⟩, ?_⟩
  · ext p
    exact (hmem p).trans connected_unbounded.symm
  · exact fun h => hopen (h.2 fun p hp => hdegree ((hmem p).1 hp))

end Edge

namespace Wire

theorem chain_lossless_roundTrip : (∀ p ∈ Edge.ends Edge.roundTrip, p.Finite) ∧
    (∀ p ∈ Edge.ends Edge.roundTrip, ∀ q ∈ Edge.ends Edge.roundTrip,
      p = q ∨ tolerance ≤ (p - q).norm) ∧
    (∀ p, Edge.degree Edge.roundTrip p ≤ 2) ∧ ∃ w ∈ chain Edge.roundTrip, w.Closed := by
  have hseparated := Edge.separated_roundTrip
  have hfinite (p : Vec ℝ) (_ : p ∈ Edge.ends Edge.roundTrip) : p.Finite := p.finite
  have hapart := Edge.separated_iff.1 hseparated
  have hdegree (p : Vec ℝ) : Edge.degree Edge.roundTrip p ≤ 2 := by
    rcases Edge.degree_roundTrip p with h | h <;> omega
  refine ⟨hfinite, hapart, hdegree, ?_⟩
  obtain ⟨-, hcomponents, -, hends⟩ := (chain_lossless hfinite hapart).2 hdegree
  have hstart := Edge.degree_roundTrip_start
  obtain ⟨w, hw, -⟩ := List.mem_map.1 ((hcomponents _).2 ⟨⟨0, 0, 0⟩, by omega, rfl⟩)
  refine ⟨w, hw, ?_⟩
  -- an open wire would end at a loose end
  by_contra hopen
  have hloose := (hends w.start).2 ⟨w, hw, hopen, .inl rfl⟩
  rw [hseparated.mem_looseEnds_iff] at hloose
  rcases Edge.degree_roundTrip w.start with h | h <;> omega

end Wire

end WingBox
