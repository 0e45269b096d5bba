import WingBox.Proofs.Structure.Rename
import WingBox.Proofs.Structure.Validity

/-!
# Answers depend on what is referred to

A question about a spar or ribs is answered from the wing, from the definition of the part, and from
the spar positions and spars that it refers to, and these refer to.  `Description.Reaches` is the
relation of a name to all of them.

* `Design.lookupsMatch_within`: two designs that agree on a set of names, which holds with every
  part all names that the part refers to, match in all lookups of these names;
* `Structure.local_answers`: so two structures of one wing answer a question alike if they agree on
  what the question reaches, whatever other parts there are, in whatever order and whatever was
  computed.  Parts can be put into another order, or removed and added again.

Split faces are left out, for they depend on all parts.
-/

namespace WingBox

variable {K : Type}

/-! ### Entries of descriptions -/

/-- What a description says about a part. -/
inductive Entry (K : Type) where
  | position (p : SparPosition K)
  | spar (s : SparSegment K)
  | ribs (r : RibsDeclaration K)

namespace Entry

/-- The names that an entry holds: its own and those that it refers to. -/
def names : Entry K → List PartName
  | position p => p.names
  | spar s => s.names
  | ribs r => r.names

/-- Adds the part. -/
def addition : Entry K → Mutation K
  | position p => .addPosition p
  | spar s => .addSpar s
  | ribs r => .addRibs r

/-- Removes the part. -/
def removal : Entry K → Mutation K
  | position p => .removePosition p.uid
  | spar s => .removeSpar s.uid
  | ribs r => .removeRibs r.uid

end Entry

namespace Description

/-- The entry of a name. -/
def entry? (d : Description K) : PartName → Option (Entry K)
  | (.position, uid) => (d.sparPositions.find? fun p => Named.uid p == uid).map .position
  | (.spar, uid) => (d.sparSegments.find? fun s => Named.uid s == uid).map .spar
  | (.ribs, uid) => (d.ribsDefinitions.find? fun r => Named.uid r == uid).map .ribs

/-- The names that are reached from a name: itself, and those that the entry of a reached name
holds.  A name without an entry is reached as any other and leads no further. -/
inductive Reaches (d : Description K) (n : PartName) : PartName → Prop
  | self : d.Reaches n n
  | step {m k : PartName} {e : Entry K} (h : d.Reaches n m) (he : d.entry? m = some e)
    (hk : k ∈ e.names) : d.Reaches n k

/-- What is reached from a name of a set stays in it if the set holds with every name all names of
its entry. -/
theorem Reaches.mem_of_closed {d : Description K} {S : PartName → Prop} {n m : PartName}
    (h : d.Reaches n m) (hn : S n)
    (hclosed : ∀ m e, S m → d.entry? m = some e → ∀ k ∈ e.names, S k) : S m := by
  induction h with
  | self => exact hn
  | step _ he hk ih => exact hclosed _ _ ih he _ hk

/-- Two descriptions say the same about everything that is reached from a name: the same entry, or
none. -/
def AgreeBelow (d d' : Description K) (n : PartName) : Prop :=
  ∀ m, d.Reaches n m → d'.entry? m = d.entry? m

end Description

/-! ### Names that stand for themselves -/

/-- Every name of a set stands for itself, and the other names for nothing. -/
def Naming.within (S : PartName → Prop) : Naming where
  position x x' := x = x' ∧ S (.position, x)
  spar x x' := x = x' ∧ S (.spar, x)
  ribs x x' := x = x' ∧ S (.ribs, x)
  position_iff := by rintro _ _ _ _ ⟨rfl, -⟩ ⟨rfl, -⟩; rfl
  spar_iff := by rintro _ _ _ _ ⟨rfl, -⟩ ⟨rfl, -⟩; rfl
  ribs_iff := by rintro _ _ _ _ ⟨rfl, -⟩ ⟨rfl, -⟩; rfl

section Within

variable {S : PartName → Prop}

theorem Naming.keeps_within : (Naming.within S).Keeps := ⟨And.left, And.left, And.left⟩

/-- The renaming that keeps all names, on names of the set. -/
theorem follows_within {names : List PartName} (h : ∀ n ∈ names, S n) :
    Renaming.Follows (fun _ x => x) (.within S) names := by
  rintro ⟨k, x⟩ hn
  cases k <;> exact ⟨rfl, h _ hn⟩

theorem SparPosition.match_within {p : SparPosition K} (h : ∀ n ∈ p.names, S n) :
    p.Match (.within S) p :=
  match_renamed (follows_within h)

theorem SparSegment.match_within {s : SparSegment K} (h : ∀ n ∈ s.names, S n) :
    s.Match (.within S) s := by
  have hs := match_renamed (follows_within h)
  rwa [renamed_of_fixed fun _ _ => rfl] at hs

/-- Ribs that are declared in the same way, with names of the set only. -/
theorem RibsDefinition.match_within {r r' : RibsDefinition K} (hr : r'.declaration = r.declaration)
    (h : ∀ n ∈ r.declaration.names, S n) : r.Match (.within S) r' := by
  refine match_of_declaration ?_ (follows_within h)
  rw [hr, RibsDeclaration.renamed_of_fixed fun _ _ => rfl]

/-- A local question about names of the set matches itself. -/
theorem Question.match_within {α : Type} {q : Question K α} (h : ∀ n ∈ q.names, S n) :
    q.Match (.within S) q := by
  have hq : q.Match (.within S) (q.renamed fun _ x => x) := match_renamed (follows_within h)
  have hline (l : NamedLine) : l.renamed (fun _ x => x) = l :=
    NamedLine.renamed_of_fixed fun _ _ => rfl
  cases q <;> simp only [renamed, hline] at hq <;> exact hq

end Within

/-! ### Lookups in designs that agree -/

namespace Design

variable {d d' : Design K}

section Entries

variable (h : d.Indexed) (uid : String)
include h

theorem entry?_position :
    d.description.entry? (.position, uid) = (d.positions.get? uid).map .position := by
  rw [h.positions.get?_eq_find?]
  rfl

theorem entry?_spar : d.description.entry? (.spar, uid) = (d.spars.get? uid).map .spar := by
  rw [h.spars.get?_eq_find?]
  rfl

theorem entry?_ribs :
    d.description.entry? (.ribs, uid) = (d.ribs.get? uid).map fun r => .ribs r.declaration := by
  rw [h.ribs.get?_eq_find?, Description.entry?, description, List.find?_map, Option.map_map]
  rfl

end Entries

/-- Values are related if their images agree and values with one image are related. -/
theorem rel_of_map_eq {α β : Type} {R : α → α → Prop} {f : α → β} {o o' : Option α}
    (h : o'.map f = o.map f)
    (hR : ∀ x x', o = some x → o' = some x' → f x' = f x → R x x') : Option.Rel R o o' := by
  cases o with
  | none =>
    rw [Option.map_none, Option.map_eq_none_iff] at h
    rw [h]
    exact .none
  | some x =>
    rw [Option.map_some, Option.map_eq_some_iff] at h
    obtain ⟨x', rfl, hx⟩ := h
    exact .some (hR x x' rfl rfl hx)

/-- Designs that agree on a closed set of names match in the lookups of these names. -/
theorem lookupsMatch_within (h : d.Indexed) (h' : d'.Indexed) (hwing : d'.wing = d.wing)
    {S : PartName → Prop}
    (hclosed : ∀ m e, S m → d.description.entry? m = some e → ∀ k ∈ e.names, S k)
    (hagree : ∀ m, S m → d'.description.entry? m = d.description.entry? m) :
    d.LookupsMatch (.within S) d' where
  wing := hwing
  positions := by
    rintro x _ ⟨rfl, hx⟩
    have hentry := hagree _ hx
    rw [entry?_position h, entry?_position h'] at hentry
    refine rel_of_map_eq hentry fun p p' hp _ heq => ?_
    obtain rfl : p' = p := by injection heq
    refine SparPosition.match_within (hclosed _ (.position p') hx ?_)
    rw [entry?_position h, hp, Option.map_some]
  spars := by
    rintro x _ ⟨rfl, hx⟩
    have hentry := hagree _ hx
    rw [entry?_spar h, entry?_spar h'] at hentry
    refine rel_of_map_eq hentry fun s s' hs hs' heq => ?_
    obtain rfl : s' = s := by injection heq
    have huid : s'.uid = x := (h.spars.get?_eq_some_iff.1 hs).2
    refine ⟨SparSegment.match_within (hclosed _ (.spar s') hx ?_), ?_, ?_⟩
    · rw [entry?_spar h, hs, Option.map_some]
    · rwa [HasSpar, huid]
    · rwa [HasSpar, huid]
  ribs := by
    rintro x _ ⟨rfl, hx⟩
    have hentry := hagree _ hx
    rw [entry?_ribs h, entry?_ribs h'] at hentry
    refine rel_of_map_eq hentry fun r r' hr hr' heq => ?_
    have hdecl : r'.declaration = r.declaration := by injection heq
    have huid : r.uid = x := (h.ribs.get?_eq_some_iff.1 hr).2
    have huid' : r'.uid = x := (h'.ribs.get?_eq_some_iff.1 hr').2
    refine ⟨RibsDefinition.match_within hdecl (hclosed _ (.ribs r.declaration) hx ?_), ?_, ?_⟩
    · rw [entry?_ribs h, hr, Option.map_some]
    · rwa [HasRibs, huid]
    · rwa [HasRibs, huid']

end Design

/-! ### Rearranged descriptions -/

section Lists

variable {α : Type} {key : α → String} {xs ys : List α} {x : α}

/-- The order of entries with distinct names does not matter to finding them. -/
theorem find?_eq_of_perm (h : ys.Perm xs) (hn : (xs.map key).Nodup) (uid : String) :
    ys.find? (fun y => key y == uid) = xs.find? fun y => key y == uid := by
  cases hx : xs.find? fun y => key y == uid with
  | none =>
    rw [List.find?_eq_none] at hx ⊢
    exact fun y hy => hx y (h.mem_iff.1 hy)
  | some x =>
    have hmem := h.mem_iff.2 (List.mem_of_find?_eq_some hx)
    obtain rfl : key x = uid := by simpa using List.find?_some hx
    exact find?_eq_some_of_nodup ((h.map key).nodup_iff.2 hn) hmem

/-- An entry that is dropped and added again is the last one. -/
theorem perm_filter_append (hn : (xs.map key).Nodup) (hx : x ∈ xs) :
    ((xs.filter fun y => key y != key x) ++ [x]).Perm xs := by
  have hfilter : (xs.filter fun y => !(key y != key x)) = [x] := by
    obtain ⟨pre, post, rfl⟩ := List.append_of_mem hx
    rw [List.map_append, List.map_cons, List.nodup_middle, List.nodup_cons, List.mem_append] at hn
    obtain ⟨hpre, hpost⟩ := not_or.1 hn.1
    have hnil {zs : List α} (hz : key x ∉ zs.map key) :
        (zs.filter fun y => !(key y != key x)) = [] := by
      rw [List.filter_eq_nil_iff]
      intro y hy
      have hne : key y ≠ key x := fun he => hz (he ▸ List.mem_map_of_mem hy)
      simpa using hne
    rw [List.filter_append, List.filter_cons_of_pos (by simp), hnil hpre, hnil hpost]
    rfl
  rw [← hfilter]
  exact List.filter_append_perm _ xs

theorem not_mem_map_filter : key x ∉ (xs.filter fun y => key y != key x).map key := by
  rintro h
  obtain ⟨y, hy, heq⟩ := List.mem_map.1 h
  simp [heq] at hy

end Lists

namespace Description

/-- The same entries, each list in an order of its own. -/
structure Rearranged (d d' : Description K) : Prop where
  positions : d'.sparPositions.Perm d.sparPositions
  spars : d'.sparSegments.Perm d.sparSegments
  ribs : d'.ribsDefinitions.Perm d.ribsDefinitions

section Rearranged

variable [Scalar K] {d d' : Description K}

theorem Rearranged.entry?_eq (h : d.Rearranged d') (hd : d.Valid) (n : PartName) :
    d'.entry? n = d.entry? n := by
  obtain ⟨kind, uid⟩ := n
  cases kind with
  | position =>
    exact congrArg (Option.map Entry.position)
      (find?_eq_of_perm h.positions hd.nodup_positions uid)
  | spar =>
    exact congrArg (Option.map Entry.spar) (find?_eq_of_perm h.spars hd.nodup_spars uid)
  | ribs =>
    exact congrArg (Option.map Entry.ribs) (find?_eq_of_perm h.ribs hd.nodup_ribs uid)

theorem Rearranged.valid (h : d.Rearranged d') (hd : d.Valid) : d'.Valid where
  nodup_positions := (h.positions.map _).nodup_iff.2 hd.nodup_positions
  nodup_spars := (h.spars.map _).nodup_iff.2 hd.nodup_spars
  nodup_ribs := (h.ribs.map _).nodup_iff.2 hd.nodup_ribs
  two_positions s hs := hd.two_positions s (h.spars.mem_iff.1 hs)
  valid_ribs r hr := hd.valid_ribs r (h.ribs.mem_iff.1 hr)

end Rearranged

end Description

theorem dropped_of_mem {α : Type} [Named α] (missing : Error K) {xs : List α} {x : α}
    (hx : x ∈ xs) :
    dropped missing xs (Named.uid x) = .ok (xs.filter fun y => Named.uid y != Named.uid x) :=
  if_pos (List.mem_map_of_mem hx)

/-- Removing an entry and adding it again rearranges the description. -/
theorem Entry.effect_removal_addition [Scalar K] {d : Description K} (hd : d.Valid)
    {n : PartName} {e : Entry K} (he : d.entry? n = some e) :
    ∃ d₁ d₂, e.removal.effect d = .ok d₁ ∧ e.addition.effect d₁ = .ok d₂ ∧ d.Rearranged d₂ := by
  obtain ⟨kind, uid⟩ := n
  cases kind with
  | position =>
    obtain ⟨p, hp, rfl⟩ := Option.map_eq_some_iff.1 he
    have hmem := List.mem_of_find?_eq_some hp
    refine ⟨{ d with sparPositions := d.sparPositions.filter fun x => x.uid != p.uid }, _, ?_,
      effect_addPosition_eq_ok_iff.2 ⟨not_mem_map_filter, rfl⟩, ?_⟩
    · exact congrArg (· >>= fun xs => pure { d with sparPositions := xs }) (dropped_of_mem _ hmem)
    · exact ⟨perm_filter_append hd.nodup_positions hmem, .rfl, .rfl⟩
  | spar =>
    obtain ⟨s, hs, rfl⟩ := Option.map_eq_some_iff.1 he
    have hmem := List.mem_of_find?_eq_some hs
    have hcheck := SparSegment.check_eq_ok_iff.2 (hd.two_positions s hmem)
    refine ⟨{ d with sparSegments := d.sparSegments.filter fun x => x.uid != s.uid }, _, ?_,
      effect_addSpar_eq_ok_iff.2 ⟨⟨hcheck, not_mem_map_filter⟩, rfl⟩, ?_⟩
    · exact congrArg (· >>= fun xs => pure { d with sparSegments := xs }) (dropped_of_mem _ hmem)
    · exact ⟨.rfl, perm_filter_append hd.nodup_spars hmem, .rfl⟩
  | ribs =>
    obtain ⟨r, hr, rfl⟩ := Option.map_eq_some_iff.1 he
    have hmem := List.mem_of_find?_eq_some hr
    have hcheck := RibsDeclaration.exists_check_iff.2 (hd.valid_ribs r hmem)
    refine ⟨{ d with ribsDefinitions := d.ribsDefinitions.filter fun x => x.uid != r.uid }, _, ?_,
      effect_addRibs_eq_ok_iff.2 ⟨⟨hcheck, not_mem_map_filter⟩, rfl⟩, ?_⟩
    · exact congrArg (· >>= fun xs => pure { d with ribsDefinitions := xs }) (dropped_of_mem _ hmem)
    · exact ⟨.rfl, .rfl, perm_filter_append hd.nodup_ribs hmem⟩

/-! ### Local answers -/

namespace Structure

variable [Scalar K] {s t : Structure K}

/-- The structures answer all local questions alike. -/
def LocallyAgrees (s t : Structure K) : Prop :=
  ∀ {α : Type} (q : Question K α), q.IsLocal → t.answer q = s.answer q

/-- A local question is answered alike by structures that agree on all that it reaches. -/
theorem answer_eq_of_agreeBelow (h : s.Reachable) (ht : t.Reachable)
    (hwing : t.design.wing = s.design.wing) {α : Type} {q : Question K α} (hq : q.IsLocal)
    (hagree : ∀ n ∈ q.names, s.description.AgreeBelow t.description n) :
    t.answer q = s.answer q := by
  have hs := sound_of_reachable h
  have hts := sound_of_reachable ht
  -- the names that the question reaches are closed under the references of parts
  have hlookups := Design.lookupsMatch_within hs.valid.toIndexed hts.valid.toIndexed hwing
    (S := fun m => ∃ n ∈ q.names, s.description.Reaches n m)
    (fun m e ⟨n, hn, hm⟩ he k hk => ⟨n, hn, hm.step he hk⟩)
    (fun m ⟨n, hn, hm⟩ => hagree n hn m hm)
  have hmatch : q.Match (.within fun m => ∃ n ∈ q.names, s.description.Reaches n m) q :=
    Question.match_within fun n hn => ⟨n, hn, .self⟩
  exact ((Query.parallel_localQuestion hlookups hmatch hq).answers hs.coherent
    hts.coherent).eq Naming.keeps_within |>.symm

/-- The order of the parts does not matter. -/
theorem locallyAgrees_of_rearranged (h : s.Reachable) (ht : t.Reachable)
    (hwing : t.design.wing = s.design.wing) (hdesc : s.description.Rearranged t.description) :
    s.LocallyAgrees t := by
  intro α q hq
  refine answer_eq_of_agreeBelow h ht hwing hq fun n _ m _ => ?_
  exact hdesc.entry?_eq (valid_description h) m

/-- **Answers depend on what is referred to, and on nothing else.**  Two structures of one wing
answer a local question alike if their descriptions agree on all that the question reaches.  So
the answers stay if the parts are put into another order, or if one of them is removed and added
again, which succeeds. -/
theorem local_answers (h : s.Reachable) :
    (∀ t : Structure K, t.Reachable → t.design.wing = s.design.wing →
      ∀ {α : Type} (q : Question K α), q.IsLocal →
        (∀ n ∈ q.names, s.description.AgreeBelow t.description n) → t.answer q = s.answer q) ∧
    (∀ desc, s.description.Rearranged desc →
      ∃ t, ofDescription s.design.wing desc = .ok t ∧ s.LocallyAgrees t) ∧
    ∀ n e, s.description.entry? n = some e →
      ∃ t u, s.mutate e.removal = (.ok (), t) ∧ t.mutate e.addition = (.ok (), u) ∧
        s.LocallyAgrees u := by
  have hvalid := valid_description h
  refine ⟨fun t ht hwing α q hq hagree => answer_eq_of_agreeBelow h ht hwing hq hagree, ?_, ?_⟩
  · intro desc hdesc
    obtain ⟨t, ht⟩ := exists_ofDescription s.design.wing
      (Description.loadable_iff_valid.2 (hdesc.valid hvalid))
    obtain ⟨-, hwing, rfl, -⟩ := ofDescription_ok ht
    exact ⟨t, ht, locallyAgrees_of_rearranged h (.load ht) hwing hdesc⟩
  · intro n e he
    obtain ⟨d₁, d₂, hremoval, haddition, hdesc⟩ := Entry.effect_removal_addition hvalid he
    obtain ⟨t, ht, htreach, htwing, rfl⟩ := exists_mutate h hremoval
    obtain ⟨u, hu, hureach, huwing, rfl⟩ := exists_mutate htreach haddition
    exact ⟨t, u, ht, hu, locallyAgrees_of_rearranged h hureach (huwing.trans htwing) hdesc⟩

/-- Another spar, which crosses the first one, and the positions in another order. -/
def crossedSpars : Description Float :=
  { sparWithRibs with
    sparPositions :=
      [⟨"tip", .elementUid "outer", 0.4⟩, ⟨"kink", .eta 0.5, 0.9⟩, ⟨"root", .eta 0, 0.3⟩]
    sparSegments := [⟨"cross", ["kink", "root"], .plain⟩, ⟨"front", ["root", "tip"], .plain⟩] }

/-- What the ribs reach: their spar and its two positions. -/
def reachedByRibs : List PartName :=
  [(.ribs, "ribs"), (.spar, "front"), (.position, "root"), (.position, "tip")]

/-- The ribs are what they were without the other spar, and whatever was computed before a position
was removed and added again. -/
theorem local_answers_crossed :
    ∃ s t, ofDescription straightWing sparWithRibs = .ok s ∧
      ofDescription straightWing crossedSpars = .ok t ∧
      (∀ {α : Type} (q : RibsQuestion Float α), q.IsLocal →
        t.answer (.ribs "ribs" q) = s.answer (.ribs "ribs" q)) ∧
      ∃ u v, s.mutate (.removePosition "root") = (.ok (), u) ∧
        u.mutate (.addPosition ⟨"root", .eta 0, 0.3⟩) = (.ok (), v) ∧ s.LocallyAgrees v := by
  obtain ⟨s, hs⟩ := exists_ofDescription straightWing loadable_sparWithRibs
  have hvalid : crossedSpars.Valid := by decide
  obtain ⟨t, ht⟩ := exists_ofDescription straightWing (Description.loadable_iff_valid.2 hvalid)
  obtain ⟨-, hwing, hdesc, -⟩ := ofDescription_ok hs
  obtain ⟨-, htwing, htdesc, -⟩ := ofDescription_ok ht
  have hdesc : s.description = sparWithRibs := hdesc
  have htdesc : t.description = crossedSpars := htdesc
  obtain ⟨hagree, -, hreadd⟩ := local_answers (.load hs)
  refine ⟨s, t, hs, ht, fun q hq => ?_, ?_⟩
  · refine hagree t (.load ht) (htwing.trans hwing.symm) (.ribs "ribs" q) hq ?_
    rw [hdesc, htdesc]
    intro n hn m hm
    have hclosed : ∀ m ∈ reachedByRibs,
        ∀ k ∈ ((sparWithRibs.entry? m).map Entry.names).getD [], k ∈ reachedByRibs := by decide
    have hmem : m ∈ reachedByRibs := by
      obtain rfl := List.mem_singleton.1 hn
      have hself : (.ribs, "ribs") ∈ reachedByRibs := List.mem_cons_self
      refine hm.mem_of_closed hself fun m e hm he k hk => ?_
      exact hclosed m hm k (by rwa [he])
    simp only [reachedByRibs, List.mem_cons, List.not_mem_nil, or_false] at hmem
    rcases hmem with rfl | rfl | rfl | rfl <;> rfl
  · exact hreadd (.position, "root") (.position ⟨"root", .eta 0, 0.3⟩) (by rw [hdesc]; rfl)

end Structure

end WingBox
