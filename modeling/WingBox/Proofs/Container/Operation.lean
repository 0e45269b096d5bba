import WingBox.Proofs.Container.Registry

/-!
# Registries under any operations

A registry starts empty and goes through any number of operations, of which some are refused.  All
the way it answers as a plain list of items with distinct names does (`Registry.run_eq_onList`), and
its index leads to the places of the items in this list.

`Registry.Operation.onList` says what an operation is on a list: adding appends an item unless its
name is there, removing takes an item out and keeps the order of the others, renaming gives an item
another name where it stands.  `Registry.Operation.step_refines` is one step of the comparison.
-/

namespace WingBox

namespace Registry

/-! ### Operations -/

/-- What may be asked of a registry or done with it.  Edits leave the names of items alone. -/
inductive Operation (α : Type) [Named α] where
  /-- The item with a name. -/
  | get (uid : String)
  /-- The item at a place, counted from zero. -/
  | item (i : Nat)
  /-- Whether there is an item with the name. -/
  | contains (uid : String)
  /-- The number of items. -/
  | size
  /-- All items in order. -/
  | items
  /-- Adds an item. -/
  | add (x : α)
  /-- Removes the item with a name. -/
  | remove (uid : String)
  /-- Gives the item `old` the name `new`. -/
  | rename (old new : String)
  /-- Edits the item with a name. -/
  | edit (uid : String) (f : α → α) (keeps : ∀ x, Named.uid (f x) = Named.uid x)
  /-- Edits every item. -/
  | editAll (f : α → α) (keeps : ∀ x, Named.uid (f x) = Named.uid x)

/-- What an operation answers. -/
inductive Reply (α : Type) where
  /-- A place or a number of items. -/
  | count (n : Nat)
  /-- An item, if there is one. -/
  | found (x : Option α)
  /-- The item that could not be added. -/
  | refused (x : α)
  /-- Yes or no. -/
  | flag (b : Bool)
  /-- Items in order. -/
  | all (xs : List α)

/-- The operation found nothing to do, or must not do it. -/
def Reply.Declines {α : Type} : Reply α → Prop
  | refused _ | found none | flag false => True
  | _ => False

namespace Operation

variable {α : Type} [Named α]

/-- What a registry answers, and what becomes of it. -/
def step : Operation α → Registry α → Reply α × Registry α
  | get uid, r => (.found (r.get? uid), r)
  | item i, r => (.found (r.at? i), r)
  | contains uid, r => (.flag (r.contains uid), r)
  | size, r => (.count r.size, r)
  | items, r => (.all r.items, r)
  | add x, r =>
    match r.add x with
    | .ok (place, s) => (.count place, s)
    | .error y => (.refused y, r)
  | remove uid, r =>
    match r.remove? uid with
    | some (x, s) => (.found (some x), s)
    | none => (.found none, r)
  | rename old new, r =>
    match r.rename? old new with
    | some s => (.flag true, s)
    | none => (.flag false, r)
  | edit uid f _, r => (.found (r.get? uid), r.modify uid f)
  | editAll f _, r => (.all r.items, r.modifyAll f)

/-- What a list of items answers, and what becomes of it. -/
def onList : Operation α → List α → Reply α × List α
  | get uid, xs => (.found (xs.find? fun x => Named.uid x == uid), xs)
  | item i, xs => (.found xs[i]?, xs)
  | contains uid, xs => (.flag (decide (uid ∈ xs.map Named.uid)), xs)
  | size, xs => (.count xs.length, xs)
  | items, xs => (.all xs, xs)
  | add x, xs =>
    if Named.uid x ∈ xs.map Named.uid then (.refused x, xs) else (.count xs.length, xs ++ [x])
  | remove uid, xs =>
    (.found (xs.find? fun x => Named.uid x == uid), xs.filter fun x => Named.uid x != uid)
  | rename old new, xs =>
    if old ∈ xs.map Named.uid ∧ new ∉ xs.map Named.uid then
      (.flag true, xs.map fun x => if Named.uid x = old then Named.withUid new x else x)
    else (.flag false, xs)
  | edit uid f _, xs =>
    (.found (xs.find? fun x => Named.uid x == uid),
      xs.map fun x => if Named.uid x = uid then f x else x)
  | editAll f _, xs => (.all xs, xs.map f)

/-- The answers to operations one after another, and what they leave behind. -/
def run {σ : Type} (step : Operation α → σ → Reply α × σ) :
    List (Operation α) → σ → List (Reply α) × σ
  | [], s => ([], s)
  | op :: ops, s =>
    let rest := run step ops (step op s).2
    ((step op s).1 :: rest.1, rest.2)

/-! ### One operation -/

theorem modify_of_get?_none {uid : String} {r : Registry α} (hr : r.Indexed)
    (h : r.get? uid = none) (f : α → α) : r.modify uid f = r := by
  rw [modify, hr.index_eq_none_iff.2 (hr.get?_eq_none_iff.1 h)]

/-- An operation that declines leaves the registry as it is, with its index. -/
theorem step_of_declines {r : Registry α} (hr : r.Indexed) {op : Operation α}
    (h : (op.step r).1.Declines) : (op.step r).2 = r := by
  cases op with
  | get | item | contains | size | items => rfl
  | add x =>
    simp only [step] at h ⊢
    cases hadd : r.add x with
    | ok out =>
      rw [hadd] at h
      cases h
    | error y => rfl
  | remove uid =>
    simp only [step] at h ⊢
    cases hremove : r.remove? uid with
    | some out =>
      rw [hremove] at h
      cases h
    | none => rfl
  | rename old new =>
    simp only [step] at h ⊢
    cases hrename : r.rename? old new with
    | some s =>
      rw [hrename] at h
      cases h
    | none => rfl
  | edit uid f keeps =>
    simp only [step] at h ⊢
    cases hget : r.get? uid with
    | some x =>
      rw [hget] at h
      cases h
    | none => exact modify_of_get?_none hr hget f
  | editAll => cases h

/-- An operation on an indexed registry is the one on the list of its items, and leaves the registry
indexed. -/
theorem step_refines [LawfulNamed α] {r : Registry α} (hr : r.Indexed) (op : Operation α) :
    ((op.step r).1, (op.step r).2.items) = op.onList r.items ∧ (op.step r).2.Indexed := by
  cases op with
  | item | size | items => exact ⟨rfl, hr⟩
  | get uid =>
    rw [step, onList, hr.get?_eq_find?]
    exact ⟨rfl, hr⟩
  | contains uid =>
    have hflag : r.contains uid = decide (uid ∈ r.items.map Named.uid) := by
      rw [Bool.eq_iff_iff, hr.contains_iff, decide_eq_true_iff, uids]
    rw [step, onList, hflag]
    exact ⟨rfl, hr⟩
  | add x =>
    by_cases hx : Named.uid x ∈ r.uids
    · have hlist : (add x).onList r.items = (.refused x, r.items) := if_pos hx
      rw [step, hr.add_of_mem hx, hlist]
      exact ⟨rfl, hr⟩
    · obtain ⟨s, hadd, hs, hitems⟩ := hr.add_of_not_mem hx
      have hlist : (add x).onList r.items = (.count r.size, r.items ++ [x]) := if_neg hx
      rw [step, hadd, hlist, ← hitems]
      exact ⟨rfl, hs⟩
  | remove uid =>
    rw [step, onList, ← hr.get?_eq_find?]
    cases hget : r.get? uid with
    | none =>
      have huid := hr.get?_eq_none_iff.1 hget
      rw [hr.remove?_of_not_mem huid, filter_ne_of_not_mem huid]
      exact ⟨rfl, hr⟩
    | some x =>
      obtain ⟨s, hremove, hs, hitems⟩ := hr.remove?_of_get? hget
      rw [hremove, ← hitems]
      exact ⟨rfl, hs⟩
  | rename old new =>
    by_cases h : old ∈ r.uids ∧ new ∉ r.uids
    · obtain ⟨s, hrename, hs, hitems⟩ := hr.rename?_of_mem h.1 h.2
      have hlist : (rename old new).onList r.items = (.flag true, s.items) :=
        (if_pos h).trans (by rw [hitems])
      rw [step, hrename, hlist]
      exact ⟨rfl, hs⟩
    · have hnone : r.rename? old new = none := by
        by_cases hold : old ∈ r.uids
        · exact hr.rename?_of_taken (not_not.1 fun hnew => h ⟨hold, hnew⟩)
        · exact hr.rename?_of_unknown hold
      have hlist : (rename old new).onList r.items = (.flag false, r.items) := if_neg h
      rw [step, hnone, hlist]
      exact ⟨rfl, hr⟩
  | edit uid f keeps =>
    rw [step, onList, hr.get?_eq_find?, ← hr.items_modify]
    exact ⟨rfl, hr.modify fun x _ hx => (keeps x).trans hx⟩
  | editAll f keeps => exact ⟨rfl, hr.modifyAll fun x _ => keeps x⟩

/-! ### Runs -/

theorem run_refines [LawfulNamed α] {r : Registry α} (hr : r.Indexed) (ops : List (Operation α)) :
    ((run step ops r).1, (run step ops r).2.items) = run onList ops r.items ∧
      (run step ops r).2.Indexed := by
  induction ops generalizing r with
  | nil => exact ⟨rfl, hr⟩
  | cons op ops ih =>
    obtain ⟨hstep, hindexed⟩ := step_refines hr op
    obtain ⟨hrest, hrun⟩ := ih hindexed
    rw [Prod.ext_iff] at hstep hrest
    refine ⟨?_, hrun⟩
    simp only [run]
    rw [← hstep.1, ← hstep.2, ← hrest.1, ← hrest.2]

end Operation

/-- **A registry is a list of items with distinct names.**  Whatever is done with it from the start
on, it answers as the list does.  Then the names are pairwise distinct, the index leads from these
names, and from no others, to their places, and what is declined next changes nothing. -/
theorem run_eq_onList {α : Type} [Named α] [LawfulNamed α] (ops : List (Operation α)) :
    let out := Operation.run Operation.step ops .empty
    (out.1, out.2.items) = Operation.run Operation.onList ops [] ∧ out.2.uids.Nodup ∧
      (∀ (uid : String) (i : Nat), out.2.index[uid]? = some i ↔ out.2.uids[i]? = some uid) ∧
      ∀ op : Operation α, (op.step out.2).1.Declines → (op.step out.2).2 = out.2 := by
  obtain ⟨hrun, hindexed⟩ := Operation.run_refines indexed_empty ops
  exact ⟨hrun, hindexed.nodup_uids, hindexed, fun op h => Operation.step_of_declines hindexed h⟩

/-! ### Labels -/

/-- A number under a name. -/
structure Label where
  /-- The name. -/
  uid : String
  /-- The number. -/
  number : Nat

instance : Named Label := ⟨Label.uid, fun uid l => { l with uid }⟩

instance : LawfulNamed Label := ⟨fun _ _ => rfl⟩

/-- Three labels, of which one is refused, under operations of every kind. -/
def labelling : List (Operation Label) :=
  [.add ⟨"a", 0⟩, .add ⟨"b", 1⟩, .add ⟨"b", 9⟩, .add ⟨"c", 2⟩, .rename "a" "c", .rename "a" "z",
    .contains "a", .remove "b", .remove "b",
    .edit "c" (fun l => { l with number := 7 }) fun _ => rfl, .get "c", .item 0, .items]

theorem run_eq_onList_labelling :
    let out := Operation.run Operation.step labelling .empty
    out.1 = [.count 0, .count 1, .refused ⟨"b", 9⟩, .count 2, .flag false, .flag true, .flag false,
        .found (some ⟨"b", 1⟩), .found none, .found (some ⟨"c", 2⟩), .found (some ⟨"c", 7⟩),
        .found (some ⟨"z", 0⟩), .all [⟨"z", 0⟩, ⟨"c", 7⟩]] ∧
      out.2.items = [⟨"z", 0⟩, ⟨"c", 7⟩] ∧ out.2.index["c"]? = some 1 ∧
      ((Operation.rename "z" "c").step out.2).2 = out.2 := by
  obtain ⟨hrun, -, hindex, hdeclines⟩ := run_eq_onList labelling
  rw [Prod.ext_iff] at hrun
  have hitems : (Operation.run Operation.step labelling .empty).2.items = [⟨"z", 0⟩, ⟨"c", 7⟩] :=
    hrun.2
  have hplace := (hindex "c" 1).2 (by rw [uids, hitems]; rfl)
  refine ⟨hrun.1, hitems, hplace, hdeclines _ ?_⟩
  -- the name is taken, so renaming declines
  have htaken : (Operation.run Operation.step labelling .empty).2.contains "c" = true := by
    rw [contains, Std.HashMap.contains_eq_isSome_getElem?, hplace]
    rfl
  rw [Operation.step, rename?, if_pos htaken]
  trivial

end Registry

end WingBox
