import WingBox.Json.Form
import WingBox.Proofs.Json.Number
import WingBox.Proofs.Json.Text

/-!
# Reading back JSON forms

`Json.Reads x y` says that `y` is what is read from the JSON value of `x`, and that this value can
be written.  A type whose elements all read back as themselves has a faithful form; where words
stand for several things, `y` may differ from `x`.

* `fields?_record`: the fields of a record are looked up among its members, which must not repeat
  a name (`Json.Members`);
* `required_toJson`, `withDefault_toJson` and `omittable_map_toJson`: what is read for a field.
-/

namespace WingBox

namespace Json

/-! ### Forms -/

/-- The element `y` is read from the JSON value of `x`. -/
structure Reads {α : Type} [JsonForm α] (x y : α) : Prop where
  /-- The numbers of the value are written as numbers. -/
  wellFormed : (toJson x).WellFormed
  /-- The value is not taken for a missing one. -/
  ne_null : toJson x ≠ .null
  /-- What is read from the value. -/
  ofJson? : ofJson? (toJson x) = some y

theorem reads_string (s : String) : Reads s s := ⟨trivial, nofun, rfl⟩

theorem reads_uint32 (n : UInt32) : Reads n n where
  wellFormed := Numeral.wellFormed_ofNat n.toNat
  ne_null := nofun
  ofJson? := by
    change ((Numeral.ofNat n.toNat).natural? >>= fun m => guard (m < UInt32.size) >>= fun _ =>
      some m.toUInt32) = some n
    rw [Numeral.natural?_ofNat]
    have hn : n.toNat < UInt32.size := n.toNat_lt
    simp [guard, hn]

/-- What is written for a number that is kept. -/
theorem toJson_of_kept {x : Float} (h : Numeral.Kept x) :
    ∃ n, toJson x = .number n ∧ n.WellFormed ∧ n.toFloat? = some x := by
  obtain ⟨n, hn, hread⟩ := h
  exact ⟨n, by simp only [toJson, hn], Numeral.wellFormed_ofFloat? hn, hread⟩

theorem reads_float {x : Float} (h : Numeral.Kept x) : Reads x x := by
  obtain ⟨n, hjson, hn, hread⟩ := toJson_of_kept h
  exact ⟨hjson ▸ hn, hjson ▸ nofun, hjson ▸ hread⟩

theorem mapM_map_eq_some {α β γ : Type} {read : β → Option γ} {write : α → β} {f : α → γ}
    {xs : List α} (h : ∀ x ∈ xs, read (write x) = some (f x)) :
    (xs.map write).mapM read = some (xs.map f) := by
  induction xs with
  | nil => rfl
  | cons x xs ih =>
    rw [List.forall_mem_cons] at h
    rw [List.map_cons, List.mapM_cons, h.1, ih h.2]
    rfl

variable {α : Type} [JsonForm α]

theorem reads_list {f : α → α} {xs : List α} (h : ∀ x ∈ xs, Reads x (f x)) :
    Reads xs (xs.map f) where
  wellFormed := wellFormedElements_iff.2 (List.forall_mem_map.2 fun x hx => (h x hx).wellFormed)
  ne_null := nofun
  ofJson? := mapM_map_eq_some fun x hx => (h x hx).ofJson?

/-! ### Members -/

/-- Members with some of the names in their order, whose values can be written. -/
structure Members (names : List String) (ms : List (String × Json)) : Prop where
  /-- The names occur in this order. -/
  names : (ms.map Prod.fst).Sublist names
  /-- The numbers of the values are written as numbers. -/
  wellFormed : ∀ m ∈ ms, m.2.WellFormed

namespace Members

variable {names names' : List String} {ms ms' : List (String × Json)}

theorem nil : Members [] [] := ⟨.slnil, nofun⟩

theorem cons {name : String} {v : Json} (hv : v.WellFormed) (h : Members names ms) :
    Members (name :: names) ((name, v) :: ms) :=
  ⟨h.names.cons_cons name, List.forall_mem_cons.2 ⟨hv, h.wellFormed⟩⟩

theorem append (h : Members names ms) (h' : Members names' ms') :
    Members (names ++ names') (ms ++ ms') where
  names := by
    rw [List.map_append]
    exact h.names.append h'.names
  wellFormed := List.forall_mem_append.2 ⟨h.wellFormed, h'.wellFormed⟩

theorem omittable (name : String) {o : Option α} (h : ∀ x ∈ o, (toJson x).WellFormed) :
    Members [name] (omittableMember name o) := by
  cases o with
  | none => exact ⟨List.nil_sublist _, nofun⟩
  | some x => exact cons (h x rfl) nil

theorem record (h : Members names ms) : (Json.record ms).WellFormed :=
  wellFormedMembers_iff.2 (List.forall_mem_map.2 h.wellFormed)

end Members

theorem filter_record {ms : List (String × Json)} (h : (ms.map Prod.fst).Nodup) (name : String) :
    (ms.map fun (k, v) => (some k, v)).filter (fun (k, _) => k == some name) =
      (ms.lookup name).toList.map fun v => (some name, v) := by
  induction ms with
  | nil => rfl
  | cons m ms ih =>
    obtain ⟨k, v⟩ := m
    rw [List.map_cons, List.nodup_cons] at h
    have ih := ih h.2
    rw [List.map_cons, List.filter_cons, ih, List.lookup_cons]
    by_cases hname : name = k
    · -- the name does not come again
      subst hname
      have hrest : ms.lookup name = none :=
        List.lookup_eq_none_iff.2 fun m hm => bne_iff_ne.2 fun heq =>
          h.1 (List.mem_map.2 ⟨m, hm, heq.symm⟩)
      rw [if_pos (beq_self_eq_true _), hrest, beq_self_eq_true]
      rfl
    · have hkey : ¬ (some k == some name) = true := by
        rw [beq_iff_eq, Option.some.injEq]
        exact Ne.symm hname
      rw [if_neg hkey, beq_eq_false_iff_ne.2 hname]

theorem member?_record {ms : List (String × Json)} (h : (ms.map Prod.fst).Nodup) (name : String) :
    member? (ms.map fun (k, v) => (some k, v)) name = some (ms.lookup name) := by
  rw [member?, filter_record h]
  cases ms.lookup name <;> rfl

theorem fields?_record {ms : List (String × Json)} (h : (ms.map Prod.fst).Nodup)
    (names : List String) :
    fields? names (record ms) = some (names.map fun name => ms.lookup name) := by
  have hkeys : (ms.map fun (k, v) => (some k, v)).all (fun (k, _) => k.isSome) = true := by
    rw [List.all_map]
    exact List.all_eq_true.2 fun _ _ => rfl
  rw [record, fields?, guard, if_pos hkeys]
  change names.mapM (member? _) = _
  induction names with
  | nil => rfl
  | cons name names ih =>
    rw [List.mapM_cons, member?_record h, ih]
    rfl

theorem depth_record {ms : List (String × Json)} (h : ∀ m ∈ ms, m.2.depth = 0) :
    (record ms).depth = 1 := by
  have hmembers : depthMembers (ms.map fun (k, v) => (some k, v)) = 0 := by
    induction ms with
    | nil => rfl
    | cons m ms ih =>
      rw [List.forall_mem_cons] at h
      rw [List.map_cons, depthMembers, h.1, ih h.2, Nat.max_self]
  rw [record, depth, hmembers]

theorem readable_record {ms : List (String × Json)} (h : ∀ m ∈ ms, m.2.readable = true) :
    (record ms).readable = true := by
  rw [record, readable]
  induction ms with
  | nil => rfl
  | cons m ms ih =>
    rw [List.forall_mem_cons] at h
    rw [List.map_cons, readableMembers, h.1, ih h.2]
    rfl

/-! ### Fields -/

section Fields

variable {x y : α}

theorem required_toJson (h : Reads x y) : required (some (toJson x)) = some y := h.ofJson?

theorem withDefault_toJson (default : α) (h : Reads x y) :
    withDefault default (some (toJson x)) = some y := h.ofJson?

theorem omittable_map_toJson {f : α → α} {o : Option α} (h : ∀ x ∈ o, Reads x (f x)) :
    omittable (o.map toJson) = some (o.map f) := by
  cases o with
  | none => rfl
  | some x =>
    have hx := h x rfl
    rw [Option.map_some, omittable, hx.ofJson?]
    · rfl
    · exact hx.ne_null

theorem omittable_toJson_self {o : Option α} (h : ∀ x ∈ o, Reads x x) :
    omittable (o.map toJson) = some o := by
  have hread := omittable_map_toJson (f := id) h
  rwa [Option.map_id] at hread

theorem lookup_omittableMember (name key : String) (o : Option α) :
    (omittableMember name o).lookup key = if key = name then o.map toJson else none := by
  cases o with
  | none => rw [omittableMember, List.lookup_nil, Option.map_none, ite_self]
  | some x =>
    rw [omittableMember, List.lookup_cons, List.lookup_nil]
    by_cases h : key = name
    · rw [if_pos h, beq_iff_eq.2 h]
      rfl
    · rw [if_neg h, beq_eq_false_iff_ne.2 h]

end Fields

/-! ### Records and choices -/

/-- A record reads back if its fields do, however many of them are written. -/
theorem reads_record {x y : α} {names : List String} {ms : List (String × Json)}
    (hmembers : Members names ms) (hnames : names.Nodup) (hwrite : toJson x = record ms)
    (hread : (ms.map Prod.fst).Nodup → ofJson? (record ms) = some y) : Reads x y where
  wellFormed := hwrite ▸ hmembers.record
  ne_null := hwrite ▸ nofun
  ofJson? := hwrite ▸ hread (hmembers.names.nodup hnames)

theorem wellFormed_chosen {name : String} {v : Json} (hv : v.WellFormed) :
    (chosen name v).WellFormed := ⟨hv, trivial⟩

theorem chosen_ne_null (name : String) (v : Json) : chosen name v ≠ .null := nofun

/-- A chosen case reads back if its value does. -/
theorem reads_chosen {β : Type} [JsonForm β] {case : β → α} {name : String} {x y : β}
    (h : Reads x y) (hwrite : toJson (case x) = chosen name (toJson x))
    (hread : ofJson? (chosen name (toJson x)) =
      (ofJson? (toJson x) >>= fun v => some (case v))) : Reads (case x) (case y) where
  wellFormed := hwrite ▸ wellFormed_chosen h.wellFormed
  ne_null := hwrite ▸ chosen_ne_null name (toJson x)
  ofJson? := by
    rw [hwrite, hread, h.ofJson?]
    rfl

end Json

end WingBox
