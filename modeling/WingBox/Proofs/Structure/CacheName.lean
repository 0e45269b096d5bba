import Mathlib.Data.Nat.Notation
import WingBox.Structure.Store

/-!
# Filled caches

A store keeps one cache for the surfaces of the wing and one for each stage of every spar and of
all ribs.  `CacheName.Full` says that the one with a name is filled.

* `CacheName.full_write_iff`: filling a cache fills this one and leaves all others as they are;
* `CacheName.rank`: builders only ask caches of a lower rank than their own, which is proved for
  one query after the other elsewhere.
-/

namespace WingBox

variable {K : Type}

namespace SparStage

/-- Filling a stage fills this one and leaves the others as they are. -/
theorem isValid_write (stage other : SparStage) (v : stage.Value K) (c : SparSlots K) :
    (other.slot.read (stage.slot.write (.full v) c)).isValid = true ↔
      other = stage ∨ (other.slot.read c).isValid = true := by
  cases stage <;> cases other <;> simp <;> rfl

end SparStage

namespace RibsStage

/-- Filling a stage fills this one and leaves the others as they are. -/
theorem isValid_write (stage other : RibsStage) (v : stage.Value K) (c : RibsSlots K) :
    (other.slot.read (stage.slot.write (.full v) c)).isValid = true ↔
      other = stage ∨ (other.slot.read c).isValid = true := by
  cases stage <;> cases other <;> simp <;> rfl

end RibsStage

namespace CacheName

/-- The place of a cache in the order in which caches are asked by the builders of others.  Split
faces come last, since they are made of the faces of one part and the oversized forms of others. -/
def rank : CacheName → ℕ
  | wing => 0
  | spar .panels _ => 1
  | spar .geometry _ => 2
  | spar .caps _ => 2
  | ribs .spread _ => 2
  | ribs .cuts _ => 3
  | spar .divided _ => 4
  | ribs .geometry _ => 4
  | ribs .caps _ => 4
  | ribs .divided _ => 5

/-- The cache is filled. -/
def Full (n : CacheName) (s : Store K) : Prop := (n.slot.read s).isValid = true

instance (n : CacheName) (s : Store K) : Decidable (n.Full s) :=
  inferInstanceAs (Decidable (_ = true))

/-- Nothing is filled in an empty store. -/
theorem not_full_empty (n : CacheName) : ¬ n.Full (.empty : Store K) := by
  cases n with
  | wing => exact Bool.false_ne_true
  | spar stage uid =>
    have hempty : (Store.empty : Store K).spar uid = .empty := Std.HashMap.getD_empty
    change ¬ (stage.slot.read (Store.spar _ uid)).isValid = true
    rw [hempty]
    cases stage <;> exact Bool.false_ne_true
  | ribs stage uid =>
    have hempty : (Store.empty : Store K).ribsOf uid = .empty := Std.HashMap.getD_empty
    change ¬ (stage.slot.read (Store.ribsOf _ uid)).isValid = true
    rw [hempty]
    cases stage <;> exact Bool.false_ne_true

/-- Filling a stage of a spar fills this one and leaves all other stages as they are. -/
theorem full_write_spar_iff (stage other : SparStage) (uid uid' : String) (v : stage.Value K)
    (s : Store K) : (spar other uid').Full ((Store.sparSlot uid stage.slot).write (.full v) s) ↔
      spar other uid' = spar stage uid ∨ (spar other uid').Full s := by
  change (other.slot.read (Store.spar _ uid')).isValid = true ↔ _
  rw [spar.injEq]
  by_cases he : uid = uid'
  · subst he
    rw [Store.spar_write_self, and_iff_left rfl]
    exact stage.isValid_write other v _
  · rw [Store.spar_write_of_ne _ _ _ he]
    exact (or_iff_right fun heq => he heq.2.symm).symm

/-- Filling a stage of ribs fills this one and leaves all other stages as they are. -/
theorem full_write_ribs_iff (stage other : RibsStage) (uid uid' : String) (v : stage.Value K)
    (s : Store K) : (ribs other uid').Full ((Store.ribsSlot uid stage.slot).write (.full v) s) ↔
      ribs other uid' = ribs stage uid ∨ (ribs other uid').Full s := by
  change (other.slot.read (Store.ribsOf _ uid')).isValid = true ↔ _
  rw [ribs.injEq]
  by_cases he : uid = uid'
  · subst he
    rw [Store.ribsOf_write_self, and_iff_left rfl]
    exact stage.isValid_write other v _
  · rw [Store.ribsOf_write_of_ne _ _ _ he]
    exact (or_iff_right fun heq => he heq.2.symm).symm

/-- Filling a cache fills this one and leaves all others as they are. -/
theorem full_write_iff (n m : CacheName) (v : n.Value K) (s : Store K) :
    m.Full (n.slot.write (.full v) s) ↔ m = n ∨ m.Full s := by
  cases n with
  | wing =>
    cases m with
    | wing => exact iff_of_true rfl (.inl rfl)
    | spar | ribs => exact (or_iff_right CacheName.noConfusion).symm
  | spar stage uid =>
    cases m with
    | wing | ribs => exact (or_iff_right CacheName.noConfusion).symm
    | spar other uid' => exact full_write_spar_iff stage other uid uid' v s
  | ribs stage uid =>
    cases m with
    | wing | spar => exact (or_iff_right CacheName.noConfusion).symm
    | ribs other uid' => exact full_write_ribs_iff stage other uid uid' v s

end CacheName

end WingBox
