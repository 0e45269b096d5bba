/-!
# Caches

A `Cache` is empty or holds a value that was built once.  `Slot.getOrBuild` answers from the
cache in a slot of the state, and fills it when it is empty; a build that fails leaves it empty.

A computation may leave events behind (`Traced`), which tell when builders run and change nothing
else.
-/

namespace WingBox

/-- A value that is built when it is first asked for. -/
structure Cache (α : Type) where
  /-- The value, once it is built. -/
  value? : Option α

namespace Cache

variable {α : Type}

/-- A cache without a value. -/
def empty : Cache α := ⟨none⟩

/-- A cache with a value. -/
def full (value : α) : Cache α := ⟨some value⟩

/-- The cache holds a value. -/
def isValid (c : Cache α) : Bool := c.value?.isSome

@[simp] theorem isValid_empty : (empty : Cache α).isValid = false := rfl

@[simp] theorem isValid_full (value : α) : (full value).isValid = true := rfl

/-- The cache after its value is dropped. -/
def invalidated (_ : Cache α) : Cache α := empty

/-- A copy for another owner, which has to build its own value. -/
def copy (_ : Cache α) : Cache α := empty

/-- A description that tells whether there is a value. -/
def description (c : Cache α) : String :=
  let valid := c.isValid
  s!"Cache \x7b valid: {valid} \x7d"

end Cache

/-- Where a state keeps a cache. -/
structure Slot (σ α : Type) where
  /-- The cache of a state. -/
  read : σ → Cache α
  /-- The state with another cache. -/
  write : Cache α → σ → σ

namespace Slot

/-- The value in the slot, built and kept there if there is none.  The build may fill other
slots, also when it fails in the end. -/
def getOrBuild {σ α : Type} {m : Type → Type} [Monad m] [MonadStateOf σ m] (slot : Slot σ α)
    (build : m α) : m α := do
  match (slot.read (← getThe σ)).value? with
  | some value => return value
  | none =>
    let value ← build
    modifyThe σ (slot.write (.full value))
    return value

end Slot

/-! ### Traces -/

/-- A value with the events on the way to it, the first one first. -/
structure Traced (ε α : Type) where
  /-- The value. -/
  value : α
  /-- The events. -/
  events : List ε

namespace Traced

variable {ε α β : Type}

instance : Monad (Traced ε) where
  pure x := ⟨x, []⟩
  bind x f :=
    let y := f x.value
    ⟨y.value, x.events ++ y.events⟩

/-- Leaves an event. -/
def leave (e : ε) : Traced ε Unit := ⟨(), [e]⟩

@[simp] theorem value_pure (x : α) : (pure x : Traced ε α).value = x := rfl

@[simp] theorem events_pure (x : α) : (pure x : Traced ε α).events = [] := rfl

@[simp] theorem value_bind (x : Traced ε α) (f : α → Traced ε β) :
    (x >>= f).value = (f x.value).value := rfl

@[simp] theorem events_bind (x : Traced ε α) (f : α → Traced ε β) :
    (x >>= f).events = x.events ++ (f x.value).events := rfl

@[simp] theorem events_leave (e : ε) : (leave e).events = [e] := rfl

instance : LawfulMonad (Traced ε) :=
  .mk' (Traced ε) (fun x => congrArg (Traced.mk x.value) (List.append_nil x.events))
    (fun _ _ => rfl) (fun _ _ _ => congrArg (Traced.mk _) (List.append_assoc ..))

end Traced

end WingBox
