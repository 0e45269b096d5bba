import Std.Data.HashMap

/-!
# Registries

A `Registry` keeps items in the order in which they were added and finds them by their names.
Names are unique: an item whose name is taken is refused.  `Registry.items` is the list of items,
`Registry.index` the place of every name in it.
-/

namespace WingBox

/-- Items that carry a name. -/
class Named (α : Type) where
  /-- The name. -/
  uid : α → String
  /-- The item under another name. -/
  withUid : String → α → α

/-- Items in order, found by their names. -/
structure Registry (α : Type) where
  /-- The items in the order in which they were added. -/
  items : List α
  /-- The place of every name, counted from zero. -/
  index : Std.HashMap String Nat

namespace Registry

variable {α : Type}

/-- The registry without items. -/
def empty : Registry α := ⟨[], ∅⟩

/-! ### Looking up -/

/-- The item with a name. -/
def get? (r : Registry α) (uid : String) : Option α := r.index[uid]?.bind (r.items[·]?)

/-- There is an item with the name. -/
def contains (r : Registry α) (uid : String) : Bool := r.index.contains uid

/-- The number of items. -/
def size (r : Registry α) : Nat := r.items.length

/-- The item at a place, counted from zero. -/
def at? (r : Registry α) (i : Nat) : Option α := r.items[i]?

/-! ### Editing -/

/-- The registry with an item at the end, and its place; the item itself if its name is taken. -/
def add [Named α] (r : Registry α) (item : α) : Except α (Nat × Registry α) :=
  let uid := Named.uid item
  if r.contains uid then .error item
  else .ok (r.size, ⟨r.items ++ [item], r.index.insert uid r.size⟩)

/-- The item with a name, and the registry without it. -/
def remove? (r : Registry α) (uid : String) : Option (α × Registry α) := do
  let place ← r.index[uid]?
  let item ← r.items[place]?
  let shift (_ : String) (i : Nat) : Nat := if place < i then i - 1 else i
  return (item, ⟨r.items.eraseIdx place, (r.index.erase uid).map shift⟩)

/-- The registry in which the item `old` has the name `new`, unless there is no such item or the
new name is taken. -/
def rename? [Named α] (r : Registry α) (old new : String) : Option (Registry α) :=
  if r.contains new then none
  else
    r.index[old]?.map fun place =>
      ⟨r.items.modify place (Named.withUid new), (r.index.erase old).insert new place⟩

/-- The registry with one item edited.  The edit must leave the name alone. -/
def modify (r : Registry α) (uid : String) (edit : α → α) : Registry α :=
  match r.index[uid]? with
  | some place => { r with items := r.items.modify place edit }
  | none => r

/-- The registry with every item edited.  The edit must leave the names alone. -/
def modifyAll (r : Registry α) (edit : α → α) : Registry α :=
  { r with items := r.items.map edit }

end Registry

end WingBox
