import Std.Data.HashMap
import WingBox.Container.Cache
import WingBox.Wing.Geometry

/-!
# Computed geometry

What is computed from the definitions of a structure, and the `Store` that keeps it.  The store
has one slot for the surfaces of the wing and, for every spar and every set of ribs, one slot for
each stage of its geometry, and a `CacheName` names one of them.  Nothing in the store is needed to
answer a query: an empty store only makes answers slower.
-/

namespace WingBox

variable {K : Type}

/-! ### Spars -/

/-- The oversized form of a spar, before it is trimmed. -/
structure SparPanels (K : Type) where
  /-- The line through the positions. -/
  midplaneLine : Wire K
  /-- One panel for every two consecutive positions. -/
  cutShape : Shape K

/-- The edges along the skins, where they are declared. -/
structure Caps (K : Type) where
  /-- The edges on the upper skin. -/
  upper : Option (Shape K)
  /-- The edges on the lower skin. -/
  lower : Option (Shape K)

namespace Caps

/-- The edges on a skin. -/
def side? (c : Caps K) : Side → Option (Shape K)
  | .upper => c.upper
  | .lower => c.lower

end Caps

/-- The stages of a spar. -/
structure SparSlots (K : Type) where
  /-- The oversized form. -/
  panels : Cache (SparPanels K)
  /-- The faces trimmed to the wing. -/
  geometry : Cache (Shape K)
  /-- The faces split by ribs and other spars. -/
  divided : Cache (Shape K)
  /-- The edges along the skins. -/
  caps : Cache (Caps K)

namespace SparSlots

/-- Nothing is computed. -/
def empty : SparSlots K := ⟨.empty, .empty, .empty, .empty⟩

/-- Some stage is computed. -/
def isBuilt (s : SparSlots K) : Bool :=
  s.panels.isValid || s.geometry.isValid || s.divided.isValid || s.caps.isValid

/-- The slot of the oversized form. -/
def panelsSlot : Slot (SparSlots K) (SparPanels K) := ⟨panels, fun c s => { s with panels := c }⟩

/-- The slot of the trimmed faces. -/
def geometrySlot : Slot (SparSlots K) (Shape K) := ⟨geometry, fun c s => { s with geometry := c }⟩

/-- The slot of the split faces. -/
def dividedSlot : Slot (SparSlots K) (Shape K) := ⟨divided, fun c s => { s with divided := c }⟩

/-- The slot of the edges along the skins. -/
def capsSlot : Slot (SparSlots K) (Caps K) := ⟨caps, fun c s => { s with caps := c }⟩

end SparSlots

/-! ### Ribs -/

/-- How the ribs of a set are distributed along their reference line. -/
structure RibSpread (K : Type) where
  /-- The parameter of the first rib. -/
  etaStart : K
  /-- The parameter at which the set ends. -/
  etaStop : K
  /-- The step between neighbouring ribs. -/
  offset : K
  /-- The number of ribs. -/
  count : UInt64

/-- One rib before it is trimmed. -/
structure RibCut (K : Type) where
  /-- The surface from which the rib is cut. -/
  face : Face K
  /-- The surface is the final face of the rib. -/
  isTargetFace : Bool
  /-- Where the rib starts on the midplane. -/
  start : Vec K
  /-- Where the rib ends on the midplane. -/
  stop : Vec K

/-- The stages of a set of ribs. -/
structure RibsSlots (K : Type) where
  /-- The distribution of a set. -/
  spread : Cache (RibSpread K)
  /-- The ribs before they are trimmed. -/
  cuts : Cache (List (RibCut K))
  /-- The faces trimmed to the wing. -/
  geometry : Cache (Shape K)
  /-- The faces split by spars. -/
  divided : Cache (Shape K)
  /-- The edges along the skins. -/
  caps : Cache (Caps K)

namespace RibsSlots

/-- Nothing is computed. -/
def empty : RibsSlots K := ⟨.empty, .empty, .empty, .empty, .empty⟩

/-- Some stage is computed. -/
def isBuilt (r : RibsSlots K) : Bool :=
  r.spread.isValid || r.cuts.isValid || r.geometry.isValid || r.divided.isValid
    || r.caps.isValid

/-- The slot of the distribution. -/
def spreadSlot : Slot (RibsSlots K) (RibSpread K) := ⟨spread, fun c s => { s with spread := c }⟩

/-- The slot of the ribs before they are trimmed. -/
def cutsSlot : Slot (RibsSlots K) (List (RibCut K)) := ⟨cuts, fun c s => { s with cuts := c }⟩

/-- The slot of the trimmed faces. -/
def geometrySlot : Slot (RibsSlots K) (Shape K) := ⟨geometry, fun c s => { s with geometry := c }⟩

/-- The slot of the split faces. -/
def dividedSlot : Slot (RibsSlots K) (Shape K) := ⟨divided, fun c s => { s with divided := c }⟩

/-- The slot of the edges along the skins. -/
def capsSlot : Slot (RibsSlots K) (Caps K) := ⟨caps, fun c s => { s with caps := c }⟩

end RibsSlots

/-! ### The store -/

/-- What is computed for a structure. -/
structure Store (K : Type) where
  /-- The surfaces of the wing. -/
  wing : Cache (WingGeometry K)
  /-- The stages of every spar, by name. -/
  spars : Std.HashMap String (SparSlots K)
  /-- The stages of all ribs, by name. -/
  ribs : Std.HashMap String (RibsSlots K)

namespace Store

/-- Nothing is computed. -/
def empty : Store K := ⟨.empty, ∅, ∅⟩

/-- The store without the geometry of spars and ribs.  The wing does not depend on them. -/
def invalidated (s : Store K) : Store K := { s with spars := ∅, ribs := ∅ }

/-- The stages of a spar. -/
def spar (s : Store K) (uid : String) : SparSlots K := s.spars.getD uid .empty

/-- The stages of a set of ribs. -/
def ribsOf (s : Store K) (uid : String) : RibsSlots K := s.ribs.getD uid .empty

/-- The slot of the wing. -/
def wingSlot : Slot (Store K) (WingGeometry K) := ⟨wing, fun c s => { s with wing := c }⟩

/-- A stage of a spar as a slot of the store. -/
def sparSlot {α : Type} (uid : String) (stage : Slot (SparSlots K) α) : Slot (Store K) α where
  read s := stage.read (s.spar uid)
  write c s := { s with spars := s.spars.insert uid (stage.write c (s.spar uid)) }

/-- A stage of a set of ribs as a slot of the store. -/
def ribsSlot {α : Type} (uid : String) (stage : Slot (RibsSlots K) α) : Slot (Store K) α where
  read s := stage.read (s.ribsOf uid)
  write c s := { s with ribs := s.ribs.insert uid (stage.write c (s.ribsOf uid)) }

section Write

variable {α : Type} {uid other : String} (c : Cache α) (s : Store K)

@[simp] theorem spar_write_self (stage : Slot (SparSlots K) α) :
    ((sparSlot uid stage).write c s).spar uid = stage.write c (s.spar uid) :=
  Std.HashMap.getD_insert_self

theorem spar_write_of_ne (stage : Slot (SparSlots K) α) (h : uid ≠ other) :
    ((sparSlot uid stage).write c s).spar other = s.spar other :=
  Std.HashMap.getD_insert.trans (if_neg fun heq => h (beq_iff_eq.1 heq))

@[simp] theorem ribsOf_write_self (stage : Slot (RibsSlots K) α) :
    ((ribsSlot uid stage).write c s).ribsOf uid = stage.write c (s.ribsOf uid) :=
  Std.HashMap.getD_insert_self

theorem ribsOf_write_of_ne (stage : Slot (RibsSlots K) α) (h : uid ≠ other) :
    ((ribsSlot uid stage).write c s).ribsOf other = s.ribsOf other :=
  Std.HashMap.getD_insert.trans (if_neg fun heq => h (beq_iff_eq.1 heq))

end Write

end Store

/-! ### Names of caches -/

/-- The stages of a spar. -/
inductive SparStage where
  /-- The oversized form. -/
  | panels
  /-- The faces trimmed to the wing. -/
  | geometry
  /-- The faces split by ribs and other spars. -/
  | divided
  /-- The edges along the skins. -/
  | caps
deriving DecidableEq

/-- The stages of ribs. -/
inductive RibsStage where
  /-- The distribution of a set. -/
  | spread
  /-- The ribs before they are trimmed. -/
  | cuts
  /-- The faces trimmed to the wing. -/
  | geometry
  /-- The faces split by spars. -/
  | divided
  /-- The edges along the skins. -/
  | caps
deriving DecidableEq

namespace SparStage

/-- What is kept of a stage. -/
def Value (K : Type) : SparStage → Type
  | panels => SparPanels K
  | geometry => Shape K
  | divided => Shape K
  | caps => Caps K

/-- Where a stage is kept. -/
def slot : (stage : SparStage) → Slot (SparSlots K) (stage.Value K)
  | panels => SparSlots.panelsSlot
  | geometry => SparSlots.geometrySlot
  | divided => SparSlots.dividedSlot
  | caps => SparSlots.capsSlot

end SparStage

namespace RibsStage

/-- What is kept of a stage. -/
def Value (K : Type) : RibsStage → Type
  | spread => RibSpread K
  | cuts => List (RibCut K)
  | geometry => Shape K
  | divided => Shape K
  | caps => Caps K

/-- Where a stage is kept. -/
def slot : (stage : RibsStage) → Slot (RibsSlots K) (stage.Value K)
  | spread => RibsSlots.spreadSlot
  | cuts => RibsSlots.cutsSlot
  | geometry => RibsSlots.geometrySlot
  | divided => RibsSlots.dividedSlot
  | caps => RibsSlots.capsSlot

end RibsStage

/-- The name of a cache in a store. -/
inductive CacheName where
  /-- The surfaces of the wing. -/
  | wing
  /-- A stage of the spar with a name. -/
  | spar (stage : SparStage) (uid : String)
  /-- A stage of the ribs with a name. -/
  | ribs (stage : RibsStage) (uid : String)
deriving DecidableEq

namespace CacheName

/-- What is kept in a cache. -/
def Value (K : Type) : CacheName → Type
  | wing => WingGeometry K
  | spar stage _ => stage.Value K
  | ribs stage _ => stage.Value K

/-- Where a cache is kept. -/
def slot : (n : CacheName) → Slot (Store K) (n.Value K)
  | wing => Store.wingSlot
  | spar stage uid => Store.sparSlot uid stage.slot
  | ribs stage uid => Store.ribsSlot uid stage.slot

end CacheName

/-- What happens to a cache while a query is answered. -/
inductive Event where
  /-- Its builder is entered. -/
  | entered (n : CacheName)
  /-- Its builder has succeeded. -/
  | built (n : CacheName)
deriving DecidableEq

end WingBox
