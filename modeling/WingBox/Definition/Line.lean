/-!
# Reference lines

Ribs are placed along, turned against and trimmed at named lines: the edges of the wing and the
midplane lines of its spars.  A line is written as one word, a spar as its name.
-/

namespace WingBox

/-- A named line. -/
inductive NamedLine where
  | leadingEdge
  | trailingEdge
  /-- The midplane line of a spar. -/
  | spar (uid : String)
deriving DecidableEq

namespace NamedLine

/-- The line that a word names. -/
def ofText (s : String) : NamedLine :=
  if s = "leadingEdge" then leadingEdge
  else if s = "trailingEdge" then trailingEdge
  else spar s

/-- The word that names a line. -/
def text : NamedLine → String
  | leadingEdge => "leadingEdge"
  | trailingEdge => "trailingEdge"
  | spar uid => uid

/-- The name of the spar, if the line belongs to one. -/
def sparUid? : NamedLine → Option String
  | spar uid => some uid
  | _ => none

/-- The line is an edge of the wing. -/
def isEdge (l : NamedLine) : Bool := l.sparUid?.isNone

/-- The line after the spar `old` got the name `new`. -/
def renameSpar (old new : String) : NamedLine → NamedLine
  | spar uid => spar (if uid = old then new else uid)
  | l => l

end NamedLine

/-- What the direction of ribs is measured from. -/
inductive RibDatum where
  | line (line : NamedLine)
  | globalX
  | globalY
deriving DecidableEq

namespace RibDatum

/-- The reference that a word names. -/
def ofText (s : String) : RibDatum :=
  if s = "globalX" then globalX
  else if s = "globalY" then globalY
  else line (.ofText s)

/-- The word that names a reference. -/
def text : RibDatum → String
  | globalX => "globalX"
  | globalY => "globalY"
  | line l => l.text

/-- The reference after the spar `old` got the name `new`. -/
def renameSpar (old new : String) : RibDatum → RibDatum
  | line l => line (l.renameSpar old new)
  | r => r

end RibDatum

end WingBox
