import WingBox.Json.Numeral

/-!
# JSON values

A `Json` value keeps what its text says: the members of an object in their order, repeated ones
included, and numbers in their written form.  A string that holds an unpaired surrogate is no
text and is kept as `none`.

`Json.depth` counts how far containers are nested, and `Json.Readable` says that every number
and every string of a value can be read.
-/

namespace WingBox

/-- A JSON value. -/
inductive Json where
  /-- The null value. -/
  | null
  /-- A truth value. -/
  | bool (b : Bool)
  /-- A number as it is written. -/
  | number (n : Numeral)
  /-- A string, if its characters make a text. -/
  | string (s : Option String)
  /-- The elements of an array. -/
  | array (elements : List Json)
  /-- The members of an object. -/
  | object (members : List (Option String × Json))

namespace Json

/-- A string value. -/
def text (s : String) : Json := .string (some s)

/-- An object whose keys are texts. -/
def record (members : List (String × Json)) : Json :=
  .object (members.map fun (k, v) => (some k, v))

/-! ### Nesting -/

mutual

/-- How many containers are nested in each other. -/
def depth : Json → Nat
  | array vs => depthElements vs + 1
  | object ms => depthMembers ms + 1
  | _ => 0

/-- The largest depth of some elements. -/
def depthElements : List Json → Nat
  | [] => 0
  | v :: vs => max (depth v) (depthElements vs)

/-- The largest depth of some members. -/
def depthMembers : List (Option String × Json) → Nat
  | [] => 0
  | (_, v) :: ms => max (depth v) (depthMembers ms)

end

/-! ### Readability -/

mutual

/-- Every number is in range and every string is a text. -/
def readable : Json → Bool
  | number n => n.toFloat?.isSome
  | string s => s.isSome
  | array vs => readableElements vs
  | object ms => readableMembers ms
  | _ => true

/-- All elements are readable. -/
def readableElements : List Json → Bool
  | [] => true
  | v :: vs => readable v && readableElements vs

/-- All members are readable. -/
def readableMembers : List (Option String × Json) → Bool
  | [] => true
  | (k, v) :: ms => k.isSome && readable v && readableMembers ms

end

end Json

end WingBox
