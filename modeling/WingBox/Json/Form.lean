import WingBox.Json.Basic

/-!
# Types with a JSON form

`JsonForm` pairs the writing of a type as JSON with the reading of it.  The readers here follow
the rules that all definitions share:

* a record is an object, or an array of its fields in order (`Json.fields?`); members with
  unknown names are ignored, a repeated known name is refused, fields that are missing at the
  end of an array count as absent;
* a choice is an object with the name of the chosen case as its only key (`Json.choice?`);
* an absent field is refused (`required`), has a default (`withDefault`) or is left out
  (`omittable`, which takes a null as well).
-/

namespace WingBox

/-- A type that is written and read as JSON. -/
class JsonForm (α : Type) where
  /-- The JSON value of an element. -/
  toJson : α → Json
  /-- The element of a JSON value, if it has one. -/
  ofJson? : Json → Option α

export JsonForm (toJson ofJson?)

instance : JsonForm String where
  toJson := Json.text
  ofJson?
    | .string s => s
    | _ => none

instance : JsonForm UInt32 where
  toJson n := .number (.ofNat n.toNat)
  ofJson?
    | .number n => do
      let m ← n.natural?
      guard (m < UInt32.size)
      return m.toUInt32
    | _ => none

/-- Numbers that are no number are written as null. -/
instance : JsonForm Float where
  toJson x :=
    match Numeral.ofFloat? x with
    | some n => .number n
    | none => .null
  ofJson?
    | .number n => n.toFloat?
    | _ => none

instance {α : Type} [JsonForm α] : JsonForm (List α) where
  toJson xs := .array (xs.map toJson)
  ofJson?
    | .array vs => vs.mapM ofJson?
    | _ => none

namespace Json

/-! ### Records -/

/-- The value of a member, absent if there is none; no name may occur twice. -/
def member? (ms : List (Option String × Json)) (name : String) : Option (Option Json) :=
  match ms.filter fun (k, _) => k == some name with
  | [] => some none
  | [(_, v)] => some (some v)
  | _ => none

/-- The values of the fields of a record. -/
def fields? (names : List String) : Json → Option (List (Option Json))
  | object ms => do
    guard (ms.all fun (k, _) => k.isSome)
    names.mapM (member? ms)
  | array vs => do
    guard (vs.length ≤ names.length)
    return vs.map some ++ List.replicate (names.length - vs.length) none
  | _ => none

/-- The chosen case of a choice and its value. -/
def choice? : Json → Option (String × Json)
  | object [(some name, v)] => some (name, v)
  | _ => none

/-- A choice of the case `name`. -/
def chosen (name : String) (v : Json) : Json := record [(name, v)]

/-! ### Fields -/

variable {α : Type} [JsonForm α]

/-- A field that must be there. -/
def required (v : Option Json) : Option α := v >>= ofJson?

/-- A field with a default. -/
def withDefault (default : α) : Option Json → Option α
  | none => some default
  | some v => ofJson? v

/-- A field that may be left out. -/
def omittable : Option Json → Option (Option α)
  | none | some null => some none
  | some v => (ofJson? v).map some

/-- The member of an optional field, which is not written if it is left out. -/
def omittableMember (name : String) : Option α → List (String × Json)
  | none => []
  | some x => [(name, toJson x)]

end Json

end WingBox
