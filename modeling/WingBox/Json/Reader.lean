import WingBox.Json.Basic

/-!
# Reading JSON text

`Json.parse?` accepts exactly the JSON grammar: one value, blanks around it and nothing else.
Every scanner takes the characters that are left and returns those that follow what it read.
-/

namespace WingBox

namespace Json.Reader

/-! ### Blanks -/

/-- The characters that may stand between tokens. -/
def isBlank (c : Char) : Bool := c = ' ' || c = '\n' || c = '\t' || c = '\r'

/-- The text after leading blanks. -/
def skipBlanks (cs : List Char) : List Char := cs.dropWhile isBlank

/-! ### Strings -/

/-- The value of a hexadecimal digit. -/
def hexDigit? (c : Char) : Option Nat :=
  if '0' ≤ c ∧ c ≤ '9' then some (c.toNat - '0'.toNat)
  else if 'a' ≤ c ∧ c ≤ 'f' then some (c.toNat - 'a'.toNat + 10)
  else if 'A' ≤ c ∧ c ≤ 'F' then some (c.toNat - 'A'.toNat + 10)
  else none

/-- The value of four hexadecimal digits. -/
def hexUnit? (a b c d : Char) : Option Nat := do
  return 4096 * (← hexDigit? a) + 256 * (← hexDigit? b) + 16 * (← hexDigit? c) + (← hexDigit? d)

/-- The first half of a surrogate pair. -/
def isHighSurrogate (u : Nat) : Bool := 0xD800 ≤ u && u < 0xDC00

/-- The second half of a surrogate pair. -/
def isLowSurrogate (u : Nat) : Bool := 0xDC00 ≤ u && u < 0xE000

/-- The character of a surrogate pair. -/
def pairChar (high low : Nat) : Char :=
  Char.ofNat (0x10000 + 1024 * (high - 0xD800) + (low - 0xDC00))

/-- The character of an escape of one letter. -/
def escaped? : Char → Option Char
  | '"' => some '"'
  | '\\' => some '\\'
  | '/' => some '/'
  | 'b' => some '\x08'
  | 'f' => some '\x0c'
  | 'n' => some '\n'
  | 'r' => some '\r'
  | 't' => some '\t'
  | _ => none

/-- The characters of a string, or `none` where a surrogate has no partner, and the text that
follows its closing quote. -/
def chars? (cs : List Char) : Option (Option (List Char) × List Char) :=
  match cs with
  | [] => none
  | '"' :: r => some (some [], r)
  | '\\' :: 'u' :: a :: b :: c :: d :: r => do
    let u ← hexUnit? a b c d
    if isHighSurrogate u then
      match r with
      | '\\' :: 'u' :: e :: f :: g :: h :: r' =>
        let v ← hexUnit? e f g h
        if isLowSurrogate v then
          let (s, rest) ← chars? r'
          return (s.map (pairChar u v :: ·), rest)
        else
          let (_, rest) ← chars? ('\\' :: 'u' :: e :: f :: g :: h :: r')
          return (none, rest)
      | r =>
        let (_, rest) ← chars? r
        return (none, rest)
    else if isLowSurrogate u then
      let (_, rest) ← chars? r
      return (none, rest)
    else
      let (s, rest) ← chars? r
      return (s.map (Char.ofNat u :: ·), rest)
  | '\\' :: c :: r => do
    let e ← escaped? c
    let (s, rest) ← chars? r
    return (s.map (e :: ·), rest)
  | c :: r =>
    if c < ' ' then none
    else do
      let (s, rest) ← chars? r
      return (s.map (c :: ·), rest)
termination_by cs.length

/-- A string after its opening quote. -/
def string? (cs : List Char) : Option (Option String × List Char) := do
  let (s, rest) ← chars? cs
  return (s.map String.ofList, rest)

/-! ### Numbers -/

/-- The longest run of digits. -/
def digits : List Char → List Digit × List Char
  | [] => ([], [])
  | c :: r =>
    match Digit.ofChar? c with
    | some d => let (ds, rest) := digits r; (d :: ds, rest)
    | none => ([], c :: r)

/-- A run of digits that is not empty. -/
def digits? (cs : List Char) : Option (List Digit × List Char) :=
  match digits cs with
  | ([], _) => none
  | r => some r

/-- The digits before the point; a zero comes first only if it stands alone. -/
def whole? (cs : List Char) : Option (List Digit × List Char) :=
  match digits cs with
  | ([], _) => none
  | (0 :: _ :: _, _) => none
  | r => some r

/-- The digits after the point, if there is a point. -/
def fraction? : List Char → Option (List Digit × List Char)
  | '.' :: r => digits? r
  | cs => some ([], cs)

/-- The digits of an exponent after its letter. -/
def exponentDigits? : List Char → Option ((ExponentSign × List Digit) × List Char)
  | '+' :: r => do let (ds, rest) ← digits? r; return ((.plus, ds), rest)
  | '-' :: r => do let (ds, rest) ← digits? r; return ((.minus, ds), rest)
  | cs => do let (ds, rest) ← digits? cs; return ((.none, ds), rest)

/-- The exponent, if there is one. -/
def exponent? (cs : List Char) : Option (Option (ExponentSign × List Digit) × List Char) :=
  match cs with
  | 'e' :: r | 'E' :: r => do let (e, rest) ← exponentDigits? r; return (some e, rest)
  | _ => some (none, cs)

/-- A number after its sign. -/
def magnitude? (negative : Bool) (cs : List Char) : Option (Numeral × List Char) := do
  let (whole, cs) ← whole? cs
  let (fraction, cs) ← fraction? cs
  let (exponent, cs) ← exponent? cs
  return (⟨negative, whole, fraction, exponent⟩, cs)

/-- A number. -/
def numeral? : List Char → Option (Numeral × List Char)
  | '-' :: r => magnitude? true r
  | cs => magnitude? false cs

/-! ### Values -/

/-- A key and its colon. -/
def key? (cs : List Char) : Option (Option String × List Char) :=
  match skipBlanks cs with
  | '"' :: r => do
    let (k, r) ← string? r
    match skipBlanks r with
    | ':' :: r => return (k, r)
    | _ => none
  | _ => none

mutual

/-- A value after blanks.  Each step takes a character, so the length of the text is enough
fuel. -/
def value? : (fuel : Nat) → List Char → Option (Json × List Char)
  | 0, _ => none
  | n + 1, cs =>
    match skipBlanks cs with
    | 'n' :: 'u' :: 'l' :: 'l' :: r => some (.null, r)
    | 't' :: 'r' :: 'u' :: 'e' :: r => some (.bool true, r)
    | 'f' :: 'a' :: 'l' :: 's' :: 'e' :: r => some (.bool false, r)
    | '"' :: r => do let (s, rest) ← string? r; return (.string s, rest)
    | '[' :: r =>
      match skipBlanks r with
      | ']' :: r => some (.array [], r)
      | r => do let (vs, rest) ← elements? n r; return (.array vs, rest)
    | '\x7b' :: r =>
      match skipBlanks r with
      | '\x7d' :: r => some (.object [], r)
      | r => do let (ms, rest) ← members? n r; return (.object ms, rest)
    | cs => do let (x, rest) ← numeral? cs; return (.number x, rest)

/-- The elements of an array that has some, up to its bracket. -/
def elements? : (fuel : Nat) → List Char → Option (List Json × List Char)
  | 0, _ => none
  | n + 1, cs => do
    let (v, r) ← value? n cs
    match skipBlanks r with
    | ',' :: r => let (vs, rest) ← elements? n r; return (v :: vs, rest)
    | ']' :: r => return ([v], r)
    | _ => none

/-- The members of an object that has some, up to its brace. -/
def members? : (fuel : Nat) → List Char → Option (List (Option String × Json) × List Char)
  | 0, _ => none
  | n + 1, cs => do
    let (k, r) ← key? cs
    let (v, r) ← value? n r
    match skipBlanks r with
    | ',' :: r => let (ms, rest) ← members? n r; return ((k, v) :: ms, rest)
    | '\x7d' :: r => return ([(k, v)], r)
    | _ => none

end

end Json.Reader

/-- The value that a text consists of. -/
def Json.parse? (s : String) : Option Json := do
  let (v, rest) ← Reader.value? (s.length + 1) s.toList
  guard (Reader.skipBlanks rest).isEmpty
  return v

end WingBox
