import WingBox.Json.Basic

/-!
# Writing JSON text

`Json.compact` writes a value without blanks, `Json.pretty` with one item a line.  Both are
`Json.write` with a `Style`, which says what stands before an item and after a key.
-/

namespace WingBox

namespace Json

/-- What is written between the tokens of a value. -/
structure Style where
  /-- Stands before an item at a depth, and before the end of its container. -/
  lineBreak : Nat → List Char
  /-- Stands between a key and its value. -/
  colon : List Char

namespace Style

/-- No blanks. -/
def compact : Style := ⟨fun _ => [], [':']⟩

/-- One item a line, indented by two blanks for each container. -/
def pretty : Style := ⟨fun depth => '\n' :: List.replicate (2 * depth) ' ', [':', ' ']⟩

end Style

/-! ### Strings -/

/-- A hexadecimal digit, letters in lower case. -/
def hexChar (n : Nat) : Char :=
  if n < 10 then Char.ofNat ('0'.toNat + n) else Char.ofNat ('a'.toNat + (n - 10))

/-- The written form of a character in a string. -/
def escapeChar (c : Char) : List Char :=
  if c = '"' then ['\\', '"']
  else if c = '\\' then ['\\', '\\']
  else if c = '\x08' then ['\\', 'b']
  else if c = '\x0c' then ['\\', 'f']
  else if c = '\n' then ['\\', 'n']
  else if c = '\r' then ['\\', 'r']
  else if c = '\t' then ['\\', 't']
  else if c < ' ' then ['\\', 'u', '0', '0', hexChar (c.toNat / 16), hexChar (c.toNat % 16)]
  else [c]

/-- The written form of a text. -/
def quote (s : String) : List Char := '"' :: (s.toList.flatMap escapeChar ++ ['"'])

/-- The written form of a string; one that is no text is an unpaired surrogate. -/
def quote? : Option String → List Char
  | some s => quote s
  | none => ['"', '\\', 'u', 'd', '8', '0', '0', '"']

/-! ### Values -/

mutual

/-- The written form of a value at a depth. -/
def write (style : Style) (depth : Nat) : Json → List Char
  | null => ['n', 'u', 'l', 'l']
  | bool true => ['t', 'r', 'u', 'e']
  | bool false => ['f', 'a', 'l', 's', 'e']
  | number n => n.toChars
  | string s => quote? s
  | array [] => ['[', ']']
  | array (v :: vs) =>
    '[' :: (style.lineBreak (depth + 1) ++ write style (depth + 1) v
      ++ writeElements style (depth + 1) vs ++ style.lineBreak depth ++ [']'])
  | object [] => ['\x7b', '\x7d']
  | object ((k, v) :: ms) =>
    '\x7b' :: (style.lineBreak (depth + 1) ++ quote? k ++ style.colon
      ++ write style (depth + 1) v ++ writeMembers style (depth + 1) ms
      ++ style.lineBreak depth ++ ['\x7d'])

/-- The elements of an array that follow its first one. -/
def writeElements (style : Style) (depth : Nat) : List Json → List Char
  | [] => []
  | v :: vs => ',' :: (style.lineBreak depth ++ write style depth v ++ writeElements style depth vs)

/-- The members of an object that follow its first one. -/
def writeMembers (style : Style) (depth : Nat) : List (Option String × Json) → List Char
  | [] => []
  | (k, v) :: ms =>
    ',' :: (style.lineBreak depth ++ quote? k ++ style.colon ++ write style depth v
      ++ writeMembers style depth ms)

end

/-- The text of a value without blanks. -/
def compact (v : Json) : String := String.ofList (write .compact 0 v)

/-- The text of a value with one item a line. -/
def pretty (v : Json) : String := String.ofList (write .pretty 0 v)

end Json

end WingBox
