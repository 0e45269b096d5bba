import WingBox.Json.Reader
import WingBox.Json.Writer
import Mathlib.Tactic.SplitIfs

/-!
# Reading back strings and numbers

The scanners of the reader take back what the writer wrote, whatever text follows it.

* `chars?_escaped`, `string?_quote?`: strings, those that are no text included;
* `digits_chars`: digits, which have to be followed by something else (`NoDigit`);
* `numeral?_toChars`: numbers that are `Numeral.WellFormed`, where a value may end (`Ends`).
-/

namespace WingBox

/-! ### Digits -/

theorem Digit.ofChar?_toChar (d : Digit) : Digit.ofChar? d.toChar = some d := by
  revert d
  decide

theorem Digit.toChar_ne (d : Digit) {c : Char} (hc : Digit.ofChar? c = none) : d.toChar ≠ c := by
  rintro rfl
  rw [ofChar?_toChar] at hc
  exact nomatch hc

/-- The characters do not go on with a digit. -/
def NoDigit (cs : List Char) : Prop := ∀ c ∈ cs.head?, Digit.ofChar? c = none

theorem NoDigit.cons {c : Char} (h : Digit.ofChar? c = none) (r : List Char) :
    NoDigit (c :: r) := by
  rintro _ ⟨⟩
  exact h

namespace Decimal

theorem toDigits_ne_nil (n : Nat) : toDigits n ≠ [] := by
  rw [toDigits]
  split <;> simp

/-- The digits of a number begin with a zero only if the number is zero. -/
theorem head_toDigits {n : Nat} (hn : n ≠ 0) : (toDigits n).head? ≠ some Digit.zero := by
  induction n using Nat.strongRecOn with
  | ind n ih =>
    rw [toDigits]
    split
    next hlt =>
      rw [List.head?_cons, ne_eq, Option.some.injEq, Digit.zero, Fin.mk.injEq]
      exact hn
    next hge =>
      have hhead : (toDigits (n / 10)).head? = some _ := List.head?_eq_some_head (toDigits_ne_nil _)
      have hrest := ih (n / 10) (by omega) (by omega)
      rw [List.head?_append, hhead]
      rwa [hhead] at hrest

end Decimal

/-! ### Written numbers -/

/-- The digits before a point: there are some, and a zero comes first only if it stands alone. -/
structure Decimal.WholePart (ds : List Digit) : Prop where
  /-- There is a digit. -/
  ne_nil : ds ≠ []
  /-- No zero comes before other digits. -/
  no_zero : ds.length ≠ 1 → ds.head? ≠ some Digit.zero

/-- A numeral that is written as a number. -/
structure Numeral.WellFormed (n : Numeral) : Prop where
  /-- The digits before the point. -/
  whole : Decimal.WholePart n.whole
  /-- An exponent has digits. -/
  exponent : ∀ e ∈ n.exponent, e.2 ≠ []

namespace Json.Reader

/-! ### Blanks -/

/-- The characters are blanks. -/
def Blanks (cs : List Char) : Prop := ∀ c ∈ cs, isBlank c = true

theorem skipBlanks_append {bs : List Char} (h : Blanks bs) (cs : List Char) :
    skipBlanks (bs ++ cs) = skipBlanks cs := by
  rw [skipBlanks, skipBlanks, List.dropWhile_append_of_pos h]

theorem skipBlanks_cons {c : Char} (h : isBlank c = false) (r : List Char) :
    skipBlanks (c :: r) = c :: r := by
  rw [skipBlanks, List.dropWhile_cons, h]
  rfl

/-! ### Strings -/

theorem hexDigit?_hexChar {n : Nat} (h : n < 16) : hexDigit? (hexChar n) = some n := by
  revert n
  decide

/-- A control character from its two hexadecimal digits. -/
theorem hexUnit?_control {n : Nat} (h : n < 32) :
    hexUnit? '0' '0' (hexChar (n / 16)) (hexChar (n % 16)) = some n := by
  have hzero : hexDigit? '0' = some 0 := rfl
  simp only [hexUnit?, hzero, hexDigit?_hexChar (show n / 16 < 16 by omega),
    hexDigit?_hexChar (show n % 16 < 16 by omega), Option.bind_eq_bind, Option.bind_some,
    Option.pure_def, Option.some.injEq]
  omega

theorem chars?_escaped {c e : Char} (h : escaped? c = some e) (hc : c ≠ 'u') (r : List Char) :
    chars? ('\\' :: c :: r) = (chars? r).map fun (s, rest) => (s.map (e :: ·), rest) := by
  rw [chars?]
  · rw [h]
    cases chars? r <;> rfl
  · rintro a b c' d r' rfl
    exact absurd rfl hc

theorem chars?_plain {c : Char} (hquote : c ≠ '"') (hslash : c ≠ '\\') (hc : ¬ c < ' ')
    (r : List Char) :
    chars? (c :: r) = (chars? r).map fun (s, rest) => (s.map (c :: ·), rest) := by
  rw [chars?, if_neg hc]
  · cases chars? r <;> rfl
  · exact hquote
  · rintro a b c' d r' rfl
    exact absurd rfl hslash
  · rintro c' r' rfl
    exact absurd rfl hslash

theorem chars?_control {c : Char} (hc : c < ' ') (r : List Char) :
    chars? ('\\' :: 'u' :: '0' :: '0' :: hexChar (c.toNat / 16) :: hexChar (c.toNat % 16) :: r) =
      (chars? r).map fun (s, rest) => (s.map (c :: ·), rest) := by
  -- control characters are no halves of pairs
  have hlt : c.toNat < 32 := hc
  have hhigh : isHighSurrogate c.toNat = false := by
    simp only [isHighSurrogate, Bool.and_eq_false_imp, decide_eq_true_eq]
    omega
  have hlow : isLowSurrogate c.toNat = false := by
    simp only [isLowSurrogate, Bool.and_eq_false_imp, decide_eq_true_eq]
    omega
  rw [chars?, hexUnit?_control hlt]
  simp only [Option.bind_eq_bind, Option.bind_some, hhigh, hlow, Bool.false_eq_true, if_false,
    Char.ofNat_toNat]
  cases chars? r <;> rfl

/-- A written character reads back, and the rest of the string is read on its own. -/
theorem chars?_escapeChar (c : Char) (r : List Char) :
    chars? (escapeChar c ++ r) = (chars? r).map fun (s, rest) => (s.map (c :: ·), rest) := by
  unfold escapeChar
  split_ifs with hquote hslash hb hf hn hr ht hcontrol
  · subst hquote
    exact chars?_escaped rfl (by decide) r
  · subst hslash
    exact chars?_escaped rfl (by decide) r
  · subst hb
    exact chars?_escaped rfl (by decide) r
  · subst hf
    exact chars?_escaped rfl (by decide) r
  · subst hn
    exact chars?_escaped rfl (by decide) r
  · subst hr
    exact chars?_escaped rfl (by decide) r
  · subst ht
    exact chars?_escaped rfl (by decide) r
  · exact chars?_control hcontrol r
  · exact chars?_plain hquote hslash hcontrol r

theorem chars?_flatMap_escapeChar (cs r : List Char) :
    chars? (cs.flatMap escapeChar ++ '"' :: r) = some (some cs, r) := by
  induction cs with
  | nil => rw [List.flatMap_nil, List.nil_append, chars?]
  | cons c cs ih =>
    rw [List.flatMap_cons, List.append_assoc, chars?_escapeChar, ih]
    rfl

/-- A written string reads back, the unpaired surrogate as one that is no text. -/
theorem string?_quote? (s : Option String) (r : List Char) :
    ∃ cs, quote? s ++ r = '"' :: cs ∧ string? cs = some (s, r) := by
  cases s with
  | none =>
    -- what is written for a string that is no text is a half of a pair
    refine ⟨'\\' :: 'u' :: 'd' :: '8' :: '0' :: '0' :: '"' :: r, rfl, ?_⟩
    have hend : chars? ('"' :: r) = some (some [], r) := by rw [chars?]
    have hunit : hexUnit? 'd' '8' '0' '0' = some 0xD800 := rfl
    rw [string?, chars?, hunit]
    change (((chars? ('"' :: r)).bind fun x => some (none, x.2)).bind
      fun x => some (x.1.map String.ofList, x.2)) = _
    rw [hend]
    rfl
  | some s =>
    refine ⟨s.toList.flatMap escapeChar ++ '"' :: r, ?_, ?_⟩
    · simp only [quote?, quote, List.cons_append, List.append_assoc, List.nil_append]
    · rw [string?, chars?_flatMap_escapeChar]
      simp only [Option.bind_eq_bind, Option.bind_some, Option.pure_def, Option.map_some,
        String.ofList_toList]

/-! ### Numbers -/

theorem digits_chars (ds : List Digit) {r : List Char} (h : NoDigit r) :
    digits (Decimal.chars ds ++ r) = (ds, r) := by
  induction ds with
  | nil =>
    cases r with
    | nil => rfl
    | cons c r =>
      rw [Decimal.chars, List.map_nil, List.nil_append, digits, h c rfl]
  | cons d ds ih =>
    rw [Decimal.chars, List.map_cons, List.cons_append, digits, Digit.ofChar?_toChar]
    rw [Decimal.chars] at ih
    rw [ih]

theorem digits?_chars {ds : List Digit} (hds : ds ≠ []) {r : List Char} (h : NoDigit r) :
    digits? (Decimal.chars ds ++ r) = some (ds, r) := by
  rw [digits?, digits_chars ds h]
  cases ds with
  | nil => exact absurd rfl hds
  | cons d ds => rfl

theorem whole?_chars {ds : List Digit} (hds : Decimal.WholePart ds) {r : List Char}
    (h : NoDigit r) : whole? (Decimal.chars ds ++ r) = some (ds, r) := by
  rw [whole?, digits_chars ds h]
  split
  next heq => exact absurd (congrArg Prod.fst heq) hds.ne_nil
  next d ds' heq =>
    obtain ⟨rfl, -⟩ := Prod.mk.inj heq
    exact absurd rfl (hds.no_zero (by simp))
  next => rfl

/-- A number may end before the characters. -/
def Ends (cs : List Char) : Prop :=
  ∀ c ∈ cs.head?, Digit.ofChar? c = none ∧ c ≠ '.' ∧ c ≠ 'e' ∧ c ≠ 'E'

theorem Ends.noDigit {cs : List Char} (h : Ends cs) : NoDigit cs := fun c hc => (h c hc).1

theorem exponentDigits?_chars {ds : List Digit} (hds : ds ≠ []) {r : List Char} (h : NoDigit r) :
    exponentDigits? (Decimal.chars ds ++ r) = some ((.none, ds), r) := by
  have hread := digits?_chars hds h
  obtain ⟨d, ds, rfl⟩ := List.exists_cons_of_ne_nil hds
  -- a digit comes first, so no sign does
  rw [Decimal.chars, List.map_cons, List.cons_append] at hread ⊢
  rw [exponentDigits?, hread]
  · rfl
  · rintro r' heq
    exact d.toChar_ne rfl (List.cons.inj heq).1
  · rintro r' heq
    exact d.toChar_ne rfl (List.cons.inj heq).1

theorem exponent?_exponentChars {e : Option (ExponentSign × List Digit)}
    (he : ∀ p ∈ e, p.2 ≠ []) {r : List Char} (h : Ends r) :
    exponent? (Numeral.exponentChars e ++ r) = some (e, r) := by
  cases e with
  | none =>
    rw [Numeral.exponentChars, List.nil_append, exponent?]
    · rintro r' rfl
      exact (h _ rfl).2.2.1 rfl
    · rintro r' rfl
      exact (h _ rfl).2.2.2 rfl
  | some p =>
    obtain ⟨sign, ds⟩ := p
    have hds := digits?_chars (he _ rfl) h.noDigit
    cases sign with
    | none =>
      simp only [Numeral.exponentChars, List.cons_append, exponent?,
        exponentDigits?_chars (he _ rfl) h.noDigit, Option.bind_eq_bind, Option.bind_some,
        Option.pure_def]
    | plus =>
      simp only [Numeral.exponentChars, List.cons_append, exponent?, exponentDigits?, hds,
        Option.bind_eq_bind, Option.bind_some, Option.pure_def]
    | minus =>
      simp only [Numeral.exponentChars, List.cons_append, exponent?, exponentDigits?, hds,
        Option.bind_eq_bind, Option.bind_some, Option.pure_def]

/-- What follows the digits of a number is no digit and no point. -/
theorem head_exponentChars (e : Option (ExponentSign × List Digit)) {r : List Char} (h : Ends r) :
    ∀ c ∈ (Numeral.exponentChars e ++ r).head?, Digit.ofChar? c = none ∧ c ≠ '.' := by
  match e with
  | .none => exact fun c hc => ⟨(h c hc).1, (h c hc).2.1⟩
  | .some (.none, _) | .some (.plus, _) | .some (.minus, _) =>
    rintro _ ⟨⟩
    exact ⟨rfl, by decide⟩

theorem fraction?_chars (ds : List Digit) {r : List Char}
    (h : ∀ c ∈ r.head?, Digit.ofChar? c = none ∧ c ≠ '.') :
    fraction? ((if ds.isEmpty then [] else '.' :: Decimal.chars ds) ++ r) = some (ds, r) := by
  cases ds with
  | nil =>
    rw [List.isEmpty_nil, if_pos rfl, List.nil_append, fraction?]
    rintro r' rfl
    exact (h _ rfl).2 rfl
  | cons d ds =>
    rw [List.isEmpty_cons, if_neg Bool.false_ne_true, List.cons_append, fraction?]
    exact digits?_chars (List.cons_ne_nil d ds) fun c hc => (h c hc).1

theorem magnitude?_chars {n : Numeral} (hn : n.WellFormed) {r : List Char} (h : Ends r) :
    magnitude? n.negative (Decimal.chars n.whole
      ++ ((if n.fraction.isEmpty then [] else '.' :: Decimal.chars n.fraction)
        ++ (Numeral.exponentChars n.exponent ++ r))) = some (n, r) := by
  have hexp := head_exponentChars n.exponent h
  have hwhole : NoDigit ((if n.fraction.isEmpty then [] else '.' :: Decimal.chars n.fraction)
      ++ (Numeral.exponentChars n.exponent ++ r)) := by
    split_ifs
    · exact fun c hc => (hexp c hc).1
    · exact .cons rfl _
  rw [magnitude?, whole?_chars hn.whole hwhole]
  simp only [Option.bind_eq_bind, Option.bind_some, fraction?_chars _ hexp,
    exponent?_exponentChars hn.exponent h, Option.pure_def]

/-- A written number reads back. -/
theorem numeral?_toChars {n : Numeral} (hn : n.WellFormed) {r : List Char} (h : Ends r) :
    numeral? (n.toChars ++ r) = some (n, r) := by
  have hread := magnitude?_chars hn h
  simp only [Numeral.toChars, List.append_assoc]
  cases hneg : n.negative with
  | true =>
    rw [hneg] at hread
    rw [if_pos rfl, List.cons_append, List.nil_append, numeral?, hread]
  | false =>
    obtain ⟨d, ds, hds⟩ := List.exists_cons_of_ne_nil hn.whole.ne_nil
    rw [hneg] at hread
    rw [if_neg Bool.false_ne_true, List.nil_append, numeral?, hread]
    rintro r' heq
    rw [hds, Decimal.chars, List.map_cons, List.cons_append] at heq
    exact d.toChar_ne rfl (List.cons.inj heq).1

/-- A written number begins with a minus sign or a digit. -/
theorem head_toChars {n : Numeral} (hn : n.WellFormed) :
    ∃ c cs, n.toChars = c :: cs ∧ (c = '-' ∨ ∃ d : Digit, c = d.toChar) := by
  cases hneg : n.negative with
  | true => exact ⟨'-', _, by rw [Numeral.toChars, hneg]; rfl, .inl rfl⟩
  | false =>
    obtain ⟨d, ds, hds⟩ := List.exists_cons_of_ne_nil hn.whole.ne_nil
    exact ⟨d.toChar, _, by rw [Numeral.toChars, hneg, hds]; rfl, .inr ⟨d, rfl⟩⟩

end Json.Reader

end WingBox
