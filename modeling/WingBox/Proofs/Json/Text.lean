import WingBox.Proofs.Json.Scan

/-!
# Reading back JSON text

A value whose numbers are well formed is what the reader gets from its text (`Json.parse?_compact`
and `Json.parse?_pretty`).

Both texts are read by `Json.Reader.value?_write`, which takes any style that puts nothing but
blanks between the tokens, and any text that may follow a value.  Every token takes a character,
so the fuel of the reader is enough.
-/

namespace WingBox

namespace Json

/-! ### Well-formed values -/

mutual

/-- All numbers of a value are written as numbers. -/
def WellFormed : Json → Prop
  | number n => n.WellFormed
  | array vs => WellFormedElements vs
  | object ms => WellFormedMembers ms
  | _ => True

/-- All numbers of some elements are written as numbers. -/
def WellFormedElements : List Json → Prop
  | [] => True
  | v :: vs => WellFormed v ∧ WellFormedElements vs

/-- All numbers of some members are written as numbers. -/
def WellFormedMembers : List (Option String × Json) → Prop
  | [] => True
  | (_, v) :: ms => WellFormed v ∧ WellFormedMembers ms

end

theorem wellFormedElements_iff {vs : List Json} :
    WellFormedElements vs ↔ ∀ v ∈ vs, v.WellFormed := by
  induction vs with
  | nil => exact ⟨fun _ _ hv => absurd hv List.not_mem_nil, fun _ => trivial⟩
  | cons v vs ih => rw [WellFormedElements, ih, List.forall_mem_cons]

theorem wellFormedMembers_iff {ms : List (Option String × Json)} :
    WellFormedMembers ms ↔ ∀ m ∈ ms, m.2.WellFormed := by
  induction ms with
  | nil => exact ⟨fun _ _ hm => absurd hm List.not_mem_nil, fun _ => trivial⟩
  | cons m ms ih => rw [WellFormedMembers, ih, List.forall_mem_cons]

/-! ### Styles -/

open Reader

/-- A style that puts nothing but blanks between the tokens. -/
structure Style.Blank (style : Style) : Prop where
  /-- Blanks stand before an item. -/
  lineBreak : ∀ depth, Blanks (style.lineBreak depth)
  /-- Blanks stand after the colon. -/
  colon : ∃ bs, Blanks bs ∧ style.colon = ':' :: bs

theorem Style.blank_compact : Style.compact.Blank where
  lineBreak _ := nofun
  colon := ⟨[], nofun, rfl⟩

theorem Style.blank_pretty : Style.pretty.Blank where
  lineBreak depth := by
    rintro c (_ | ⟨_, hc⟩)
    · rfl
    · rw [List.eq_of_mem_replicate hc]
      rfl
  colon := by
    refine ⟨[' '], ?_, rfl⟩
    rintro c (_ | ⟨_, ⟨⟩⟩)
    rfl

/-! ### Tokens -/

namespace Reader

theorem Blanks.ends {bs : List Char} (h : Blanks bs) {cs : List Char} (hcs : Ends cs) :
    Ends (bs ++ cs) := by
  cases bs with
  | nil => exact hcs
  | cons b bs =>
    rintro _ ⟨⟩
    have hb := h b List.mem_cons_self
    simp only [isBlank, Bool.or_eq_true, decide_eq_true_eq] at hb
    obtain ((rfl | rfl) | rfl) | rfl := hb <;> exact ⟨rfl, by decide⟩

theorem value?_blanks {bs : List Char} (h : Blanks bs) (n : Nat) (cs : List Char) :
    value? n (bs ++ cs) = value? n cs := by
  cases n with
  | zero => rw [value?, value?]
  | succ n => rw [value?, value?, skipBlanks_append h]

theorem isBlank_toChar (d : Digit) : isBlank d.toChar = false := by
  revert d
  decide

/-- A written value begins with something that is no blank and closes no array. -/
theorem head_write (style : Style) (depth : Nat) {v : Json} (hv : v.WellFormed) :
    ∃ c cs, write style depth v = c :: cs ∧ isBlank c = false ∧ c ≠ ']' := by
  match v with
  | .null | .bool true | .bool false | .string (some _) | .string none | .array [] | .array (_ :: _)
  | .object [] | .object (_ :: _) => exact ⟨_, _, by rw [write] <;> rfl, rfl, by decide⟩
  | .number n =>
    obtain ⟨c, cs, hcs, rfl | ⟨d, rfl⟩⟩ := head_toChars hv
    · exact ⟨_, cs, by rw [write, hcs], rfl, by decide⟩
    · exact ⟨_, cs, by rw [write, hcs], isBlank_toChar d, d.toChar_ne rfl⟩

/-- A number is read where no other value begins. -/
theorem value?_number {x : Numeral} (hx : x.WellFormed) {n : Nat} {r : List Char} (hr : Ends r) :
    value? (n + 1) (x.toChars ++ r) = some (.number x, r) := by
  have hread := numeral?_toChars hx hr
  obtain ⟨c, cs, hcs, hc⟩ := head_toChars hx
  have hblank : isBlank c = false := by
    obtain rfl | ⟨d, rfl⟩ := hc
    · rfl
    · exact isBlank_toChar d
  have hother : ∀ e, Digit.ofChar? e = none → e ≠ '-' → c ≠ e := by
    rintro e he hne rfl
    obtain rfl | ⟨d, rfl⟩ := hc
    · exact hne rfl
    · exact d.toChar_ne he rfl
  rw [hcs, List.cons_append] at hread ⊢
  rw [value?, skipBlanks_cons hblank]
  -- the reader takes the branch of numbers, since no other one starts with this character
  split
  all_goals
    first
    | rw [hread]; rfl
    | next heq => exact absurd (List.cons.inj heq).1 (hother _ rfl (by decide))

/-! ### Containers -/

section Containers

variable {n : Nat} {bs cs cs' r : List Char} {v : Json} {vs : List Json} {k : Option String}
  {ms : List (Option String × Json)}

theorem value?_array {c : Char} (hbs : Blanks bs) (hc : isBlank c = false) (hclose : c ≠ ']')
    (h : elements? n (c :: cs) = some (vs, r)) :
    value? (n + 1) ('[' :: (bs ++ c :: cs)) = some (.array vs, r) := by
  rw [value?, skipBlanks_cons rfl]
  simp only [skipBlanks_append hbs, skipBlanks_cons hc]
  split
  next heq => exact absurd (List.cons.inj heq).1 hclose
  next => rw [h]; rfl

theorem value?_object (hbs : Blanks bs) (h : members? n ('"' :: cs) = some (ms, r)) :
    value? (n + 1) ('\x7b' :: (bs ++ '"' :: cs)) = some (.object ms, r) := by
  rw [value?, skipBlanks_cons rfl]
  simp only [skipBlanks_append hbs, skipBlanks_cons (show isBlank '"' = false from rfl)]
  change (members? n ('"' :: cs)).bind (fun x => some (Json.object x.1, x.2)) = _
  rw [h]
  rfl

theorem elements?_last (hbs : Blanks bs) (h : value? n cs = some (v, bs ++ ']' :: r)) :
    elements? (n + 1) cs = some ([v], r) := by
  rw [elements?, h]
  simp only [Option.bind_eq_bind, Option.bind_some, skipBlanks_append hbs,
    skipBlanks_cons (show isBlank ']' = false from rfl), Option.pure_def]

theorem elements?_cons (h : value? n cs = some (v, ',' :: cs'))
    (hrest : elements? n cs' = some (vs, r)) : elements? (n + 1) cs = some (v :: vs, r) := by
  rw [elements?, h]
  simp only [Option.bind_eq_bind, Option.bind_some,
    skipBlanks_cons (show isBlank ',' = false from rfl), hrest, Option.pure_def]

theorem members?_last (hbs : Blanks bs) (hkey : key? cs = some (k, cs'))
    (h : value? n cs' = some (v, bs ++ '\x7d' :: r)) :
    members? (n + 1) cs = some ([(k, v)], r) := by
  rw [members?, hkey]
  simp only [Option.bind_eq_bind, Option.bind_some, h, skipBlanks_append hbs,
    skipBlanks_cons (show isBlank '\x7d' = false from rfl), Option.pure_def]

theorem members?_cons {cs'' : List Char} (hkey : key? cs = some (k, cs'))
    (h : value? n cs' = some (v, ',' :: cs'')) (hrest : members? n cs'' = some (ms, r)) :
    members? (n + 1) cs = some ((k, v) :: ms, r) := by
  rw [members?, hkey]
  simp only [Option.bind_eq_bind, Option.bind_some, h,
    skipBlanks_cons (show isBlank ',' = false from rfl), hrest, Option.pure_def]

theorem key?_quote? (hbs : Blanks bs) (k : Option String) (cs : List Char) :
    key? (bs ++ (quote? k ++ ':' :: cs)) = some (k, cs) := by
  obtain ⟨r, hr, hread⟩ := string?_quote? k (':' :: cs)
  rw [key?, skipBlanks_append hbs, hr, skipBlanks_cons rfl]
  simp only [hread, Option.bind_eq_bind, Option.bind_some,
    skipBlanks_cons (show isBlank ':' = false from rfl), Option.pure_def]

end Containers

/-! ### Values -/

section Values

variable {style : Style}

theorem ends_cons {c : Char} (hc : Digit.ofChar? c = none) (hother : c ≠ '.' ∧ c ≠ 'e' ∧ c ≠ 'E')
    (r : List Char) : Ends (c :: r) := by
  rintro _ ⟨⟩
  exact ⟨hc, hother⟩

theorem ends_writeElements (style : Style) (depth : Nat) (vs : List Json) {r : List Char}
    (hr : Ends r) : Ends (writeElements style depth vs ++ r) := by
  cases vs with
  | nil => rwa [writeElements, List.nil_append]
  | cons v vs =>
    rw [writeElements, List.cons_append]
    exact ends_cons rfl (by decide) _

theorem ends_writeMembers (style : Style) (depth : Nat) (ms : List (Option String × Json))
    {r : List Char} (hr : Ends r) : Ends (writeMembers style depth ms ++ r) := by
  cases ms with
  | nil => rwa [writeMembers, List.nil_append]
  | cons m ms =>
    rw [writeMembers, List.cons_append]
    exact ends_cons rfl (by decide) _

-- The fuel goes down by one into a container, over each separator and into an item, for which the
-- two brackets and the separators pay.  Blanks are read without fuel.

mutual

/-- A written value reads back wherever it may end, if the fuel is as long as its text. -/
theorem value?_write (hs : style.Blank) (depth : Nat) : ∀ (v : Json), v.WellFormed →
    ∀ {n : Nat} {r : List Char}, Ends r → (write style depth v).length ≤ n →
      value? n (write style depth v ++ r) = some (v, r)
  | .null, _, n + 1, r, _, _ => by rw [write]; rfl
  | .bool true, _, n + 1, r, _, _ => by rw [write]; rfl
  | .bool false, _, n + 1, r, _, _ => by rw [write]; rfl
  | .number x, hx, n + 1, r, hr, _ => by
    rw [write]
    exact value?_number hx hr
  | .string s, _, n + 1, r, _, _ => by
    obtain ⟨cs, hcs, hread⟩ := string?_quote? s r
    rw [write, hcs, value?, skipBlanks_cons rfl]
    simp only [hread, Option.bind_eq_bind, Option.bind_some, Option.pure_def]
  | .array [], _, n + 1, r, _, _ => by rw [write]; rfl
  | .array (v :: vs), hv, n + 1, r, hr, hn => by
    obtain ⟨hv, hvs⟩ := hv
    obtain ⟨c, cs, hcs, hblank, hclose⟩ := head_write style (depth + 1) hv
    simp only [write, List.length_cons, List.length_append] at hn
    cases n with
    | zero => omega
    | succ n =>
      have hends := (hs.lineBreak depth).ends (ends_cons (c := ']') rfl (by decide) r)
      have hfirst := value?_write hs (depth + 1) v hv (n := n)
        (ends_writeElements style (depth + 1) vs hends) (by omega)
      have hall := elements?_write hs (depth + 1) vs hvs (hs.lineBreak depth) hfirst (by omega)
      simp only [write, List.cons_append, List.append_assoc, List.nil_append]
      rw [hcs] at hall ⊢
      exact value?_array (hs.lineBreak (depth + 1)) hblank hclose hall
  | .object [], _, n + 1, r, _, _ => by rw [write]; rfl
  | .object ((k, v) :: ms), hv, n + 1, r, hr, hn => by
    obtain ⟨hv, hms⟩ := hv
    obtain ⟨bs, hbs, hcolon⟩ := hs.colon
    simp only [write, hcolon, List.length_cons, List.length_append] at hn
    cases n with
    | zero => omega
    | succ n =>
      have hends := (hs.lineBreak depth).ends (ends_cons (c := '\x7d') rfl (by decide) r)
      have hfirst := value?_write hs (depth + 1) v hv (n := n)
        (ends_writeMembers style (depth + 1) ms hends) (by omega)
      -- blanks may stand between the colon and the value, and before the first name
      rw [← value?_blanks hbs] at hfirst
      have hkey := key?_quote? (show Blanks [] from nofun) k
      have hall := members?_write hs (depth + 1) ms hms (hs.lineBreak depth) (hkey _) hfirst
        (by omega)
      obtain ⟨cs, hcs, -⟩ := string?_quote? k (':' :: (bs ++ (write style (depth + 1) v
        ++ (writeMembers style (depth + 1) ms ++ (style.lineBreak depth ++ '\x7d' :: r)))))
      simp only [write, hcolon, List.cons_append, List.append_assoc, List.nil_append] at hall ⊢
      rw [hcs] at hall ⊢
      exact value?_object (hs.lineBreak (depth + 1)) hall
  | .number _, hx, 0, _, _, hn => by
    obtain ⟨c, cs, hcs, -⟩ := head_toChars hx
    rw [write, hcs] at hn
    exact absurd hn (Nat.not_succ_le_zero _)
  | .string (some _), _, 0, _, _, hn | .string none, _, 0, _, _, hn => by
    exact absurd hn (Nat.not_succ_le_zero _)

/-- The elements after the first one read back up to the bracket. -/
theorem elements?_write (hs : style.Blank) (depth : Nat) : ∀ (vs : List Json),
    WellFormedElements vs → ∀ {n : Nat} {bs cs r : List Char} {v : Json}, Blanks bs →
      value? n cs = some (v, writeElements style depth vs ++ (bs ++ ']' :: r)) →
      (writeElements style depth vs).length ≤ n → elements? (n + 1) cs = some (v :: vs, r)
  | [], _, n, bs, cs, r, v, hbs, h, _ => elements?_last hbs h
  | w :: ws, ⟨hw, hws⟩, 0, bs, cs, r, v, hbs, h, hn => absurd hn (Nat.not_succ_le_zero _)
  | w :: ws, ⟨hw, hws⟩, n + 1, bs, cs, r, v, hbs, h, hn => by
    simp only [writeElements, List.length_cons, List.length_append] at hn
    have hends := hbs.ends (ends_cons (c := ']') rfl (by decide) r)
    have hnext := value?_write hs depth w hw (n := n) (ends_writeElements style depth ws hends)
      (by omega)
    rw [← value?_blanks (hs.lineBreak depth)] at hnext
    simp only [writeElements, List.cons_append, List.append_assoc] at h
    exact elements?_cons h (elements?_write hs depth ws hws hbs hnext (by omega))

/-- The members after the first one read back up to the brace. -/
theorem members?_write (hs : style.Blank) (depth : Nat) : ∀ (ms : List (Option String × Json)),
    WellFormedMembers ms → ∀ {n : Nat} {bs cs cs' r : List Char} {k : Option String} {v : Json},
      Blanks bs → key? cs = some (k, cs') →
      value? n cs' = some (v, writeMembers style depth ms ++ (bs ++ '\x7d' :: r)) →
      (writeMembers style depth ms).length ≤ n → members? (n + 1) cs = some ((k, v) :: ms, r)
  | [], _, n, bs, cs, cs', r, k, v, hbs, hkey, h, _ => members?_last hbs hkey h
  | (j, w) :: ms, ⟨hw, hms⟩, 0, bs, cs, cs', r, k, v, hbs, hkey, h, hn =>
    absurd hn (Nat.not_succ_le_zero _)
  | (j, w) :: ms, ⟨hw, hms⟩, n + 1, bs, cs, cs', r, k, v, hbs, hkey, h, hn => by
    obtain ⟨cb, hcb, hcolon⟩ := hs.colon
    simp only [writeMembers, hcolon, List.length_cons, List.length_append] at hn
    have hends := hbs.ends (ends_cons (c := '\x7d') rfl (by decide) r)
    have hnext := value?_write hs depth w hw (n := n) (ends_writeMembers style depth ms hends)
      (by omega)
    rw [← value?_blanks hcb] at hnext
    simp only [writeMembers, hcolon, List.cons_append, List.append_assoc] at h
    exact members?_cons hkey h (members?_write hs depth ms hms hbs
      (key?_quote? (hs.lineBreak depth) j _) hnext (by omega))

end

end Values

end Reader

/-! ### Texts -/

theorem parse?_write {style : Style} (hs : style.Blank) {v : Json} (hv : v.WellFormed) :
    parse? (String.ofList (write style 0 v)) = some v := by
  have hread := value?_write hs 0 v hv (n := (write style 0 v).length + 1) (r := []) nofun
    (Nat.le_succ _)
  rw [List.append_nil] at hread
  rw [parse?, String.length_ofList, String.toList_ofList, hread]
  rfl

/-- **A value reads back from its text without blanks.** -/
theorem parse?_compact {v : Json} (hv : v.WellFormed) : parse? v.compact = some v :=
  parse?_write Style.blank_compact hv

/-- **A value reads back from its text with one item a line.** -/
theorem parse?_pretty {v : Json} (hv : v.WellFormed) : parse? v.pretty = some v :=
  parse?_write Style.blank_pretty hv

end Json

end WingBox
