import Outmdsd.Foundations.Numerals
import Mathlib.Data.List.Forall2

/-!
# Texts put together for JSON values

A program that writes JSON by putting texts together between quotes, brackets and commas writes
what it means only under conditions on these texts. A `Spelling` is such a text together with the
value it is meant for, the values that would do (`Decodes`) and the condition under which it is read
as the value (`Cond`). Spellings are built like the texts are: `quoted`, `integer`, `bool`,
`literal` and `array`. Read as a whole, the text of a spelling gives a value that does if and only
if the condition holds (`Spelling.parse_iff`).

What follows a text matters too: a quoted text that ends in a backslash takes the closing quote in.
That it goes wrong rests on no backslash standing before the next quote (`QuoteFirst`).
-/

namespace Outmdsd.Json

open Alphabet

variable {α : Type*} [Alphabet α]

/-! ## Quoted texts -/

/-- No backslash stands before the first quote. -/
def QuoteFirst : List α → Prop
  | [] => True
  | c :: t => code c = 34 ∨ (code c ≠ 92 ∧ QuoteFirst t)

theorem QuoteFirst.append {s t : List α} (hs : ∀ c ∈ s, code c ≠ 92) (ht : QuoteFirst t) :
    QuoteFirst (s ++ t) := by
  induction s with
  | nil => exact ht
  | cons c s ih =>
    exact .inr ⟨hs c (by simp), ih fun d hd => hs d (by simp [hd])⟩

/-- A string read where no backslash stands before the first quote holds none. -/
theorem StringBody.of_quoteFirst {s d : List α} (h : StringBody s d) {q : α} {r : List α}
    (hf : QuoteFirst (s ++ q :: r)) : ∀ c ∈ d, code c ≠ 92 := by
  induction h with
  | nil => simp
  | @unit p u s d hp hs ih =>
    have escaped : ∀ {b : α} {t : List α}, code b = 92 → ¬ QuoteFirst (b :: t) := by
      rintro b t hb (h | h)
      · omega
      · exact h.1 hb
    cases hp with
    | @plain c hc =>
      rcases hf with hq | ⟨-, hf⟩
      · exact absurd hq hc.2.1
      · rintro c' (_ | ⟨_, hc'⟩)
        · exact hc.2.2
        · exact ih hf c' hc'
    | simple hb he => exact absurd hf (escaped hb)
    | unicode hb hu hd hn => exact absurd hf (escaped hb)
    | pair hb hu hd hh hb' hu' hd' hl => exact absurd hf (escaped hb)

theorem StringBody.of_plain {s : List α} (h : ∀ c ∈ s, Plain c) : StringBody s s := by
  induction s with
  | nil => exact .nil
  | cons c s ih => exact .unit (.plain (h c (by simp))) (ih fun d hd => h d (by simp [hd]))

omit [Alphabet α] in
theorem eq_append_of_notMem {p s x rest : List α} {q : α} (hp : q ∉ p)
    (h : p ++ x = s ++ q :: rest) : ∃ s', s = p ++ s' ∧ x = s' ++ q :: rest := by
  rcases List.append_eq_append_iff.mp h with ⟨a, rfl, rfl⟩ | ⟨a, rfl, e⟩
  · exact ⟨a, rfl, rfl⟩
  · cases a with
    | nil => exact ⟨[], by simp, by simpa using e.symm⟩
    | cons d a =>
      cases e
      exact absurd (by simp) hp

/-- What a quoted text is read as: itself, when it is plain; something shorter; or, when it ends in
a backslash, a string that goes on behind the closing quote. -/
theorem StringBody.splice {s' d : List α} (h : StringBody s' d) {s r rest : List α} {q : α}
    (hq : code q = 34) (e : s' ++ q :: r = s ++ q :: rest) :
    ((∀ c ∈ s, Plain c) ∧ d = s ∧ r = rest) ∨ d.length < s.length ∨
      ∃ b d₁ s₂ d₂, s.getLast? = some b ∧ code b = 92 ∧ d = d₁ ++ ascii 34 :: d₂ ∧
        StringBody s₂ d₂ ∧ rest = s₂ ++ q :: r := by
  induction h generalizing s with
  | nil =>
    cases s with
    | nil =>
      cases e
      exact .inl ⟨by simp, rfl, rfl⟩
    | cons c s => exact .inr (.inl (by simp))
  | @unit p u s' d hp hs ih =>
    rw [List.append_assoc] at e
    rcases hp.cases_quote with ⟨hnq, hu⟩ | ⟨b, e', rfl, hb, he, rfl⟩
    · obtain ⟨s, rfl, e₂⟩ := eq_append_of_notMem (fun hm => hnq q hm hq) e
      rcases ih e₂ with ⟨hpl, rfl, rfl⟩ | hlt | ⟨b, d₁, s₂, d₂, hl, hb, rfl, hs₂, rfl⟩
      · rcases hu with ⟨c, rfl, rfl, hc⟩ | hu
        · exact .inl ⟨by simpa [hc] using hpl, rfl, rfl⟩
        · exact .inr (.inl (by simpa using hu))
      · refine .inr (.inl ?_)
        have hle : u.length ≤ p.length := by
          rcases hu with ⟨c, rfl, rfl, -⟩ | hu
          · exact le_rfl
          · exact hu.le
        simp only [List.length_append]
        omega
      · exact .inr (.inr ⟨b, u ++ d₁, s₂, d₂, by simp [List.getLast?_append, hl], hb, by simp, hs₂,
          rfl⟩)
    · -- the escape of a quote: the closing one, or one inside the text
      match s, e with
      | [], e =>
        cases e
        omega
      | [c], e =>
        obtain ⟨rfl, rfl, rfl⟩ : b = c ∧ e' = q ∧ s' ++ q :: r = rest := by simpa using e
        exact .inr (.inr ⟨b, [], s', d, rfl, hb, rfl, hs, rfl⟩)
      | c :: c' :: s, e =>
        obtain ⟨rfl, rfl, e₂⟩ : b = c ∧ e' = c' ∧ s' ++ q :: r = s ++ q :: rest := by simpa using e
        rcases ih e₂ with ⟨-, rfl, -⟩ | hlt | ⟨b', d₁, s₂, d₂, hl, hb', rfl, hs₂, rfl⟩
        · exact .inr (.inl (by simp))
        · refine .inr (.inl ?_)
          simp only [List.length_append, List.length_cons, List.length_nil]
          omega
        · exact .inr (.inr ⟨b', ascii 34 :: d₁, s₂, d₂, by simp [List.getLast?_cons, hl], hb',
            by simp, hs₂, rfl⟩)

/-- A text that stands for itself between quotes. -/
def PlainText (s : List α) : Prop := (∀ c ∈ s, Plain c) ∧ isText s = true

instance (s : List α) : Decidable (PlainText s) := inferInstanceAs (Decidable (_ ∧ _))

theorem code_quote : code (ascii 34 : α) = 34 := code_ascii 34 (by decide)

theorem string_of_plainText {s : List α} (h : PlainText s) (rest : List α) :
    string (s ++ ascii 34 :: rest) = some (s, rest) := by
  have hr : rawString (s ++ ascii 34 :: rest) = some (s, rest) :=
    rawString_eq_some_iff.mpr ⟨s, _, .of_plain h.1, code_quote, rfl⟩
  simp only [string, hr, h.2, if_true]

/-- What is read as a string is so whatever follows. -/
theorem string_append {t s r : List α} (h : string t = some (s, r)) (rest : List α) :
    string (t ++ rest) = some (s, r ++ rest) := by
  unfold string at h
  split at h
  · cases h
  · rename_i hr
    split at h
    · rename_i ht
      cases h
      obtain ⟨s', q, hs, hq, rfl⟩ := rawString_eq_some_iff.mp hr
      have hr' : rawString (s' ++ q :: r ++ rest) = some (s, r ++ rest) :=
        rawString_eq_some_iff.mpr ⟨s', q, hs, hq, by simp⟩
      simp only [string, hr', ht, if_true]
    · cases h

/-- A quoted text that is read as itself is plain. -/
theorem plainText_of_string {s r rest : List α} (hf : QuoteFirst rest)
    (h : string (s ++ ascii 34 :: rest) = some (s, r)) : PlainText s := by
  unfold string at h
  split at h
  · cases h
  · rename_i hr
    split at h
    · rename_i ht
      cases h
      obtain ⟨s', q, hs, hq, e⟩ := rawString_eq_some_iff.mp hr
      obtain rfl : q = ascii 34 := code_injective (hq.trans code_quote.symm)
      rcases hs.splice hq e.symm with ⟨hp, -⟩ | hlt | ⟨b, d₁, s₂, d₂, hl, hb, ed, h₂, rfl⟩
      · exact ⟨hp, ht⟩
      · exact absurd hlt (lt_irrefl _)
      · -- the last element would be the backslash, and come from behind the closing quote
        rw [ed, List.getLast?_append_cons] at hl
        rcases List.mem_cons.mp (List.mem_of_getLast? hl) with rfl | hm
        · omega
        · exact absurd hb (h₂.of_quoteFirst hf b hm)
    · cases h

/-! ## Words and decimal numbers -/

/-- The text of ASCII characters. -/
def asciiText (cs : List Char) : List α := cs.map fun c => ascii c.toNat

/-- The decimal text of a number. -/
def digits (n : ℕ) : List α := asciiText (Nat.toDigits 10 n)

theorem strip_asciiText {cs : List Char} (h : ∀ c ∈ cs, c.toNat < 128) (rest : List α) :
    strip (cs.map Char.toNat) (asciiText cs ++ rest) = some rest := by
  induction cs with
  | nil => rfl
  | cons c cs ih =>
    exact (if_pos (code_ascii _ (h c (by simp)))).trans (ih fun d hd => h d (by simp [hd]))

variable (α) in
theorem code_of_mem_toDigits {n : ℕ} {c : Char} (hc : c ∈ Nat.toDigits 10 n) :
    code (ascii c.toNat : α) = c.toNat ∧ 48 ≤ c.toNat ∧ c.toNat ≤ 57 := by
  have hd := Char.isDigit_iff_toNat.mp (Nat.isDigit_of_mem_toDigits (by decide) (by decide) hc)
  have h0 : '0'.toNat = 48 := rfl
  have h9 : '9'.toNat = 57 := rfl
  rw [h0, h9] at hd
  exact ⟨code_ascii _ (by omega), hd⟩

theorem code_of_mem_digits {n : ℕ} {c : α} (hc : c ∈ (digits n : List α)) :
    48 ≤ code c ∧ code c ≤ 57 := by
  obtain ⟨c', hc', rfl⟩ := List.mem_map.mp hc
  obtain ⟨e, hd⟩ := code_of_mem_toDigits α hc'
  rwa [e]

theorem digitsValue_digits (n : ℕ) : digitsValue (digits n : List α) = n := by
  have fold : ∀ (cs : List Char) (v : ℕ), (∀ c ∈ cs, c ∈ Nat.toDigits 10 n) →
      (cs.map fun c => (ascii c.toNat : α)).foldl (fun v c => 10 * v + (code c - 48)) v =
        Nat.ofDigitChars 10 cs v := by
    intro cs
    induction cs with
    | nil => simp
    | cons c cs ih =>
      intro v hcs
      rw [List.map_cons, List.foldl_cons, ih _ fun d hd => hcs d (by simp [hd]),
        Nat.ofDigitChars_cons, (code_of_mem_toDigits α (hcs c (by simp))).1]
      rfl
  rw [digitsValue, digits, asciiText, fold _ _ fun c hc => hc]
  exact Nat.ofDigitChars_ten_toDigits

/-- A decimal text of two digits or more does not open with a zero. -/
theorem head_toDigits (n : ℕ) : 10 ≤ n → (Nat.toDigits 10 n).head? ≠ some '0' := by
  induction n using Nat.strong_induction_on with
  | _ n ih =>
    intro hn
    rw [Nat.toDigits_of_base_le (by decide) hn, List.head?_append_of_ne_nil _ Nat.toDigits_ne_nil]
    by_cases h : 10 ≤ n / 10
    · exact ih (n / 10) (by omega) h
    · rw [Nat.toDigits_of_lt_base (by omega)]
      have : ∀ m < 10, 0 < m → [m.digitChar].head? ≠ some '0' := by decide
      exact this _ (by omega) (by omega)

theorem integerPart_digits (n : ℕ) : IntegerPart (digits n : List α) where
  ne_nil h := Nat.toDigits_ne_nil (List.map_eq_nil_iff.mp h)
  isDigit c hc := by simpa [Json.isDigit] using code_of_mem_digits hc
  noZero hl hh := by
    rw [digits, asciiText, List.length_map] at hl
    have hn : 10 ≤ n := by
      by_contra hn
      rw [Nat.toDigits_of_lt_base (by omega)] at hl
      simp at hl
    rw [digits, asciiText, List.head?_map, Option.map_map, Option.map_eq_some_iff] at hh
    obtain ⟨c, hc, he⟩ := hh
    obtain ⟨e, -⟩ := code_of_mem_toDigits α (List.mem_of_head? hc)
    have : c = '0' := Char.toNat_inj.mp (e.symm.trans he)
    exact head_toDigits n hn (this ▸ hc)

theorem unsigned_digits (n : ℕ) : unsigned (digits n : List α) = some ((n : ℚ), []) := by
  rw [unsigned_integer (integerPart_digits n), digitsValue_digits]

/-! ## Spellings -/

/-- What stands behind a value inside an array, or nothing. -/
structure Follows (rest : List α) : Prop where
  quoteFirst : QuoteFirst rest
  ends : ∀ c ∈ rest.head?, code c = 44 ∨ code c = 93

theorem Follows.nil : Follows ([] : List α) := ⟨trivial, by simp⟩

theorem code_comma : code (ascii 44 : α) = 44 := code_ascii 44 (by decide)

theorem code_open : code (ascii 91 : α) = 91 := code_ascii 91 (by decide)

theorem code_close : code (ascii 93 : α) = 93 := code_ascii 93 (by decide)

@[simp] theorem skip_nil : skip ([] : List α) = [] := rfl

/-- A text written for a value. -/
structure Spelling (α : Type*) [Alphabet α] where
  text : List α
  /-- The value the text is meant for. -/
  val : Json α
  /-- The values that would do. -/
  Decodes : Json α → Prop
  Cond : Prop
  decodes_val : Decodes val
  opens : ∃ c t, text = c :: t ∧ isSpace c = false ∧ code c ≠ 93
  quoteFirst : ∀ rest, QuoteFirst rest → QuoteFirst (text ++ rest)
  reads : Cond → ∀ rest, Follows rest → ∀ fuel, 2 * (text ++ rest).length < fuel →
    value fuel (text ++ rest) = some (val, rest)
  cond : ∀ rest, Follows rest → ∀ fuel, 2 * (text ++ rest).length < fuel → ∀ w r,
    value fuel (text ++ rest) = some (w, r) → Decodes w → Cond

namespace Spelling

theorem skip_text (p : Spelling α) (rest : List α) : skip (p.text ++ rest) = p.text ++ rest := by
  obtain ⟨c, t, e, hs, -⟩ := p.opens
  rw [e, List.cons_append, skip, List.dropWhile_cons_of_neg (by simp [hs])]

/-- A text whose condition holds is read as its value. -/
theorem parse_text (p : Spelling α) (hc : p.Cond) : parse p.text = some p.val := by
  have hs : skip p.text = p.text := by simpa using p.skip_text []
  have hv := p.reads hc [] .nil (2 * p.text.length + 1) (by simp)
  rw [List.append_nil] at hv
  simp only [parse, hs, hv, skip_nil, if_true]

/-- **Spellings.** Read as a whole, the text of a spelling gives a value that does if and only if
its condition holds. -/
theorem parse_iff (p : Spelling α) : (∃ w, parse p.text = some w ∧ p.Decodes w) ↔ p.Cond := by
  constructor
  · rintro ⟨w, hw, hd⟩
    have hs : skip p.text = p.text := by simpa using p.skip_text []
    unfold parse at hw
    rw [hs] at hw
    split at hw
    · rename_i v t hv
      split at hw
      · cases hw
        exact p.cond [] .nil (2 * p.text.length + 1) (by simp) w t (by simpa using hv) hd
      · cases hw
    · cases hw
  · exact fun hc => ⟨p.val, p.parse_text hc, p.decodes_val⟩

/-- The text as a spelling of which any value will do. -/
def anything (p : Spelling α) (hc : p.Cond) : Spelling α :=
  { p with
    Decodes := fun _ => True
    decodes_val := trivial
    cond := fun _ _ _ _ _ _ _ _ => hc }

/-! ### Strings -/

/-- A text between quotes. -/
def quoted (s : List α) : Spelling α where
  text := ascii 34 :: (s ++ [ascii 34])
  val := .str s
  Decodes w := w = .str s
  Cond := PlainText s
  decodes_val := rfl
  opens := ⟨_, _, rfl, by simp [isSpace, code_quote], by simp [code_quote]⟩
  quoteFirst _ _ := .inl code_quote
  reads hc rest _ fuel hf := by
    obtain ⟨fuel, rfl⟩ := Nat.exists_eq_succ_of_ne_zero (Nat.ne_zero_of_lt hf)
    simp [value, code_quote, string_of_plainText hc]
  cond rest hr fuel hf w r hv hw := by
    obtain ⟨fuel, rfl⟩ := Nat.exists_eq_succ_of_ne_zero (Nat.ne_zero_of_lt hf)
    subst hw
    simp only [List.cons_append, List.append_assoc, List.nil_append, value, code_quote, if_true,
      Option.map_eq_some_iff] at hv
    obtain ⟨⟨s', r'⟩, hs, he⟩ := hv
    cases he
    exact plainText_of_string hr.quoteFirst hs

/-- A JSON literal of a string. -/
def literal (t s : List α) (h : ∃ body, t = ascii 34 :: body ∧ string body = some (s, [])) :
    Spelling α where
  text := t
  val := .str s
  Decodes w := w = .str s
  Cond := True
  decodes_val := rfl
  opens := by
    obtain ⟨body, rfl, -⟩ := h
    exact ⟨_, _, rfl, by simp [isSpace, code_quote], by simp [code_quote]⟩
  quoteFirst rest _ := by
    obtain ⟨body, rfl, -⟩ := h
    exact .inl code_quote
  reads _ rest _ fuel hf := by
    obtain ⟨body, rfl, hs⟩ := h
    obtain ⟨fuel, rfl⟩ := Nat.exists_eq_succ_of_ne_zero (Nat.ne_zero_of_lt hf)
    simp [value, code_quote, string_append hs]
  cond _ _ _ _ _ _ _ _ := trivial

/-! ### Numbers and Booleans -/

/-- The decimal text of an integer. -/
def integerText (n : ℤ) : List α :=
  if n < 0 then ascii 45 :: digits n.natAbs else digits n.natAbs

theorem number_integerText (n : ℤ) :
    Json.number (integerText n : List α) = some ((n : ℚ), []) := by
  have hd := unsigned_digits (α := α) n.natAbs
  unfold integerText
  split
  · obtain ⟨m, rfl⟩ : ∃ m : ℕ, n = -m := ⟨n.natAbs, by omega⟩
    rw [number_minus hd]
    simp
  · obtain ⟨m, rfl⟩ : ∃ m : ℕ, n = m := ⟨n.natAbs, by omega⟩
    rw [number_of_unsigned hd]
    simp

/-- A text that opens with none of the letters of a literal is a number. -/
theorem value_number {c : α} {t : List α} (hc : code c = 45 ∨ (48 ≤ code c ∧ code c ≤ 57))
    (fuel : ℕ) : value (fuel + 1) (c :: t) = (number (c :: t)).map fun r => (.num r.1, r.2) := by
  have h₁ : strip ("true".toList.map Char.toNat) (c :: t) = none :=
    if_neg (show ¬ code c = 116 by omega)
  have h₂ : strip ("false".toList.map Char.toNat) (c :: t) = none :=
    if_neg (show ¬ code c = 102 by omega)
  have h₃ : strip ("null".toList.map Char.toNat) (c :: t) = none :=
    if_neg (show ¬ code c = 110 by omega)
  rw [value, if_neg (by omega), if_neg (by omega), if_neg (by omega)]
  simp only [scalar, h₁, h₂, h₃]

theorem number_opens {s r : List α} {q : ℚ} (h : Json.number s = some (q, r)) :
    ∃ c t, s = c :: t ∧ isSpace c = false ∧ code c ≠ 93 := by
  cases s with
  | nil => cases h
  | cons c t =>
    have hc := head_number h
    refine ⟨c, t, rfl, ?_, by omega⟩
    simp only [isSpace, Bool.or_eq_false_iff, decide_eq_false_iff_not]
    omega

theorem number_quoteFirst {s : List α} {q : ℚ} (h : Json.number s = some (q, []))
    (rest : List α) (hr : QuoteFirst rest) : QuoteFirst (s ++ rest) := by
  obtain ⟨p, hp, he⟩ := elems_number h
  rw [List.append_nil] at hp
  refine .append (fun c hc => ?_) hr
  rcases he c (hp ▸ hc) with hd | hd
  · simp only [isDigit, Bool.and_eq_true, decide_eq_true_eq] at hd
    omega
  · omega

theorem number_reads {s : List α} {q : ℚ} (h : Json.number s = some (q, []))
    (rest : List α) (hr : Follows rest) (fuel : ℕ) (hf : 2 * (s ++ rest).length < fuel) :
    value fuel (s ++ rest) = some (.num q, rest) := by
  obtain ⟨fuel, rfl⟩ := Nat.exists_eq_succ_of_ne_zero (Nat.ne_zero_of_lt hf)
  have hends : EndsNumber rest := fun c hc => by
    have := hr.ends c hc
    simp only [isDigit, Bool.and_eq_false_iff, decide_eq_false_iff_not]
    omega
  have hn := number_append hends h
  cases s with
  | nil => cases h
  | cons c t =>
    rw [List.cons_append] at hn ⊢
    rw [value_number (head_number h), hn]
    rfl

/-- The decimal text of an integer. -/
def integer (n : ℤ) : Spelling α where
  text := integerText n
  val := .num n
  Decodes w := w = .num n
  Cond := True
  decodes_val := rfl
  opens := number_opens (number_integerText n)
  quoteFirst := number_quoteFirst (number_integerText n)
  reads _ := number_reads (number_integerText n)
  cond _ _ _ _ _ _ _ _ := trivial

/-- A text that is read as a number. -/
def number (s : List α) (q : ℚ) (h : Json.number s = some (q, [])) : Spelling α where
  text := s
  val := .num q
  Decodes w := w = .num q
  Cond := True
  decodes_val := rfl
  opens := number_opens h
  quoteFirst := number_quoteFirst h
  reads _ := number_reads h
  cond _ _ _ _ _ _ _ _ := trivial

/-- `true` or `false`. -/
def boolText (b : Bool) : List α := asciiText (if b then "true" else "false").toList

theorem scalar_boolText (b : Bool) (rest : List α) :
    scalar (boolText b ++ rest) = some (.bool b, rest) := by
  cases b with
  | true =>
    have h : strip ("true".toList.map Char.toNat) (boolText true ++ rest : List α) = some rest :=
      strip_asciiText (by simp) rest
    simp only [scalar, h]
  | false =>
    have ht : strip ("true".toList.map Char.toNat) (boolText false ++ rest : List α) = none :=
      if_neg (show ¬ code (ascii 102 : α) = 116 by rw [code_ascii _ (by decide)]; decide)
    have hf : strip ("false".toList.map Char.toNat) (boolText false ++ rest : List α) = some rest :=
      strip_asciiText (by simp) rest
    simp only [scalar, ht, hf]

variable (α) in
theorem boolText_opens (b : Bool) :
    ∃ c t, (boolText b : List α) = c :: t ∧ (code c = 116 ∨ code c = 102) := by
  cases b with
  | true => exact ⟨_, _, rfl, .inl (code_ascii 116 (by decide))⟩
  | false => exact ⟨_, _, rfl, .inr (code_ascii 102 (by decide))⟩

/-- `true` or `false`. -/
def bool (b : Bool) : Spelling α where
  text := boolText b
  val := .bool b
  Decodes w := w = .bool b
  Cond := True
  decodes_val := rfl
  opens := by
    obtain ⟨c, t, e, hc⟩ := boolText_opens α b
    refine ⟨c, t, e, ?_, by omega⟩
    simp only [isSpace, Bool.or_eq_false_iff, decide_eq_false_iff_not]
    omega
  quoteFirst rest hr := by
    refine .append (fun c hc => ?_) hr
    obtain ⟨c', hc', rfl⟩ := List.mem_map.mp hc
    have hb : ∀ b : Bool, ∀ c ∈ (if b then "true" else "false").toList,
        c.toNat < 128 ∧ c.toNat ≠ 92 := by simp
    rw [code_ascii _ (hb b c' hc').1]
    exact (hb b c' hc').2
  reads _ rest _ fuel hf := by
    obtain ⟨fuel, rfl⟩ := Nat.exists_eq_succ_of_ne_zero (Nat.ne_zero_of_lt hf)
    have hs := scalar_boolText b rest
    obtain ⟨c, t, e, hc⟩ := boolText_opens α b
    rw [e, List.cons_append] at hs ⊢
    rw [value, if_neg (by omega), if_neg (by omega), if_neg (by omega), hs]
  cond _ _ _ _ _ _ _ _ := trivial

/-! ### Arrays -/

theorem quoteFirst_comma {t : List α} (h : QuoteFirst t) : QuoteFirst (ascii 44 :: t) :=
  .inr ⟨by simp [code_comma], h⟩

theorem quoteFirst_close {t : List α} (h : QuoteFirst t) : QuoteFirst (ascii 93 :: t) :=
  .inr ⟨by simp [code_close], h⟩

theorem follows_comma {t : List α} (h : QuoteFirst t) : Follows (ascii 44 :: t) :=
  ⟨quoteFirst_comma h, by simp [code_comma]⟩

theorem follows_close {t : List α} (h : QuoteFirst t) : Follows (ascii 93 :: t) :=
  ⟨quoteFirst_close h, by simp [code_close]⟩

/-- Texts with commas between them. -/
def joined (ps : List (Spelling α)) : List α := [ascii 44].intercalate (ps.map text)

theorem joined_cons_cons (p q : Spelling α) (ps : List (Spelling α)) :
    joined (p :: q :: ps) = p.text ++ ascii 44 :: joined (q :: ps) := by
  simp [joined, List.intercalate_cons_cons]

theorem joined_singleton (p : Spelling α) : joined [p] = p.text := by
  simp [joined, List.intercalate_singleton]

theorem quoteFirst_joined (ps : List (Spelling α)) {rest : List α} (hr : QuoteFirst rest) :
    QuoteFirst (joined ps ++ rest) := by
  induction ps with
  | nil => simpa [joined] using hr
  | cons p ps ih =>
    cases ps with
    | nil => simpa [joined_singleton] using p.quoteFirst rest hr
    | cons q ps =>
      rw [joined_cons_cons, List.append_assoc, List.cons_append]
      exact p.quoteFirst _ (quoteFirst_comma ih)

theorem joined_opens (p : Spelling α) (ps : List (Spelling α)) :
    ∃ c t, joined (p :: ps) = c :: t ∧ isSpace c = false ∧ code c ≠ 93 := by
  obtain ⟨c, t, e, hs, hc⟩ := p.opens
  cases ps with
  | nil => exact ⟨c, t, by rw [joined_singleton, e], hs, hc⟩
  | cons q ps => exact ⟨c, _, by rw [joined_cons_cons, e, List.cons_append], hs, hc⟩

theorem skip_joined (p : Spelling α) (ps : List (Spelling α)) (rest : List α) :
    skip (joined (p :: ps) ++ rest) = joined (p :: ps) ++ rest := by
  obtain ⟨c, t, e, hs, -⟩ := joined_opens p ps
  rw [e, List.cons_append, skip, List.dropWhile_cons_of_neg (by simp [hs])]

theorem skip_comma (t : List α) : skip (ascii 44 :: t) = ascii 44 :: t :=
  List.dropWhile_cons_of_neg (by simp [isSpace, code_comma])

theorem skip_close (t : List α) : skip (ascii 93 :: t) = ascii 93 :: t :=
  List.dropWhile_cons_of_neg (by simp [isSpace, code_close])

/-- The last element of an array. -/
theorem elements_last {fuel : ℕ} {t rest : List α} {v : Json α}
    (h : value fuel t = some (v, ascii 93 :: rest)) :
    elements (fuel + 1) t = some ([v], rest) := by
  simp only [elements, h, skip_close]
  rw [if_neg (by simp [code_close]), if_pos code_close]

/-- An element of an array with others behind it. -/
theorem elements_more {fuel : ℕ} {t rest : List α} {v : Json α}
    (h : value fuel t = some (v, ascii 44 :: rest)) :
    elements (fuel + 1) t = (elements fuel (skip rest)).map fun r => (v :: r.1, r.2) := by
  simp only [elements, h, skip_comma]
  rw [if_pos code_comma]

theorem value_of_elements {fuel : ℕ} {t r : List α} {w : Json α} {ws : List (Json α)}
    (h : elements (fuel + 1) t = some (w :: ws, r)) : ∃ t', value fuel t = some (w, t') := by
  rw [elements] at h
  split at h
  · cases h
  · rename_i v t' hv
    refine ⟨t', ?_⟩
    split at h
    · cases h
    · split at h
      · obtain ⟨r', -, he⟩ := Option.map_eq_some_iff.mp h
        cases he
        exact hv
      · split at h
        · cases h
          exact hv
        · cases h

/-- The elements of an array, all of whose conditions hold. -/
theorem elements_joined (ps : List (Spelling α)) (p : Spelling α) {rest : List α}
    (hr : QuoteFirst rest) (hc : ∀ q ∈ p :: ps, q.Cond) (fuel : ℕ)
    (hf : 2 * (joined (p :: ps) ++ ascii 93 :: rest).length + 1 < fuel) :
    elements fuel (joined (p :: ps) ++ ascii 93 :: rest) = some ((p :: ps).map val, rest) := by
  induction ps generalizing p fuel with
  | nil =>
    obtain ⟨fuel, rfl⟩ := Nat.exists_eq_succ_of_ne_zero (Nat.ne_zero_of_lt hf)
    rw [joined_singleton] at hf ⊢
    exact elements_last (p.reads (hc p (by simp)) _ (follows_close hr) fuel (by omega))
  | cons q ps ih =>
    obtain ⟨fuel, rfl⟩ := Nat.exists_eq_succ_of_ne_zero (Nat.ne_zero_of_lt hf)
    rw [joined_cons_cons, List.append_assoc, List.cons_append] at hf ⊢
    have hv := p.reads (hc p (by simp)) _ (follows_comma (quoteFirst_joined (q :: ps)
      (quoteFirst_close hr))) fuel (by omega)
    simp only [List.length_append, List.length_cons] at hf
    rw [elements_more hv, skip_joined, ih q (fun q' hq' => hc q' (by simp [hq'])) fuel
      (by simp only [List.length_append, List.length_cons]; omega)]
    rfl

/-- Elements read as values that do have their conditions. -/
theorem cond_of_elements (ps : List (Spelling α)) (p : Spelling α) {rest : List α}
    (hr : QuoteFirst rest) (fuel : ℕ)
    (hf : 2 * (joined (p :: ps) ++ ascii 93 :: rest).length + 1 < fuel) {ws : List (Json α)}
    {r : List α} (h : elements fuel (joined (p :: ps) ++ ascii 93 :: rest) = some (ws, r))
    (hw : List.Forall₂ Decodes (p :: ps) ws) : ∀ q ∈ p :: ps, q.Cond := by
  induction ps generalizing p fuel ws with
  | nil =>
    obtain ⟨fuel, rfl⟩ := Nat.exists_eq_succ_of_ne_zero (Nat.ne_zero_of_lt hf)
    rw [joined_singleton] at hf h
    obtain ⟨hd, -⟩ | ⟨hd, -⟩ := hw
    obtain ⟨t', hv⟩ := value_of_elements h
    simpa using p.cond _ (follows_close hr) fuel (by omega) _ _ hv hd
  | cons q ps ih =>
    obtain ⟨fuel, rfl⟩ := Nat.exists_eq_succ_of_ne_zero (Nat.ne_zero_of_lt hf)
    rw [joined_cons_cons, List.append_assoc, List.cons_append] at hf h
    have hfol : Follows (ascii 44 :: (joined (q :: ps) ++ ascii 93 :: rest)) :=
      follows_comma (quoteFirst_joined (q :: ps) (quoteFirst_close hr))
    cases hw with
    | cons hd hw =>
      obtain ⟨t', hv⟩ := value_of_elements h
      have hp := p.cond _ hfol fuel (by omega) _ _ hv hd
      rw [elements_more (p.reads hp _ hfol fuel (by omega)), skip_joined] at h
      obtain ⟨⟨ws', r'⟩, hws, he⟩ := Option.map_eq_some_iff.mp h
      cases he
      simp only [List.length_append, List.length_cons] at hf
      have := ih q fuel (by simp only [List.length_append, List.length_cons]; omega) hws hw
      simpa [hp] using this

theorem value_array_nil (fuel : ℕ) (rest : List α) :
    value (fuel + 1) (ascii 91 :: ascii 93 :: rest) = some (.arr [], rest) := by
  rw [value, if_neg (by simp [code_open]), if_pos code_open, skip_close]
  exact if_pos code_close

theorem value_array_cons (p : Spelling α) (ps : List (Spelling α)) (fuel : ℕ) (rest : List α) :
    value (fuel + 1) (ascii 91 :: (joined (p :: ps) ++ rest)) =
      (elements fuel (joined (p :: ps) ++ rest)).map fun r => (.arr r.1, r.2) := by
  obtain ⟨c, t, e, -, hc⟩ := joined_opens p ps
  rw [value, if_neg (by simp [code_open]), if_pos code_open, skip_joined, e, List.cons_append]
  exact if_neg hc

/-- Texts between brackets with commas between them. -/
def array (ps : List (Spelling α)) : Spelling α where
  text := ascii 91 :: (joined ps ++ [ascii 93])
  val := .arr (ps.map val)
  Decodes w := ∃ ws, w = .arr ws ∧ List.Forall₂ Decodes ps ws
  Cond := ∀ p ∈ ps, p.Cond
  decodes_val := ⟨_, rfl, by
    rw [List.forall₂_map_right_iff, List.forall₂_same]
    exact fun p _ => p.decodes_val⟩
  opens := ⟨_, _, rfl, by simp [isSpace, code_open], by simp [code_open]⟩
  quoteFirst rest hr := by
    rw [List.cons_append, List.append_assoc]
    exact .inr ⟨by simp [code_open], quoteFirst_joined ps (quoteFirst_close hr)⟩
  reads hc rest hr fuel hf := by
    obtain ⟨fuel, rfl⟩ := Nat.exists_eq_succ_of_ne_zero (Nat.ne_zero_of_lt hf)
    rw [List.cons_append, List.append_assoc, List.singleton_append] at hf ⊢
    cases ps with
    | nil => exact value_array_nil fuel rest
    | cons p ps =>
      rw [List.length_cons] at hf
      rw [value_array_cons, elements_joined ps p hr.quoteFirst hc fuel (by omega)]
      rfl
  cond rest hr fuel hf w r hv hw := by
    obtain ⟨fuel, rfl⟩ := Nat.exists_eq_succ_of_ne_zero (Nat.ne_zero_of_lt hf)
    rw [List.cons_append, List.append_assoc, List.singleton_append] at hf hv
    cases ps with
    | nil => simp
    | cons p ps =>
      obtain ⟨ws, rfl, hw⟩ := hw
      rw [List.length_cons] at hf
      rw [value_array_cons] at hv
      obtain ⟨⟨ws', r'⟩, hws, he⟩ := Option.map_eq_some_iff.mp hv
      cases he
      exact cond_of_elements ps p hr.quoteFirst fuel (by omega) hws hw

@[simp] theorem decodes_array (ps : List (Spelling α)) (w : Json α) :
    (array ps).Decodes w ↔ ∃ ws, w = .arr ws ∧ List.Forall₂ Decodes ps ws := Iff.rfl

@[simp] theorem cond_array (ps : List (Spelling α)) : (array ps).Cond ↔ ∀ p ∈ ps, p.Cond := Iff.rfl

@[simp] theorem decodes_quoted (s : List α) (w : Json α) : (quoted s).Decodes w ↔ w = .str s :=
  Iff.rfl

@[simp] theorem cond_quoted (s : List α) : (quoted s).Cond ↔ PlainText s := Iff.rfl

@[simp] theorem decodes_integer (n : ℤ) (w : Json α) : (integer n).Decodes w ↔ w = .num n := Iff.rfl

@[simp] theorem cond_integer (n : ℤ) : (integer n : Spelling α).Cond := trivial

@[simp] theorem decodes_anything (p : Spelling α) (hc : p.Cond) (w : Json α) :
    (p.anything hc).Decodes w := trivial

@[simp] theorem cond_anything (p : Spelling α) (hc : p.Cond) : (p.anything hc).Cond := hc

/-- A text between quotes and a constant one. -/
def labelled (name constant : List α) (h : PlainText constant) : Spelling α :=
  .array [.quoted name, (quoted constant).anything ((cond_quoted constant).mpr h)]

@[simp] theorem decodes_labelled (name constant : List α) (h : PlainText constant) (w : Json α) :
    (labelled name constant h).Decodes w ↔ ∃ v, w = .arr [.str name, v] := by
  simp [labelled, List.forall₂_cons_left_iff]

@[simp] theorem cond_labelled (name constant : List α) (h : PlainText constant) :
    (labelled name constant h).Cond ↔ PlainText name := by
  simp [labelled]

end Spelling

end Outmdsd.Json
