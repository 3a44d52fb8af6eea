import Outmdsd.Foundations.Json
import Mathlib.Data.List.TakeDrop
import Mathlib.Tactic.Ring

/-!
# Numbers in JSON texts

The reader of numbers takes the longest beginning that is one, so a text that is read as a number is
so with anything behind it that cannot go on a number (`number_append`), and its elements are
digits, signs, points and exponent letters (`elems_number`). Digits, a point, digits and perhaps an
exponent are a number, unless they open with a needless zero (`unsigned_decimal`).
-/

namespace Outmdsd.Json

open Alphabet

variable {α : Type*} [Alphabet α]

/-- Nothing of it can go on a number. -/
def EndsNumber (rest : List α) : Prop :=
  ∀ c ∈ rest.head?, isDigit c = false ∧ code c ≠ 46 ∧ code c ≠ 101 ∧ code c ≠ 69

/-- An element that a number can hold. -/
def NumberElem (c : α) : Prop :=
  isDigit c = true ∨ code c = 43 ∨ code c = 45 ∨ code c = 46 ∨ code c = 69 ∨ code c = 101

/-! ## What stands behind a number -/

omit [Alphabet α] in
theorem span_append {p : α → Bool} {rest : List α} (hr : ∀ c ∈ rest.head?, p c = false)
    (s : List α) : (s ++ rest).span p = ((s.span p).1, (s.span p).2 ++ rest) := by
  simp only [List.span_eq_takeWhile_dropWhile]
  induction s with
  | nil =>
    cases rest with
    | nil => rfl
    | cons c rest => simp [hr c rfl]
  | cons c s ih =>
    cases hc : p c with
    | true => simpa [hc] using ih
    | false => simp [hc]

omit [Alphabet α] in
theorem span_append_of_all {p : α → Bool} {s rest : List α} (hs : ∀ c ∈ s, p c = true)
    (hr : ∀ c ∈ rest.head?, p c = false) : (s ++ rest).span p = (s, rest) := by
  rw [span_append hr, List.span_eq_takeWhile_dropWhile, List.takeWhile_eq_self_iff.mpr hs,
    List.dropWhile_eq_nil_iff.mpr hs, List.nil_append]

theorem fraction_append {s f r rest : List α} (hr : EndsNumber rest)
    (h : fraction s = some (f, r)) : fraction (s ++ rest) = some (f, r ++ rest) := by
  cases s with
  | nil =>
    cases h
    cases rest with
    | nil => rfl
    | cons c rest => exact if_neg (hr c rfl).2.1
  | cons c s =>
    rw [fraction] at h
    rw [List.cons_append, fraction]
    split at h
    · rename_i hc
      rw [if_pos hc, span_append fun d hd => (hr d hd).1]
      simp only at h ⊢
      split at h
      · cases h
      · rename_i hn
        rw [Option.some.inj h] at hn ⊢
        rw [if_neg hn]
    · rename_i hc
      cases h
      rw [if_neg hc, List.cons_append]

theorem exponentSign_append {c : α} (s rest : List α) :
    exponentSign (c :: s ++ rest) =
      ((exponentSign (c :: s)).1, (exponentSign (c :: s)).2 ++ rest) := by
  simp only [List.cons_append, exponentSign]
  split
  · rfl
  · split <;> rfl

theorem exponent_append {s r rest : List α} {e : ℤ} (hr : EndsNumber rest)
    (h : exponent s = some (e, r)) : exponent (s ++ rest) = some (e, r ++ rest) := by
  cases s with
  | nil =>
    cases h
    cases rest with
    | nil => rfl
    | cons c rest =>
      have hc := (hr c rfl).2.2
      exact if_neg (by omega)
  | cons c s =>
    rw [exponent] at h
    rw [List.cons_append, exponent]
    split at h
    · rename_i hc
      rw [if_pos hc]
      cases s with
      | nil => cases h
      | cons d s =>
        rw [exponentSign_append]
        simp only [span_append fun c' hc' => (hr c' hc').1] at h ⊢
        split at h
        · cases h
        · rename_i hn
          cases h
          rw [if_neg hn]
    · rename_i hc
      cases h
      rw [if_neg hc, List.cons_append]

theorem unsigned_append {s r rest : List α} {q : ℚ} (hr : EndsNumber rest)
    (h : unsigned s = some (q, r)) : unsigned (s ++ rest) = some (q, r ++ rest) := by
  unfold unsigned at h ⊢
  rw [span_append fun c hc => (hr c hc).1]
  simp only at h ⊢
  split at h
  · cases h
  · rename_i hn
    rw [if_neg hn]
    split at h
    · cases h
    · rename_i f r' hf
      obtain ⟨⟨e, r''⟩, he, hq⟩ := Option.map_eq_some_iff.mp h
      cases hq
      rw [fraction_append hr hf]
      simp only [exponent_append hr he, Option.map_some]

/-- **What is read as a number is so whatever cannot go on it follows.** -/
theorem number_append {s r rest : List α} {q : ℚ} (hr : EndsNumber rest)
    (h : number s = some (q, r)) : number (s ++ rest) = some (q, r ++ rest) := by
  cases s with
  | nil => cases h
  | cons c s =>
    rw [number] at h
    rw [List.cons_append, number]
    split at h
    · rename_i hc
      obtain ⟨⟨q', r'⟩, hu, hq⟩ := Option.map_eq_some_iff.mp h
      cases hq
      rw [if_pos hc, unsigned_append hr hu]
      rfl
    · rename_i hc
      rw [if_neg hc, ← List.cons_append]
      exact unsigned_append hr h

/-! ## The elements of a number -/

omit [Alphabet α] in
theorem span_split (p : α → Bool) (s : List α) :
    s = (s.span p).1 ++ (s.span p).2 ∧ ∀ c ∈ (s.span p).1, p c = true := by
  rw [List.span_eq_takeWhile_dropWhile]
  exact ⟨List.takeWhile_append_dropWhile.symm, fun c hc => List.mem_takeWhile_imp hc⟩

theorem elems_fraction {s f r : List α} (h : fraction s = some (f, r)) :
    ∃ p, s = p ++ r ∧ ∀ c ∈ p, NumberElem c := by
  cases s with
  | nil =>
    cases h
    exact ⟨[], rfl, by simp⟩
  | cons c s =>
    rw [fraction] at h
    split at h
    · rename_i hc
      obtain ⟨hs, hd⟩ := span_split isDigit s
      simp only at h
      split at h
      · cases h
      · rw [Option.some.inj h] at hs hd
        refine ⟨c :: f, congrArg (c :: ·) hs, ?_⟩
        rintro c' (_ | ⟨_, hc'⟩)
        · exact .inr (.inr (.inr (.inl hc)))
        · exact .inl (hd c' hc')
    · cases h
      exact ⟨[], rfl, by simp⟩

theorem elems_exponentSign (s : List α) :
    ∃ p, s = p ++ (exponentSign s).2 ∧ ∀ c ∈ p, NumberElem c := by
  cases s with
  | nil => exact ⟨[], rfl, by simp⟩
  | cons c s =>
    rw [exponentSign]
    split
    · rename_i hc
      exact ⟨[c], rfl, by simp [NumberElem, hc]⟩
    · split
      · rename_i hc
        exact ⟨[c], rfl, by simp [NumberElem, hc]⟩
      · exact ⟨[], rfl, by simp⟩

theorem elems_exponent {s r : List α} {e : ℤ} (h : exponent s = some (e, r)) :
    ∃ p, s = p ++ r ∧ ∀ c ∈ p, NumberElem c := by
  cases s with
  | nil =>
    cases h
    exact ⟨[], rfl, by simp⟩
  | cons c s =>
    rw [exponent] at h
    split at h
    · rename_i hc
      obtain ⟨p, hp, hpe⟩ := elems_exponentSign s
      obtain ⟨hs, hd⟩ := span_split isDigit (exponentSign s).2
      simp only at h
      split at h
      · cases h
      · cases h
        refine ⟨c :: (p ++ ((exponentSign s).2.span isDigit).1), ?_, ?_⟩
        · rw [List.cons_append, List.append_assoc, ← hs, ← hp]
        · rintro c' (_ | ⟨_, hc'⟩)
          · rcases hc with hc | hc
            · exact .inr (.inr (.inr (.inr (.inr hc))))
            · exact .inr (.inr (.inr (.inr (.inl hc))))
          · exact (List.mem_append.mp hc').elim (hpe c') fun hc' => .inl (hd c' hc')
    · cases h
      exact ⟨[], rfl, by simp⟩

theorem elems_unsigned {s r : List α} {q : ℚ} (h : unsigned s = some (q, r)) :
    ∃ p, s = p ++ r ∧ ∀ c ∈ p, NumberElem c := by
  unfold unsigned at h
  obtain ⟨hs, hd⟩ := span_split isDigit s
  simp only at h
  split at h
  · cases h
  · split at h
    · cases h
    · rename_i f t hf
      obtain ⟨⟨e, r'⟩, he, hq⟩ := Option.map_eq_some_iff.mp h
      cases hq
      obtain ⟨p, hp, hpe⟩ := elems_fraction hf
      obtain ⟨p', rfl, hpe'⟩ := elems_exponent he
      refine ⟨(s.span isDigit).1 ++ (p ++ p'), ?_, ?_⟩
      · rw [List.append_assoc, List.append_assoc, ← hp, ← hs]
      · intro c hc
        simp only [List.mem_append] at hc
        rcases hc with hc | hc | hc
        · exact .inl (hd c hc)
        · exact hpe c hc
        · exact hpe' c hc

theorem elems_number {s r : List α} {q : ℚ} (h : number s = some (q, r)) :
    ∃ p, s = p ++ r ∧ ∀ c ∈ p, NumberElem c := by
  cases s with
  | nil => cases h
  | cons c s =>
    rw [number] at h
    split at h
    · rename_i hc
      obtain ⟨⟨q', r'⟩, hu, hq⟩ := Option.map_eq_some_iff.mp h
      cases hq
      obtain ⟨p, rfl, hp⟩ := elems_unsigned hu
      refine ⟨c :: p, rfl, ?_⟩
      rintro c' (_ | ⟨_, hc'⟩)
      · exact .inr (.inr (.inl hc))
      · exact hp c' hc'
    · exact elems_unsigned h

theorem isDigit_of_unsigned {c : α} {s r : List α} {q : ℚ}
    (h : unsigned (c :: s) = some (q, r)) : isDigit c = true := by
  by_contra hd
  simp [unsigned, List.span_eq_takeWhile_dropWhile, hd] at h

/-- A number opens with a minus sign or a digit. -/
theorem head_number {c : α} {s r : List α} {q : ℚ} (h : number (c :: s) = some (q, r)) :
    code c = 45 ∨ (48 ≤ code c ∧ code c ≤ 57) := by
  rw [number] at h
  split at h
  · rename_i hc
    exact .inl hc
  · exact .inr (by simpa [isDigit] using isDigit_of_unsigned h)

theorem number_of_unsigned {s r : List α} {q : ℚ} (h : unsigned s = some (q, r)) :
    number s = some (q, r) := by
  cases s with
  | nil => cases h
  | cons c s =>
    have hd := isDigit_of_unsigned h
    simp only [isDigit, Bool.and_eq_true, decide_eq_true_eq] at hd
    rw [number, if_neg (by omega)]
    exact h

theorem number_minus {s r : List α} {q : ℚ} (h : unsigned s = some (q, r)) :
    number (ascii 45 :: s) = some (-q, r) := by
  have hm : code (ascii 45 : α) = 45 := code_ascii 45 (by decide)
  rw [number, if_pos hm, h]
  rfl

/-! ## Decimal texts -/

/-- Digits that can stand before the point. -/
structure IntegerPart (ds : List α) : Prop where
  ne_nil : ds ≠ []
  isDigit : ∀ c ∈ ds, isDigit c = true
  noZero : 1 < ds.length → ds.head?.map code ≠ some 48

theorem span_isDigit_cons {ds t : List α} {c : α} (hd : ∀ d ∈ ds, isDigit d = true)
    (hc : isDigit c = false) : (ds ++ c :: t).span isDigit = (ds, c :: t) :=
  span_append_of_all hd fun d hm => by
    cases hm
    exact hc

theorem IntegerPart.not_refused {ds : List α} (h : IntegerPart ds) :
    ¬ (ds = [] ∨ (1 < ds.length ∧ ds.head?.map code = some 48)) := by
  rintro (h0 | ⟨hl, hh⟩)
  · exact h.ne_nil h0
  · exact h.noZero hl hh

/-- Digits alone. -/
theorem unsigned_integer {ds : List α} (h : IntegerPart ds) :
    unsigned ds = some ((digitsValue ds : ℚ), []) := by
  have hspan : ds.span isDigit = (ds, []) := by
    rw [List.span_eq_takeWhile_dropWhile, List.takeWhile_eq_self_iff.mpr h.isDigit,
      List.dropWhile_eq_nil_iff.mpr h.isDigit]
  have hf : fraction ([] : List α) = some ([], []) := rfl
  have he : exponent ([] : List α) = some (0, []) := rfl
  simp only [unsigned, hspan, if_neg h.not_refused, hf, he, Option.map_some, List.append_nil]
  simp

/-- Digits, a point, digits, and an exponent or nothing. -/
theorem unsigned_decimal {i f x : List α} {e : ℤ} (hi : IntegerPart i) (hf : f ≠ [])
    (hd : ∀ c ∈ f, isDigit c = true) (hx : exponent x = some (e, []))
    (hxd : ∀ c ∈ x.head?, isDigit c = false) :
    unsigned (i ++ ascii 46 :: (f ++ x)) =
      some (digitsValue (i ++ f) * (10 : ℚ) ^ (e - (f.length : ℤ)), []) := by
  have hp : code (ascii 46 : α) = 46 := code_ascii 46 (by decide)
  have hspan : (i ++ ascii 46 :: (f ++ x)).span isDigit = (i, ascii 46 :: (f ++ x)) :=
    span_isDigit_cons hi.isDigit (by simp [isDigit, hp])
  have hfrac : fraction (ascii 46 :: (f ++ x)) = some (f, x) := by
    rw [fraction, if_pos hp, span_append_of_all hd hxd]
    exact if_neg hf
  simp only [unsigned, hspan, if_neg hi.not_refused, hfrac, hx, Option.map_some]

/-- An exponent letter, a sign and digits. -/
theorem exponent_signed {c : α} {ds : List α} (neg : Bool) (hc : code c = 101) (h0 : ds ≠ [])
    (hd : ∀ d ∈ ds, isDigit d = true) :
    exponent (c :: ascii (if neg then 45 else 43) :: ds) =
      some ((if neg then -digitsValue ds else digitsValue ds : ℤ), []) := by
  have hs : exponentSign (ascii (if neg then 45 else 43) :: ds) = (if neg then -1 else 1, ds) := by
    cases neg with
    | true => exact if_pos (code_ascii (α := α) 45 (by decide))
    | false =>
      have h43 : code (ascii 43 : α) = 43 := code_ascii 43 (by decide)
      simp [exponentSign, h43]
  have hspan : ds.span isDigit = (ds, []) := by
    rw [List.span_eq_takeWhile_dropWhile, List.takeWhile_eq_self_iff.mpr hd,
      List.dropWhile_eq_nil_iff.mpr hd]
  simp only [exponent, if_pos (Or.inl hc), hs, hspan, if_neg h0]
  cases neg <;> simp

theorem digitsValue_append (s t : List α) :
    digitsValue (s ++ t) = digitsValue s * 10 ^ t.length + digitsValue t := by
  have h : ∀ (t : List α) (v : ℕ), t.foldl (fun v c => 10 * v + (code c - 48)) v =
      v * 10 ^ t.length + t.foldl (fun v c => 10 * v + (code c - 48)) 0 := by
    intro t
    induction t with
    | nil => simp
    | cons c t ih =>
      intro v
      rw [List.foldl_cons, ih, List.foldl_cons, ih (10 * 0 + (code c - 48)), List.length_cons,
        pow_succ']
      ring
  rw [digitsValue, List.foldl_append, h]
  rfl

theorem digitsValue_replicate (n : ℕ) : digitsValue (List.replicate n (ascii 48 : α)) = 0 := by
  induction n with
  | zero => rfl
  | succ n ih =>
    have h0 : digitsValue [(ascii 48 : α)] = 0 := by
      simp [digitsValue, code_ascii (α := α) 48 (by decide)]
    rw [List.replicate_succ, ← List.singleton_append, digitsValue_append, h0, ih]
    simp

end Outmdsd.Json
