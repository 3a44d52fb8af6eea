import Outmdsd.Foundations.Spelling
import Mathlib.Data.List.DropRight
import Mathlib.Data.Nat.Log
import Mathlib.Tactic.FieldSimp

/-!
# Decimal texts with a point

Digits and the place of the point among them stand for `0.d₁d₂… * 10 ^ decpt` (`pointed`). There
are five ways to write it, by where the point falls: behind zeros after the digits, between the
digits, before zeros and the digits, and with an exponent after one digit or more. Each of them is
read as the number that is meant, given that no needless zero comes first.
-/

namespace Outmdsd.Json

open Alphabet

variable {α : Type*} [Alphabet α]

/-- The number `0.d₁d₂… * 10 ^ decpt`. -/
def pointed (ds : List α) (decpt : ℤ) : ℚ := digitsValue ds * (10 : ℚ) ^ (decpt - ds.length)

/-- An exponent with its sign and two digits at least. -/
def exponentText (n : ℤ) : List α :=
  ascii 101 :: ascii (if n < 0 then 45 else 43) ::
    ((if n.natAbs < 10 then [ascii 48] else []) ++ digits n.natAbs)

/-- Digits without the zeros at their end. -/
def trimZeros (ds : List α) : List α := ds.rdropWhile fun c => code c == 48

/-! ## Zeros -/

theorem isDigit_zero : isDigit (ascii 48 : α) = true := by
  simp [isDigit, code_ascii (α := α) 48 (by decide)]

theorem isDigit_zeros {n : ℕ} {c : α} (hc : c ∈ List.replicate n (ascii 48 : α)) :
    isDigit c = true := by
  rw [List.eq_of_mem_replicate hc]
  exact isDigit_zero

theorem digitsValue_zero : digitsValue [(ascii 48 : α)] = 0 := digitsValue_replicate 1

theorem integerPart_zero : IntegerPart [(ascii 48 : α)] where
  ne_nil := by simp
  isDigit c hc := isDigit_zeros (n := 1) hc
  noZero h := by simp at h

theorem digitsValue_append_zeros (ds : List α) (n : ℕ) :
    digitsValue (ds ++ List.replicate n (ascii 48)) = digitsValue ds * 10 ^ n := by
  rw [digitsValue_append, digitsValue_replicate, List.length_replicate, Nat.add_zero]

theorem digitsValue_zeros_append (ds : List α) (n : ℕ) :
    digitsValue (List.replicate n (ascii 48) ++ ds) = digitsValue ds := by
  rw [digitsValue_append, digitsValue_replicate, Nat.zero_mul, Nat.zero_add]

theorem head_digits {n : ℕ} (hn : 0 < n) : (digits n : List α).head?.map code ≠ some 48 := by
  intro h
  have hi := integerPart_digits (α := α) n
  have hv := digitsValue_digits (α := α) n
  cases hd : (digits n : List α) with
  | nil => exact hi.ne_nil hd
  | cons c t =>
    have ht : t = [] := by
      by_contra h0
      have := List.length_pos_iff.mpr h0
      exact hi.noZero (by rw [hd, List.length_cons]; omega) h
    rw [hd, ht] at hv
    rw [hd] at h
    have hc : code c = 48 := Option.some.inj h
    simp [digitsValue, hc] at hv
    omega

theorem length_digits (n : ℕ) : (digits n : List α).length = Nat.log 10 n + 1 := by
  have h : ∀ k, 0 < k → ((digits n : List α).length ≤ k ↔ Nat.log 10 n < k) := by
    intro k hk
    rw [digits, asciiText, List.length_map, Nat.length_toDigits_le_iff (by decide) hk]
    exact ⟨Nat.log_lt_of_lt_pow' hk.ne', Nat.lt_pow_of_log_lt (by decide)⟩
  have h0 := List.length_pos_iff.mpr (integerPart_digits (α := α) n).ne_nil
  have h1 := h _ h0
  have h2 := h (Nat.log 10 n + 1) (by omega)
  omega

theorem trimZeros_append (ds : List α) :
    ∃ n, ds = trimZeros ds ++ List.replicate n (ascii 48) := by
  refine ⟨(ds.rtakeWhile fun c => code c == 48).length, ?_⟩
  have hz : (ds.rtakeWhile fun c => code c == 48) =
      List.replicate (ds.rtakeWhile fun c => code c == 48).length (ascii 48 : α) := by
    refine List.eq_replicate_of_mem fun c hc => code_injective ?_
    rw [code_ascii 48 (by decide)]
    simpa using List.mem_rtakeWhile_imp hc
  rw [trimZeros, ← hz, List.rdropWhile_append_rtakeWhile]

variable {ds : List α} {n : ℕ}

/-- The digits of a positive number without the zeros at their end. -/
theorem integerPart_trimZeros (hn : 0 < n) :
    IntegerPart (trimZeros (digits n : List α)) ∧
      (trimZeros (digits n : List α)).head?.map code ≠ some 48 := by
  obtain ⟨k, hk⟩ := trimZeros_append (digits n : List α)
  have hv := digitsValue_digits (α := α) n
  rw [hk, digitsValue_append_zeros] at hv
  have h0 : trimZeros (digits n : List α) ≠ [] := by
    intro h0
    rw [h0] at hv
    simp [digitsValue] at hv
    omega
  have hh : (trimZeros (digits n : List α)).head?.map code ≠ some 48 := by
    have h := head_digits (α := α) hn
    rwa [hk, List.head?_append_of_ne_nil _ h0] at h
  refine ⟨⟨h0, fun c hc => ?_, fun _ => hh⟩, hh⟩
  exact (integerPart_digits n).isDigit c (hk ▸ List.mem_append_left _ hc)

theorem IntegerPart.append_zeros (h : IntegerPart ds)
    (h0 : ds.head?.map code = some 48 → n = 0) :
    IntegerPart (ds ++ List.replicate n (ascii 48)) where
  ne_nil := by simp [h.ne_nil]
  isDigit c hc := (List.mem_append.mp hc).elim (h.isDigit c) isDigit_zeros
  noZero hl hh := by
    rw [List.head?_append_of_ne_nil _ h.ne_nil] at hh
    rw [h0 hh, List.replicate_zero, List.append_nil] at hl
    exact h.noZero hl hh

theorem IntegerPart.take (h : IntegerPart ds) (hn : 0 < n) : IntegerPart (ds.take n) where
  ne_nil := by
    simp only [ne_eq, List.take_eq_nil_iff, h.ne_nil, or_false]
    omega
  isDigit c hc := h.isDigit c (List.mem_of_mem_take hc)
  noZero hl hh := by
    rw [List.head?_take, if_neg (by omega)] at hh
    rw [List.length_take] at hl
    exact h.noZero (by omega) hh

theorem pointed_append_zeros (ds : List α) (n : ℕ) (decpt : ℤ) :
    pointed (ds ++ List.replicate n (ascii 48)) decpt = pointed ds decpt := by
  rw [pointed, pointed, digitsValue_append_zeros, List.length_append, List.length_replicate]
  push_cast
  rw [← sub_sub, zpow_sub₀ (by norm_num), zpow_natCast]
  field_simp

/-! ## The five ways -/

theorem exponent_exponentText (n : ℤ) : exponent (exponentText n : List α) = some (n, []) := by
  have hd : ∀ c ∈ (if n.natAbs < 10 then [ascii 48] else []) ++ (digits n.natAbs : List α),
      isDigit c = true := by
    intro c hc
    rcases List.mem_append.mp hc with hc | hc
    · split at hc
      · exact isDigit_zeros (n := 1) hc
      · cases hc
    · exact (integerPart_digits n.natAbs).isDigit c hc
  have hv : digitsValue ((if n.natAbs < 10 then [ascii 48] else []) ++
      (digits n.natAbs : List α)) = n.natAbs := by
    rw [digitsValue_append, digitsValue_digits]
    split
    · rw [digitsValue_zero, Nat.zero_mul, Nat.zero_add]
    · simp [digitsValue]
  have h := exponent_signed (decide (n < 0)) (code_ascii 101 (by decide))
    (by simp [(integerPart_digits (α := α) n.natAbs).ne_nil]) hd
  rw [hv] at h
  simp only [decide_eq_true_eq] at h
  rw [exponentText, h]
  congr 2
  omega

theorem head_exponentText (n : ℤ) : ∀ c ∈ (exponentText n : List α).head?,
    isDigit c = false ∧ code c ≠ 46 := by
  intro c hc
  cases hc
  simp [isDigit, code_ascii (α := α) 101 (by decide)]

/-- Digits and an exponent, or nothing. -/
theorem unsigned_exponent {x : List α} {e : ℤ} (hi : IntegerPart ds)
    (hx : exponent x = some (e, [])) (hxd : ∀ c ∈ x.head?, isDigit c = false ∧ code c ≠ 46) :
    unsigned (ds ++ x) = some (pointed ds (e + ds.length), []) := by
  have hspan : (ds ++ x).span isDigit = (ds, x) :=
    span_append_of_all hi.isDigit fun c hc => (hxd c hc).1
  have hf : fraction x = some ([], x) := by
    cases x with
    | nil => rfl
    | cons c x => exact if_neg (hxd c rfl).2
  simp only [unsigned, hspan, if_neg hi.not_refused, hf, hx, Option.map_some, pointed]
  simp

/-- Zeros after the digits. -/
theorem unsigned_whole (hi : IntegerPart ds) (h0 : ds.head?.map code = some 48 → n = 0) :
    unsigned (ds ++ List.replicate n (ascii 48)) = some (pointed ds (ds.length + n), []) := by
  have h := unsigned_exponent (x := []) (hi.append_zeros h0) rfl (by simp)
  rw [List.append_nil, pointed_append_zeros, List.length_append, List.length_replicate] at h
  rw [h]
  congr 3
  push_cast
  ring

/-- Zeros after the digits, and one behind the point. -/
theorem unsigned_whole_zero (hi : IntegerPart ds) (h0 : ds.head?.map code = some 48 → n = 0) :
    unsigned (ds ++ List.replicate n (ascii 48) ++ [ascii 46, ascii 48]) =
      some (pointed ds (ds.length + n), []) := by
  have h := unsigned_decimal (x := []) (f := [ascii 48]) (hi.append_zeros h0) (by simp)
    (fun c hc => isDigit_zeros (n := 1) hc) rfl (by simp)
  refine h.trans ?_
  have hv := pointed_append_zeros ds (n + 1) (ds.length + n)
  rw [pointed, digitsValue_append_zeros, List.length_append, List.length_replicate] at hv
  rw [← hv, List.append_assoc, ← List.replicate_succ', digitsValue_append_zeros,
    List.length_singleton]
  congr 4
  push_cast
  ring

/-- The point between the digits. -/
theorem unsigned_split (hi : IntegerPart ds) (h0 : 0 < n) (hl : n < ds.length) :
    unsigned (ds.take n ++ ascii 46 :: ds.drop n) = some (pointed ds n, []) := by
  have h := unsigned_decimal (x := []) (f := ds.drop n) (hi.take h0) (by simp [hl])
    (fun c hc => hi.isDigit c (List.mem_of_mem_drop hc)) rfl (by simp)
  rw [List.append_nil, List.take_append_drop, List.length_drop] at h
  refine h.trans ?_
  rw [pointed, Nat.cast_sub hl.le]
  congr 4
  ring

/-- Zeros between the point and the digits. -/
theorem unsigned_small (h0 : ds ≠ []) (hd : ∀ c ∈ ds, isDigit c = true) :
    unsigned ([ascii 48, ascii 46] ++ List.replicate n (ascii 48) ++ ds) =
      some (pointed ds (-n), []) := by
  have h := unsigned_decimal (x := []) (f := List.replicate n (ascii 48) ++ ds)
    integerPart_zero (by simp [h0])
    (fun c hc => (List.mem_append.mp hc).elim isDigit_zeros (hd c)) rfl (by simp)
  rw [List.append_nil] at h
  refine h.trans ?_
  rw [← List.append_assoc, ← List.replicate_one, List.replicate_append_replicate,
    digitsValue_zeros_append, pointed, List.length_append, List.length_replicate]
  congr 4
  push_cast
  ring

/-- One digit, the point, the others, and an exponent. -/
theorem unsigned_scientific (hi : IntegerPart ds) (hl : 1 < ds.length) (e : ℤ) :
    unsigned (ds.take 1 ++ ascii 46 :: (ds.drop 1 ++ exponentText e)) =
      some (pointed ds (e + 1), []) := by
  have h := unsigned_decimal (hi.take one_pos) (f := ds.drop 1)
    (by rw [ne_eq, List.drop_eq_nil_iff]; omega)
    (fun c hc => hi.isDigit c (List.mem_of_mem_drop hc)) (exponent_exponentText e)
    fun c hc => (head_exponentText e c hc).1
  rw [List.take_append_drop, List.length_drop, Nat.cast_sub hl.le] at h
  refine h.trans ?_
  rw [pointed]
  congr 4
  push_cast
  ring

/-- One digit, a zero behind the point, and an exponent. -/
theorem unsigned_scientific_zero (hi : IntegerPart ds) (hl : ds.length = 1) (e : ℤ) :
    unsigned (ds ++ ascii 46 :: ([ascii 48] ++ exponentText e)) =
      some (pointed ds (e + 1), []) := by
  have h := unsigned_decimal hi (f := [ascii 48]) (by simp)
    (fun c hc => isDigit_zeros (n := 1) hc) (exponent_exponentText e)
    fun c hc => (head_exponentText e c hc).1
  refine h.trans ?_
  have hv := pointed_append_zeros ds 1 (e + 1)
  rw [pointed, List.length_append, List.length_replicate, hl] at hv
  rw [← hv, List.replicate_one, List.length_singleton]
  congr 4
  push_cast
  ring

end Outmdsd.Json
