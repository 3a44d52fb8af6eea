import Outmdsd.Foundations.Decimals
import Outmdsd.Foundations.Significant
import Outmdsd.Item.DjsonLogItem
import Mathlib.Algebra.Order.Field.Rat
import Mathlib.Data.Rat.Floor

/-!
# The text of a double

`AddData` writes a `double` into a stream with the default format, that is with six significant
digits: the conversion `%g` of `printf`. What is stored for a finite double is a JSON number, and
denotes the double rounded to six digits (`number_streamText`). So an integer is kept if and only if
its digits from the seventh on are zeros (`double_exact_iff`).
-/

namespace Outmdsd

open Json Significant

/-- A finite `double`: `± mantissa * 2 ^ exponent`. -/
structure FiniteDouble where
  neg : Bool
  mantissa : ℕ
  exponent : ℤ
  mantissa_lt : mantissa < 9007199254740992
  exponent_mem : -1074 ≤ exponent ∧ exponent ≤ 971

/-- A `double`. -/
inductive Double
  | nan (neg : Bool)
  | infinite (neg : Bool)
  | finite (f : FiniteDouble)

/-- The conversion `%g` with six digits, of `d₁.d₂… * 10 ^ e`: in the style of `%e` or of `%f`. -/
def generalStyle (ds : Bytes) (e : ℤ) : Bytes :=
  if e < -4 ∨ 6 ≤ e then
    ds.take 1 ++ (if ds.length = 1 then [] else lit "." ++ ds.drop 1) ++ exponentText e
  else if e < 0 then lit "0." ++ List.replicate (-e - 1).toNat 48 ++ ds
  else if ds.length ≤ e + 1 then ds ++ List.replicate (e + 1 - ds.length).toNat 48
  else ds.take (e + 1).toNat ++ lit "." ++ ds.drop (e + 1).toNat

/-- The conversion `%g` with six digits, of a number that is not negative. -/
def generalText (x : ℚ) : Bytes :=
  if x = 0 then lit "0"
  else
    -- seven digits when the number is rounded up to a power of ten
    let digits := toDec (significand 10 6 x).toNat
    generalStyle (trimZeros digits) (lastPlace 10 6 x + digits.length - 1)

namespace FiniteDouble

/-- The absolute value. -/
def absValue (f : FiniteDouble) : ℚ := f.mantissa * (2 : ℚ) ^ f.exponent

/-- The number. -/
def value (f : FiniteDouble) : ℚ := if f.neg then -f.absValue else f.absValue

/-- What a stream writes for it. -/
def streamText (f : FiniteDouble) : Bytes :=
  if f.neg then lit "-" ++ generalText f.absValue else generalText f.absValue

end FiniteDouble

/-- What a stream with the default format writes for a `double`. -/
def Double.streamText : Double → Bytes
  | .nan neg => if neg then lit "-nan" else lit "nan"
  | .infinite neg => if neg then lit "-inf" else lit "inf"
  | .finite f => f.streamText

/-- `DjsonLogItem::AddData` of a `double`. -/
def DjsonLogItem.addDouble (item : DjsonLogItem) (name : Bytes) (value : Double) : DjsonLogItem :=
  item.addData name (.double value.streamText)

example : generalText (4 / 10000000) = lit "4e-07" := by decide +kernel

/-! ## What the text denotes -/

theorem significand_pos {x : ℚ} (hx : 0 < x) : 0 < significand 10 6 x := by
  have h := (zpow_pos (base_pos (K := ℚ) (b := 10) (by decide)) _).trans_le
    (zpow_le_roundDigits (p := 6) (b := 10) (by decide) (by decide) hx)
  rw [roundDigits] at h
  exact_mod_cast pos_of_mul_pos_left h (zpow_pos (base_pos (by decide)) _).le

/-- The digits that are written, with the point where it is written, are the number rounded. -/
theorem pointed_significand {x : ℚ} (hx : 0 < x) :
    pointed (trimZeros (toDec (significand 10 6 x).toNat))
        (lastPlace 10 6 x + (toDec (significand 10 6 x).toNat).length) =
      roundDigits 10 6 x := by
  have hs := significand_pos hx
  obtain ⟨n, hn⟩ := trimZeros_append (toDec (significand 10 6 x).toNat)
  have hv : digitsValue (toDec (significand 10 6 x).toNat) = (significand 10 6 x).toNat :=
    digitsValue_digits _
  have hc : (((significand 10 6 x).toNat : ℤ) : ℚ) = significand 10 6 x := by
    rw [Int.toNat_of_nonneg hs.le]
  rw [← pointed_append_zeros _ n, ← hn, pointed, hv, add_sub_cancel_right, roundDigits,
    ← hc]
  push_cast
  rfl

theorem point : lit "." = [Alphabet.ascii 46] := by decide

theorem zeroPoint : lit "0." = [Alphabet.ascii 48, Alphabet.ascii 46] := by decide

theorem minus : lit "-" = [Alphabet.ascii 45] := by decide

theorem FiniteDouble.absValue_nonneg (f : FiniteDouble) : 0 ≤ f.absValue :=
  mul_nonneg (Nat.cast_nonneg _) (zpow_nonneg two_pos.le _)

theorem unsigned_generalStyle {ds : Bytes} (hi : IntegerPart ds)
    (h0 : ds.head?.map Alphabet.code ≠ some 48) (e : ℤ) :
    unsigned (generalStyle ds e) = some (pointed ds (e + 1), []) := by
  have hl := List.length_pos_iff.mpr hi.ne_nil
  unfold generalStyle
  split
  · split
    · rename_i h1
      rw [List.take_of_length_le h1.le, List.append_nil]
      have h := unsigned_exponent hi (exponent_exponentText e) (head_exponentText e)
      rwa [h1, Nat.cast_one] at h
    · rw [point, List.append_assoc, List.append_assoc]
      exact unsigned_scientific hi (by omega) e
  · split
    · have hk : e + 1 = -((-e - 1).toNat : ℤ) := by omega
      rw [hk, zeroPoint]
      exact unsigned_small hi.ne_nil hi.isDigit
    · split
      · have hk : e + 1 = ds.length + ((e + 1 - ds.length).toNat : ℤ) := by omega
        rw [hk, add_sub_cancel_left, Int.toNat_natCast]
        exact unsigned_whole hi fun h => absurd h h0
      · have hk : e + 1 = ((e + 1).toNat : ℤ) := by omega
        rw [hk, Int.toNat_natCast, point, List.append_assoc]
        exact unsigned_split hi (by omega) (by omega)

theorem unsigned_generalText {x : ℚ} (hx : 0 ≤ x) :
    unsigned (generalText x) = some (roundDigits 10 6 x, []) := by
  rcases hx.eq_or_lt with rfl | hx
  · rw [generalText, if_pos rfl, roundDigits_zero]
    exact unsigned_digits 0
  · have hs := significand_pos hx
    have hd : IntegerPart (trimZeros (toDec (significand 10 6 x).toNat)) ∧
        (trimZeros (toDec (significand 10 6 x).toNat)).head?.map Alphabet.code ≠ some 48 :=
      integerPart_trimZeros (by omega)
    rw [generalText, if_neg hx.ne', unsigned_generalStyle hd.1 hd.2, sub_add_cancel,
      pointed_significand hx]

/-- **The text of a finite double** is a JSON number, the double rounded to six digits. -/
theorem number_streamText (f : FiniteDouble) :
    number f.streamText = some (roundDigits 10 6 f.value, []) := by
  have h := unsigned_generalText (x := f.absValue) f.absValue_nonneg
  rw [FiniteDouble.streamText, FiniteDouble.value]
  cases f.neg with
  | true =>
    have hm := number_minus h
    rw [← roundDigits_neg] at hm
    rw [if_pos rfl, if_pos rfl, minus]
    exact hm
  | false => exact number_of_unsigned h

/-- The text of a double is a JSON number if and only if the double is finite. -/
theorem number_streamText_isSome_iff (d : Double) :
    (∃ q, number d.streamText = some (q, [])) ↔ ∃ f, d = .finite f := by
  have hnone : ∀ t : Bytes, number t = none → ¬ ∃ q, number t = some (q, []) := by
    rintro t ht ⟨q, hq⟩
    cases ht.symm.trans hq
  cases d with
  | nan neg => exact iff_of_false (hnone _ (by cases neg <;> rfl)) (by simp)
  | infinite neg => exact iff_of_false (hnone _ (by cases neg <;> rfl)) (by simp)
  | finite f => exact iff_of_true ⟨_, number_streamText f⟩ ⟨f, rfl⟩

/-! ## Integers -/

/-- Every integer up to `2 ^ 53` is a double. -/
theorem exists_value_eq {n : ℤ} (hn : |n| ≤ 9007199254740992) :
    ∃ f : FiniteDouble, f.value = n := by
  have habs : ∃ (m : ℕ) (e : ℤ), m < 9007199254740992 ∧ (-1074 ≤ e ∧ e ≤ 971) ∧
      (m : ℚ) * (2 : ℚ) ^ e = n.natAbs := by
    rcases (Int.abs_eq_natAbs n ▸ hn).lt_or_eq with hlt | heq
    · exact ⟨n.natAbs, 0, by omega, by omega, by rw [zpow_zero, mul_one]⟩
    · have hN : n.natAbs = 4503599627370496 * 2 := by omega
      exact ⟨4503599627370496, 1, by omega, by omega, by rw [hN]; norm_num⟩
  obtain ⟨m, e, hm, he, hv⟩ := habs
  refine ⟨⟨decide (n < 0), m, e, hm, he⟩, ?_⟩
  rw [FiniteDouble.value, FiniteDouble.absValue, hv]
  by_cases h : n < 0
  · have hN : (n.natAbs : ℤ) = -n := by omega
    rw [if_pos (by simpa using h), ← Int.cast_natCast, hN, Int.cast_neg, neg_neg]
  · have hN : (n.natAbs : ℤ) = n := by omega
    rw [if_neg (by simpa using h), ← Int.cast_natCast, hN]

theorem roundDigits_natAbs_iff (n : ℤ) :
    roundDigits 10 6 (n : ℚ) = n ↔ roundDigits 10 6 (n.natAbs : ℚ) = n.natAbs := by
  rcases Int.natAbs_eq n with h | h
  · rw [h, Int.natAbs_natCast, Int.cast_natCast]
  · rw [h, Int.natAbs_neg, Int.natAbs_natCast, Int.cast_neg, Int.cast_natCast, roundDigits_neg,
      neg_inj]

/-- **Integers through the double overload.** An integer up to `2 ^ 53` is a double, and the value
text stored for one that equals it denotes it, if and only if its digits from the seventh on are
zeros. -/
theorem double_exact_iff (n : ℤ) (hn : |n| ≤ 9007199254740992) :
    (∃ f : FiniteDouble, f.value = n) ∧
    ∀ f : FiniteDouble, f.value = n → ∀ (item : DjsonLogItem) (name : Bytes), ∃ text,
      (item.addDouble name (.finite f)).svlist = item.svlist ++ [⟨name, .double, text⟩] ∧
      (number text = some ((n : ℚ), []) ↔ 10 ^ ((toDec n.natAbs).length - 6) ∣ n.natAbs) := by
  refine ⟨exists_value_eq hn, fun f hf item name => ⟨f.streamText, rfl, ?_⟩⟩
  have hl : (toDec n.natAbs).length = Nat.log 10 n.natAbs + 1 := length_digits _
  rw [number_streamText, hf, hl, ← roundDigits_natCast_iff (K := ℚ) (by decide),
    ← roundDigits_natAbs_iff]
  simp

/-- The double 1250000. -/
def threeDigits : FiniteDouble := ⟨false, 1250000, 0, by decide, by decide⟩

theorem double_exact_million :
    ∃ text,
      ((DjsonLogItem.ofSource 0 (lit "s")).addDouble (lit "n") (.finite threeDigits)).svlist =
        [] ++ [⟨lit "n", .double, text⟩] ∧
      (number text = some (((1250000 : ℤ) : ℚ), []) ↔
        10 ^ ((toDec (1250000 : ℤ).natAbs).length - 6) ∣ (1250000 : ℤ).natAbs) :=
  (double_exact_iff 1250000 (by decide)).2 threeDigits (by decide +kernel) _ _

/-- The double 1234567. -/
def sevenDigits : FiniteDouble := ⟨false, 1234567, 0, by decide, by decide⟩

/-- It is stored as 1234570. -/
theorem double_rounded :
    sevenDigits.value = (1234567 : ℤ) ∧ |(1234567 : ℤ)| ≤ 9007199254740992 ∧
      ((DjsonLogItem.ofSource 0 (lit "s")).addDouble (lit "n") (.finite sevenDigits)).svlist =
        [⟨lit "n", .double, lit "1.23457e+06"⟩] ∧
      number (lit "1.23457e+06") = some (((1234570 : ℤ) : ℚ), []) ∧
      number (lit "1.23457e+06") ≠ some (((1234567 : ℤ) : ℚ), []) := by
  refine ⟨by decide +kernel, by decide, by decide +kernel, by decide +kernel, by decide +kernel⟩

end Outmdsd
