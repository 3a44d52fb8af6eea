import Outmdsd.Foundations.Decimals
import Outmdsd.Plugin.ValueTypes

/-!
# Numbers of a record

The type of a numeric column depends on the class of the value only, and the value is written as its
`to_s`. A finite float is written as a JSON number that denotes its digits (`number_toS`), but `NaN`
and the infinities are not JSON, and an integer from `2 ^ 63` on is out of the range of its column
(`numericColumn_iff`).
-/

namespace Outmdsd.Plugin

open Json

/-- A finite float: its sign, and the shortest decimal `0.d₁d₂… * 10 ^ decpt` that is rounded to
it, by the number `d₁d₂…`. -/
structure FiniteFloat where
  neg : Bool
  significand : ℕ
  decpt : ℤ
  /-- Zero is `0.0 * 10 ^ 1`. -/
  decpt_zero : significand = 0 → decpt = 1

/-- A float. -/
inductive RFloat
  | nan
  | infinite (neg : Bool)
  | finite (f : FiniteFloat)

/-- The conversion `%+03d`. -/
def signedDigits (n : ℤ) : RString :=
  (if n < 0 then '-' else '+') ::
    (if n.natAbs < 10 then '0' :: Nat.toDigits 10 n.natAbs else Nat.toDigits 10 n.natAbs)

namespace FiniteFloat

/-- The digits `d₁d₂…`. -/
def buf (f : FiniteFloat) : RString := Nat.toDigits 10 f.significand

/-- The exponential form of `to_s`. -/
def expForm (f : FiniteFloat) : RString :=
  f.buf.take 1 ++ '.' :: ((if f.buf.length = 1 then ['0'] else f.buf.drop 1) ++
    'e' :: signedDigits (f.decpt - 1))

/-- `to_s` of the absolute value. -/
def absToS (f : FiniteFloat) : RString :=
  if 0 < f.decpt then
    if f.decpt ≤ 16 then
      if f.buf.length ≤ f.decpt then
        f.buf ++ List.replicate (f.decpt - f.buf.length).toNat '0' ++ ".0".toList
      else f.buf.take f.decpt.toNat ++ '.' :: f.buf.drop f.decpt.toNat
    else f.expForm
  else if -4 < f.decpt then "0.".toList ++ List.replicate (-f.decpt).toNat '0' ++ f.buf
  else f.expForm

/-- The number a finite float's digits denote. -/
def absValue (f : FiniteFloat) : ℚ := f.significand * (10 : ℚ) ^ (f.decpt - f.buf.length)

end FiniteFloat

/-- `Float#to_s` -/
def RFloat.toS : RFloat → RString
  | .nan => "NaN".toList
  | .infinite neg => if neg then "-Infinity".toList else "Infinity".toList
  | .finite f => if f.neg then '-' :: f.absToS else f.absToS

/-- A number that a msgpack record can carry. -/
inductive MsgpackNumber
  | integer (n : ℤ) (h : -9223372036854775808 ≤ n ∧ n ≤ 18446744073709551615)
  | float (f : RFloat)

/-- The Ruby value of a number. -/
def MsgpackNumber.toValue : MsgpackNumber → RValue
  | .integer n _ => .integer n
  | .float f => .float f.toS

/-- The number is written as a JSON number, within the range of its column. -/
def NumericOk (type text : RString) : Prop :=
  ∃ q, number text = some (q, []) ∧
    (type = "FT_INT64".toList → -9223372036854775808 ≤ q ∧ q ≤ 9223372036854775807)

/-- An integer of 64 bits with sign, or a finite float. -/
def MsgpackNumber.Fits : MsgpackNumber → Prop
  | .integer n _ => n ≤ 9223372036854775807
  | .float .nan => False
  | .float (.infinite _) => False
  | .float (.finite _) => True

instance : ∀ x : MsgpackNumber, Decidable x.Fits
  | .integer n _ => inferInstanceAs (Decidable (n ≤ 9223372036854775807))
  | .float .nan => inferInstanceAs (Decidable False)
  | .float (.infinite _) => inferInstanceAs (Decidable False)
  | .float (.finite _) => inferInstanceAs (Decidable True)

/-! ## The text of a float -/

theorem digits_eq (n : ℕ) : (digits n : List Char) = Nat.toDigits 10 n := asciiText_eq _

theorem exponentText_eq (n : ℤ) : (exponentText n : RString) = 'e' :: signedDigits n := by
  have hs : (Alphabet.ascii (if n < 0 then 45 else 43) : Char) = if n < 0 then '-' else '+' := by
    split <;> rfl
  rw [exponentText, signedDigits, hs, digits_eq]
  by_cases h : n.natAbs < 10
  · rw [if_pos h, if_pos h]
    rfl
  · rw [if_neg h, if_neg h]
    rfl

namespace FiniteFloat

variable (f : FiniteFloat)

theorem integerPart_buf : IntegerPart f.buf := by
  rw [buf, ← digits_eq]
  exact integerPart_digits f.significand

theorem pointed_buf : pointed f.buf f.decpt = f.absValue := by
  have hv : digitsValue f.buf = f.significand := by rw [buf, ← digits_eq, digitsValue_digits]
  rw [pointed, hv, absValue]

/-- Zero is written with one digit. -/
theorem decpt_of_head (hl : f.buf.length ≤ f.decpt) (h : f.buf.head?.map Alphabet.code = some 48) :
    (f.decpt - f.buf.length).toNat = 0 := by
  rw [buf, ← digits_eq] at h
  have hz : f.significand = 0 := Nat.eq_zero_of_not_pos fun h0 => head_digits h0 h
  have h1 := List.length_pos_iff.mpr f.integerPart_buf.ne_nil
  have hd := f.decpt_zero hz
  omega

theorem unsigned_expForm : unsigned f.expForm = some (f.absValue, []) := by
  have hv := f.pointed_buf
  rw [← sub_add_cancel f.decpt 1] at hv
  rw [expForm, ← exponentText_eq, ← hv]
  split
  · rename_i h1
    rw [List.take_of_length_le h1.le]
    exact unsigned_scientific_zero f.integerPart_buf h1 (f.decpt - 1)
  · have hpos := List.length_pos_iff.mpr f.integerPart_buf.ne_nil
    exact unsigned_scientific f.integerPart_buf (by omega) (f.decpt - 1)

theorem unsigned_absToS : unsigned f.absToS = some (f.absValue, []) := by
  have hv := f.pointed_buf
  unfold absToS
  split
  · rename_i h0
    split
    · split
      · -- all digits before the point
        rename_i hl
        have hk : f.decpt = f.buf.length + (f.decpt - f.buf.length).toNat := by omega
        rw [hk] at hv
        rw [← hv]
        exact unsigned_whole_zero f.integerPart_buf (f.decpt_of_head hl)
      · rename_i hl
        rw [← Int.toNat_of_nonneg h0.le] at hv
        rw [← hv]
        exact unsigned_split f.integerPart_buf (by omega) (by omega)
    · exact f.unsigned_expForm
  · rename_i h0
    split
    · -- all digits behind the point
      rw [← neg_neg f.decpt, ← Int.toNat_of_nonneg (by omega : 0 ≤ -f.decpt)] at hv
      rw [← hv]
      exact unsigned_small f.integerPart_buf.ne_nil f.integerPart_buf.isDigit
    · exact f.unsigned_expForm

/-- The number a finite float's `to_s` denotes. -/
def value : ℚ := if f.neg then -f.absValue else f.absValue

end FiniteFloat

/-- **Finite floats.** The text of a finite float is read as the number its digits denote. -/
theorem number_toS (f : FiniteFloat) : number (RFloat.finite f).toS = some (f.value, []) := by
  rw [RFloat.toS, FiniteFloat.value]
  cases f.neg with
  | true => exact number_minus f.unsigned_absToS
  | false => exact number_of_unsigned f.unsigned_absToS

theorem number_intToS (n : ℤ) : number (intToS n) = some ((n : ℚ), []) := by
  rw [← text_integer]
  exact Spelling.number_integerText n

variable (lib : Libraries) (hashtojson : Bool)

theorem numericOk_iff (x : MsgpackNumber) :
    ∃ text, getValueByType lib hashtojson x.toValue = some text ∧
      (NumericOk (mdsdType x.toValue.className.name) text ↔ x.Fits) := by
  have notNumber : ∀ {type text : RString}, number text = none → ¬ NumericOk type text := by
    rintro type text hn ⟨q, hq, -⟩
    rw [hn] at hq
    cases hq
  cases x with
  | integer n h =>
    refine ⟨intToS n, rfl, ?_, ?_⟩
    · rintro ⟨q, hq, hr⟩
      have hn : q = n := by
        have hq' := (number_intToS n).symm.trans hq
        cases hq'
        rfl
      have := (hr rfl).2
      rw [hn] at this
      exact_mod_cast this
    · intro hn
      refine ⟨n, number_intToS n, fun _ => ⟨?_, ?_⟩⟩
      · exact_mod_cast h.1
      · exact_mod_cast (show n ≤ 9223372036854775807 from hn)
  | float f =>
    refine ⟨f.toS, rfl, ?_⟩
    cases f with
    | nan => exact iff_of_false (notNumber rfl) id
    | infinite neg => cases neg <;> exact iff_of_false (notNumber rfl) id
    | finite f =>
      refine iff_of_true ⟨f.value, number_toS f, fun ht => ?_⟩ trivial
      exact absurd ht (show mdsdType "Float".toList ≠ "FT_INT64".toList by decide)

/-- **Numeric columns.** For every number of a record, the text is a JSON number, and within the
signed 64-bit range if the column is declared `FT_INT64`, if and only if the number is an integer of
at most `2 ^ 63 - 1` or a finite float. -/
theorem numericColumn_iff {record : Record} {i : ℕ} {key : RString} {x : MsgpackNumber}
    (h : record.fields[i]? = some (key, x.toValue)) :
    SchemaManager.getNewSchema record = schemaText (declaredColumns record) ∧
    ∃ type text, (declaredColumns record)[i]? = some (key, type) ∧
      getValueByType lib hashtojson x.toValue = some text ∧ (NumericOk type text ↔ x.Fits) := by
  have hne : record.fields ≠ [] := by
    rintro h0
    rw [h0] at h
    cases h
  obtain ⟨text, ht, hiff⟩ := numericOk_iff lib hashtojson x
  refine ⟨getNewSchema_eq_schemaText hne, _, text, ?_, ht, hiff⟩
  rw [declaredColumns, Record.shape, List.map_map, List.getElem?_map, h]
  rfl

/-- The largest integer of a column and a finite float, behind them the next integer and `NaN`. -/
def recordNumbers : Record :=
  ⟨[("max".toList, (MsgpackNumber.integer 9223372036854775807 (by decide)).toValue),
    ("pi".toList, (MsgpackNumber.float (.finite ⟨false, 314, 1, by decide⟩)).toValue),
    ("next".toList, (MsgpackNumber.integer 9223372036854775808 (by decide)).toValue),
    ("nan".toList, (MsgpackNumber.float .nan).toValue)], by decide⟩

theorem numericColumn_recordNumbers :
    ∃ type text, (declaredColumns recordNumbers)[1]? = some ("pi".toList, type) ∧
      getValueByType jsonLibraries false
        (MsgpackNumber.float (.finite ⟨false, 314, 1, by decide⟩)).toValue = some text ∧
      (NumericOk type text ↔
        (MsgpackNumber.float (.finite ⟨false, 314, 1, by decide⟩)).Fits) :=
  (numericColumn_iff jsonLibraries false (show recordNumbers.fields[1]? = _ from rfl)).2

/-- `2 ^ 63` is written into an `FT_INT64` column, and `NaN` is written as it is. -/
theorem numericColumn_of_edges :
    recordNumbers.fields[2]? =
        some ("next".toList, (MsgpackNumber.integer 9223372036854775808 (by decide)).toValue) ∧
      (declaredColumns recordNumbers)[2]? = some ("next".toList, "FT_INT64".toList) ∧
      getValueByType jsonLibraries false
        (MsgpackNumber.integer 9223372036854775808 (by decide)).toValue =
          some "9223372036854775808".toList ∧
      ¬ NumericOk "FT_INT64".toList "9223372036854775808".toList ∧
      recordNumbers.fields[3]? = some ("nan".toList, (MsgpackNumber.float .nan).toValue) ∧
      getValueByType jsonLibraries false (MsgpackNumber.float .nan).toValue =
        some "NaN".toList ∧
      ¬ NumericOk "FT_DOUBLE".toList "NaN".toList := by
  have hnext : getValueByType jsonLibraries false
      (MsgpackNumber.integer 9223372036854775808 (by decide)).toValue =
        some "9223372036854775808".toList := by decide
  refine ⟨rfl, rfl, hnext, fun h => ?_, rfl, rfl, fun h => ?_⟩
  · obtain ⟨text, ht, hiff⟩ := numericOk_iff jsonLibraries false
      (.integer 9223372036854775808 (by decide))
    obtain rfl := Option.some.inj (hnext.symm.trans ht)
    exact absurd (hiff.mp h) (by decide)
  · obtain ⟨text, ht, hiff⟩ := numericOk_iff jsonLibraries false (.float .nan)
    obtain rfl := Option.some.inj ht
    exact hiff.mp h

end Outmdsd.Plugin
