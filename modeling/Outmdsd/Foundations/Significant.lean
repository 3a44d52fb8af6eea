import Mathlib.Algebra.Order.Floor.Ring
import Mathlib.Algebra.Order.Group.Abs
import Mathlib.Data.Int.Log
import Mathlib.Tactic.FieldSimp
import Mathlib.Tactic.Linarith
import Mathlib.Tactic.Positivity
import Mathlib.Tactic.Ring

/-!
# Rounding to significant digits

The number with `p` digits in base `b` nearest to a given one, of two that are equally near the one
with an even last digit: what an arithmetic with a bounded significand and no bound on the exponent
computes, and what a number printed with `p` digits denotes. The rounding is monotone
(`roundDigits_mono`) and keeps exactly the multiples of the unit in the last place
(`roundDigits_eq_self_iff`).
-/

namespace Outmdsd.Significant

variable {K : Type*} [Field K] [LinearOrder K] [IsStrictOrderedRing K] [FloorRing K]

/-! ## The nearest integer -/

/-- The nearest integer, of two the even one. -/
def roundEven (x : K) : ℤ :=
  if 2 * Int.fract x < 1 ∨ 2 * Int.fract x = 1 ∧ Even ⌊x⌋ then ⌊x⌋ else ⌊x⌋ + 1

omit [IsStrictOrderedRing K] in
theorem floor_le_roundEven (x : K) : ⌊x⌋ ≤ roundEven x := by
  unfold roundEven
  split <;> omega

omit [IsStrictOrderedRing K] in
theorem roundEven_le_floor_add_one (x : K) : roundEven x ≤ ⌊x⌋ + 1 := by
  unfold roundEven
  split <;> omega

@[simp] theorem roundEven_intCast (n : ℤ) : roundEven (n : K) = n := by
  simp [roundEven]

theorem roundEven_mono {x y : K} (h : x ≤ y) : roundEven x ≤ roundEven y := by
  rcases (Int.floor_mono h).lt_or_eq with hlt | heq
  · have hx := roundEven_le_floor_add_one x
    have hy := floor_le_roundEven y
    omega
  · -- the fractions are ordered, so one that is not rounded up has only such ones below it
    have hf : Int.fract x ≤ Int.fract y := by
      rw [Int.fract, Int.fract, heq]
      linarith
    unfold roundEven
    rw [heq]
    by_cases hy : 2 * Int.fract y < 1 ∨ 2 * Int.fract y = 1 ∧ Even ⌊y⌋
    · have hx : 2 * Int.fract x < 1 ∨ 2 * Int.fract x = 1 ∧ Even ⌊y⌋ := by
        rcases hy with hy | ⟨hy, he⟩
        · exact .inl (by linarith)
        · rcases hf.lt_or_eq with hlt | hfe
          · exact .inl (by linarith)
          · exact .inr ⟨by rw [hfe, hy], he⟩
      rw [if_pos hx, if_pos hy]
    · rw [if_neg hy]
      split <;> omega

theorem roundEven_neg (x : K) : roundEven (-x) = -roundEven x := by
  by_cases h0 : Int.fract x = 0
  · obtain ⟨n, rfl⟩ := Int.fract_eq_zero_iff.mp h0
    rw [← Int.cast_neg, roundEven_intCast, roundEven_intCast]
  · have hf : Int.fract (-x) = 1 - Int.fract x := Int.fract_neg h0
    have hfl : ⌊-x⌋ = -⌊x⌋ - 1 := by
      have h : ((⌊-x⌋ : ℤ) : K) = ((-⌊x⌋ - 1 : ℤ) : K) := by
        have h1 := Int.floor_add_fract (-x)
        have h2 := Int.floor_add_fract x
        push_cast
        linarith
      exact_mod_cast h
    have heven : Even (-⌊x⌋ - 1) ↔ ¬ Even ⌊x⌋ := by
      rw [Int.even_sub_one, even_neg]
    unfold roundEven
    rw [hf, hfl]
    rcases lt_trichotomy (2 * Int.fract x) 1 with hlt | heq | hgt
    · rw [if_neg, if_pos (.inl hlt)]
      · ring
      · rintro (h | ⟨h, -⟩) <;> linarith
    · by_cases he : Even ⌊x⌋
      · rw [if_neg, if_pos (.inr ⟨heq, he⟩)]
        · ring
        · rintro (h | ⟨-, h⟩)
          · linarith
          · exact heven.mp h he
      · rw [if_pos, if_neg]
        · ring
        · rintro (h | ⟨-, h⟩)
          · linarith
          · exact he h
        · exact .inr ⟨by linarith, heven.mpr he⟩
    · rw [if_pos (.inl (by linarith)), if_neg]
      · ring
      · rintro (h | ⟨h, -⟩) <;> linarith

/-- Below a half before an integer, nothing is rounded to it. -/
theorem roundEven_lt {x : K} {n : ℤ} (h : 2 * x < 2 * n - 1) : roundEven x < n := by
  have hfl : ⌊x⌋ < n := Int.floor_lt.mpr (by linarith)
  rcases eq_or_ne ⌊x⌋ (n - 1) with he | hne
  · have hf := Int.floor_add_fract x
    rw [he] at hf
    push_cast at hf
    unfold roundEven
    rw [if_pos (.inl (by linarith))]
    exact hfl
  · have := roundEven_le_floor_add_one x
    omega

/-- An even integer takes in the half before it. -/
theorem le_roundEven_iff {x : K} {n : ℤ} (hn : Even n) :
    n ≤ roundEven x ↔ 2 * (n : K) - 1 ≤ 2 * x := by
  constructor
  · intro h
    by_contra hlt
    exact absurd h (not_le.mpr (roundEven_lt (not_le.mp hlt)))
  · intro h
    have hhalf : 2 * ((n : K) - 1 / 2) = 2 * n - 1 := by ring
    have hfl : ⌊(n : K) - 1 / 2⌋ = n - 1 := by
      rw [Int.floor_eq_iff]
      push_cast
      constructor <;> linarith
    have hr : roundEven ((n : K) - 1 / 2) = n := by
      have hf := Int.floor_add_fract ((n : K) - 1 / 2)
      rw [hfl] at hf
      push_cast at hf
      unfold roundEven
      rw [hfl, if_neg]
      · ring
      · rintro (hlt | ⟨-, he⟩)
        · linarith
        · exact Int.even_sub_one.mp he hn
    rw [← hr]
    exact roundEven_mono (by linarith)

/-! ## Significant digits -/

variable (b p : ℕ)

/-- The place of the last of `p` digits. -/
def lastPlace (x : K) : ℤ := Int.log b |x| + 1 - p

/-- The `p` digits as an integer. -/
def significand (x : K) : ℤ := roundEven (x / (b : K) ^ lastPlace b p x)

/-- The nearest number with `p` digits. -/
def roundDigits (x : K) : K := significand b p x * (b : K) ^ lastPlace b p x

variable {b p}

omit [IsStrictOrderedRing K] in
@[simp] theorem lastPlace_neg (x : K) : lastPlace b p (-x) = lastPlace b p x := by
  rw [lastPlace, lastPlace, abs_neg]

@[simp] theorem roundDigits_neg (x : K) : roundDigits b p (-x) = -roundDigits b p x := by
  rw [roundDigits, roundDigits, significand, significand, lastPlace_neg, neg_div, roundEven_neg,
    Int.cast_neg, neg_mul]

@[simp] theorem roundDigits_zero : roundDigits b p (0 : K) = 0 := by
  have h : roundEven (0 : K) = 0 := by simpa using roundEven_intCast (K := K) 0
  rw [roundDigits, significand, zero_div, h, Int.cast_zero, zero_mul]

theorem base_pos (hb : 1 < b) : 0 < (b : K) := by
  exact_mod_cast (by omega : 0 < b)

theorem one_lt_base (hb : 1 < b) : 1 < (b : K) := by
  exact_mod_cast hb

/-- A whole number of units in the last place. -/
theorem roundDigits_eq_self_iff (hb : 1 < b) {x : K} :
    roundDigits b p x = x ↔ ∃ n : ℤ, x = n * (b : K) ^ lastPlace b p x := by
  have hu : (b : K) ^ lastPlace b p x ≠ 0 := (zpow_pos (base_pos hb) _).ne'
  constructor
  · intro h
    exact ⟨significand b p x, h.symm⟩
  · rintro ⟨n, hn⟩
    have hq : x / (b : K) ^ lastPlace b p x = n := by
      rw [div_eq_iff hu]
      exact hn
    rw [roundDigits, significand, hq, roundEven_intCast, ← hn]

theorem lastPlace_le (hb : 1 < b) {x : K} {n : ℤ} (hx : x ≠ 0) (h : |x| < (b : K) ^ (n + p)) :
    lastPlace b p x ≤ n := by
  have hlog := (Int.lt_zpow_iff_log_lt hb (abs_pos.mpr hx)).mp h
  unfold lastPlace
  omega

/-- A number of fewer than `p` digits, at any place. -/
theorem roundDigits_mul_zpow (hb : 1 < b) {n : ℤ} (hn : |n| < (b : ℤ) ^ p) (e : ℤ) :
    roundDigits b p ((n : K) * (b : K) ^ e) = n * (b : K) ^ e := by
  have hb0 : (b : K) ≠ 0 := (base_pos hb).ne'
  have he : 0 < (b : K) ^ e := zpow_pos (base_pos hb) e
  rcases eq_or_ne n 0 with rfl | hn0
  · simp
  have hlt : |(n : K)| < (b : K) ^ p := by exact_mod_cast hn
  have hl : lastPlace b p ((n : K) * (b : K) ^ e) ≤ e := by
    refine lastPlace_le hb (mul_ne_zero (Int.cast_ne_zero.mpr hn0) he.ne') ?_
    rw [abs_mul, abs_of_pos he, zpow_add₀ hb0, zpow_natCast, mul_comm]
    exact mul_lt_mul_of_pos_left hlt he
  obtain ⟨k, hk⟩ := Int.le.dest hl
  refine (roundDigits_eq_self_iff hb).mpr ⟨n * (b : ℤ) ^ k, ?_⟩
  rw [Int.cast_mul, Int.cast_pow, Int.cast_natCast, mul_assoc, ← zpow_natCast, ← zpow_add₀ hb0,
    add_comm (k : ℤ), hk]

theorem roundDigits_zpow (hb : 1 < b) (hp : 0 < p) (e : ℤ) :
    roundDigits b p ((b : K) ^ e) = (b : K) ^ e := by
  have hn : |(1 : ℤ)| < (b : ℤ) ^ p := by
    rw [abs_one]
    exact one_lt_pow₀ (by exact_mod_cast hb) hp.ne'
  simpa using roundDigits_mul_zpow (K := K) hb hn e

/-- Between two numbers of the same length the digits are ordered as the numbers. -/
theorem roundDigits_le_of_log_eq (hb : 1 < b) {x y : K} (h : x ≤ y)
    (hl : Int.log b |x| = Int.log b |y|) : roundDigits b p x ≤ roundDigits b p y := by
  have hu : lastPlace b p x = lastPlace b p y := by rw [lastPlace, lastPlace, hl]
  have hpos : 0 < (b : K) ^ lastPlace b p y := zpow_pos (base_pos hb) _
  have hs : significand b p x ≤ significand b p y := by
    unfold significand
    rw [hu]
    exact roundEven_mono (div_le_div_of_nonneg_right h hpos.le)
  rw [roundDigits, roundDigits, hu]
  exact mul_le_mul_of_nonneg_right (by exact_mod_cast hs) hpos.le

/-- A power of the base is not passed. -/
theorem roundDigits_le_zpow (hb : 1 < b) {x : K} (hx : 0 < x) :
    roundDigits b p x ≤ (b : K) ^ (Int.log b x + 1) := by
  have hb0 : (b : K) ≠ 0 := (base_pos hb).ne'
  have hpos : 0 < (b : K) ^ lastPlace b p x := zpow_pos (base_pos hb) _
  have hpow : (b : K) ^ (Int.log b x + 1) = ((b : ℤ) ^ p : ℤ) * (b : K) ^ lastPlace b p x := by
    rw [Int.cast_pow, Int.cast_natCast, ← zpow_natCast, ← zpow_add₀ hb0, lastPlace, abs_of_pos hx]
    congr 1
    omega
  have hs : significand b p x ≤ (b : ℤ) ^ p := by
    rw [← roundEven_intCast (K := K) ((b : ℤ) ^ p), significand]
    refine roundEven_mono ?_
    rw [div_le_iff₀ hpos, ← hpow]
    exact (Int.lt_zpow_succ_log_self hb x).le
  rw [hpow]
  exact mul_le_mul_of_nonneg_right (by exact_mod_cast hs) hpos.le

theorem zpow_le_roundDigits (hb : 1 < b) (hp : 0 < p) {x : K} (hx : 0 < x) :
    (b : K) ^ Int.log b x ≤ roundDigits b p x := by
  have hpow : 0 < (b : K) ^ Int.log b x := zpow_pos (base_pos hb) _
  have h := roundDigits_le_of_log_eq (p := p) hb (Int.zpow_log_le_self hb hx)
    (by rw [abs_of_pos hpow, abs_of_pos hx, Int.log_zpow hb])
  rwa [roundDigits_zpow hb hp] at h

theorem roundDigits_nonneg (hb : 1 < b) (hp : 0 < p) {x : K} (hx : 0 ≤ x) :
    0 ≤ roundDigits b p x := by
  rcases hx.eq_or_lt with rfl | hx
  · simp
  · exact (zpow_pos (base_pos hb) _).le.trans (zpow_le_roundDigits hb hp hx)

/-- **Rounding keeps the order.** -/
theorem roundDigits_mono (hb : 1 < b) (hp : 0 < p) : Monotone (roundDigits b p : K → K) := by
  have hpos : ∀ x y : K, 0 ≤ x → x ≤ y → roundDigits b p x ≤ roundDigits b p y := by
    intro x y hx h
    rcases hx.eq_or_lt with rfl | hx
    · rw [roundDigits_zero]
      exact roundDigits_nonneg hb hp h
    rcases (Int.log_mono_right (b := b) hx h).lt_or_eq with hlt | heq
    · calc
        roundDigits b p x ≤ (b : K) ^ (Int.log b x + 1) := roundDigits_le_zpow hb hx
        _ ≤ (b : K) ^ Int.log b y := zpow_le_zpow_right₀ (one_lt_base hb).le hlt
        _ ≤ roundDigits b p y := zpow_le_roundDigits hb hp (hx.trans_le h)
    · refine roundDigits_le_of_log_eq hb h ?_
      rw [abs_of_pos hx, abs_of_pos (hx.trans_le h), heq]
  intro x y h
  rcases le_total 0 x with hx | hx
  · exact hpos x y hx h
  rcases le_total 0 y with hy | hy
  · have h0 := roundDigits_nonneg hb hp (neg_nonneg.mpr hx)
    rw [roundDigits_neg, neg_nonneg] at h0
    exact h0.trans (roundDigits_nonneg hb hp hy)
  · have hn := hpos (-y) (-x) (neg_nonneg.mpr hy) (neg_le_neg h)
    rwa [roundDigits_neg, roundDigits_neg, neg_le_neg_iff] at hn

/-- The natural numbers of which only the first `p` digits are not zero. -/
theorem roundDigits_natCast_iff (hb : 1 < b) (n : ℕ) :
    roundDigits b p (n : K) = n ↔ b ^ (Nat.log b n + 1 - p) ∣ n := by
  rcases le_or_gt (Nat.log b n + 1) p with hle | hlt
  · have hn : |(n : ℤ)| < (b : ℤ) ^ p := by
      rw [Nat.abs_cast]
      exact_mod_cast (Nat.lt_pow_succ_log_self hb n).trans_le (Nat.pow_le_pow_right (by omega) hle)
    rw [Nat.sub_eq_zero_of_le hle, pow_zero]
    refine iff_of_true ?_ (one_dvd n)
    simpa using roundDigits_mul_zpow (K := K) hb hn 0
  · obtain ⟨k, hk⟩ : ∃ k, Nat.log b n + 1 = p + k := ⟨_, (Nat.add_sub_of_le hlt.le).symm⟩
    have hu : lastPlace b p (n : K) = k := by
      rw [lastPlace, Nat.abs_cast, Int.log_natCast]
      omega
    rw [roundDigits_eq_self_iff hb, hu, zpow_natCast, hk, Nat.add_sub_cancel_left, dvd_def]
    constructor
    · rintro ⟨m, hm⟩
      have hz : (n : ℤ) = m * (b : ℤ) ^ k := by exact_mod_cast hm
      have hd : (b : ℤ) ^ k ∣ n := ⟨m, by rw [hz, mul_comm]⟩
      exact (dvd_def).mp (by exact_mod_cast hd)
    · rintro ⟨m, hm⟩
      exact ⟨m, by rw [hm]; push_cast; ring⟩

theorem log_eq_of_lt (hb : 1 < b) {x : K} {l : ℤ} (h : (b : K) ^ l ≤ x)
    (hlt : x < (b : K) ^ (l + 1)) : Int.log b x = l := by
  have hx : 0 < x := (zpow_pos (base_pos hb) l).trans_le h
  have hle := (Int.zpow_le_iff_le_log hb hx).mp h
  have hlt := (Int.lt_zpow_iff_log_lt hb hx).mp hlt
  omega

/-- An even number of units takes in half a unit before it. -/
theorem le_roundDigits_iff (hb : 1 < b) {x : K} {n : ℤ} (hn : Even n) :
    n * (b : K) ^ lastPlace b p x ≤ roundDigits b p x ↔
      2 * (n * (b : K) ^ lastPlace b p x) - (b : K) ^ lastPlace b p x ≤ 2 * x := by
  have hu : 0 < (b : K) ^ lastPlace b p x := zpow_pos (base_pos hb) _
  rw [roundDigits, mul_le_mul_iff_left₀ hu, Int.cast_le, significand, le_roundEven_iff hn,
    ← mul_div_assoc, le_div_iff₀ hu]
  constructor <;> intro h <;> linarith

/-- The least number that is rounded in base 2 to `n` or above is half a unit below `n`. -/
theorem natCast_le_roundDigits_iff {n : ℕ} (h1 : 1 < n) (hn : n < 2 ^ (p - 1)) {x : K} :
    (n : K) ≤ roundDigits 2 p x ↔ (n : K) - (2 : K) ^ ((Nat.log 2 (n - 1) : ℤ) - p) ≤ x := by
  set l := Nat.log 2 (n - 1)
  have hlow : 2 ^ l ≤ n - 1 := Nat.pow_log_le_self 2 (by omega)
  have hhigh : n - 1 < 2 ^ (l + 1) := Nat.lt_pow_succ_log_self (by decide) _
  have hlp : l < p - 1 := (Nat.pow_lt_pow_iff_right (by decide)).mp (by omega : 2 ^ l < 2 ^ (p - 1))
  have hlowK : ((2 : ℕ) : K) ^ (l : ℤ) ≤ n - 1 := by
    rw [zpow_natCast, le_sub_iff_add_le]
    exact_mod_cast (by omega : 2 ^ l + 1 ≤ n)
  have hhighK : (n : K) ≤ ((2 : ℕ) : K) ^ ((l : ℤ) + 1) := by
    have hle : n ≤ 2 ^ (l + 1) := by omega
    exact_mod_cast hle
  have hpow : ∀ e : ℤ, roundDigits 2 p (((2 : ℕ) : K) ^ e) = ((2 : ℕ) : K) ^ e :=
    roundDigits_zpow one_lt_two (by omega)
  have hmono := roundDigits_mono (K := K) (p := p) one_lt_two (by omega)
  have hpos : 0 < (2 : K) ^ ((l : ℤ) - p) := zpow_pos two_pos _
  have hle1 : (2 : K) ^ ((l : ℤ) - p) ≤ 1 := zpow_le_one_of_nonpos₀ one_le_two (by omega)
  rcases lt_or_ge x (((2 : ℕ) : K) ^ (l : ℤ)) with hx | hx
  · have hr := hmono hx.le
    rw [hpow] at hr
    constructor <;> intro h <;> linarith
  rcases lt_or_ge x (((2 : ℕ) : K) ^ ((l : ℤ) + 1)) with hx' | hx'
  · -- `n` is an even number of units of `x`
    obtain ⟨k, hk⟩ : ∃ k, p = l + 1 + (k + 1) := ⟨p - l - 2, by omega⟩
    have hu : ((2 : ℕ) : K) ^ lastPlace 2 p x = 2 * (2 : K) ^ ((l : ℤ) - p) := by
      rw [lastPlace, abs_of_pos ((zpow_pos (base_pos one_lt_two) _).trans_le hx),
        log_eq_of_lt one_lt_two hx hx', Nat.cast_ofNat, ← zpow_one_add₀ two_ne_zero]
      congr 1
      ring
    have hm : ((n * 2 ^ (k + 1) : ℤ) : K) * (2 * (2 : K) ^ ((l : ℤ) - p)) = n := by
      have he : ((k + 1 : ℕ) : ℤ) + (1 + (l - p)) = 0 := by omega
      rw [← zpow_one_add₀ two_ne_zero, Int.cast_mul, Int.cast_pow, mul_assoc, ← zpow_natCast]
      rw [Int.cast_ofNat, ← zpow_add₀ two_ne_zero, he, zpow_zero, mul_one, Int.cast_natCast]
    have h := le_roundDigits_iff (p := p) one_lt_two (x := x) (n := n * 2 ^ (k + 1))
      ⟨n * 2 ^ k, by ring⟩
    rw [hu, hm] at h
    rw [h]
    constructor <;> intro h <;> linarith
  · have hr := hmono hx'
    rw [hpow] at hr
    exact iff_of_true (hhighK.trans hr) (by linarith)

end Outmdsd.Significant
