import Outmdsd.Foundations.Significant
import Outmdsd.Socket.ConnectRetry
import Mathlib.Algebra.Order.Field.Rat
import Mathlib.Data.Rat.Floor

/-!
# The wait between two attempts

`WaitBeforeReConnect` sleeps for a delay that doubles with each attempt, in slices of 100 ms between
which it looks at the flag. The delay is cut at the maximum first and scaled by a random factor
then, so that the sleep can pass the maximum by a quarter (`slept_le_iff`); and the remaining time
of `Connect`, an `unsigned int`, is passed as an `int`, so that from `2 ^ 31` ms on there is no
sleep at all (`slept_ge_iff`).
-/

namespace Outmdsd

open Significant

namespace SocketClient

/-! ## The arithmetic -/

/-- An arithmetic of `float`s. -/
structure FloatArith where
  /-- The `float` nearest to a number. -/
  toFloat : ℚ → ℚ
  mono : Monotone toFloat
  /-- Quarters of integers are `float`s. -/
  toFloat_quarter : ∀ n : ℤ, |n| < 16777216 → toFloat (n / 4) = n / 4
  /-- The least number whose `float` is at least this. -/
  reach : ℕ → ℚ
  reach_le_iff : ∀ (n : ℕ) (x : ℚ), 1 < n → n ≤ 65536 → (reach n ≤ x ↔ n ≤ toFloat x)

namespace FloatArith

/-- Arithmetic without rounding. -/
def rational : FloatArith where
  toFloat := id
  mono := monotone_id
  toFloat_quarter _ _ := rfl
  reach n := n
  reach_le_iff _ _ _ _ := Iff.rfl

theorem roundDigits_quarter {n : ℤ} (hn : |n| < 16777216) :
    roundDigits 2 24 ((n : ℚ) / 4) = n / 4 := by
  have h := roundDigits_mul_zpow (K := ℚ) (b := 2) (p := 24) one_lt_two hn (-2)
  have h4 : ((2 : ℕ) : ℚ) ^ (-2 : ℤ) = 4⁻¹ := by norm_num
  rwa [h4, ← div_eq_mul_inv] at h

theorem monotone_roundDigits : Monotone (roundDigits 2 24 : ℚ → ℚ) :=
  roundDigits_mono one_lt_two (by decide)

theorem le_roundDigits_iff_of_le (n : ℕ) (x : ℚ) (h1 : 1 < n) (hn : n ≤ 65536) :
    (n : ℚ) - 2 ^ ((Nat.log 2 (n - 1) : ℤ) - 24) ≤ x ↔ n ≤ roundDigits 2 24 x :=
  (natCast_le_roundDigits_iff h1 (hn.trans_lt (by decide))).symm

/-- The arithmetic of IEEE single precision, without its bounds on the exponent. -/
def binary32 : FloatArith where
  toFloat := roundDigits 2 24
  mono := monotone_roundDigits
  toFloat_quarter _ := roundDigits_quarter
  reach n := n - 2 ^ ((Nat.log 2 (n - 1) : ℤ) - 24)
  reach_le_iff := le_roundDigits_iff_of_le

variable (fl : FloatArith)

theorem toFloat_intCast {n : ℤ} (hn : |n| < 4194304) : fl.toFloat n = n := by
  have h := fl.toFloat_quarter (4 * n) (by rw [abs_mul]; norm_num; omega)
  have h4 : ((4 * n : ℤ) : ℚ) / 4 = n := by
    push_cast
    ring
  rwa [h4] at h

theorem toFloat_le {x : ℚ} {n : ℤ} (hn : |n| < 4194304) (h : x ≤ n) : fl.toFloat x ≤ n := by
  rw [← fl.toFloat_intCast hn]
  exact fl.mono h

theorem le_toFloat {x : ℚ} {n : ℤ} (hn : |n| < 4194304) (h : (n : ℚ) ≤ x) : n ≤ fl.toFloat x := by
  rw [← fl.toFloat_intCast hn]
  exact fl.mono h

end FloatArith

/-- The conversion of an `unsigned int` to `int`. -/
def toInt (n : UInt32) : ℤ := Int.bmod n.toNat 4294967296

/-- `static_cast<int>` of a `float`: the fraction is cut off. Out of the range of `int`, where the
standard says nothing, it is the least `int`, as on x86. -/
def intOfFloat (x : ℚ) : ℤ :=
  let n := if 0 ≤ x then ⌊x⌋ else ⌈x⌉
  if -2147483648 ≤ n ∧ n ≤ 2147483647 then n else -2147483648

/-! ## The function -/

/-- `delayMS` of `WaitBeforeReConnect`, with the random factor `r`. -/
def delayMS (fl : FloatArith) (numConnect : ℕ) (maxWaitMS : ℤ) (r : ℚ) : ℤ :=
  let minDelay : ℤ := 100
  let maxDelay := min 60000 maxWaitMS
  let k : ℤ := 2 ^ (numConnect % 10)
  let delayMS := min (minDelay * k) maxDelay
  intOfFloat (fl.toFloat (fl.toFloat delayMS * r))

/-- The loop over the slices of `minDelay`, from reading `i` of the flag on: the arguments of
`usleep`, and the next reading. -/
def sliceLoop (stop : ℕ → Bool) (i : ℕ) : ℕ → List ℕ × ℕ
  | 0 => ([], i)
  | ntimes + 1 =>
    if stop i then ([], i + 1)
    else
      let s := sliceLoop stop (i + 1) ntimes
      (100 * 1000 :: s.1, s.2)

/-- `WaitBeforeReConnect`: the arguments of `usleep`, for the readings `stop` of `m_stopClient`. -/
def waitBeforeReConnect (fl : FloatArith) (numConnect : ℕ) (maxWaitMS : ℤ) (r : ℚ)
    (stop : ℕ → Bool) : List ℕ :=
  let delayMS := delayMS fl numConnect maxWaitMS r
  let ntimes := delayMS.tdiv 100
  let s := sliceLoop stop 0 ntimes.toNat
  let leftMS := delayMS.tmod 100
  if !stop s.2 && 0 < leftMS then s.1 ++ [leftMS.toNat * 1000] else s.1

/-- The milliseconds of a list of sleeps. -/
def sleptMS (sleeps : List ℕ) : ℕ := sleeps.sum / 1000

/-! ## How long it sleeps -/

theorem sum_sliceLoop_le (stop : ℕ → Bool) (i ntimes : ℕ) :
    (sliceLoop stop i ntimes).1.sum ≤ ntimes * 100000 := by
  induction ntimes generalizing i with
  | zero => simp [sliceLoop]
  | succ ntimes ih =>
    rw [sliceLoop]
    split
    · simp
    · have := ih (i + 1)
      simp only [List.sum_cons]
      omega

theorem sum_sliceLoop_never (i ntimes : ℕ) :
    (sliceLoop (fun _ => false) i ntimes).1.sum = ntimes * 100000 := by
  induction ntimes generalizing i with
  | zero => simp [sliceLoop]
  | succ ntimes ih =>
    simp only [sliceLoop, Bool.false_eq_true, if_false, List.sum_cons, ih]
    omega

/-- Slices and the rest make up the delay; a negative one has neither. -/
theorem toNat_tdiv_tmod (d : ℤ) :
    (d.tdiv 100).toNat = d.toNat / 100 ∧ (d.tmod 100).toNat = d.toNat % 100 := by
  rcases le_total 0 d with hd | hd
  · rw [Int.tdiv_eq_ediv_of_nonneg hd, Int.tmod_eq_emod_of_nonneg hd]
    omega
  · obtain ⟨n, rfl⟩ := Int.exists_eq_neg_ofNat hd
    rw [Int.neg_tdiv, Int.neg_tmod, Int.tdiv_eq_ediv_of_nonneg (Int.natCast_nonneg n),
      Int.tmod_eq_emod_of_nonneg (Int.natCast_nonneg n)]
    omega

variable (fl : FloatArith) (numConnect : ℕ) (maxWaitMS : ℤ) (r : ℚ)

/-- The sleep is at most the delay. -/
theorem sleptMS_le (stop : ℕ → Bool) :
    sleptMS (waitBeforeReConnect fl numConnect maxWaitMS r stop) ≤
      (delayMS fl numConnect maxWaitMS r).toNat := by
  unfold waitBeforeReConnect sleptMS
  generalize delayMS fl numConnect maxWaitMS r = d
  obtain ⟨hn, hl⟩ := toNat_tdiv_tmod d
  have hs := sum_sliceLoop_le stop 0 (d.tdiv 100).toNat
  simp only
  split
  · rw [List.sum_append, List.sum_singleton]
    omega
  · omega

/-- A client that is not stopped sleeps for the delay. -/
theorem sleptMS_never :
    sleptMS (waitBeforeReConnect fl numConnect maxWaitMS r fun _ => false) =
      (delayMS fl numConnect maxWaitMS r).toNat := by
  unfold waitBeforeReConnect sleptMS
  generalize delayMS fl numConnect maxWaitMS r = d
  obtain ⟨hn, hl⟩ := toNat_tdiv_tmod d
  have hs := sum_sliceLoop_never 0 (d.tdiv 100).toNat
  simp only [Bool.not_false, Bool.true_and, decide_eq_true_eq]
  split
  · rw [List.sum_append, List.sum_singleton]
    omega
  · omega

/-! ## The delay -/

theorem two_pow_bounds : (0 : ℤ) < 2 ^ (numConnect % 10) ∧ (2 : ℤ) ^ (numConnect % 10) ≤ 2 ^ 9 :=
  ⟨by positivity, pow_le_pow_right₀ (by decide) (by omega)⟩

/-- The cap of 60000 ms is never reached. -/
theorem delay_eq : min (100 * 2 ^ (numConnect % 10)) (min 60000 maxWaitMS) =
    min (100 * 2 ^ (numConnect % 10)) maxWaitMS := by
  have := two_pow_bounds numConnect
  omega

theorem intOfFloat_nonpos {x : ℚ} (h : x < 0) : intOfFloat x ≤ 0 := by
  have hn : ⌈x⌉ ≤ 0 := Int.ceil_le.mpr (by exact_mod_cast h.le)
  rw [intOfFloat, if_neg (not_le.mpr h)]
  split <;> omega

theorem intOfFloat_eq_floor {x : ℚ} (h0 : 0 ≤ x) (h : x ≤ 65536) : intOfFloat x = ⌊x⌋ := by
  have hn : 0 ≤ ⌊x⌋ := Int.floor_nonneg.mpr h0
  have hl : ⌊x⌋ ≤ 65536 := Int.cast_le.mp ((Int.floor_le x).trans h)
  rw [intOfFloat, if_pos h0, if_pos (by omega)]

variable {maxWaitMS r}

theorem delay_bounds (hw : 0 < maxWaitMS) :
    0 < min (100 * 2 ^ (numConnect % 10)) maxWaitMS ∧
      min (100 * 2 ^ (numConnect % 10)) maxWaitMS ≤ 51200 := by
  have := two_pow_bounds numConnect
  omega

/-- The scaled delay. -/
theorem scaled_bounds (hw : 0 < maxWaitMS) (hr : 3 / 4 ≤ r ∧ r ≤ 5 / 4) :
    0 ≤ fl.toFloat ((min (100 * 2 ^ (numConnect % 10)) maxWaitMS : ℤ) * r) ∧
      fl.toFloat ((min (100 * 2 ^ (numConnect % 10)) maxWaitMS : ℤ) * r) ≤ 65536 := by
  obtain ⟨hd0, hd1⟩ := delay_bounds numConnect hw
  generalize min (100 * 2 ^ (numConnect % 10)) maxWaitMS = d at hd0 hd1
  have hq0 : (0 : ℚ) < d := by exact_mod_cast hd0
  have hq1 : (d : ℚ) ≤ 51200 := by exact_mod_cast hd1
  constructor
  · have h := fl.le_toFloat (n := 0) (by decide)
      (show ((0 : ℤ) : ℚ) ≤ d * r by push_cast; nlinarith)
    exact_mod_cast h
  · have h := fl.toFloat_le (n := 65536) (by decide)
      (show (d : ℚ) * r ≤ ((65536 : ℤ) : ℚ) by push_cast; nlinarith)
    exact_mod_cast h

/-- A positive maximum: the delay, cut at it, times the factor, in whole milliseconds. -/
theorem delayMS_of_pos (hw : 0 < maxWaitMS) (hr : 3 / 4 ≤ r ∧ r ≤ 5 / 4) :
    delayMS fl numConnect maxWaitMS r =
      ⌊fl.toFloat ((min (100 * 2 ^ (numConnect % 10)) maxWaitMS : ℤ) * r)⌋ := by
  obtain ⟨hd0, hd1⟩ := delay_bounds numConnect hw
  obtain ⟨hs0, hs1⟩ := scaled_bounds fl numConnect hw hr
  simp only [delayMS, delay_eq]
  rw [fl.toFloat_intCast (by rw [abs_of_pos hd0]; omega)]
  exact intOfFloat_eq_floor hs0 hs1

/-- A negative maximum: no delay. -/
theorem delayMS_of_neg (hw : maxWaitMS < 0) (hr : 3 / 4 ≤ r ∧ r ≤ 5 / 4) :
    delayMS fl numConnect maxWaitMS r ≤ 0 := by
  have hd : min (100 * 2 ^ (numConnect % 10)) maxWaitMS = maxWaitMS := by
    have := two_pow_bounds numConnect
    omega
  have hone := fl.toFloat_le (x := maxWaitMS) (n := -1) (by decide)
    (by exact_mod_cast (by omega : maxWaitMS ≤ -1))
  have hneg : fl.toFloat (fl.toFloat maxWaitMS * r) ≤ ((-3 : ℤ) : ℚ) / 4 := by
    rw [← fl.toFloat_quarter (-3) (by decide)]
    refine fl.mono ?_
    push_cast at hone ⊢
    nlinarith
  simp only [delayMS, delay_eq, hd]
  refine intOfFloat_nonpos (hneg.trans_lt ?_)
  norm_num

/-- At least three quarters of 100 ms, or of a smaller maximum. -/
theorem le_delayMS (hw : 0 < maxWaitMS) (hr : 3 / 4 ≤ r ∧ r ≤ 5 / 4) :
    ⌊(3 / 4 : ℚ) * (min 100 maxWaitMS : ℤ)⌋ ≤ delayMS fl numConnect maxWaitMS r := by
  rw [delayMS_of_pos fl numConnect hw hr]
  refine Int.floor_mono ?_
  have hm : min 100 maxWaitMS ≤ min (100 * 2 ^ (numConnect % 10)) maxWaitMS := by
    have := two_pow_bounds numConnect
    omega
  have hq : ((min 100 maxWaitMS : ℤ) : ℚ) ≤ (min (100 * 2 ^ (numConnect % 10)) maxWaitMS : ℤ) := by
    exact_mod_cast hm
  have h0 : (0 : ℚ) < (min 100 maxWaitMS : ℤ) := by
    exact_mod_cast (by omega : 0 < min 100 maxWaitMS)
  -- a quarter of an integer, and so not rounded
  have he := fl.toFloat_quarter (3 * min 100 maxWaitMS) (by rw [abs_of_pos (by omega)]; omega)
  have hx : ((3 * min 100 maxWaitMS : ℤ) : ℚ) / 4 = 3 / 4 * (min 100 maxWaitMS : ℤ) := by
    rw [Int.cast_mul, Int.cast_ofNat]
    ring
  rw [hx] at he
  rw [← he]
  refine fl.mono ?_
  nlinarith [hr.1]

/-- The random factor does not carry the delay, cut at the maximum, over it. No delay reaches
65536 ms. -/
def FactorFits (maxWaitMS : ℤ) (r : ℚ) : Prop :=
  maxWaitMS < 65536 →
    (min (100 * 2 ^ (numConnect % 10)) maxWaitMS : ℤ) * r < fl.reach (maxWaitMS.toNat + 1)

theorem delayMS_le_iff (hw : 0 < maxWaitMS) (hr : 3 / 4 ≤ r ∧ r ≤ 5 / 4) :
    delayMS fl numConnect maxWaitMS r ≤ maxWaitMS ↔ FactorFits fl numConnect maxWaitMS r := by
  have hs := (scaled_bounds fl numConnect hw hr).2
  rw [delayMS_of_pos fl numConnect hw hr, FactorFits]
  obtain ⟨w, rfl⟩ : ∃ w : ℕ, maxWaitMS = w := ⟨_, (Int.toNat_of_nonneg hw.le).symm⟩
  generalize ((min (100 * 2 ^ (numConnect % 10)) (w : ℤ) : ℤ) : ℚ) * r = x at hs ⊢
  rw [Int.toNat_natCast]
  rcases lt_or_ge w 65536 with hlt | hge
  · have hreach := fl.reach_le_iff (w + 1) x (by omega) (by omega)
    have hcast : (((w : ℤ) + 1 : ℤ) : ℚ) = ((w + 1 : ℕ) : ℚ) := by push_cast; rfl
    rw [← Int.lt_add_one_iff, Int.floor_lt, hcast, ← not_le, ← hreach, not_le]
    exact ⟨fun h _ => h, fun h => h (by omega)⟩
  · refine iff_of_true ?_ fun h => by omega
    have hf : ⌊fl.toFloat x⌋ ≤ 65536 := Int.cast_le.mp ((Int.floor_le _).trans hs)
    omega

/-- Without rounding: the scaled delay stays below the next millisecond. -/
theorem factorFits_rational (hw : 0 < maxWaitMS) (hr : r ≤ 5 / 4) :
    FactorFits .rational numConnect maxWaitMS r ↔
      (min (100 * 2 ^ (numConnect % 10)) maxWaitMS : ℤ) * r < maxWaitMS + 1 := by
  have hreach : FloatArith.rational.reach (maxWaitMS.toNat + 1) = maxWaitMS + 1 := by
    change ((maxWaitMS.toNat + 1 : ℕ) : ℚ) = _
    rw [Nat.cast_add_one, ← Int.cast_natCast, Int.toNat_of_nonneg hw.le]
  rw [FactorFits, hreach]
  refine ⟨fun h => ?_, fun h _ => h⟩
  rcases lt_or_ge maxWaitMS 65536 with hlt | hge
  · exact h hlt
  · obtain ⟨hd0, hd1⟩ := delay_bounds numConnect hw
    generalize min (100 * 2 ^ (numConnect % 10)) maxWaitMS = d at hd0 hd1
    have hq0 : (0 : ℚ) < d := by exact_mod_cast hd0
    have hq1 : (d : ℚ) ≤ 51200 := by exact_mod_cast hd1
    have hq : (65536 : ℚ) ≤ maxWaitMS := by exact_mod_cast hge
    nlinarith

/-! ## The remaining time -/

/-- An `unsigned int` from `2 ^ 31` on is a negative `int`. -/
theorem toInt_cases (n : UInt32) :
    n.toNat ≤ 2147483647 ∧ toInt n = n.toNat ∨ 2147483647 < n.toNat ∧ toInt n < 0 := by
  have hn := n.toNat_lt
  have hm := @Int.bmod_def n.toNat 4294967296
  unfold toInt
  split at hm <;> omega

variable {connRetryTimeoutMS runtimeMS : UInt32}

/-- **No spinning.** A client that is not stopped sleeps at least three quarters of 100 ms or of
the remaining time, if and only if the remaining time fits into an `int`. -/
theorem slept_ge_iff (h : runtimeMS < connRetryTimeoutMS) (hr : 3 / 4 ≤ r ∧ r ≤ 5 / 4) :
    ⌊(3 / 4 : ℚ) * (min 100 (connRetryTimeoutMS.toNat - runtimeMS.toNat) : ℕ)⌋ ≤
        (sleptMS (waitBeforeReConnect fl numConnect (toInt (connRetryTimeoutMS - runtimeMS)) r
          fun _ => false) : ℤ) ↔
      connRetryTimeoutMS.toNat - runtimeMS.toNat ≤ 2147483647 := by
  have hlt := UInt32.lt_iff_toNat_lt.mp h
  rw [sleptMS_never, ← UInt32.toNat_sub_of_le _ _ (UInt32.le_of_lt h)]
  have hpos : 0 < (connRetryTimeoutMS - runtimeMS).toNat := by
    rw [UInt32.toNat_sub_of_le _ _ (UInt32.le_of_lt h)]
    omega
  generalize connRetryTimeoutMS - runtimeMS = n at hpos
  obtain ⟨hn, he⟩ | ⟨hn, hneg⟩ := toInt_cases n
  · have hle := le_delayMS fl numConnect (by omega : 0 < toInt n) hr
    refine iff_of_true ?_ hn
    have hmin : min 100 (toInt n) = ((min 100 n.toNat : ℕ) : ℤ) := by omega
    rw [hmin, Int.cast_natCast] at hle
    omega
  · have h0 := delayMS_of_neg fl numConnect hneg hr
    refine iff_of_false ?_ (by omega)
    have hmin : min 100 n.toNat = 100 := by omega
    have h75 : ⌊(3 / 4 : ℚ) * (100 : ℕ)⌋ = 75 := by norm_num
    rw [hmin, h75]
    omega

theorem slept_ge_minute :
    ⌊(3 / 4 : ℚ) * (min 100 ((60000 : UInt32).toNat - (0 : UInt32).toNat) : ℕ)⌋ ≤
        (sleptMS (waitBeforeReConnect .binary32 1 (toInt (60000 - 0)) 1 fun _ => false) : ℤ) ↔
      (60000 : UInt32).toNat - (0 : UInt32).toNat ≤ 2147483647 :=
  slept_ge_iff .binary32 1 (by decide) (by norm_num)

/-- With the largest timeout there is no sleep at all. -/
theorem no_sleep_of_largest :
    (0 : UInt32) < 4294967295 ∧ (3 / 4 : ℚ) ≤ 1 ∧ (1 : ℚ) ≤ 5 / 4 ∧
      waitBeforeReConnect .binary32 1 (toInt (4294967295 - 0)) 1 (fun _ => false) = [] ∧
      ¬ ⌊(3 / 4 : ℚ) * (min 100 ((4294967295 : UInt32).toNat - (0 : UInt32).toNat) : ℕ)⌋ ≤
        (sleptMS (waitBeforeReConnect .binary32 1 (toInt (4294967295 - 0)) 1
          fun _ => false) : ℤ) := by
  have hs : waitBeforeReConnect .binary32 1 (toInt (4294967295 - 0)) 1 (fun _ => false) = [] := by
    decide +kernel
  refine ⟨by decide, by norm_num, by norm_num, hs, ?_⟩
  rw [hs]
  decide +kernel

/-- What a wait sleeps at most is its delay. -/
theorem forall_sleptMS_le_iff (n : ℕ) :
    (∀ stop, sleptMS (waitBeforeReConnect fl numConnect maxWaitMS r stop) ≤ n) ↔
      delayMS fl numConnect maxWaitMS r ≤ n := by
  constructor
  · intro h
    have hn := h fun _ => false
    rw [sleptMS_never] at hn
    omega
  · intro h stop
    have hs := sleptMS_le fl numConnect maxWaitMS r stop
    omega

/-- **The maximum.** One wait keeps to a positive maximum, whenever the client is stopped, if and
only if the random factor fits; and so does a wait of `Connect` to the remaining time. -/
theorem slept_le_iff (hr : 3 / 4 ≤ r ∧ r ≤ 5 / 4) :
    (∀ maxWaitMS : ℤ, 0 < maxWaitMS →
      ((∀ stop, sleptMS (waitBeforeReConnect fl numConnect maxWaitMS r stop) ≤ maxWaitMS) ↔
        FactorFits fl numConnect maxWaitMS r)) ∧
    ∀ clock, NonDecreasing clock → ∀ connRetryTimeoutMS sockfd turns runtimeMS maxWaitMS,
      .wait runtimeMS maxWaitMS ∈ (connect connRetryTimeoutMS clock sockfd turns).trace →
      ((∀ stop, runtimeMS.toNat +
          sleptMS (waitBeforeReConnect fl numConnect (toInt maxWaitMS) r stop) ≤
            connRetryTimeoutMS.toNat) ↔
        (0 < toInt maxWaitMS → FactorFits fl numConnect (toInt maxWaitMS) r)) := by
  constructor
  · intro maxWaitMS hw
    rw [← delayMS_le_iff fl numConnect hw hr]
    obtain ⟨w, rfl⟩ : ∃ w : ℕ, maxWaitMS = w := ⟨_, (Int.toNat_of_nonneg hw.le).symm⟩
    simpa only [Int.ofNat_le] using forall_sleptMS_le_iff fl numConnect w
  · intro clock hclock connRetryTimeoutMS sockfd turns runtimeMS maxWaitMS hm
    have hb : runtimeMS < connRetryTimeoutMS ∧
        runtimeMS.toNat + maxWaitMS.toNat = connRetryTimeoutMS.toNat :=
      (budget_connect hclock connRetryTimeoutMS sockfd turns).wait _ hm
    have hsum : ∀ n : ℕ, runtimeMS.toNat + n ≤ connRetryTimeoutMS.toNat ↔ n ≤ maxWaitMS.toNat := by
      have := hb.2
      omega
    have hlt := UInt32.lt_iff_toNat_lt.mp hb.1
    simp only [hsum, forall_sleptMS_le_iff]
    obtain ⟨-, he⟩ | ⟨-, hneg⟩ := toInt_cases maxWaitMS
    · have hpos : 0 < toInt maxWaitMS := by omega
      rw [← delayMS_le_iff fl numConnect hpos hr, ← he]
      exact ⟨fun h _ => h, fun h => h hpos⟩
    · have h0 := delayMS_of_neg fl numConnect hneg hr
      exact iff_of_true (by omega) fun hpos => by omega

theorem slept_le_second :
    let clock : ℕ → ℤ := fun n => 4000000 * n
    .wait 4 6 ∈ (connect 10 clock none [⟨false, .connectError 2⟩]).trace ∧
      ((∀ stop, (sleptMS (waitBeforeReConnect .binary32 1 6 1 stop) : ℤ) ≤ 6) ↔
        FactorFits .binary32 1 6 1) ∧
      ((∀ stop, (4 : UInt32).toNat +
          sleptMS (waitBeforeReConnect .binary32 1 (toInt 6) 1 stop) ≤ (10 : UInt32).toNat) ↔
        (0 < toInt 6 → FactorFits .binary32 1 (toInt 6) 1)) := by
  intro clock
  have hm : .wait 4 6 ∈ (connect 10 clock none [⟨false, .connectError 2⟩]).trace := by decide
  have hclock : NonDecreasing clock := fun m n h => by
    simp only [clock]
    omega
  have h := slept_le_iff .binary32 1 (r := 1) (by norm_num)
  exact ⟨hm, h.1 6 (by decide), h.2 clock hclock 10 none _ 4 6 hm⟩

/-- With the timeout of 100 ms and the factor 9/8, the wait after the first attempt takes 112 ms. -/
theorem sleeps_past_timeout :
    (3 / 4 : ℚ) ≤ 9 / 8 ∧ (9 / 8 : ℚ) ≤ 5 / 4 ∧
      (let r := connect 100 (fun n => 1000000 * (if n ≤ 1 then 0 else 112)) none
        [⟨false, .connectError 2⟩]
      .wait 0 100 ∈ r.trace ∧ r.ending = .timedOut) ∧ toInt 100 = 100 ∧
      (waitBeforeReConnect .binary32 1 100 (9 / 8) fun _ => false) = [100000, 12000] ∧
      ¬ (sleptMS (waitBeforeReConnect .binary32 1 100 (9 / 8) fun _ => false) : ℤ) ≤ 100 := by
  have hs : (waitBeforeReConnect .binary32 1 100 (9 / 8) fun _ => false) = [100000, 12000] := by
    decide +kernel
  refine ⟨by norm_num, by norm_num, by decide, by decide, hs, ?_⟩
  rw [hs]
  decide

end SocketClient

end Outmdsd
