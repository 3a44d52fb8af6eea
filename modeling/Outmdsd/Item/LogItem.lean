import Outmdsd.Item.DjsonLogItem

/-!
# Touch times

A `LogItem` remembers when it was last touched. Its age in milliseconds is narrowed to an `int`,
and `CheckItemAge` reads that as an unsigned number again: an age is compared with the ack timeout
modulo `2 ^ 32 = 4294967296`, so an item found too old is (`lt_ageMS_of_checkItemAge`), but one that
is too old is not found at every age (`checkItemAge_exact_iff`).
-/

namespace Outmdsd

/-- A log item with the time of its last touch, in nanoseconds of the steady clock. -/
structure LogItem where
  item : DjsonLogItem
  touchTime : ℕ
  deriving DecidableEq

/-- A `LogItemPtr`, which can be NULL. -/
abbrev LogItemPtr := Option LogItem

/-- The cache of a logger. -/
abbrev DataCache := StringMap LogItemPtr

namespace LogItem

/-- `Touch` -/
def touch (l : LogItem) (now : ℕ) : LogItem := { l with touchTime := now }

/-- The whole milliseconds since the last touch. -/
def ageMS (l : LogItem) (now : ℕ) : ℕ := (now - l.touchTime) / 1000000

/-- `GetLastTouchMilliSeconds`, the age converted to an `int`. -/
def getLastTouchMilliSeconds (l : LogItem) (now : ℕ) : ℤ := Int.bmod (l.ageMS now) 4294967296

/-- `static_cast<unsigned int>` -/
def toUnsigned (n : ℤ) : ℕ := (n % 4294967296).toNat

/-- The test `CheckItemAge` of `ResendData`. -/
def checkItemAge (ackTimeoutMS now : ℕ) : LogItemPtr → Bool
  | some l => toUnsigned (l.getLastTouchMilliSeconds now) > ackTimeoutMS
  | none => false

theorem toUnsigned_getLastTouchMilliSeconds (l : LogItem) (now : ℕ) :
    toUnsigned (l.getLastTouchMilliSeconds now) = l.ageMS now % 4294967296 := by
  have h := @Int.bmod_emod (l.ageMS now) 4294967296
  have e : ((4294967296 : ℕ) : ℤ) = 4294967296 := rfl
  rw [e] at h
  unfold toUnsigned getLastTouchMilliSeconds
  omega

/-- An age that fits into an `int` is compared as it is. -/
theorem checkItemAge_some (ackTimeoutMS : ℕ) {now : ℕ} {l : LogItem}
    (h : l.ageMS now < 2147483648) :
    checkItemAge ackTimeoutMS now (some l) = decide (ackTimeoutMS < l.ageMS now) := by
  rw [checkItemAge, toUnsigned_getLastTouchMilliSeconds, Nat.mod_eq_of_lt (by omega)]

/-- An item found too old is older than the ack timeout. -/
theorem lt_ageMS_of_checkItemAge {ackTimeoutMS now : ℕ} {l : LogItem}
    (h : checkItemAge ackTimeoutMS now (some l) = true) : ackTimeoutMS < l.ageMS now := by
  simp only [checkItemAge, toUnsigned_getLastTouchMilliSeconds, gt_iff_lt, decide_eq_true_eq] at h
  have := Nat.mod_le (l.ageMS now) 4294967296
  omega

theorem checkItemAge_iff (ackTimeoutMS now : ℕ) (l : LogItem) :
    checkItemAge ackTimeoutMS now (some l) = true ↔ ackTimeoutMS < l.ageMS now % 4294967296 := by
  rw [checkItemAge, toUnsigned_getLastTouchMilliSeconds, decide_eq_true_eq]

/-- An item of any age. -/
theorem exists_ageMS_eq (l : LogItem) (age : ℕ) : ∃ now, l.ageMS now = age := by
  refine ⟨l.touchTime + age * 1000000, ?_⟩
  rw [ageMS, Nat.add_sub_cancel_left, Nat.mul_div_cancel _ (by decide)]

/-- **The age test.** It says whether an item is older than the ack timeout, unless the age is at
most the timeout past a positive multiple of `2 ^ 32` ms. It is never true too early, and it is true
at some age unless the timeout is the largest one. -/
theorem checkItemAge_exact_iff (ackTimeoutMS : UInt32) (l : LogItem) :
    (∀ now, (checkItemAge ackTimeoutMS.toNat now (some l) = true ↔
        ackTimeoutMS.toNat < l.ageMS now) ↔
      ∀ k, 1 ≤ k → ¬ (k * 4294967296 ≤ l.ageMS now ∧
        l.ageMS now ≤ k * 4294967296 + ackTimeoutMS.toNat)) ∧
    (∀ now, checkItemAge ackTimeoutMS.toNat now (some l) = true →
      ackTimeoutMS.toNat < l.ageMS now) ∧
    ((∃ now, checkItemAge ackTimeoutMS.toNat now (some l) = true) ↔
      ackTimeoutMS.toNat ≠ 4294967295) := by
  have ht : ackTimeoutMS.toNat < 4294967296 := ackTimeoutMS.toNat_lt
  refine ⟨fun now => ?_, fun now => lt_ageMS_of_checkItemAge, ?_⟩
  · rw [checkItemAge_iff]
    constructor
    · rintro h k hk ⟨hle, hge⟩
      have hm := h.mpr (by omega)
      omega
    · intro h
      refine ⟨fun hm => by omega, fun hlt => ?_⟩
      by_contra hm
      exact h (l.ageMS now / 4294967296) (by omega) (by omega)
  · simp only [checkItemAge_iff]
    constructor
    · rintro ⟨now, hm⟩
      omega
    · intro hne
      obtain ⟨now, hnow⟩ := l.exists_ageMS_eq (ackTimeoutMS.toNat + 1)
      exact ⟨now, by omega⟩

/-- Under a timeout of a minute, an item of `2 ^ 32` ms is not found too old; under the largest
timeout, no item ever is. -/
theorem checkItemAge_wraps :
    let l : LogItem := ⟨.ofSource 0 [], 0⟩
    (checkItemAge (60000 : UInt32).toNat 4294967296000000 (some l) = false ∧
      (60000 : UInt32).toNat < l.ageMS 4294967296000000) ∧
    (∀ now, checkItemAge (4294967295 : UInt32).toNat now (some l) = false) ∧
      (4294967295 : UInt32).toNat < l.ageMS 4294967296000000 := by
  refine ⟨by decide, fun now => ?_, by decide⟩
  rw [Bool.eq_false_iff, ne_eq, checkItemAge_iff]
  have h : (4294967295 : UInt32).toNat = 4294967295 := rfl
  omega

end LogItem

end Outmdsd
