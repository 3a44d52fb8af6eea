import Mathlib.Data.List.Basic
import Mathlib.Data.List.TakeDrop
import Mathlib.Data.List.TakeWhile

/-!
# Byte strings, C strings and decimal numbers

A `std::string` is the list of its bytes, NUL bytes included. `cStr` is the string that a
`const char*` to it denotes: the bytes before the first NUL (`cStr_eq_self_iff`). `toDec` is
`std::to_string` of an unsigned number and `ofDec` the number a digit string denotes
(`ofDec_toDec`).
-/

namespace Outmdsd

abbrev Byte := UInt8

/-- The value of a `std::string`. -/
abbrev Bytes := List Byte

/-- The bytes of an ASCII literal. -/
def lit (s : String) : Bytes := s.toList.map Char.toUInt8

/-- The byte `'\n'`. -/
def newline : Byte := 10

/-! ## Splitting at a byte -/

theorem span_ne_of_notMem {c : Byte} {l : Bytes} (h : c ∉ l) : l.span (· ≠ c) = (l, []) := by
  have hl : ∀ b ∈ l, decide (b ≠ c) = true := fun _ hb => decide_eq_true fun e => h (e ▸ hb)
  rw [List.span_eq_takeWhile_dropWhile, List.takeWhile_eq_self_iff.mpr hl,
    List.dropWhile_eq_nil_iff.mpr hl]

theorem span_ne_append {c : Byte} {l : Bytes} (h : c ∉ l) (s : Bytes) :
    (l ++ c :: s).span (· ≠ c) = (l, c :: s) := by
  have hl : ∀ b ∈ l, decide (b ≠ c) = true := fun _ hb => decide_eq_true fun e => h (e ▸ hb)
  rw [List.span_eq_takeWhile_dropWhile, List.takeWhile_append_of_pos hl,
    List.dropWhile_append_of_pos hl]
  simp

/-! ## C strings -/

/-- The string a `const char*` to the bytes `s` (and the NUL behind them) denotes. -/
def cStr (s : Bytes) : Bytes := s.takeWhile (· ≠ 0)

/-- `strlen` -/
def strlen (s : Bytes) : ℕ := (cStr s).length

theorem cStr_isPrefixOf (s : Bytes) : cStr s <+: s := List.takeWhile_prefix _

theorem take_strlen (s : Bytes) : s.take (strlen s) = cStr s :=
  (List.prefix_iff_eq_take.mp (cStr_isPrefixOf s)).symm

/-- A `const char*` denotes the whole string if and only if the string holds no NUL. -/
theorem cStr_eq_self_iff (s : Bytes) : cStr s = s ↔ (0 : Byte) ∉ s := by
  rw [cStr, List.takeWhile_eq_self_iff]
  refine ⟨fun h h0 => ?_, fun h b hb => ?_⟩
  · simpa using h 0 h0
  · have : b ≠ 0 := fun e => h (e ▸ hb)
    simpa using this

/-! ## Decimal numbers -/

/-- `std::to_string` of an unsigned number. -/
def toDec (n : ℕ) : Bytes := (Nat.toDigits 10 n).map Char.toUInt8

/-- A decimal digit. -/
def isDigit (b : Byte) : Bool := 48 ≤ b.toNat ∧ b.toNat ≤ 57

/-- The number a digit string denotes. -/
def ofDec (s : Bytes) : ℕ := s.foldl (fun v b => 10 * v + (b.toNat - 48)) 0

theorem toNat_bounds_of_isDigit {c : Char} (h : c.isDigit) : 48 ≤ c.toNat ∧ c.toNat ≤ 57 :=
  Char.isDigit_iff_toNat.mp h

theorem toUInt8_toNat_of_isDigit {c : Char} (h : c.isDigit) : c.toUInt8.toNat = c.toNat := by
  have hc := toNat_bounds_of_isDigit h
  have : c.toUInt8.toNat = c.toNat % 2 ^ 8 := rfl
  omega

theorem isDigit_of_mem_toDec {n : ℕ} {b : Byte} (hb : b ∈ toDec n) : isDigit b = true := by
  obtain ⟨c, hc, rfl⟩ := List.mem_map.mp hb
  have hd := Nat.isDigit_of_mem_toDigits (by decide) (by decide) hc
  rw [isDigit, toUInt8_toNat_of_isDigit hd]
  simpa using toNat_bounds_of_isDigit hd

@[simp] theorem toDec_ne_nil (n : ℕ) : toDec n ≠ [] := by simp [toDec]

/-- A digit is neither a NUL, nor a newline, nor a colon. -/
theorem not_isDigit : isDigit 0 = false ∧ isDigit newline = false ∧ isDigit 58 = false := by
  decide

theorem zero_notMem_toDec (n : ℕ) : (0 : Byte) ∉ toDec n := fun h => by
  have := isDigit_of_mem_toDec h
  simp [not_isDigit.1] at this

theorem newline_notMem_toDec (n : ℕ) : newline ∉ toDec n := fun h => by
  have := isDigit_of_mem_toDec h
  simp [not_isDigit.2.1] at this

theorem foldl_toUInt8 (cs : List Char) (hd : ∀ c ∈ cs, c.isDigit) (v : ℕ) :
    (cs.map Char.toUInt8).foldl (fun v b => 10 * v + (b.toNat - 48)) v =
      Nat.ofDigitChars 10 cs v := by
  induction cs generalizing v with
  | nil => simp
  | cons c cs ih =>
    have hc := hd c (by simp)
    rw [List.map_cons, List.foldl_cons, ih (fun c' h' => hd c' (by simp [h'])),
      Nat.ofDigitChars_cons, toUInt8_toNat_of_isDigit hc]
    rfl

@[simp] theorem ofDec_toDec (n : ℕ) : ofDec (toDec n) = n := by
  rw [ofDec, toDec, foldl_toUInt8 _ fun c hc =>
    Nat.isDigit_of_mem_toDigits (by decide) (by decide) hc]
  exact Nat.ofDigitChars_ten_toDigits

theorem toDec_injective : Function.Injective toDec := fun m n h => by
  have := congrArg ofDec h
  simpa using this

end Outmdsd
