import Outmdsd.Foundations.Bytes
import Mathlib.Data.List.AList

/-!
# Exceptions and hash maps of the C++ library

The exceptions the library throws, with their texts, and `std::unordered_map<std::string, V>`:
an association list without duplicate keys, whose order is the iteration order of the map. The
lemmas on an assignment and a removal are for keys of any type.
-/

namespace Outmdsd

/-- The exceptions thrown by the library. `SocketException` is the one it catches on its own. -/
inductive Exn
  | socketException (errnum : ℤ) (msg : Bytes)
  | invalidArgument (what : Bytes)
  | outOfRange (what : Bytes)
  | runtimeError (what : Bytes)
  deriving DecidableEq

section

variable {α β : Type*} [DecidableEq α] {m : AList fun _ : α => β} {k key : α} {v value : β}

/-- A value held after an assignment is the one assigned, or was held under another key. -/
theorem lookup_insert_cases (h : (m.insert key value).lookup k = some v) :
    (k = key ∧ v = value) ∨ (k ≠ key ∧ m.lookup k = some v) := by
  rcases eq_or_ne k key with rfl | hne
  · rw [AList.lookup_insert] at h
    exact .inl ⟨rfl, (Option.some.inj h).symm⟩
  · rw [AList.lookup_insert_ne hne] at h
    exact .inr ⟨hne, h⟩

/-- A value held after a removal was held under another key. -/
theorem lookup_erase_cases (h : (m.erase key).lookup k = some v) :
    k ≠ key ∧ m.lookup k = some v := by
  rcases eq_or_ne k key with rfl | hne
  · rw [AList.lookup_erase] at h
    cases h
  · rw [AList.lookup_erase_ne hne] at h
    exact ⟨hne, h⟩

end

/-- `std::unordered_map<std::string, V>` -/
abbrev StringMap (V : Type*) := AList fun _ : Bytes => V

/-- `m.size()` -/
def StringMap.size {V : Type*} (m : StringMap V) : ℕ := m.keys.length

theorem StringMap.size_insert_of_notMem {V : Type*} {m : StringMap V} {k : Bytes} (h : k ∉ m)
    (v : V) : StringMap.size (m.insert k v) = m.size + 1 := by
  rw [AList.insert_of_notMem h]
  rfl

/-- A key that is there is not a new one. -/
theorem StringMap.ne_of_lookup {V : Type*} {m : StringMap V} {k key : Bytes} {v : V} (h : key ∉ m)
    (hl : m.lookup k = some v) : k ≠ key := by
  rintro rfl
  rw [AList.lookup_eq_none.mpr h] at hl
  cases hl

/-- Erasing a key keeps the other entries, in their order. -/
theorem StringMap.entries_erase {V : Type*} (m : StringMap V) (key : Bytes) :
    (m.erase key).entries = m.entries.filter fun e => e.1 ≠ key := by
  have h : ∀ l : List (Sigma fun _ : Bytes => V), l.NodupKeys →
      l.kerase key = l.filter fun e => e.1 ≠ key := by
    intro l
    induction l with
    | nil => simp
    | cons e l ih =>
      intro hd
      obtain ⟨hn, hd⟩ := List.nodupKeys_cons.mp hd
      rcases eq_or_ne key e.1 with rfl | hne
      · -- the key is not there once more
        have hl : ∀ e' ∈ l, decide (e'.1 ≠ e.1) = true := fun e' he' =>
          decide_eq_true fun he => hn (he ▸ List.mem_keys_of_mem he')
        rw [List.kerase_cons_eq rfl, List.filter_cons_of_neg (by simp), List.filter_eq_self.mpr hl]
      · rw [List.kerase_cons_ne hne, List.filter_cons_of_pos (by simpa using hne.symm), ih hd]
  exact h m.entries m.nodupKeys

/-- A map that holds some of the entries of another. -/
theorem StringMap.lookup_of_filter {V : Type*} {m m' : StringMap V} {p : Bytes → Prop}
    [DecidablePred p] (h : m'.entries = m.entries.filter fun e => ¬ p e.1) (k : Bytes) :
    m'.lookup k = if p k then none else m.lookup k := by
  have hm : ∀ v, m'.lookup k = some v ↔ ¬ p k ∧ m.lookup k = some v := by
    intro v
    rw [← Option.mem_def, ← Option.mem_def, AList.mem_lookup_iff, AList.mem_lookup_iff, h,
      List.mem_filter]
    simp [and_comm]
  by_cases hp : p k
  · rw [if_pos hp]
    exact Option.eq_none_iff_forall_ne_some.mpr fun v hv => ((hm v).mp hv).1 hp
  · rw [if_neg hp]
    exact Option.ext fun v => (hm v).trans (and_iff_right hp)

end Outmdsd
