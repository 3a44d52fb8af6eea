import Outmdsd.Foundations.Exceptions
import Outmdsd.Foundations.Bytes

/-!
# The shared cache

The operations of `ConcurrentMap` are single steps: each runs under the mutex of the map. They act
on a `StringMap`, whose order of entries is the iteration order of `FilterEach` and `ForEach`.
-/

namespace Outmdsd

namespace ConcurrentMap

variable {V : Type*}

/-- `Add` -/
def add (m : StringMap V) (key : Bytes) (value : V) : Except Exn (StringMap V) :=
  if key = [] then .error (.invalidArgument (lit "Invalid empty string for map key."))
  else .ok (m.insert key value)

/-- `Erase(key)`: the number of erased entries, and the map. -/
def erase (m : StringMap V) (key : Bytes) : ℕ × StringMap V :=
  if key = [] then (0, m) else (if key ∈ m then 1 else 0, m.erase key)

/-- `Erase(keylist)` -/
def eraseList (m : StringMap V) (keylist : List Bytes) : ℕ × StringMap V :=
  keylist.foldl (fun r key => (r.1 + (if key ∈ r.2 then 1 else 0), r.2.erase key)) (0, m)

/-- `FilterEach`: the keys whose value passes the test. The test may read a clock, so its answer
may depend on the entry it is made for. -/
def filterEach (m : StringMap V) (fn : Bytes → V → Bool) : List Bytes :=
  (m.entries.filter fun e => fn e.1 e.2).map Sigma.fst

/-- `Get` -/
def get (m : StringMap V) (key : Bytes) : Except Exn V :=
  if key = [] then .error (.invalidArgument (lit "Invalid empty string for map key."))
  else match m.lookup key with
    | some value => .ok value
    | none => .error (.outOfRange (lit "ConcurrentMap::Get(): key not found " ++ key))

variable {m m' : StringMap V} {k key : Bytes} {value : V}

theorem add_eq_ok (h : key ≠ []) : add m key value = .ok (m.insert key value) := by
  simp [add, h]

/-- Erasing a list of keys leaves the other entries as they are, in their order. -/
theorem entries_eraseList (keylist : List Bytes) :
    (eraseList m keylist).2.entries = m.entries.filter fun e => e.1 ∉ keylist := by
  have h : ∀ (l : List Bytes) (r : ℕ × StringMap V),
      (l.foldl (fun r key => (r.1 + (if key ∈ r.2 then 1 else 0), r.2.erase key)) r).2.entries =
        r.2.entries.filter fun e => e.1 ∉ l := by
    intro l
    induction l with
    | nil => simp
    | cons key l ih =>
      intro r
      rw [List.foldl_cons, ih, StringMap.entries_erase, List.filter_filter]
      refine List.filter_congr fun e _ => ?_
      rw [← Bool.decide_and]
      exact decide_eq_decide.mpr (by rw [List.mem_cons, not_or, and_comm])
  exact h keylist (0, m)

theorem lookup_eraseList (keylist : List Bytes) :
    (eraseList m keylist).2.lookup k = if k ∈ keylist then none else m.lookup k :=
  StringMap.lookup_of_filter (entries_eraseList keylist) k

theorem mem_eraseList (keylist : List Bytes) :
    k ∈ (eraseList m keylist).2 ↔ k ∈ m ∧ k ∉ keylist := by
  rw [← AList.lookup_isSome, ← AList.lookup_isSome, lookup_eraseList]
  split
  · rename_i h
    simp [h]
  · rename_i h
    simp [h]

theorem eraseList_append (l l' : List Bytes) :
    (eraseList m (l ++ l')).2 = (eraseList (eraseList m l).2 l').2 := by
  refine AList.ext ?_
  rw [entries_eraseList, entries_eraseList, entries_eraseList, List.filter_filter]
  refine List.filter_congr fun e _ => ?_
  rw [← Bool.decide_and]
  exact decide_eq_decide.mpr (by rw [List.mem_append, not_or, and_comm])

/-- `Get` of a key that is there returns its value. -/
theorem get_eq_ok_iff (h : key ≠ []) : get m key = .ok value ↔ m.lookup key = some value := by
  rw [get, if_neg h]
  cases m.lookup key <;> simp

theorem lookup_of_get (h : get m key = .ok value) : m.lookup key = some value := by
  by_cases hk : key = []
  · simp [get, hk] at h
  · exact (get_eq_ok_iff hk).mp h

/-- `Get` throws only for a key that is not there, or empty. -/
theorem notMem_of_get {e : Exn} (hk : key ≠ []) (h : get m key = .error e) : key ∉ m := by
  rw [get, if_neg hk] at h
  cases hl : m.lookup key with
  | none => exact AList.lookup_eq_none.mp hl
  | some v => simp [hl] at h

end ConcurrentMap

end Outmdsd
