import Outmdsd.Foundations.Exceptions
import Outmdsd.Foundations.Interning

/-!
# The schema id manager

`IdMgr` caches pairs of an id and a text under string keys. `FindOrInsert` takes the id of a new
entry from the size of the cache. When all entries come from `FindOrInsert`, the manager is an
interner (`IdMgr.toInterner`) whose last number is the size of the cache (`findOrInsert_eq`).
-/

namespace Outmdsd

/-- The cache of an `IdMgr`. Its lock makes each operation below one atomic step. -/
structure IdMgr where
  cache : StringMap (ℕ × Bytes)

namespace IdMgr

/-- A manager without entries. -/
def empty : IdMgr := ⟨∅⟩

/-- `IdMgr::GetItem`: `none` is the return value `false`. -/
def getItem (m : IdMgr) (key : Bytes) : Except Exn (Option (ℕ × Bytes)) :=
  if key = [] then
    .error (.invalidArgument (lit "GetItem(): invalid empty string for 'key' parameter."))
  else .ok (m.cache.lookup key)

/-- `IdMgr::FindOrInsert` -/
def findOrInsert (m : IdMgr) (key data : Bytes) : Except Exn (ℕ × IdMgr) :=
  if key = [] then
    .error (.invalidArgument (lit "FindOrInsert(): invalid empty string for 'key' parameter."))
  else if data = [] then
    .error (.invalidArgument (lit "FindOrInsert(): invalid empty string for 'data' parameter."))
  else
    match m.cache.lookup key with
    | none =>
      let id := m.cache.size + 1
      .ok (id, ⟨m.cache.insert key (id, data)⟩)
    | some item =>
      if data ≠ item.2 then
        .error (.runtimeError (lit "FindOrInsert(): same key has diff values: expected=" ++ data ++
          lit "; actual=" ++ item.2))
      else .ok (item.1, m)

/-- `IdMgr::Insert` -/
def insert (m : IdMgr) (key : Bytes) (value : ℕ × Bytes) : Except Exn IdMgr :=
  if key = [] then
    .error (.invalidArgument (lit "Insert(): invalid empty string for 'key' parameter."))
  else if value.2 = [] then
    .error (.invalidArgument (lit "Insert(): invalid empty string for 'value' parameter."))
  else
    match m.cache.lookup key with
    | none => .ok ⟨m.cache.insert key value⟩
    | some _ => .ok m

/-- `FindOrInsert` adds an entry under a new key, and only then. -/
theorem findOrInsert_cases {m m' : IdMgr} {key data : Bytes} {id : ℕ}
    (h : m.findOrInsert key data = .ok (id, m')) :
    (key ∉ m.cache ∧ id = m.cache.size + 1 ∧ m' = ⟨m.cache.insert key (id, data)⟩) ∨
      (m.cache.lookup key = some (id, data) ∧ m' = m) := by
  unfold findOrInsert at h
  split at h
  · cases h
  · split at h
    · cases h
    · split at h
      · rename_i hn
        cases h
        exact .inl ⟨AList.lookup_eq_none.mp hn, rfl, rfl⟩
      · rename_i item hl
        split at h
        · cases h
        · rename_i he
          cases h
          rw [not_not] at he
          exact .inr ⟨by rw [hl, he], rfl⟩

/-- `Insert` adds an entry under a new key, and only then. -/
theorem insert_cases {m m' : IdMgr} {key : Bytes} {value : ℕ × Bytes}
    (h : m.insert key value = .ok m') :
    (key ∉ m.cache ∧ m' = ⟨m.cache.insert key value⟩) ∨ (key ∈ m.cache ∧ m' = m) := by
  unfold insert at h
  split at h
  · cases h
  · split at h
    · cases h
    · split at h
      · rename_i hn
        cases h
        exact .inl ⟨AList.lookup_eq_none.mp hn, rfl⟩
      · rename_i item hl
        cases h
        exact .inr ⟨AList.lookup_isSome.mp (by rw [hl]; rfl), rfl⟩

theorem findOrInsert_new {m : IdMgr} {key data : Bytes} (hk : key ≠ []) (hd : data ≠ [])
    (hn : key ∉ m.cache) : m.findOrInsert key data =
      .ok (m.cache.size + 1, ⟨m.cache.insert key (m.cache.size + 1, data)⟩) := by
  simp only [findOrInsert, if_neg hk, if_neg hd, AList.lookup_eq_none.mpr hn]

/-! ## The manager as an interner -/

/-- The interner a manager is, the size of its cache being the last number handed out. -/
def toInterner (m : IdMgr) : Interner Bytes Bytes := ⟨fun k => m.cache.lookup k, m.cache.size⟩

@[simp] theorem toInterner_empty : toInterner empty = Interner.empty := by
  simp only [toInterner, empty, Interner.empty, AList.lookup_empty]
  rfl

/-- A hit of `GetItem`. -/
theorem lookup_of_getItem {m : IdMgr} {key : Bytes} {item : ℕ × Bytes}
    (h : m.getItem key = .ok (some item)) : m.cache.lookup key = some item := by
  unfold getItem at h
  split at h
  · cases h
  · exact Except.ok.inj h

/-- A `FindOrInsert` that returns is a request, and has the text it is given for its answer. -/
theorem request_of_findOrInsert {m m' : IdMgr} {key data : Bytes} {id : ℕ}
    (h : m.findOrInsert key data = .ok (id, m')) :
    (m.toInterner.request key data).1 = (id, data) ∧
      m'.toInterner = (m.toInterner.request key data).2 := by
  rcases findOrInsert_cases h with ⟨hn, rfl, rfl⟩ | ⟨hl, rfl⟩
  · have hl := AList.lookup_eq_none.mpr hn
    refine ⟨by simp [Interner.request, toInterner, hl], ?_⟩
    simp only [Interner.request, toInterner, hl, Interner.mk.injEq,
      StringMap.size_insert_of_notMem hn, and_true]
    funext k
    rcases eq_or_ne k key with rfl | hne
    · rw [AList.lookup_insert, Function.update_self]
    · rw [AList.lookup_insert_ne hne, Function.update_of_ne hne]
  · simp [Interner.request, toInterner, hl]

/-- What the two operations of `ComposeSchema` do together on a non-empty key: one request. -/
theorem findOrInsert_eq (m : IdMgr) {key data : Bytes} (hk : key ≠ []) (hd : data ≠ [])
    (hm : m.cache.lookup key = none) :
    ∃ m' : IdMgr, m.findOrInsert key data = .ok ((m.toInterner.request key data).1.1, m') ∧
      m'.toInterner = (m.toInterner.request key data).2 := by
  have hf := findOrInsert_new hk hd (AList.lookup_eq_none.mp hm)
  obtain ⟨ha, hi⟩ := request_of_findOrInsert hf
  exact ⟨_, by rw [ha, hf], hi⟩

/-- `FindOrInsert` stores its text under a new key, and changes no other entry. -/
theorem lookup_findOrInsert {m m' : IdMgr} {key data : Bytes} {id : ℕ}
    (h : m.findOrInsert key data = .ok (id, m')) (k : Bytes) :
    m'.cache.lookup k = m.cache.lookup k ∨
      k = key ∧ key ∉ m.cache ∧ m'.cache.lookup k = some (id, data) := by
  rcases findOrInsert_cases h with ⟨hn, -, rfl⟩ | ⟨-, rfl⟩
  · by_cases hk : k = key
    · subst hk
      exact .inr ⟨rfl, hn, AList.lookup_insert _⟩
    · exact .inl (AList.lookup_insert_ne hk)
  · exact .inl rfl

end IdMgr

end Outmdsd
