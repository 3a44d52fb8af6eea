import Outmdsd.Cache.ConcurrentMap
import Outmdsd.Foundations.Mutexes

/-!
# Concurrent use of the map

Each operation of `ConcurrentMap` locks the mutex of its map and then works on the entries one by
one: `Erase` of a list in a loop, `FilterEach` and `ForEach` with a callback for each entry, the
copies by inserting entry after entry; `operator=` locks two maps. Elsewhere these operations are
single steps. That is justified here: any number of threads that use any number of maps get the
results of the single steps, taken in one order (`cache_linearizable`).
-/

namespace Outmdsd

namespace ConcurrentMap

open Guarded

/-- An operation on the maps. -/
inductive MapOp (ι V : Type*)
  | add (m : ι) (key : Bytes) (value : V)
  | erase (m : ι) (key : Bytes)
  | eraseList (m : ι) (keylist : List Bytes)
  /-- The callback answers for the entry of a key, or throws. -/
  | filterEach (m : ι) (fn : Bytes → V → Except Exn Bool)
  | forEach (m : ι) (fn : Bytes → V → Except Exn Unit)
  | get (m : ι) (key : Bytes)
  | size (m : ι)
  /-- `ConcurrentMap(const ConcurrentMap& other)` -/
  | copy (other : ι)
  /-- `operator=(const ConcurrentMap& other)` -/
  | assign (m other : ι)

/-- What an operation returns. -/
inductive MapRes (V : Type*)
  | done
  | threw (e : Exn)
  | count (n : ℕ)
  | keys (keylist : List Bytes)
  /-- The values the callback was called for, and the exception of the last of these calls. -/
  | visited (values : List V) (threw : Option Exn)
  | value (value : V)
  | map (copy : StringMap V)

/-- The locals of an operation under the lock; the loops over the entries of a map have visited `n`
of them. -/
inductive MapLoc (V : Type*)
  | start
  | erasing (keylist : List Bytes) (nTotal : ℕ)
  | filtering (n : ℕ) (keylist : List Bytes)
  | visiting (n : ℕ) (values : List V)
  | copying (n : ℕ) (copy : StringMap V)
  | assigning (n : ℕ)

variable {ι V : Type*} [DecidableEq ι]

/-- The mutexes an operation locks; it may return or throw without one. -/
def mapLocks : MapOp ι V → Finset ι
  | .add m key _ | .erase m key | .get m key => if key = [] then ∅ else {m}
  | .eraseList m keylist => if keylist = [] then ∅ else {m}
  | .filterEach m _ | .forEach m _ | .size m | .copy m => {m}
  | .assign m other => if m = other then ∅ else {m, other}

/-- The first statement under the lock. -/
def mapStart : MapOp ι V → MapLoc V
  | .eraseList _ keylist => .erasing keylist 0
  | .filterEach _ _ => .filtering 0 []
  | .forEach _ _ => .visiting 0 []
  | .copy _ => .copying 0 ∅
  | .add _ _ _ | .erase _ _ | .get _ _ | .size _ | .assign _ _ => .start

/-- The exception for an empty key. -/
def emptyKey : Exn := .invalidArgument (lit "Invalid empty string for map key.")

/-- A step of an operation. -/
@[simp] def mapBody (o : MapOp ι V) (x : MapLoc V) (_ : Unit) (w : mapLocks o → StringMap V) :
    Option ((mapLocks o → StringMap V) × (MapLoc V ⊕ MapRes V)) :=
  match o, x with
  | .add m key value, .start =>
    if h : key = [] then some (w, .inr (.threw emptyKey))
    else
      let i : mapLocks (.add m key value) := ⟨m, by simp [mapLocks, h]⟩
      some (Function.update w i ((w i).insert key value), .inr .done)
  | .erase m key, .start =>
    if h : key = [] then some (w, .inr (.count 0))
    else
      let i : mapLocks (V := V) (.erase m key) := ⟨m, by simp [mapLocks, h]⟩
      some (Function.update w i ((w i).erase key), .inr (.count (if key ∈ w i then 1 else 0)))
  | .eraseList _ _, .erasing [] nTotal => some (w, .inr (.count nTotal))
  | .eraseList m keylist, .erasing (key :: rest) nTotal =>
    if h : keylist = [] then none
    else
      let i : mapLocks (V := V) (.eraseList m keylist) := ⟨m, by simp [mapLocks, h]⟩
      some (Function.update w i ((w i).erase key),
        .inl (.erasing rest (nTotal + (if key ∈ w i then 1 else 0))))
  | .filterEach m fn, .filtering n keylist =>
    match (w ⟨m, by simp [mapLocks]⟩).entries[n]? with
    | none => some (w, .inr (.keys keylist))
    | some item =>
      match fn item.1 item.2 with
      | .error e => some (w, .inr (.threw e))
      | .ok b => some (w, .inl (.filtering (n + 1) (if b then keylist ++ [item.1] else keylist)))
  | .forEach m fn, .visiting n values =>
    match (w ⟨m, by simp [mapLocks]⟩).entries[n]? with
    | none => some (w, .inr (.visited values none))
    | some item =>
      match fn item.1 item.2 with
      | .error e => some (w, .inr (.visited (values ++ [item.2]) (some e)))
      | .ok _ => some (w, .inl (.visiting (n + 1) (values ++ [item.2])))
  | .get m key, .start =>
    if h : key = [] then some (w, .inr (.threw emptyKey))
    else
      some (w, .inr (match (w ⟨m, by simp [mapLocks, h]⟩).lookup key with
        | none => .threw (.outOfRange (lit "ConcurrentMap::Get(): key not found " ++ key))
        | some value => .value value))
  | .size m, .start => some (w, .inr (.count (w ⟨m, by simp [mapLocks]⟩).size))
  | .copy m, .copying n copy =>
    match (w ⟨m, by simp [mapLocks]⟩).entries[n]? with
    | none => some (w, .inr (.map copy))
    | some item => some (w, .inl (.copying (n + 1) (copy.insert item.1 item.2)))
  | .assign m other, .start =>
    if h : m = other then some (w, .inr .done)
    else
      let i : mapLocks (V := V) (.assign m other) := ⟨m, by simp [mapLocks, h]⟩
      some (Function.update w i ∅, .inl (.assigning 0))
  | .assign m other, .assigning n =>
    if h : m = other then none
    else
      let i : mapLocks (V := V) (.assign m other) := ⟨m, by simp [mapLocks, h]⟩
      match (w ⟨other, by simp [mapLocks, h]⟩).entries[n]? with
      | none => some (w, .inr .done)
      | some item =>
        some (Function.update w i ((w i).insert item.1 item.2), .inl (.assigning (n + 1)))
  | _, _ => none

/-- The maps behind their mutexes. -/
abbrev guarded (ι V : Type*) [DecidableEq ι] :
    Guarded ι (StringMap V) (MapOp ι V) (MapLoc V) Unit (MapRes V) where
  locks := mapLocks
  start := mapStart
  body := mapBody

/-- The calls of a callback for some entries in their order, of which an exception is the last: the
values they are made for, and the exception. -/
def visit {α : Type*} (fn : Bytes → V → Except Exn α) :
    List (Sigma fun _ : Bytes => V) → List V × Option Exn
  | [] => ([], none)
  | item :: items =>
    match fn item.1 item.2 with
    | .error e => ([item.2], some e)
    | .ok _ => (item.2 :: (visit fn items).1, (visit fn items).2)

/-- The callback answers yes. -/
def accepts (fn : Bytes → V → Except Exn Bool) (key : Bytes) (value : V) : Bool :=
  match fn key value with
  | .ok b => b
  | .error _ => false

/-- What an operation does and returns, as a single step. The order of the entries of a copy is not
said. -/
def MapOp.Does (o : MapOp ι V) (f : ι → StringMap V) (r : MapRes V) (f' : ι → StringMap V) : Prop :=
  match o with
  | .add m key value =>
    match ConcurrentMap.add (f m) key value with
    | .ok map => r = .done ∧ f' = Function.update f m map
    | .error e => r = .threw e ∧ f' = f
  | .erase m key => r = .count (ConcurrentMap.erase (f m) key).1 ∧
      f' = Function.update f m (ConcurrentMap.erase (f m) key).2
  | .eraseList m keylist => r = .count (ConcurrentMap.eraseList (f m) keylist).1 ∧
      f' = Function.update f m (ConcurrentMap.eraseList (f m) keylist).2
  | .filterEach m fn => f' = f ∧
      match (visit fn (f m).entries).2 with
      | none => r = .keys (ConcurrentMap.filterEach (f m) (accepts fn))
      | some e => r = .threw e
  | .forEach m fn => f' = f ∧
      r = .visited (visit fn (f m).entries).1 (visit fn (f m).entries).2
  | .get m key => f' = f ∧
      match ConcurrentMap.get (f m) key with
      | .ok value => r = .value value
      | .error e => r = .threw e
  | .size m => f' = f ∧ r = .count (f m).size
  | .copy m => f' = f ∧ ∃ copy, r = .map copy ∧ ∀ k, copy.lookup k = (f m).lookup k
  | .assign m other => r = .done ∧ (∀ k, (f' m).lookup k = (f other).lookup k) ∧
      ∀ i ≠ m, f' i = f i

variable {f f' : ι → StringMap V} {r : MapRes V} {m other : ι}

/-- An operation whose body is one step. -/
theorem atomic_one {o : MapOp ι V} (h : (guarded ι V).Atomic o f r f')
    (hstart : mapStart o = .start)
    (hone : ∀ e w w' y, mapBody o .start e w ≠ some (w', .inl y)) :
    ∃ e w', mapBody o .start e ((mapLocks o).restrict f) = some (w', .inr r) ∧ f' = put f w' := by
  obtain ⟨x, w, e, w', ⟨rfl, rfl⟩, hb, hf⟩ := h.exists_last
    (I := fun x w => x = .start ∧ w = (mapLocks o).restrict f) ⟨hstart, rfl⟩ (by
      rintro x w e w' y ⟨rfl, -⟩ hb
      exact absurd hb (hone e w w' y))
  exact ⟨e, w', hb, hf⟩

theorem does_add {key : Bytes} {value : V} (h : (guarded ι V).Atomic (.add m key value) f r f') :
    (MapOp.add m key value).Does f r f' := by
  obtain ⟨e, w', hb, rfl⟩ := atomic_one h rfl fun e w w' y => by
    by_cases hk : key = [] <;> simp [mapBody, hk]
  by_cases hk : key = []
  · obtain ⟨rfl, rfl⟩ : (mapLocks _).restrict f = w' ∧ .threw emptyKey = r := by
      simpa [mapBody, hk] using hb
    simp [MapOp.Does, ConcurrentMap.add, hk, emptyKey]
  · simp only [mapBody, dif_neg hk] at hb
    cases hb
    simp [MapOp.Does, ConcurrentMap.add, hk, Finset.restrict]

theorem does_erase {key : Bytes} (h : (guarded ι V).Atomic (.erase m key) f r f') :
    (MapOp.erase m key).Does f r f' := by
  obtain ⟨e, w', hb, rfl⟩ := atomic_one h rfl fun e w w' y => by
    by_cases hk : key = [] <;> simp [mapBody, hk]
  by_cases hk : key = []
  · obtain ⟨rfl, rfl⟩ : (mapLocks _).restrict f = w' ∧ .count 0 = r := by
      simpa [mapBody, hk] using hb
    simp [MapOp.Does, ConcurrentMap.erase, hk]
  · simp only [mapBody, dif_neg hk] at hb
    cases hb
    simp only [MapOp.Does, ConcurrentMap.erase, if_neg hk]
    exact ⟨rfl, put_update _ _⟩

theorem does_get {key : Bytes} (h : (guarded ι V).Atomic (.get m key) f r f') :
    (MapOp.get m key).Does f r f' := by
  obtain ⟨e, w', hb, rfl⟩ := atomic_one h rfl fun e w w' y => by
    by_cases hk : key = [] <;> simp [mapBody, hk]
  by_cases hk : key = []
  · obtain ⟨rfl, rfl⟩ : (mapLocks _).restrict f = w' ∧ .threw emptyKey = r := by
      simpa [mapBody, hk] using hb
    simp [MapOp.Does, ConcurrentMap.get, hk, emptyKey]
  · simp only [mapBody, dif_neg hk] at hb
    cases hb
    cases hl : (f m).lookup key <;> simp [MapOp.Does, ConcurrentMap.get, hk, hl, Finset.restrict]

theorem does_size (h : (guarded ι V).Atomic (.size m) f r f') : (MapOp.size m).Does f r f' := by
  obtain ⟨e, w', hb, rfl⟩ := atomic_one h rfl fun e w w' y => by simp [mapBody]
  simp only [mapBody] at hb
  cases hb
  exact ⟨put_restrict, rfl⟩

/-- What the loop of `Erase` does for a key. -/
def eraseOne (r : ℕ × StringMap V) (key : Bytes) : ℕ × StringMap V :=
  (r.1 + (if key ∈ r.2 then 1 else 0), r.2.erase key)

/-- The loop of `Erase` is a fold over the rest of its list. -/
theorem does_eraseList {keylist : List Bytes}
    (h : (guarded ι V).Atomic (.eraseList m keylist) f r f') :
    (MapOp.eraseList m keylist).Does f r f' := by
  by_cases hk : keylist = []
  · subst hk
    obtain ⟨x, w, e, w', ⟨rfl, rfl⟩, hb, rfl⟩ := h.exists_last
      (I := fun x w => x = .erasing [] 0 ∧ w = (mapLocks (V := V) (.eraseList m [])).restrict f)
      ⟨rfl, rfl⟩ (by
        rintro x w e w' y ⟨rfl, -⟩ hb
        cases hb)
    cases hb
    simp [MapOp.Does, eraseList]
  · have hm : m ∈ mapLocks (V := V) (.eraseList m keylist) := by simp [mapLocks, hk]
    obtain ⟨x, w, e, w', ⟨rest, nTotal, rfl, hfold⟩, hb, rfl⟩ := h.exists_last
      (I := fun x w => ∃ rest nTotal, x = .erasing rest nTotal ∧
        rest.foldl eraseOne (nTotal, w ⟨m, hm⟩) = eraseList (f m) keylist)
      ⟨keylist, 0, rfl, rfl⟩ (by
        rintro x w e w' y ⟨rest, nTotal, rfl, hfold⟩ hb
        cases rest with
        | nil => cases hb
        | cons key rest =>
          simp only [mapBody, dif_neg hk] at hb
          cases hb
          refine ⟨rest, _, rfl, ?_⟩
          rw [Function.update_self]
          exact hfold)
    cases rest with
    | nil =>
      cases hb
      have hnil : (nTotal, w ⟨m, hm⟩) = eraseList (f m) keylist := hfold
      rw [MapOp.Does, ← hnil]
      exact ⟨rfl, put_singleton hm (by simp [mapLocks, hk])⟩
    | cons key rest =>
      simp only [mapBody, dif_neg hk] at hb
      cases hb

section visit

variable {α : Type*} {fn : Bytes → V → Except Exn α} {items : List (Sigma fun _ : Bytes => V)}

/-- The callback was called for the first `n` entries, and has thrown for none of them. -/
def VisitedFirst (fn : Bytes → V → Except Exn α) (items : List (Sigma fun _ : Bytes => V)) (n : ℕ) :
    Prop :=
  visit fn items = ((items.take n).map Sigma.snd ++ (visit fn (items.drop n)).1,
    (visit fn (items.drop n)).2)

theorem visitedFirst_zero : VisitedFirst fn items 0 := rfl

variable {n : ℕ} {item : Sigma fun _ : Bytes => V}

theorem drop_of_getElem? (hitem : items[n]? = some item) :
    items.drop n = item :: items.drop (n + 1) := by
  obtain ⟨hn, rfl⟩ := List.getElem?_eq_some_iff.mp hitem
  exact List.drop_eq_getElem_cons hn

theorem VisitedFirst.succ (h : VisitedFirst fn items n) (hitem : items[n]? = some item) {x : α}
    (hfn : fn item.1 item.2 = .ok x) : VisitedFirst fn items (n + 1) := by
  rw [VisitedFirst, drop_of_getElem? hitem, visit, hfn] at h
  rw [VisitedFirst, h, List.take_add_one, hitem]
  simp

theorem VisitedFirst.of_end (h : VisitedFirst fn items n) (hend : items[n]? = none) :
    visit fn items = ((items.take n).map Sigma.snd, none) := by
  rw [VisitedFirst, List.drop_of_length_le (List.getElem?_eq_none_iff.mp hend)] at h
  simpa [visit] using h

theorem VisitedFirst.of_threw (h : VisitedFirst fn items n) (hitem : items[n]? = some item)
    {e : Exn} (hfn : fn item.1 item.2 = .error e) :
    visit fn items = ((items.take n).map Sigma.snd ++ [item.2], some e) := by
  rwa [VisitedFirst, drop_of_getElem? hitem, visit, hfn] at h

end visit

/-- `FilterEach` has visited some entries, and kept the keys of those the callback accepts. -/
theorem does_filterEach {fn : Bytes → V → Except Exn Bool}
    (h : (guarded ι V).Atomic (.filterEach m fn) f r f') : (MapOp.filterEach m fn).Does f r f' := by
  obtain ⟨x, w, e, w', ⟨n, keylist, rfl, rfl, hv, rfl⟩, hb, rfl⟩ := h.exists_last
    (I := fun x w => ∃ n keylist, x = .filtering n keylist ∧
      w = (mapLocks (V := V) (.filterEach m fn)).restrict f ∧ VisitedFirst fn (f m).entries n ∧
        keylist = (((f m).entries.take n).filter fun e => accepts fn e.1 e.2).map Sigma.fst)
    ⟨0, [], rfl, rfl, visitedFirst_zero, by simp⟩ (by
      rintro x w e w' y ⟨n, keylist, rfl, rfl, hv, rfl⟩ hb
      simp only [mapBody, Finset.restrict] at hb
      split at hb
      · cases hb
      · rename_i item hitem
        split at hb
        · cases hb
        · rename_i b hfn
          cases hb
          refine ⟨n + 1, _, rfl, rfl, hv.succ hitem hfn, ?_⟩
          rw [List.take_add_one, hitem, List.filter_append, List.map_append]
          cases b <;> simp [accepts, hfn])
  simp only [mapBody, Finset.restrict] at hb
  split at hb
  · rename_i hend
    cases hb
    refine ⟨put_restrict, ?_⟩
    rw [hv.of_end hend, List.take_of_length_le (List.getElem?_eq_none_iff.mp hend)]
    rfl
  · rename_i item hitem
    split at hb
    · rename_i e hfn
      cases hb
      refine ⟨put_restrict, ?_⟩
      rw [hv.of_threw hitem hfn]
    · cases hb

theorem does_forEach {fn : Bytes → V → Except Exn Unit}
    (h : (guarded ι V).Atomic (.forEach m fn) f r f') : (MapOp.forEach m fn).Does f r f' := by
  obtain ⟨x, w, e, w', ⟨n, rfl, rfl, hv⟩, hb, rfl⟩ := h.exists_last
    (I := fun x w => ∃ n, x = .visiting n (((f m).entries.take n).map Sigma.snd) ∧
      w = (mapLocks (V := V) (.forEach m fn)).restrict f ∧ VisitedFirst fn (f m).entries n)
    ⟨0, rfl, rfl, visitedFirst_zero⟩ (by
      rintro x w e w' y ⟨n, rfl, rfl, hv⟩ hb
      simp only [mapBody, Finset.restrict] at hb
      split at hb
      · cases hb
      · rename_i item hitem
        split at hb
        · cases hb
        · rename_i hfn
          cases hb
          refine ⟨n + 1, ?_, rfl, hv.succ hitem hfn⟩
          rw [List.take_add_one, hitem, List.map_append]
          rfl)
  simp only [mapBody, Finset.restrict] at hb
  split at hb
  · rename_i hend
    cases hb
    refine ⟨put_restrict, ?_⟩
    rw [hv.of_end hend]
  · rename_i item hitem
    split at hb
    · rename_i e hfn
      cases hb
      refine ⟨put_restrict, ?_⟩
      rw [hv.of_threw hitem hfn]
    · cases hb

/-- The copy holds the first `n` entries of the map. -/
def Copied (map : StringMap V) (n : ℕ) (copy : StringMap V) : Prop :=
  ∀ k v, copy.lookup k = some v ↔ (⟨k, v⟩ : Σ _ : Bytes, V) ∈ map.entries.take n

theorem copied_zero (map : StringMap V) : Copied map 0 ∅ := by simp [Copied]

/-- The next entry is inserted in the copy. -/
theorem Copied.insert {map copy : StringMap V} {n : ℕ} (h : Copied map n copy)
    {item : Σ _ : Bytes, V} (hitem : map.entries[n]? = some item) :
    Copied map (n + 1) (copy.insert item.1 item.2) := by
  intro k v
  have hmem : item ∈ map.entries := List.mem_of_getElem? hitem
  rw [List.take_add_one, hitem, List.mem_append, ← h k v]
  by_cases hk : k = item.1
  · subst hk
    rw [AList.lookup_insert]
    constructor
    · rintro he
      obtain rfl := Option.some.inj he
      exact .inr (by simp)
    · rintro (hl | he)
      · have hold := List.mem_of_mem_take ((h item.1 v).mp hl)
        rw [map.nodupKeys.eq_of_mk_mem hold hmem]
      · obtain he := List.mem_singleton.mp (by simpa using he)
        rw [← he]
  · rw [AList.lookup_insert_ne hk]
    refine ⟨.inl, fun he => he.resolve_right fun he => hk ?_⟩
    have he : (⟨k, v⟩ : Σ _ : Bytes, V) = item := by simpa using he
    rw [← he]

theorem Copied.lookup {map copy : StringMap V} {n : ℕ} (h : Copied map n copy)
    (hend : map.entries[n]? = none) (k : Bytes) : copy.lookup k = map.lookup k := by
  refine Option.ext fun v => ?_
  have hv := h k v
  rw [List.take_of_length_le (List.getElem?_eq_none_iff.mp hend)] at hv
  exact hv.trans AList.mem_lookup_iff.symm

theorem does_copy (h : (guarded ι V).Atomic (.copy m) f r f') : (MapOp.copy m).Does f r f' := by
  obtain ⟨x, w, e, w', ⟨n, copy, rfl, rfl, hcopy⟩, hb, rfl⟩ := h.exists_last
    (I := fun x w => ∃ n copy, x = .copying n copy ∧
      w = (mapLocks (V := V) (.copy m)).restrict f ∧ Copied (f m) n copy)
    ⟨0, ∅, rfl, rfl, copied_zero _⟩ (by
      rintro x w e w' y ⟨n, copy, rfl, rfl, hcopy⟩ hb
      simp only [mapBody, Finset.restrict] at hb
      split at hb
      · cases hb
      · rename_i item hitem
        cases hb
        exact ⟨n + 1, _, rfl, rfl, hcopy.insert hitem⟩)
  simp only [mapBody, Finset.restrict] at hb
  split at hb
  · rename_i hnone
    cases hb
    exact ⟨put_restrict, copy, rfl, hcopy.lookup hnone⟩
  · cases hb

/-- `operator=` empties the one map and then inserts the entries of the other. -/
theorem does_assign (h : (guarded ι V).Atomic (.assign m other) f r f') :
    (MapOp.assign m other).Does f r f' := by
  by_cases he : m = other
  · subst he
    obtain ⟨e, w', hb, rfl⟩ := atomic_one h rfl fun e w w' y => by simp [mapBody]
    simp only [mapBody, dif_pos] at hb
    cases hb
    rw [MapOp.Does, put_restrict]
    exact ⟨rfl, fun _ => rfl, fun _ _ => rfl⟩
  · have hm : m ∈ mapLocks (V := V) (.assign m other) := by simp [mapLocks, he]
    have ho : other ∈ mapLocks (V := V) (.assign m other) := by simp [mapLocks, he]
    obtain ⟨x, w, e, w', ⟨hother, hx⟩, hb, rfl⟩ := h.exists_last
      (I := fun x w => w ⟨other, ho⟩ = f other ∧
        (x = .start ∨ ∃ n, x = .assigning n ∧ Copied (f other) n (w ⟨m, hm⟩)))
      ⟨rfl, .inl rfl⟩ (by
        have hne : (⟨other, ho⟩ : mapLocks (V := V) (.assign m other)) ≠ ⟨m, hm⟩ := fun h =>
          he (congrArg Subtype.val h).symm
        rintro x w e w' y ⟨hother, rfl | ⟨n, rfl, hcopy⟩⟩ hb
        · simp only [mapBody, dif_neg he] at hb
          cases hb
          refine ⟨by rw [Function.update_of_ne hne, hother], .inr ⟨0, rfl, ?_⟩⟩
          rw [Function.update_self]
          exact copied_zero _
        · simp only [mapBody, dif_neg he, hother] at hb
          split at hb
          · cases hb
          · rename_i item hitem
            cases hb
            refine ⟨by rw [Function.update_of_ne hne, hother], .inr ⟨n + 1, rfl, ?_⟩⟩
            rw [Function.update_self]
            exact hcopy.insert hitem)
    rcases hx with rfl | ⟨n, rfl, hcopy⟩
    · simp only [mapBody, dif_neg he] at hb
      cases hb
    · simp only [mapBody, dif_neg he, hother] at hb
      split at hb
      · rename_i hnone
        cases hb
        refine ⟨rfl, fun k => ?_, fun i hi => ?_⟩
        · have hput : put f w m = w ⟨m, hm⟩ := dif_pos hm
          rw [hput]
          exact hcopy.lookup hnone k
        · by_cases hio : i = other
          · subst hio
            have hput : put f w i = w ⟨i, ho⟩ := dif_pos ho
            rw [hput, hother]
          · exact put_of_notMem (by simp [mapLocks, he, hi, hio])
      · cases hb

theorem does_of_atomic (o : MapOp ι V) (f : ι → StringMap V) (r : MapRes V) (f' : ι → StringMap V)
    (h : (guarded ι V).Atomic o f r f') : o.Does f r f' := by
  cases o with
  | add m key value => exact does_add h
  | erase m key => exact does_erase h
  | eraseList m keylist => exact does_eraseList h
  | filterEach m fn => exact does_filterEach h
  | forEach m fn => exact does_forEach h
  | get m key => exact does_get h
  | size m => exact does_size h
  | copy m => exact does_copy h
  | assign m other => exact does_assign h

/-- **`ConcurrentMap` is linearizable.** However the steps of any number of threads interleave, the
operations on any number of maps have the results, and leave the maps with the entries, of single
steps taken in one order; and of two operations one of which had returned before the other was
called, this one comes first. -/
theorem cache_linearizable {f₀ : ι → StringMap V}
    {s : State ι (StringMap V) (MapOp ι V) (MapLoc V) (MapRes V)}
    (h : Reach (guarded ι V).step (fun _ _ => True) (init f₀) s) :
    Ordered s.history s.order ∧
      ∃ f, Sequential MapOp.Does f₀ s.order f ∧ ∀ i, s.owner i = none → s.objs i = f i :=
  Guarded.linearizable does_of_atomic h

/-- One thread assigns the second map to the first; another adds to the second before that one has
locked it. -/
def addBeforeAssign : List (Guarded.Label Bool (MapOp Bool ℕ) Unit) :=
  [.invoke 0 (.assign false true), .invoke 1 (.add true (lit "k") 7), .acquire 0 false,
    .acquire 1 true, .enter 1, .act 1 (), .release 1 true, .acquire 0 true, .enter 0,
    .act 0 (), .ret 1, .act 0 (), .act 0 (), .release 0 false,
    .release 0 true, .ret 0]

/-- The later call takes effect first. -/
theorem cache_linearizable_twice :
    ∃ s : State Bool (StringMap ℕ) (MapOp Bool ℕ) (MapLoc ℕ) (MapRes ℕ),
      (s.order.map Call.id = [1, 0] ∧ (s.objs false).lookup (lit "k") = some 7) ∧
        Ordered s.history s.order ∧
          ∃ f, Sequential MapOp.Does (fun _ => ∅) s.order f ∧
            ∀ i, s.owner i = none → s.objs i = f i := by
  obtain ⟨s, hs, ht⟩ : ∃ s, Reach (guarded Bool ℕ).step (fun _ _ => True) (init fun _ => ∅) s ∧
      decide (s.order.map Call.id = [1, 0] ∧ (s.objs false).lookup (lit "k") = some 7) = true :=
    @Reach.exists_of_exec _ _ (guarded Bool ℕ).step _ _ (fun _ _ => true) _ addBeforeAssign
      (fun _ _ _ => trivial) (by decide) (by decide)
  exact ⟨s, of_decide_eq_true ht, cache_linearizable hs⟩

end ConcurrentMap

end Outmdsd
