import Outmdsd.Foundations.Runs
import Outmdsd.Item.IdMgr

/-!
# Ids and `Insert`

`FindOrInsert` takes the id of a new entry from the number of keys, while `Insert` stores an entry
under an id of the caller's choice. An entry stays as it is for ever (`lookup_run`), and the id of
a new one is unique unless `Insert` has stored an entry under just that id before
(`newId_unique_iff`).
-/

namespace Outmdsd

/-- An id manager with the ids of the entries that `Insert` has stored. -/
structure IdHistory where
  mgr : IdMgr
  inserted : List ℕ

namespace IdHistory

/-- A call of a public operation. -/
inductive Op
  | getItem (key : Bytes)
  | findOrInsert (key data : Bytes)
  | insert (key : Bytes) (value : ℕ × Bytes)

def init : IdHistory := ⟨.empty, []⟩

/-- A call whose arguments are accepted. -/
def step (s : IdHistory) : Op → Option IdHistory
  | .getItem key =>
    match s.mgr.getItem key with
    | .error _ => none
    | .ok _ => some s
  | .findOrInsert key data =>
    match s.mgr.findOrInsert key data with
    | .error _ => none
    | .ok r => some { s with mgr := r.2 }
  | .insert key value =>
    match s.mgr.insert key value with
    | .error _ => none
    | .ok mgr => some {
        mgr := mgr
        inserted := if key ∈ s.mgr.cache then s.inserted else s.inserted ++ [value.1] }

/-- Every entry has an id up to the number of keys, or one that `Insert` was given; and `Insert` has
stored what it was given. -/
structure Inv (s : IdHistory) : Prop where
  id_le : ∀ k v, s.mgr.cache.lookup k = some v → v.1 ≤ s.mgr.cache.size ∨ v.1 ∈ s.inserted
  inserted : ∀ n ∈ s.inserted, ∃ k v, s.mgr.cache.lookup k = some v ∧ v.1 = n

variable {s s' : IdHistory}

theorem inv_init : init.Inv where
  id_le k v h := by simp [init, IdMgr.empty] at h
  inserted n h := by simp [init] at h

/-- A new entry under the next id. -/
theorem Inv.findOrInsert (h : s.Inv) {key : Bytes} (hk : key ∉ s.mgr.cache) (data : Bytes) :
    Inv { s with mgr := ⟨s.mgr.cache.insert key (s.mgr.cache.size + 1, data)⟩ } where
  id_le k v hl := by
    rw [StringMap.size_insert_of_notMem hk]
    rcases lookup_insert_cases hl with ⟨-, rfl⟩ | ⟨-, hl⟩
    · exact .inl le_rfl
    · exact (h.id_le k v hl).imp_left Nat.le_succ_of_le
  inserted n hn := by
    obtain ⟨k, v, hl, hv⟩ := h.inserted n hn
    refine ⟨k, v, ?_, hv⟩
    rw [AList.lookup_insert_ne (StringMap.ne_of_lookup hk hl)]
    exact hl

/-- A new entry under an id of the caller. -/
theorem Inv.insert (h : s.Inv) {key : Bytes} (hk : key ∉ s.mgr.cache) (value : ℕ × Bytes) :
    Inv ⟨⟨s.mgr.cache.insert key value⟩, s.inserted ++ [value.1]⟩ where
  id_le k v hl := by
    rw [StringMap.size_insert_of_notMem hk, List.mem_append]
    rcases lookup_insert_cases hl with ⟨-, rfl⟩ | ⟨-, hl⟩
    · exact .inr (.inr (List.mem_singleton.mpr rfl))
    · exact (h.id_le k v hl).imp Nat.le_succ_of_le .inl
  inserted n hn := by
    rcases List.mem_append.mp hn with hn | hn
    · obtain ⟨k, v, hl, hv⟩ := h.inserted n hn
      refine ⟨k, v, ?_, hv⟩
      rw [AList.lookup_insert_ne (StringMap.ne_of_lookup hk hl)]
      exact hl
    · exact ⟨key, value, AList.lookup_insert _, (List.mem_singleton.mp hn).symm⟩

/-- The calls, by what they do. -/
inductive Effect (s : IdHistory) : Op → IdHistory → Prop
  | same (op : Op) : Effect s op s
  | findOrInsert {key data : Bytes} (hk : key ∉ s.mgr.cache) :
    Effect s (.findOrInsert key data)
      { s with mgr := ⟨s.mgr.cache.insert key (s.mgr.cache.size + 1, data)⟩ }
  | insert {key : Bytes} {value : ℕ × Bytes} (hk : key ∉ s.mgr.cache) :
    Effect s (.insert key value) ⟨⟨s.mgr.cache.insert key value⟩, s.inserted ++ [value.1]⟩

theorem effect {op : Op} (hs : s.step op = some s') : Effect s op s' := by
  cases op with
  | getItem key =>
    simp only [step] at hs
    split at hs
    · cases hs
    · cases hs
      exact .same _
  | findOrInsert key data =>
    simp only [step] at hs
    split at hs
    · cases hs
    · rename_i r hf
      cases hs
      obtain ⟨id, m⟩ := r
      rcases IdMgr.findOrInsert_cases hf with ⟨hk, rfl, rfl⟩ | ⟨-, rfl⟩
      · exact .findOrInsert hk
      · exact .same _
  | insert key value =>
    simp only [step] at hs
    split at hs
    · cases hs
    · rename_i m hi
      cases hs
      rcases IdMgr.insert_cases hi with ⟨hk, rfl⟩ | ⟨hk, rfl⟩
      · rw [if_neg hk]
        exact .insert hk
      · rw [if_pos hk]
        exact .same _

/-- **A call keeps the invariant.** -/
theorem Inv.step {op : Op} (h : s.Inv) (hs : s.step op = some s') : s'.Inv := by
  cases effect hs with
  | same => exact h
  | findOrInsert hk => exact h.findOrInsert hk _
  | insert hk => exact h.insert hk _

/-- **A call changes no entry.** -/
theorem lookup_step {op : Op} (hs : s.step op = some s') {k : Bytes} {v : ℕ × Bytes}
    (hl : s.mgr.cache.lookup k = some v) : s'.mgr.cache.lookup k = some v := by
  cases effect hs with
  | same => exact hl
  | findOrInsert hk | insert hk =>
    exact (AList.lookup_insert_ne (StringMap.ne_of_lookup hk hl)).trans hl

/-- **A run changes no entry.** -/
theorem lookup_run (h : Reach step (fun _ _ => True) s s') {k : Bytes} {v : ℕ × Bytes}
    (hl : s.mgr.cache.lookup k = some v) : s'.mgr.cache.lookup k = some v :=
  h.invariant (I := fun t => t.mgr.cache.lookup k = some v) hl
    fun _ _ _ hi _ hs => lookup_step hs hi

/-- The id of a new entry differs from the id of every entry stored. -/
def NewIdUnique (s : IdHistory) (key data : Bytes) : Prop :=
  ∀ id mgr, s.mgr.findOrInsert key data = .ok (id, mgr) → key ∉ s.mgr.cache →
    ∀ k v, s.mgr.cache.lookup k = some v → v.1 ≠ id

/-- **Unique ids.** After any sequence of calls, an entry keeps its id and data whatever calls
follow; and the id that `FindOrInsert` gives to a new entry differs from the ids of all entries
stored if and only if no `Insert` has stored an entry under the number of keys plus one. -/
theorem newId_unique_iff (h : Reach step (fun _ _ => True) init s) :
    (∀ s', Reach step (fun _ _ => True) s s' → ∀ k v, s.mgr.cache.lookup k = some v →
        s'.mgr.cache.lookup k = some v) ∧
      ∀ key data, key ≠ [] → data ≠ [] → key ∉ s.mgr.cache →
        (s.NewIdUnique key data ↔ s.mgr.cache.size + 1 ∉ s.inserted) := by
  have hi : s.Inv := h.invariant (I := Inv) inv_init fun _ _ _ hi _ hs => hi.step hs
  refine ⟨fun s' hr k v hl => lookup_run hr hl, fun key data hk hd hn => ?_⟩
  have hf := IdMgr.findOrInsert_new hk hd hn
  constructor
  · intro hu hm
    obtain ⟨k, v, hl, hv⟩ := hi.inserted _ hm
    exact hu _ _ hf hn k v hl hv
  · rintro hu id m hf' - k v hl rfl
    obtain ⟨he, -⟩ := Prod.mk.inj (Except.ok.inj (hf'.symm.trans hf))
    rcases hi.id_le k v hl with hle | hm
    · omega
    · exact hu (he ▸ hm)

/-- Two entries under ids of the caller. -/
def insertingRun : List Op :=
  [.insert (lit "a") (7, lit "x"), .insert (lit "b") (2, lit "y"),
    .findOrInsert (lit "c") (lit "z")]

/-- The id 7 is not met yet. -/
theorem newId_unique_iff_inserted :
    ∃ s : IdHistory, s.inserted = [7, 2] ∧
      (∀ s', Reach step (fun _ _ => True) s s' → ∀ k v, s.mgr.cache.lookup k = some v →
        s'.mgr.cache.lookup k = some v) ∧
      ∀ key data, key ≠ [] → data ≠ [] → key ∉ s.mgr.cache →
        (s.NewIdUnique key data ↔ s.mgr.cache.size + 1 ∉ s.inserted) := by
  obtain ⟨s, hs, ht⟩ : ∃ s, Reach step (fun _ _ => True) init s ∧
      decide (s.inserted = [7, 2]) = true :=
    @Reach.exists_of_exec _ _ step _ _ (fun _ _ => true) _ insertingRun (fun _ _ _ => trivial)
      (by decide) (by decide)
  exact ⟨s, of_decide_eq_true ht, newId_unique_iff hs⟩

/-- After `Insert` under the id 2, the next new entry of `FindOrInsert` gets the id 2 too. -/
theorem newId_of_insert :
    ∃ s : IdHistory, Reach step (fun _ _ => True) init s ∧
      ∃ mgr, s.mgr.cache.lookup (lit "a") = some (2, lit "x") ∧
        s.mgr.findOrInsert (lit "b") (lit "y") = .ok (2, mgr) ∧
        ¬ s.NewIdUnique (lit "b") (lit "y") := by
  refine ⟨_, .step .init trivial (l := .insert (lit "a") (2, lit "x")) rfl, _, rfl, rfl,
    fun hu => ?_⟩
  exact hu 2 _ rfl (by decide) (lit "a") _ rfl rfl

end IdHistory

end Outmdsd
