import Outmdsd.Foundations.Mutexes
import Outmdsd.Item.UniqueIds

/-!
# Concurrent use of the id manager

The operations of `IdMgr` check their arguments, lock `m_mutex`, look for the key, and then use the
entry they have found or make one, in several statements. They are linearizable
(`ids_linearizable`), which is why they are single steps elsewhere. So the ids that any number of
concurrent calls of `GetItem` and `FindOrInsert` return agree: the same id for the same key, and for
no other (`returned_ids_agree`).
-/

namespace Outmdsd

namespace IdMgr

open Guarded IdHistory

/-- What an operation returns. -/
inductive IdRes
  | threw (e : Exn)
  | found (item : Option (ℕ × Bytes))
  | id (n : ℕ)
  | inserted
  deriving DecidableEq

/-- Where an operation is under the lock. -/
inductive IdLoc
  /-- Before `m_cache.find(key)`. -/
  | find
  /-- `iter` is the entry of the key. -/
  | hit
  /-- `iter == m_cache.end()` -/
  | miss
  /-- The id of the new entry is known. -/
  | numbered (n : ℕ)

/-- The key of an operation. -/
def opKey : Op → Bytes
  | .getItem key | .findOrInsert key _ | .insert key _ => key

/-- The exception for arguments that are not accepted. -/
def rejected : Op → Option Exn
  | .getItem key =>
    if key = [] then
      some (.invalidArgument (lit "GetItem(): invalid empty string for 'key' parameter."))
    else none
  | .findOrInsert key data =>
    if key = [] then
      some (.invalidArgument (lit "FindOrInsert(): invalid empty string for 'key' parameter."))
    else if data = [] then
      some (.invalidArgument (lit "FindOrInsert(): invalid empty string for 'data' parameter."))
    else none
  | .insert key value =>
    if key = [] then
      some (.invalidArgument (lit "Insert(): invalid empty string for 'key' parameter."))
    else if value.2 = [] then
      some (.invalidArgument (lit "Insert(): invalid empty string for 'value' parameter."))
    else none

/-- The arguments are checked before `m_mutex` is locked. -/
def idLocks (o : Op) : Finset Unit := if (rejected o).isSome then ∅ else {()}

/-- What an operation does with the entry it has found. -/
def useEntry (o : Op) (item : ℕ × Bytes) : IdRes :=
  match o with
  | .getItem _ => .found (some item)
  | .findOrInsert _ data =>
    if data ≠ item.2 then
      .threw (.runtimeError (lit "FindOrInsert(): same key has diff values: expected=" ++ data ++
        lit "; actual=" ++ item.2))
    else .id item.1
  | .insert _ _ => .inserted

/-- A step under the lock, with the manager after it. -/
def lockedStep (o : Op) (m : IdMgr) : IdLoc → Option (IdMgr × (IdLoc ⊕ IdRes))
  | .find => some (m, .inl (if opKey o ∈ m.cache then .hit else .miss))
  | .hit => (m.cache.lookup (opKey o)).map fun item => (m, .inr (useEntry o item))
  | .miss =>
    match o with
    | .getItem _ => some (m, .inr (.found none))
    | .findOrInsert _ _ => some (m, .inl (.numbered (m.cache.size + 1)))
    | .insert key value => some (⟨m.cache.insert key value⟩, .inr .inserted)
  | .numbered n =>
    match o with
    | .findOrInsert key data => some (⟨m.cache.insert key (n, data)⟩, .inr (.id n))
    | .getItem _ | .insert _ _ => none

/-- A step of an operation. -/
def idBody (o : Op) (x : IdLoc) (_ : Unit) (w : idLocks o → IdMgr) :
    Option ((idLocks o → IdMgr) × (IdLoc ⊕ IdRes)) :=
  match h : rejected o with
  | some e => some (w, .inr (.threw e))
  | none => (lockedStep o (w ⟨(), by simp [idLocks, h]⟩) x).map fun r => (fun _ => r.1, r.2)

/-- The manager behind `m_mutex`. -/
abbrev guarded : Guarded Unit IdMgr Op IdLoc Unit IdRes where
  locks := idLocks
  start _ := .find
  body := idBody

/-- What an operation does and returns, as a single step. -/
def Does (o : Op) (f : Unit → IdMgr) (r : IdRes) (f' : Unit → IdMgr) : Prop :=
  match o with
  | .getItem key => f' = f ∧
      match (f ()).getItem key with
      | .ok item => r = .found item
      | .error e => r = .threw e
  | .findOrInsert key data =>
    match (f ()).findOrInsert key data with
    | .ok (id, m) => r = .id id ∧ f' = fun _ => m
    | .error e => r = .threw e ∧ f' = f
  | .insert key value =>
    match (f ()).insert key value with
    | .ok m => r = .inserted ∧ f' = fun _ => m
    | .error e => r = .threw e ∧ f' = f

/-- What an operation knows under the lock. -/
def Knows (o : Op) (m : IdMgr) : IdLoc → Prop
  | .find => True
  | .hit => ∃ item, m.cache.lookup (opKey o) = some item
  | .miss => m.cache.lookup (opKey o) = none
  | .numbered n => m.cache.lookup (opKey o) = none ∧ n = m.cache.size + 1

variable {o : Op} {m m' : IdMgr} {x y : IdLoc} {r : IdRes} {f f' : Unit → IdMgr}

theorem rejected_getItem {key : Bytes} : rejected (.getItem key) = none ↔ key ≠ [] := by
  simp [rejected]

theorem rejected_findOrInsert {key data : Bytes} :
    rejected (.findOrInsert key data) = none ↔ key ≠ [] ∧ data ≠ [] := by
  by_cases hk : key = [] <;> simp [rejected, hk]

theorem rejected_insert {key : Bytes} {value : ℕ × Bytes} :
    rejected (.insert key value) = none ↔ key ≠ [] ∧ value.2 ≠ [] := by
  by_cases hk : key = [] <;> simp [rejected, hk]

/-- A step that is not the last one changes nothing. -/
theorem Knows.next (h : Knows o m x) (hs : lockedStep o m x = some (m', .inl y)) :
    m' = m ∧ Knows o m y := by
  cases x with
  | find =>
    obtain ⟨rfl, rfl⟩ : m = m' ∧ (if opKey o ∈ m.cache then .hit else .miss) = y := by
      simpa [lockedStep] using hs
    refine ⟨rfl, ?_⟩
    split
    · exact Option.isSome_iff_exists.mp (AList.lookup_isSome.mpr ‹_›)
    · exact AList.lookup_eq_none.mpr ‹_›
  | hit =>
    obtain ⟨item, hitem⟩ := h
    simp [lockedStep, hitem] at hs
  | miss =>
    cases o with
    | getItem key | insert key value => simp [lockedStep] at hs
    | findOrInsert key data =>
      obtain ⟨rfl, rfl⟩ : m = m' ∧ IdLoc.numbered (m.cache.size + 1) = y := by
        simpa [lockedStep] using hs
      exact ⟨rfl, h, rfl⟩
  | numbered n => cases o <;> simp [lockedStep] at hs

/-- The key is there. -/
theorem does_hit {item : ℕ × Bytes} (hr : rejected o = none)
    (hl : m.cache.lookup (opKey o) = some item) :
    Does o (fun _ => m) (useEntry o item) fun _ => m := by
  cases o with
  | getItem key =>
    rw [opKey] at hl
    simp [Does, IdMgr.getItem, useEntry, rejected_getItem.mp hr, hl]
  | findOrInsert key data =>
    obtain ⟨hk, hd⟩ := rejected_findOrInsert.mp hr
    rw [opKey] at hl
    by_cases he : data = item.2
    · subst he
      simp [Does, IdMgr.findOrInsert, useEntry, hk, hd, hl]
    · simp [Does, IdMgr.findOrInsert, useEntry, hk, hd, hl, he]
  | insert key value =>
    obtain ⟨hk, hd⟩ := rejected_insert.mp hr
    rw [opKey] at hl
    simp [Does, IdMgr.insert, useEntry, hk, hd, hl]

/-- The last step does what the operation does. -/
theorem Knows.last (h : Knows o m x) (hr : rejected o = none)
    (hs : lockedStep o m x = some (m', .inr r)) : Does o (fun _ => m) r fun _ => m' := by
  cases x with
  | find => simp [lockedStep] at hs
  | hit =>
    obtain ⟨item, hitem⟩ := h
    obtain ⟨rfl, rfl⟩ : m = m' ∧ useEntry o item = r := by simpa [lockedStep, hitem] using hs
    exact does_hit hr hitem
  | miss =>
    cases o with
    | getItem key =>
      obtain ⟨rfl, rfl⟩ : m = m' ∧ IdRes.found none = r := by simpa [lockedStep] using hs
      have hl : m.cache.lookup key = none := h
      simp [Does, IdMgr.getItem, rejected_getItem.mp hr, hl]
    | findOrInsert key data => simp [lockedStep] at hs
    | insert key value =>
      obtain ⟨rfl, rfl⟩ : ⟨m.cache.insert key value⟩ = m' ∧ IdRes.inserted = r := by
        simpa [lockedStep] using hs
      obtain ⟨hk, hd⟩ := rejected_insert.mp hr
      have hl : m.cache.lookup key = none := h
      simp [Does, IdMgr.insert, hk, hd, hl]
  | numbered n =>
    obtain ⟨hl, rfl⟩ := h
    cases o with
    | findOrInsert key data =>
      obtain ⟨rfl, rfl⟩ : ⟨m.cache.insert key (m.cache.size + 1, data)⟩ = m' ∧
          IdRes.id (m.cache.size + 1) = r := by simpa [lockedStep] using hs
      obtain ⟨hk, hd⟩ := rejected_findOrInsert.mp hr
      have hf := findOrInsert_new hk hd (AList.lookup_eq_none.mp hl)
      simp [Does, hf]
    | getItem key | insert key value => simp [lockedStep] at hs

/-- An operation whose arguments are not accepted throws. -/
theorem does_rejected {e : Exn} (hr : rejected o = some e) : Does o f (.threw e) f := by
  cases o with
  | getItem key =>
    simp only [rejected] at hr
    split at hr
    · obtain rfl := Option.some.inj hr
      simp [Does, IdMgr.getItem, *]
    · cases hr
  | findOrInsert key data =>
    simp only [rejected] at hr
    split at hr
    · obtain rfl := Option.some.inj hr
      simp [Does, IdMgr.findOrInsert, *]
    · split at hr
      · obtain rfl := Option.some.inj hr
        simp [Does, IdMgr.findOrInsert, *]
      · cases hr
  | insert key value =>
    simp only [rejected] at hr
    split at hr
    · obtain rfl := Option.some.inj hr
      simp [Does, IdMgr.insert, *]
    · split at hr
      · obtain rfl := Option.some.inj hr
        simp [Does, IdMgr.insert, *]
      · cases hr

theorem does_of_atomic (o : Op) (f : Unit → IdMgr) (r : IdRes) (f' : Unit → IdMgr)
    (h : guarded.Atomic o f r f') : Does o f r f' := by
  obtain ⟨x, w, e, w', ⟨rfl, hx⟩, hb, rfl⟩ := h.exists_last
    (I := fun x w => w = (idLocks o).restrict f ∧ Knows o (f ()) x) ⟨rfl, trivial⟩ (by
      rintro x w e w' y ⟨rfl, hx⟩ hb
      change idBody o x e _ = _ at hb
      unfold idBody at hb
      split at hb
      · cases hb
      · obtain ⟨⟨m, out⟩, hs, he⟩ := Option.map_eq_some_iff.mp hb
        obtain ⟨rfl, rfl⟩ := Prod.mk.inj he
        obtain ⟨rfl, hy⟩ := hx.next hs
        exact ⟨rfl, hy⟩)
  change idBody o x e _ = _ at hb
  unfold idBody at hb
  split at hb
  · rename_i e' hr
    obtain ⟨rfl, rfl⟩ : (idLocks o).restrict f = w' ∧ IdRes.threw e' = r := by simpa using hb
    rw [put_restrict]
    exact does_rejected hr
  · rename_i hr
    obtain ⟨⟨m, out⟩, hs, he⟩ := Option.map_eq_some_iff.mp hb
    obtain ⟨rfl, rfl⟩ := Prod.mk.inj he
    have hm : () ∈ idLocks o := by simp [idLocks, hr]
    have hput : put f (fun _ : idLocks o => m) = fun _ => m := by
      funext i
      exact dif_pos hm
    rw [hput]
    exact hx.last hr hs

/-- **`IdMgr` is linearizable.** However the statements of its operations interleave, they return
what single steps return that are taken in one order, and this is the order of any two calls of
which one had returned before the other was made. -/
theorem ids_linearizable {m₀ : IdMgr} {s : State Unit IdMgr Op IdLoc IdRes}
    (h : Reach guarded.step (fun _ _ => True) (init fun _ => m₀) s) :
    Ordered s.history s.order ∧ ∃ f, Sequential Does (fun _ => m₀) s.order f ∧
      ∀ i, s.owner i = none → s.objs i = f i :=
  linearizable does_of_atomic h

/-- Two threads ask for the id of one key; the second one gets the lock first. -/
def bothAsk : List (Guarded.Label Unit Op Unit) :=
  [.invoke 0 (.findOrInsert (lit "k") (lit "d")), .invoke 1 (.findOrInsert (lit "k") (lit "d")),
    .acquire 1 (), .enter 1, .act 1 (), .act 1 (), .act 1 (), .release 1 (), .acquire 0 (),
    .enter 0, .act 0 (), .ret 1, .act 0 (), .release 0 (), .ret 0]

/-- The first call finds the entry of the second. -/
theorem ids_linearizable_both :
    ∃ s : State Unit IdMgr Op IdLoc IdRes,
      s.order.map (fun c => (c.id, c.res)) = [(1, .id 1), (0, .id 1)] ∧
        Ordered s.history s.order ∧ ∃ f, Sequential Does (fun _ => .empty) s.order f ∧
          ∀ i, s.owner i = none → s.objs i = f i := by
  obtain ⟨s, hs, ht⟩ : ∃ s, Reach guarded.step (fun _ _ => True) (init fun _ => .empty) s ∧
      decide (s.order.map (fun c => (c.id, c.res)) = [(1, .id 1), (0, .id 1)]) = true :=
    @Reach.exists_of_exec _ _ guarded.step _ _ (fun _ _ => true) _ bothAsk
      (fun _ _ _ => trivial) (by decide) (by decide)
  exact ⟨s, of_decide_eq_true ht, ids_linearizable hs⟩

/-- The key, the id and the text that a call of `GetItem` or `FindOrInsert` has returned or was
given. -/
def answer? (c : Call Op IdRes) : Option (Bytes × ℕ × Bytes) :=
  match c.op, c.res with
  | .getItem key, .found (some item) => some (key, item)
  | .findOrInsert key data, .id n => some (key, n, data)
  | _, _ => none

/-- The calls are `GetItem` and `FindOrInsert`. -/
def NoInsert : Op → Prop
  | .insert _ _ => False
  | _ => True

/-- What a call answers is an answer of the interner. -/
theorem answered_call {c : Call Op IdRes} {log : List (Bytes × ℕ × Bytes)}
    (h : (f ()).toInterner.Answered log) (hc : NoInsert c.op) (hd : Does c.op f c.res f') :
    (f' ()).toInterner.Answered (log ++ (answer? c).toList) := by
  obtain ⟨id, o, r⟩ := c
  have hsame : ∀ {a : Option (Bytes × ℕ × Bytes)}, a = none → f' = f →
      (f' ()).toInterner.Answered (log ++ a.toList) := by
    rintro a rfl rfl
    simpa using h
  cases o with
  | insert key value => exact absurd hc not_false
  | getItem key =>
    obtain ⟨rfl, hr⟩ := hd
    split at hr
    · rename_i item hg
      obtain rfl : r = .found item := hr
      cases item with
      | none => exact hsame rfl rfl
      | some item => exact h.again (lookup_of_getItem hg)
    · obtain rfl := hr
      exact hsame rfl rfl
  | findOrInsert key data =>
    simp only [Does] at hd
    split at hd
    · rename_i n m hf
      obtain ⟨rfl, rfl⟩ := hd
      obtain ⟨ha, hi⟩ := request_of_findOrInsert hf
      have hreq := h.request key data
      rw [ha, ← hi] at hreq
      exact hreq
    · obtain ⟨rfl, rfl⟩ := hd
      exact hsame rfl rfl

/-- The answers of a sequence of calls are those of one interner. -/
theorem answered_sequential {cs : List (Call Op IdRes)}
    (h : Sequential Does (fun _ => .empty) cs f) (hc : ∀ c ∈ cs, NoInsert c.op) :
    (f ()).toInterner.Answered (cs.filterMap answer?) := by
  induction h with
  | nil =>
    rw [toInterner_empty]
    exact Interner.answered_empty
  | @snoc cs f f' c _ hd ih =>
    have hold := ih fun c hm => hc c (List.mem_append_left _ hm)
    have hnew := answered_call hold (hc c (by simp)) hd
    rw [List.filterMap_append]
    cases ha : answer? c <;> simpa [ha] using hnew

/-- **The ids agree.** Whatever the order of the statements of concurrent calls of `GetItem` and
`FindOrInsert`, two calls have returned the same id if and only if they were made for the same key,
and then they have the same text. -/
theorem returned_ids_agree {s : State Unit IdMgr Op IdLoc IdRes}
    (h : Reach guarded.step (fun _ l => ∀ τ o, l = .invoke τ o → NoInsert o)
      (init fun _ => .empty) s) :
    ∀ c ∈ s.order, ∀ d ∈ s.order, ∀ a b, answer? c = some a → answer? d = some b →
      (a.2.1 = b.2.1 ↔ a.1 = b.1) ∧ (a.1 = b.1 → a = b) := by
  obtain ⟨hord, f, hseq, -⟩ := linearizable does_of_atomic (h.mono fun _ _ _ => trivial)
  have hno : ∀ c ∈ s.order, NoInsert c.op := fun c hc =>
    invoked_of_reach h c.op (List.mem_of_getElem? (hord.invoked c hc))
  have hans := answered_sequential hseq hno
  intro c hc d hd a b ha hb
  have hma := List.mem_filterMap.mpr ⟨c, hc, ha⟩
  have hmb := List.mem_filterMap.mpr ⟨d, hd, hb⟩
  exact ⟨hans.number_iff hma hmb, hans.eq_of_key hma hmb⟩

/-- `NoInsert` as a test of a step. -/
def invokesNoInsert : Guarded.Label Unit Op Unit → Bool
  | .invoke _ (.insert _ _) => false
  | _ => true

theorem noInsert_of {l : Guarded.Label Unit Op Unit} (h : invokesNoInsert l = true) :
    ∀ τ o, l = .invoke τ o → NoInsert o := by
  rintro τ o rfl
  cases o with
  | insert key value => cases h
  | getItem key | findOrInsert key data => trivial

/-- Both calls return the id 1. -/
theorem returned_ids_agree_both :
    ∃ s : State Unit IdMgr Op IdLoc IdRes,
      s.order.map (fun c => (c.id, c.res)) = [(1, .id 1), (0, .id 1)] ∧
        ∀ c ∈ s.order, ∀ d ∈ s.order, ∀ a b, answer? c = some a → answer? d = some b →
          (a.2.1 = b.2.1 ↔ a.1 = b.1) ∧ (a.1 = b.1 → a = b) := by
  obtain ⟨s, hs, ht⟩ : ∃ s, Reach guarded.step (fun _ l => ∀ τ o, l = .invoke τ o → NoInsert o)
        (init fun _ => .empty) s ∧
      decide (s.order.map (fun c => (c.id, c.res)) = [(1, .id 1), (0, .id 1)]) = true :=
    @Reach.exists_of_exec _ _ guarded.step _ _ (fun _ l => invokesNoInsert l) _ bothAsk
      (fun _ _ => noInsert_of) (by decide) (by decide)
  exact ⟨s, of_decide_eq_true ht, returned_ids_agree hs⟩

end IdMgr

end Outmdsd
