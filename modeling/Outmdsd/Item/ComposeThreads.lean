import Outmdsd.Foundations.Runs
import Outmdsd.Item.SchemaIdentity

/-!
# Schema ids and threads

`ComposeSchema` looks its key up with `GetItem`, and after a miss hands its own schema array to
`FindOrInsert`. Each of the two takes the lock of the id manager once, so other threads may step in
between. Here any number of threads compose the schemas of their items.

Whatever the order, the schemas composed so far are answers of one interner
(`composed_answered`): a schema id stands for one schema array, a key for one id, and the ids handed
out are 1 to the number of keys (`schemaIds_agree`).
-/

namespace Outmdsd

open DjsonLogItem

/-- An id manager, and the threads that compose schemas with it. -/
structure ComposeThreads where
  ids : IdMgr
  /-- The fields a thread composes, between its two accesses to the id manager. -/
  missed : ℕ → Option (List ItemInfo)
  /-- The fields and the schemas of the calls that have returned. -/
  composed : List (List ItemInfo × ℕ × Bytes)

namespace ComposeThreads

/-- A step of `ComposeSchema`. -/
inductive Access
  | getItem (svlist : List ItemInfo)
  | findOrInsert

/-- A thread, and what it does. -/
abbrev Label := ℕ × Access

def init : ComposeThreads := ⟨.empty, fun _ => none, []⟩

/-- A step of a thread. A call that an exception ends composes nothing. -/
def step (s : ComposeThreads) : Label → Option ComposeThreads
  | (τ, .getItem svlist) =>
    match s.missed τ with
    | some _ => none
    | none =>
      match s.ids.getItem (getSchemaCacheKey svlist) with
      | .error _ => some s
      | .ok (some cachedInfo) => some { s with composed := s.composed ++ [(svlist, cachedInfo)] }
      | .ok none => some { s with missed := Function.update s.missed τ (some svlist) }
  | (τ, .findOrInsert) =>
    match s.missed τ with
    | none => none
    | some svlist =>
      let schemaArray := composeSchemaArray svlist
      match s.ids.findOrInsert (getSchemaCacheKey svlist) schemaArray with
      | .error _ => some { s with missed := Function.update s.missed τ none }
      | .ok (schemaId, ids) => some {
          ids := ids
          missed := Function.update s.missed τ none
          composed := s.composed ++ [(svlist, schemaId, schemaArray)] }

variable {s s' : ComposeThreads}

/-- The answers given so far, under their cache keys. -/
def answers (s : ComposeThreads) : List (Bytes × ℕ × Bytes) :=
  s.composed.map fun a => (getSchemaCacheKey a.1, a.2)

/-- **A step of a thread** gives at most one answer, and that of the interner. -/
theorem answered_step {l : Label} (h : s.ids.toInterner.Answered s.answers)
    (hs : s.step l = some s') : s'.ids.toInterner.Answered s'.answers := by
  obtain ⟨τ, a⟩ := l
  cases a with
  | getItem svlist =>
    simp only [step] at hs
    split at hs
    · cases hs
    · split at hs
      · cases hs
        exact h
      · rename_i cachedInfo hg
        cases hs
        rw [answers, List.map_append, List.map_singleton]
        exact h.again (IdMgr.lookup_of_getItem hg)
      · cases hs
        exact h
  | findOrInsert =>
    simp only [step] at hs
    split at hs
    · cases hs
    · rename_i svlist _
      split at hs
      · cases hs
        exact h
      · rename_i schemaId ids hf
        cases hs
        obtain ⟨ha, hi⟩ := IdMgr.request_of_findOrInsert hf
        rw [answers, List.map_append, List.map_singleton]
        change ids.toInterner.Answered (s.answers ++ [(getSchemaCacheKey svlist,
          (schemaId, composeSchemaArray svlist))])
        rw [hi, ← ha]
        exact h.request _ _

/-- **Runs.** The schemas composed so far are the answers of one interner. -/
theorem composed_answered (h : Reach step (fun _ _ => True) init s) :
    s.ids.toInterner.Answered s.answers := by
  refine h.invariant (I := fun s => s.ids.toInterner.Answered s.answers) ?_
    fun _ _ _ hi _ hs => answered_step hi hs
  rw [init, IdMgr.toInterner_empty]
  exact Interner.answered_empty

/-- A call that nobody disturbs is `ComposeSchema`. -/
theorem exec_eq_composeSchema (s : ComposeThreads) {τ : ℕ} (hτ : s.missed τ = none)
    {svlist : List ItemInfo} {schema : ℕ × Bytes} {ids : IdMgr}
    (h : composeSchema svlist s.ids = .ok (schema, ids)) :
    ∃ accesses : List Access, exec step s (accesses.map (Prod.mk τ)) =
      some { s with ids := ids, composed := s.composed ++ [(svlist, schema)] } := by
  unfold composeSchema at h
  rcases hg : s.ids.getItem (getSchemaCacheKey svlist) with e | _ | info
  · simp [hg, bind, Except.bind] at h
  · rcases hf : s.ids.findOrInsert (getSchemaCacheKey svlist) (composeSchemaArray svlist) with e | r
    · simp [hg, hf, bind, Except.bind] at h
    · simp only [hg, hf, bind, Except.bind, pure, Except.pure] at h
      cases h
      refine ⟨[.getItem svlist, .findOrInsert], ?_⟩
      have hm : Function.update (Function.update s.missed τ (some svlist)) τ none = s.missed := by
        rw [Function.update_idem, ← hτ, Function.update_eq_self]
      simp [exec, step, hτ, hg, hf, hm]
  · simp only [hg, bind, Except.bind, pure, Except.pure] at h
    cases h
    exact ⟨[.getItem svlist], by simp [exec, step, hτ, hg]⟩

/-- **Schema ids.** Whatever the order of the threads, two messages with the same schema id carry
the same schema array, calls with the same cache key obtain the same id, and the ids handed out are
those from 1 to the number of keys stored. -/
theorem schemaIds_agree (h : Reach step (fun _ _ => True) init s) :
    (∀ a ∈ s.composed, ∀ b ∈ s.composed, a.2.1 = b.2.1 → a.2.2 = b.2.2) ∧
      (∀ a ∈ s.composed, ∀ b ∈ s.composed,
        getSchemaCacheKey a.1 = getSchemaCacheKey b.1 → a.2.1 = b.2.1) ∧
      ∀ n, n ∈ s.composed.map (fun a => a.2.1) ↔ 1 ≤ n ∧ n ≤ s.ids.cache.size := by
  have ha := composed_answered h
  have hm : ∀ a ∈ s.composed, (getSchemaCacheKey a.1, a.2) ∈ s.answers := fun a hc =>
    List.mem_map.mpr ⟨a, hc, rfl⟩
  refine ⟨fun a hca b hcb he => ?_, fun a hca b hcb => ?_, fun n => ?_⟩
  · have hk := (ha.number_iff (hm a hca) (hm b hcb)).mp he
    exact congrArg (fun x => x.2.2) (ha.eq_of_key (hm a hca) (hm b hcb) hk)
  · exact (ha.number_iff (hm a hca) (hm b hcb)).mpr
  · rw [← show s.answers.map (fun a => a.2.1) = s.composed.map (fun a => a.2.1) by
      simp [answers, Function.comp_def]]
    exact ha.numbers n

/-- An item with one number. -/
def oneInt : DjsonLogItem := (ofSource 3 (lit "s")).addData (lit "n") (.int64 5)

/-- Two threads miss the key of `twoFields`, and a third one that of another field list. -/
def overlappingRun : List Label :=
  [(0, .getItem twoFields.svlist), (1, .getItem twoFields.svlist), (2, .getItem oneInt.svlist),
    (1, .findOrInsert), (2, .findOrInsert), (0, .findOrInsert), (1, .getItem oneInt.svlist)]

theorem schemaIds_agree_overlapping :
    ∃ s : ComposeThreads, s.composed.map (fun a => a.2.1) = [1, 2, 1, 2] ∧
      (∀ a ∈ s.composed, ∀ b ∈ s.composed, a.2.1 = b.2.1 → a.2.2 = b.2.2) ∧
      (∀ a ∈ s.composed, ∀ b ∈ s.composed,
        getSchemaCacheKey a.1 = getSchemaCacheKey b.1 → a.2.1 = b.2.1) ∧
      ∀ n, n ∈ s.composed.map (fun a => a.2.1) ↔ 1 ≤ n ∧ n ≤ s.ids.cache.size := by
  obtain ⟨s, hs, ht⟩ : ∃ s, Reach step (fun _ _ => True) init s ∧
      decide (s.composed.map (fun a => a.2.1) = [1, 2, 1, 2]) = true :=
    @Reach.exists_of_exec _ _ step _ _ (fun _ _ => true) _ overlappingRun (fun _ _ _ => trivial)
      (by decide) (by decide)
  exact ⟨s, of_decide_eq_true ht, schemaIds_agree hs⟩

end ComposeThreads

end Outmdsd
