import Outmdsd.Foundations.Exceptions
import Outmdsd.Foundations.Runs
import Outmdsd.Plugin.SchemaManager

/-!
# Schema ids and flush threads

Several flush threads may be inside `get_schema_info` at once. It reads the hash, takes a new id
under the mutex if the key is missing, and writes the hash; other threads may step in between these.

The mutex makes the ids unique, so an id always stands for one schema (`schema_of_id`). But two
threads that both find a key missing each take an id of their own for it
(`twoIds_of_overlapping`). In every run in which no call finds a key missing that another call is
about to write, calls with the same key return the same pair (`schemaInfos_agree`).
-/

namespace Outmdsd.Plugin

open SchemaManager

/-- A call of `get_schema_info` that has found its key missing. -/
structure SchemaCall where
  record : Record
  /-- The new id, once it is taken. -/
  newSchemaId : Option ℕ

/-- A schema manager, the calls under way in its threads, and what was returned for the records. -/
structure SchemaThreads where
  mgr : SchemaManager
  calls : AList fun _ : ℕ => SchemaCall
  returned : List (Record × ℕ × RString)

namespace SchemaThreads

/-- A step of `get_schema_info`. -/
inductive Access
  | read (record : Record)
  | allocate
  | write

/-- A thread, and what it does. -/
abbrev Label := ℕ × Access

def init : SchemaThreads := ⟨.new, ∅, []⟩

/-- A step of a thread. -/
def step (s : SchemaThreads) : Label → Option SchemaThreads
  | (τ, .read record) =>
    match s.calls.lookup τ with
    | some _ => none
    | none =>
      match s.mgr.schemaHash.lookup (getSchemaKey record) with
      | some value => some { s with returned := s.returned ++ [(record, value)] }
      | none => some { s with calls := s.calls.insert τ ⟨record, none⟩ }
  | (τ, .allocate) =>
    match s.calls.lookup τ with
    | some ⟨record, none⟩ =>
      let r := s.mgr.getNewSchemaId
      some { s with mgr := r.2, calls := s.calls.insert τ ⟨record, some r.1⟩ }
    | _ => none
  | (τ, .write) =>
    match s.calls.lookup τ with
    | some ⟨record, some newSchemaId⟩ =>
      let newSchema := (newSchemaId, getNewSchema record)
      some {
        mgr := { s.mgr with
          schemaHash := s.mgr.schemaHash.insert (getSchemaKey record) newSchema }
        calls := s.calls.erase τ
        returned := s.returned ++ [(record, newSchema)] }
    | _ => none

/-- A call that finds its key missing is the only one for that key. -/
def Alone (s : SchemaThreads) : Label → Prop
  | (_, .read record) => getSchemaKey record ∈ s.mgr.schemaHash ∨
      ∀ c ∈ s.calls.entries, getSchemaKey c.2.record ≠ getSchemaKey record
  | _ => True

instance (s : SchemaThreads) : ∀ l, Decidable (s.Alone l)
  | (_, .read record) => inferInstanceAs (Decidable (getSchemaKey record ∈ s.mgr.schemaHash ∨
      ∀ c ∈ s.calls.entries, getSchemaKey c.2.record ≠ getSchemaKey record))
  | (_, .allocate) => inferInstanceAs (Decidable True)
  | (_, .write) => inferInstanceAs (Decidable True)

variable {s s' : SchemaThreads}

/-- The steps, by what they do. -/
inductive Move (s : SchemaThreads) : Label → SchemaThreads → Prop
  | hit {τ : ℕ} {record : Record} {value : ℕ × RString}
      (hv : s.mgr.schemaHash.lookup (getSchemaKey record) = some value) :
    Move s (τ, .read record) { s with returned := s.returned ++ [(record, value)] }
  | miss {τ : ℕ} {record : Record} (hn : getSchemaKey record ∉ s.mgr.schemaHash)
      (hc : s.calls.lookup τ = none) :
    Move s (τ, .read record) { s with calls := s.calls.insert τ ⟨record, none⟩ }
  | allocate {τ : ℕ} {record : Record} (hc : s.calls.lookup τ = some ⟨record, none⟩) :
    Move s (τ, .allocate) { s with
      mgr := { s.mgr with schema_id := s.mgr.schema_id + 1 }
      calls := s.calls.insert τ ⟨record, some (s.mgr.schema_id + 1)⟩ }
  | write {τ : ℕ} {record : Record} {n : ℕ} (hc : s.calls.lookup τ = some ⟨record, some n⟩) :
    Move s (τ, .write) {
      mgr := { s.mgr with
        schemaHash := s.mgr.schemaHash.insert (getSchemaKey record) (n, getNewSchema record) }
      calls := s.calls.erase τ
      returned := s.returned ++ [(record, n, getNewSchema record)] }

theorem move {l : Label} (hs : s.step l = some s') : Move s l s' := by
  obtain ⟨τ, a⟩ := l
  cases a with
  | read record =>
    simp only [step] at hs
    split at hs
    · cases hs
    · rename_i hc
      split at hs
      · rename_i hv
        cases hs
        exact .hit hv
      · rename_i hn
        cases hs
        exact .miss (AList.lookup_eq_none.mp hn) hc
  | allocate =>
    simp only [step] at hs
    split at hs
    · rename_i hc
      cases hs
      exact .allocate hc
    · cases hs
  | write =>
    simp only [step] at hs
    split at hs
    · rename_i hc
      cases hs
      exact .write hc
    · cases hs

/-- A call that nobody disturbs is `get_schema_info`. -/
theorem exec_eq_getSchemaInfo (s : SchemaThreads) {τ : ℕ} (hτ : s.calls.lookup τ = none)
    (record : Record) : ∃ (accesses : List Access) (calls : AList fun _ : ℕ => SchemaCall),
      exec step s (accesses.map (Prod.mk τ)) = some {
        mgr := (s.mgr.getSchemaInfo record).2
        calls := calls
        returned := s.returned ++ [(record, (s.mgr.getSchemaInfo record).1)] } := by
  cases hl : s.mgr.schemaHash.lookup (getSchemaKey record) with
  | some value =>
    exact ⟨[.read record], s.calls, by simp [exec, step, hτ, hl, getSchemaInfo]⟩
  | none =>
    exact ⟨[.read record, .allocate, .write], _, by
      simp [exec, step, hτ, hl, getSchemaInfo, getNewSchemaId]; rfl⟩

/-! ## Ids -/

/-- The new id a thread has taken and not stored yet. -/
def taken (s : SchemaThreads) (τ : ℕ) : Option ℕ :=
  (s.calls.lookup τ).bind SchemaCall.newSchemaId

/-- The pairs returned so far. -/
def pairs (s : SchemaThreads) : List (ℕ × RString) := s.returned.map Prod.snd

/-- The ids that were returned or taken are numbers handed out, those returned stand for one pair
each, and those taken are different from these and from one another. -/
structure Numbered (s : SchemaThreads) : Prop where
  stored : ∀ k v, s.mgr.schemaHash.lookup k = some v → v ∈ s.pairs
  le : ∀ v ∈ s.pairs, v.1 ≤ s.mgr.schema_id
  unique : ∀ v ∈ s.pairs, ∀ w ∈ s.pairs, v.1 = w.1 → v = w
  taken_le : ∀ τ n, s.taken τ = some n → n ≤ s.mgr.schema_id
  taken_new : ∀ τ n, s.taken τ = some n → ∀ v ∈ s.pairs, v.1 ≠ n
  distinct : ∀ τ τ' n, s.taken τ = some n → s.taken τ' = some n → τ = τ'

theorem numbered_init : init.Numbered := by
  constructor <;> simp [init, SchemaManager.new, pairs, taken]

theorem taken_insert (s : SchemaThreads) (τ : ℕ) (c : SchemaCall) :
    taken { s with calls := s.calls.insert τ c } = Function.update s.taken τ c.newSchemaId := by
  funext σ
  unfold taken
  rcases eq_or_ne σ τ with rfl | hne
  · rw [AList.lookup_insert, Function.update_self, Option.bind_some]
  · rw [AList.lookup_insert_ne hne, Function.update_of_ne hne]

theorem taken_erase (s : SchemaThreads) (τ : ℕ) :
    taken { s with calls := s.calls.erase τ } = Function.update s.taken τ none := by
  funext σ
  unfold taken
  rcases eq_or_ne σ τ with rfl | hne
  · rw [AList.lookup_erase, Function.update_self, Option.bind_none]
  · rw [AList.lookup_erase_ne hne, Function.update_of_ne hne]

/-- A hit returns a pair that was returned before. -/
theorem Numbered.hit (h : s.Numbered) {record : Record} {value : ℕ × RString}
    (hv : s.mgr.schemaHash.lookup (getSchemaKey record) = some value) :
    Numbered { s with returned := s.returned ++ [(record, value)] } := by
  have hm : ∀ v, v ∈ pairs { s with returned := s.returned ++ [(record, value)] } ↔
      v ∈ s.pairs := by
    intro v
    rw [pairs, List.map_append, List.mem_append, List.map_singleton, List.mem_singleton]
    exact ⟨fun hv' => hv'.elim id fun he => he ▸ h.stored _ _ hv, .inl⟩
  exact ⟨fun k v hk => (hm v).mpr (h.stored k v hk), fun v hv => h.le v ((hm v).mp hv),
    fun v hv w hw => h.unique v ((hm v).mp hv) w ((hm w).mp hw), h.taken_le,
    fun τ n hn v hv => h.taken_new τ n hn v ((hm v).mp hv), h.distinct⟩

/-- A new number is taken. -/
theorem Numbered.allocate (h : s.Numbered) (τ : ℕ) (record : Record) :
    Numbered { s with
      mgr := { s.mgr with schema_id := s.mgr.schema_id + 1 }
      calls := s.calls.insert τ ⟨record, some (s.mgr.schema_id + 1)⟩ } := by
  have ht : ∀ σ n, taken { s with
      mgr := { s.mgr with schema_id := s.mgr.schema_id + 1 }
      calls := s.calls.insert τ ⟨record, some (s.mgr.schema_id + 1)⟩ } σ = some n →
      (σ = τ ∧ n = s.mgr.schema_id + 1) ∨ (σ ≠ τ ∧ s.taken σ = some n) := by
    intro σ n hn
    have hu := congrFun (taken_insert s τ ⟨record, some (s.mgr.schema_id + 1)⟩) σ
    rcases eq_or_ne σ τ with rfl | hne
    · rw [Function.update_self] at hu
      exact .inl ⟨rfl, Option.some.inj (hn.symm.trans hu)⟩
    · rw [Function.update_of_ne hne] at hu
      exact .inr ⟨hne, hu.symm.trans hn⟩
  refine ⟨h.stored, fun v hv => Nat.le_succ_of_le (h.le v hv), h.unique, fun σ n hn => ?_,
    fun σ n hn v hv => ?_, fun σ σ' n hn hn' => ?_⟩
  · rcases ht σ n hn with ⟨-, rfl⟩ | ⟨-, hn⟩
    · exact le_rfl
    · exact Nat.le_succ_of_le (h.taken_le σ n hn)
  · rcases ht σ n hn with ⟨-, rfl⟩ | ⟨-, hn⟩
    · exact (Nat.lt_succ_of_le (h.le v hv)).ne
    · exact h.taken_new σ n hn v hv
  · rcases ht σ n hn with ⟨hτ, he⟩ | ⟨-, hσ⟩ <;> rcases ht σ' n hn' with ⟨hτ', he'⟩ | ⟨-, hσ'⟩
    · exact hτ.trans hτ'.symm
    · exact absurd (h.taken_le σ' n hσ') (by omega)
    · exact absurd (h.taken_le σ n hσ) (by omega)
    · exact h.distinct σ σ' n hσ hσ'

/-- A taken number is stored and returned. -/
theorem Numbered.write (h : s.Numbered) {τ n : ℕ} (hn : s.taken τ = some n) (record : Record) :
    Numbered {
      mgr := { s.mgr with
        schemaHash := s.mgr.schemaHash.insert (getSchemaKey record) (n, getNewSchema record) }
      calls := s.calls.erase τ
      returned := s.returned ++ [(record, n, getNewSchema record)] } := by
  have ht : ∀ σ m, taken { s with calls := s.calls.erase τ } σ = some m →
      σ ≠ τ ∧ s.taken σ = some m := by
    intro σ m hm
    rw [taken_erase] at hm
    rcases eq_or_ne σ τ with rfl | hne
    · rw [Function.update_self] at hm
      cases hm
    · rw [Function.update_of_ne hne] at hm
      exact ⟨hne, hm⟩
  have hp : ∀ v, v ∈ (s.returned ++ [(record, n, getNewSchema record)]).map Prod.snd ↔
      v ∈ s.pairs ∨ v = (n, getNewSchema record) := by simp [pairs]
  refine ⟨fun k v hv => ?_, fun v hv => ?_, fun v hv w hw he => ?_, fun σ m hm => ?_,
    fun σ m hm v hv => ?_, fun σ σ' m hm hm' => ?_⟩
  · refine (hp v).mpr ?_
    rcases lookup_insert_cases hv with ⟨-, he⟩ | ⟨-, hv⟩
    · exact .inr he
    · exact .inl (h.stored k v hv)
  · rcases (hp v).mp hv with hv | rfl
    · exact h.le v hv
    · exact h.taken_le τ n hn
  · rcases (hp v).mp hv with hv | rfl <;> rcases (hp w).mp hw with hw | rfl
    · exact h.unique v hv w hw he
    · exact absurd he (h.taken_new τ n hn v hv)
    · exact absurd he.symm (h.taken_new τ n hn w hw)
    · rfl
  · exact h.taken_le σ m (ht σ m hm).2
  · obtain ⟨hne, hm⟩ := ht σ m hm
    rcases (hp v).mp hv with hv | rfl
    · exact h.taken_new σ m hm v hv
    · rintro rfl
      exact hne (h.distinct σ τ _ hm hn)
  · exact h.distinct σ σ' m (ht σ m hm).2 (ht σ' m hm').2

/-- **A step keeps the ids apart.** -/
theorem Numbered.step {l : Label} (h : s.Numbered) (hs : s.step l = some s') : s'.Numbered := by
  cases move hs with
  | hit hv => exact h.hit hv
  | @miss τ record hn hc =>
    -- nothing is taken yet
    have ht : taken { s with calls := s.calls.insert τ ⟨record, none⟩ } = s.taken := by
      rw [taken_insert, Function.update_eq_self_iff, taken, hc]
      rfl
    refine ⟨h.stored, h.le, h.unique, ?_, ?_, ?_⟩
    · rw [ht]
      exact h.taken_le
    · rw [ht]
      exact h.taken_new
    · rw [ht]
      exact h.distinct
  | @allocate τ record hc => exact h.allocate τ record
  | @write τ record n hc => exact h.write (by rw [taken, hc]; rfl) record

/-- **An id stands for one schema**, in every run. -/
theorem schema_of_id (h : Reach step (fun _ _ => True) init s) :
    ∀ a ∈ s.returned, ∀ b ∈ s.returned, a.2.1 = b.2.1 → a.2.2 = b.2.2 := by
  have hn : s.Numbered :=
    h.invariant (I := Numbered) numbered_init fun _ _ _ hi _ hs => hi.step hs
  exact fun a ha b hb he => congrArg Prod.snd
    (hn.unique _ (List.mem_map_of_mem ha) _ (List.mem_map_of_mem hb) he)

/-! ## Keys -/

/-- What was returned for a key is what the hash holds for it, and a call that has found its key
missing is about to write it, alone. -/
structure Shared (s : SchemaThreads) : Prop where
  held : ∀ a ∈ s.returned, s.mgr.schemaHash.lookup (getSchemaKey a.1) = some a.2
  missing : ∀ τ c, s.calls.lookup τ = some c → getSchemaKey c.record ∉ s.mgr.schemaHash
  alone : ∀ τ τ' c c', s.calls.lookup τ = some c → s.calls.lookup τ' = some c' →
    getSchemaKey c.record = getSchemaKey c'.record → τ = τ'

theorem shared_init : init.Shared := by
  constructor <;> simp [init]

/-- A call that a step adds to the others, or takes a new id. -/
theorem Shared.insert (h : s.Shared) {τ : ℕ} {c : SchemaCall}
    (hn : getSchemaKey c.record ∉ s.mgr.schemaHash)
    (ha : ∀ σ c', σ ≠ τ → s.calls.lookup σ = some c' →
      getSchemaKey c'.record ≠ getSchemaKey c.record) (n : ℕ) :
    Shared { s with
      mgr := { s.mgr with schema_id := n }
      calls := s.calls.insert τ c } := by
  refine ⟨h.held, fun σ c' hc => ?_, fun σ σ' c₁ c₂ hc₁ hc₂ he => ?_⟩
  · rcases lookup_insert_cases hc with ⟨-, rfl⟩ | ⟨-, hc⟩
    · exact hn
    · exact h.missing σ c' hc
  · rcases lookup_insert_cases hc₁ with ⟨hσ, h₁⟩ | ⟨hne, h₁⟩ <;>
      rcases lookup_insert_cases hc₂ with ⟨hσ', h₂⟩ | ⟨hne', h₂⟩
    · exact hσ.trans hσ'.symm
    · exact absurd (h₁ ▸ he).symm (ha σ' c₂ hne' h₂)
    · exact absurd (h₂ ▸ he) (ha σ c₁ hne h₁)
    · exact h.alone σ σ' c₁ c₂ h₁ h₂ he

/-- **A step keeps the hash and the answers together**, if a call that finds its key missing is the
only one for that key. -/
theorem Shared.step {l : Label} (h : s.Shared) (ha : s.Alone l) (hs : s.step l = some s') :
    s'.Shared := by
  cases move hs with
  | @hit τ record value hv =>
    refine ⟨fun a ham => ?_, h.missing, h.alone⟩
    rcases List.mem_append.mp ham with ham | ham
    · exact h.held a ham
    · rw [List.mem_singleton.mp ham]
      exact hv
  | @miss τ record hn hc =>
    refine h.insert hn (fun σ c' _ hl => ?_) s.mgr.schema_id
    rcases ha with hm | ha
    · exact absurd hm hn
    · exact ha ⟨σ, c'⟩ (AList.mem_lookup_iff.mp hl)
  | @allocate τ record hc =>
    have hk := h.missing τ _ hc
    exact h.insert (c := ⟨record, some (s.mgr.schema_id + 1)⟩) hk
      (fun σ c' hne hl he => hne (h.alone σ τ c' _ hl hc he)) (s.mgr.schema_id + 1)
  | @write τ record n hc =>
    have hk := h.missing τ _ hc
    refine ⟨fun a ham => ?_, fun σ c' hσ => ?_, fun σ σ' c₁ c₂ h₁ h₂ =>
      h.alone σ σ' c₁ c₂ (lookup_erase_cases h₁).2 (lookup_erase_cases h₂).2⟩
    · rcases List.mem_append.mp ham with ham | ham
      · have hne : getSchemaKey a.1 ≠ getSchemaKey record := fun he =>
          hk (he ▸ AList.lookup_isSome.mp (by rw [h.held a ham]; rfl))
        exact (AList.lookup_insert_ne hne).trans (h.held a ham)
      · rw [List.mem_singleton.mp ham]
        exact AList.lookup_insert _
    · obtain ⟨hne, hσ⟩ := lookup_erase_cases hσ
      rw [AList.mem_insert, not_or]
      exact ⟨fun he => hne (h.alone σ τ c' _ hσ hc he), h.missing σ c' hσ⟩

/-- **Schema ids.** In every run in which a call that finds its key missing is the only one for
that key, an id stands for one schema, and calls with the same key return the same pair. -/
theorem schemaInfos_agree (h : Reach step Alone init s) :
    (∀ a ∈ s.returned, ∀ b ∈ s.returned, a.2.1 = b.2.1 → a.2.2 = b.2.2) ∧
      ∀ a ∈ s.returned, ∀ b ∈ s.returned, getSchemaKey a.1 = getSchemaKey b.1 → a.2 = b.2 := by
  have hs : s.Shared := h.invariant (I := Shared) shared_init fun _ _ _ hi hok hs => hi.step hok hs
  refine ⟨schema_of_id (h.mono fun _ _ _ => trivial), fun a ha b hb he => ?_⟩
  have hb' := hs.held b hb
  rw [← he] at hb'
  exact Option.some.inj ((hs.held a ha).symm.trans hb')

/-- Two calls for different keys overlap, and a third one finds its key. -/
def separateRun : List Label :=
  [(0, .read recordAB), (1, .read ⟨[], by decide⟩), (1, .allocate), (0, .allocate), (0, .write),
    (2, .read recordSpelled), (1, .write)]

theorem schemaInfos_agree_separate :
    ∃ s : SchemaThreads, s.returned.map (fun a => a.2.1) = [2, 2, 1] ∧
      (∀ a ∈ s.returned, ∀ b ∈ s.returned, a.2.1 = b.2.1 → a.2.2 = b.2.2) ∧
      ∀ a ∈ s.returned, ∀ b ∈ s.returned, getSchemaKey a.1 = getSchemaKey b.1 → a.2 = b.2 := by
  obtain ⟨s, hs, ht⟩ : ∃ s, Reach step Alone init s ∧
      decide (s.returned.map (fun a => a.2.1) = [2, 2, 1]) = true :=
    @Reach.exists_of_exec _ _ step _ _ (fun s l => decide (s.Alone l)) _ separateRun
      (fun _ _ h => of_decide_eq_true h) (by decide) (by decide)
  exact ⟨s, of_decide_eq_true ht, schemaInfos_agree hs⟩

/-- Two calls for one record that both find its key missing return different pairs. -/
theorem twoIds_of_overlapping :
    ∃ s : SchemaThreads, Reach step (fun _ _ => True) init s ∧
      s.returned = [(recordAB, 1, getNewSchema recordAB), (recordAB, 2, getNewSchema recordAB)] ∧
      ¬ ∀ a ∈ s.returned, ∀ b ∈ s.returned, getSchemaKey a.1 = getSchemaKey b.1 → a.2 = b.2 := by
  have hr : Reach step (fun _ _ => True) init _ :=
    .step (.step (.step (.step (.step (.step .init trivial (l := (0, .read recordAB)) rfl)
      trivial (l := (1, .read recordAB)) rfl) trivial (l := (0, .allocate)) rfl)
      trivial (l := (1, .allocate)) rfl) trivial (l := (0, .write)) rfl)
      trivial (l := (1, .write)) rfl
  refine ⟨_, hr, rfl, fun h => ?_⟩
  have := h (recordAB, 1, getNewSchema recordAB) (.head _)
    (recordAB, 2, getNewSchema recordAB) (.tail _ (.head _)) rfl
  simp at this

end SchemaThreads

end Outmdsd.Plugin
