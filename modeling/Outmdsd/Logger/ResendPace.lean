import Mathlib.Data.List.Perm.Basic
import Outmdsd.Logger.Redelivery

/-!
# The pace of the resender

`DataResender::Run` waits for `m_resendIntervalMS` before each round, and a round removes the items
older than `m_ackTimeoutMS` before it sends the others. So an item that has been sent in `n` rounds
is at least `n - 1` intervals old when the next wait begins (`Pace`), and it is sent in at most
`ackTimeoutMS / resendIntervalMS + 1` rounds, however the calls of `SendDjson`, the reader and the
answers of the socket fall between the steps of the resender (`resent_le`). The server gets it at
most once more than that. A round that no exception ends sends exactly the items in the cache at its
second copy, each once, and none that was too old when it began (`round_sends_all`).
-/

namespace Outmdsd

namespace Backup

/-- The tag that a step of the resender hands to `Send`. -/
def resentBy (b : Backup) : BackupStep → List Bytes
  | .resender (.send i _ _) =>
    match b.resender with
    | .send cacheCopy => (cacheCopy[i]?.bind Prod.snd).toList.map fun l => l.item.tag
    | _ => []
  | _ => []

/-- The tags of the items of a list of entries. -/
def tags (es : List (Bytes × LogItemPtr)) : List Bytes :=
  (es.filterMap Prod.snd).map fun l => l.item.tag

/-- When the resender began to wait, after a step. -/
def sinceAfter (since : ℕ) (b b' : Backup) : ℕ :=
  match b.resender, b'.resender with
  | .wait, _ => since
  | _, .wait => b.clock
  | _, _ => since

/-- The age of an item is tested before it wraps around. -/
def AgesFit (b : Backup) : BackupStep → Prop
  | .resender (.check i) => ∀ cacheBak keysToRemove key l,
      b.resender = .filter cacheBak keysToRemove → cacheBak[i]? = some (key, some l) →
        l.ageMS b.clock < 4294967296
  | _ => True

/-! ## What the wait does to the age of an item -/

/-- The item cached under a key is at least `m` intervals old by the time `t`. -/
def AgedBy (b : Backup) (resendIntervalMS : ℕ) (k : Bytes) (m t : ℕ) : Prop :=
  ∀ l, b.dataCache.lookup k = some (some l) → l.touchTime + m * (resendIntervalMS * 1000000) ≤ t

/-- What the resender knows of the cached items, if it has sent the item of the key `k` in `n k`
rounds. -/
def PaceOk (b : Backup) (resendIntervalMS since : ℕ) (n : Bytes → ℕ) : ResenderPc → Prop
  | .wait => ∀ k, 1 ≤ n k → b.AgedBy resendIntervalMS k (n k - 1) since
  | .size | .copy => ∀ k, b.AgedBy resendIntervalMS k (n k) b.clock
  | .filter cacheBak keysToRemove => ∀ k, b.AgedBy resendIntervalMS k (n k) b.clock ∧
      ∀ l, b.dataCache.lookup k = some (some l) → (k, some l) ∈ cacheBak ∨
        k ∈ keysToRemove.map Prod.fst ∨ n k * resendIntervalMS ≤ b.ackTimeoutMS
  | .copyAgain => ∀ k, b.AgedBy resendIntervalMS k (n k) b.clock ∧
      ∀ l, b.dataCache.lookup k = some (some l) → n k * resendIntervalMS ≤ b.ackTimeoutMS
  | .send cacheCopy => (∀ k, b.AgedBy resendIntervalMS k (n k - 1) b.clock) ∧
      (cacheCopy.map Prod.fst).Nodup ∧ ∀ k l, (k, some l) ∈ cacheCopy → l.item.tag = k ∧
        k ∈ b.ledger.added ∧ n k * resendIntervalMS ≤ b.ackTimeoutMS ∧
        b.AgedBy resendIntervalMS k (n k) b.clock

/-- The pace of the resender: `n k` is the number of rounds that have sent the item of the key. -/
structure Pace (b : Backup) (resendIntervalMS since : ℕ) (n : Bytes → ℕ) : Prop where
  since_le : since ≤ b.clock
  cached : ∀ k l, b.dataCache.lookup k = some (some l) →
    l.item.tag = k ∧ k ∈ b.ledger.added ∧ l.touchTime ≤ b.clock
  added : ∀ k, k ∉ b.ledger.added → n k = 0
  bounded : ∀ k, (n k - 1) * resendIntervalMS ≤ b.ackTimeoutMS
  ok : b.PaceOk resendIntervalMS since n b.resender

/-- A step of the others, seen by the resender: what is new in the cache was not added before. -/
structure Passes (b b' : Backup) : Prop where
  ackTimeoutMS : b'.ackTimeoutMS = b.ackTimeoutMS
  resender : b'.resender = b.resender
  clock : b.clock ≤ b'.clock
  added : b.ledger.added ⊆ b'.ledger.added
  lookup : ∀ k l, b'.dataCache.lookup k = some (some l) →
    b.dataCache.lookup k = some (some l) ∨
      k ∉ b.ledger.added ∧ l.item.tag = k ∧ k ∈ b'.ledger.added ∧ l.touchTime ≤ b'.clock

variable {b b' : Backup} {I since : ℕ} {n : Bytes → ℕ} {k : Bytes}

theorem AgedBy.mono {m m' t t' : ℕ} (h : b.AgedBy I k m t) (hm : m' ≤ m) (ht : t ≤ t') :
    b.AgedBy I k m' t' := by
  intro l hl
  have hmul : m' * (I * 1000000) ≤ m * (I * 1000000) := Nat.mul_le_mul_right _ hm
  have := h l hl
  omega

/-- One interval later, every item is one interval older. -/
theorem AgedBy.later {m t t' : ℕ} (h : b.AgedBy I k m t) (ht : t + I * 1000000 ≤ t') :
    b.AgedBy I k (m + 1) t' := by
  intro l hl
  have := h l hl
  rw [Nat.add_mul, Nat.one_mul]
  omega

/-- An item that `CheckItemAge` lets pass is not older than the ack timeout. -/
theorem AgedBy.le_ackTimeoutMS {m : ℕ} (h : b.AgedBy I k m b.clock) {l : LogItem}
    (hl : b.dataCache.lookup k = some (some l)) (hfit : l.ageMS b.clock < 4294967296)
    (hc : LogItem.checkItemAge b.ackTimeoutMS b.clock (some l) = false) :
    m * I ≤ b.ackTimeoutMS := by
  have hage : l.ageMS b.clock ≤ b.ackTimeoutMS := by
    rw [Bool.eq_false_iff, ne_eq, LogItem.checkItemAge_iff, Nat.mod_eq_of_lt hfit] at hc
    omega
  have hold := h l hl
  rw [← Nat.mul_assoc] at hold
  refine le_trans ?_ hage
  rw [LogItem.ageMS, Nat.le_div_iff_mul_le (by omega)]
  omega

theorem Pace.aged_zero (h : b.Pace I since n) (k : Bytes) : b.AgedBy I k 0 b.clock := by
  intro l hl
  have := (h.cached k l hl).2.2
  omega

/-- A step of the others leaves the ages as they are. -/
theorem Passes.aged (hp : b.Passes b') {m t t' : ℕ} (h : b.AgedBy I k m t) (ht : t ≤ t')
    (hnew : k ∉ b.ledger.added → m = 0 ∧ b'.clock ≤ t') : b'.AgedBy I k m t' := by
  intro l hl
  rcases hp.lookup k l hl with hl | ⟨hk, -, -, hle⟩
  · exact (h.mono le_rfl ht) l hl
  · obtain ⟨rfl, hc⟩ := hnew hk
    omega

/-- **The others keep the pace.** -/
theorem Pace.passes (h : b.Pace I since n) (hp : b.Passes b') : b'.Pace I since n := by
  have hnow : ∀ {k m}, b.AgedBy I k m b.clock → (k ∉ b.ledger.added → m = 0) →
      b'.AgedBy I k m b'.clock := fun ha hz => hp.aged ha hp.clock fun hk => ⟨hz hk, le_rfl⟩
  have hzero : ∀ k, k ∉ b.ledger.added → n k * I ≤ b.ackTimeoutMS := fun k hk => by
    rw [h.added k hk]
    omega
  have hok := h.ok
  refine ⟨h.since_le.trans hp.clock, fun k l hl => ?_, fun k hk => h.added k fun hk' =>
    hk (hp.added hk'), fun k => hp.ackTimeoutMS ▸ h.bounded k, ?_⟩
  · rcases hp.lookup k l hl with hl | ⟨-, ht, hk, hle⟩
    · obtain ⟨ht, hk, hle⟩ := h.cached k l hl
      exact ⟨ht, hp.added hk, hle.trans hp.clock⟩
    · exact ⟨ht, hk, hle⟩
  · rw [hp.resender]
    generalize b.resender = pc at hok ⊢
    cases pc with
    | wait =>
      intro k hk
      refine hp.aged (hok k hk) le_rfl fun hn => ?_
      have := h.added k hn
      omega
    | size | copy => exact fun k => hnow (hok k) (h.added k)
    | filter cacheBak keysToRemove =>
      refine fun k => ⟨hnow (hok k).1 (h.added k), fun l hl => ?_⟩
      rw [hp.ackTimeoutMS]
      rcases hp.lookup k l hl with hl | ⟨hk, -⟩
      · exact (hok k).2 l hl
      · exact .inr (.inr (hzero k hk))
    | copyAgain =>
      refine fun k => ⟨hnow (hok k).1 (h.added k), fun l hl => ?_⟩
      rw [hp.ackTimeoutMS]
      rcases hp.lookup k l hl with hl | ⟨hk, -⟩
      · exact (hok k).2 l hl
      · exact hzero k hk
    | send cacheCopy =>
      obtain ⟨hold, hnodup, hcopy⟩ := hok
      refine ⟨fun k => hnow (hold k) fun hk => by rw [h.added k hk], hnodup, fun k l hm => ?_⟩
      obtain ⟨ht, hk, hle, ha⟩ := hcopy k l hm
      exact ⟨ht, hp.added hk, hp.ackTimeoutMS ▸ hle, hnow ha fun hn => absurd hk hn⟩

/-! ## The steps of the resender -/

theorem resentBy_send {i : ℕ} {ok delivered : Bool} {cacheCopy : List (Bytes × LogItemPtr)}
    (hpc : b.resender = .send cacheCopy) :
    b.resentBy (.resender (.send i ok delivered)) =
      (cacheCopy[i]?.bind Prod.snd).toList.map fun l => l.item.tag := by
  simp only [resentBy, hpc]

/-- The position of the resender changes alone. -/
theorem Pace.setResender (h : b.Pace I since n) (totalSend : ℕ) {since' : ℕ} {pc : ResenderPc}
    (hs : since' ≤ b.clock) (hok : b.PaceOk I since' n pc) :
    Pace { b with resender := pc, totalSend := totalSend } I since' n :=
  ⟨hs, h.cached, h.added, h.bounded, by cases pc <;> exact hok⟩

/-- An entry of a list, or one of the others. -/
theorem eq_or_mem_eraseIdx {α : Type*} {l : List α} {i : ℕ} {x y : α} (hi : l[i]? = some x)
    (hy : y ∈ l) : y = x ∨ y ∈ l.eraseIdx i := by
  obtain ⟨hlt, rfl⟩ := List.getElem?_eq_some_iff.mp hi
  have := (List.getElem_cons_eraseIdx_perm hlt).mem_iff (a := y) |>.mpr hy
  exact List.mem_cons.mp this

/-- The keys are distinct: that of an entry is not among the others. -/
theorem key_notMem_eraseIdx {es : List (Bytes × LogItemPtr)} {i : ℕ} {e : Bytes × LogItemPtr}
    (hd : (es.map Prod.fst).Nodup) (hi : es[i]? = some e) :
    e.1 ∉ (es.eraseIdx i).map Prod.fst := by
  obtain ⟨hlt, rfl⟩ := List.getElem?_eq_some_iff.mp hi
  have hp := ((List.getElem_cons_eraseIdx_perm hlt).map Prod.fst).nodup_iff.mpr hd
  exact (List.nodup_cons.mp hp).1

/-- `SendItem` of an entry of the copy. -/
theorem Pace.sendItem (h : b.Pace I since n) {cacheCopy : List (Bytes × LogItemPtr)} {i : ℕ}
    {key : Bytes} {l : LogItem} (hpc : b.resender = .send cacheCopy)
    (hi : cacheCopy[i]? = some (key, some l)) :
    l.item.tag = key ∧ key ∈ b.ledger.added ∧
      (∀ k, (n k + [key].count k - 1) * I ≤ b.ackTimeoutMS) ∧
      (∀ k, b.AgedBy I k (n k + [key].count k - 1) b.clock) ∧
      ∀ k l', (k, some l') ∈ cacheCopy.eraseIdx i → l'.item.tag = k ∧ k ∈ b.ledger.added ∧
        (n k + [key].count k) * I ≤ b.ackTimeoutMS ∧
          b.AgedBy I k (n k + [key].count k) b.clock := by
  obtain ⟨hold, hnodup, hcopy⟩ : b.PaceOk I since n (.send cacheCopy) := hpc ▸ h.ok
  obtain ⟨ht, hk, hle, ha⟩ := hcopy key l (List.mem_of_getElem? hi)
  refine ⟨ht, hk, fun k => ?_, fun k => ?_, fun k l' hm => ?_⟩
  · by_cases hkk : k = key
    · subst hkk
      simpa using hle
    · simpa [List.count_singleton, Ne.symm hkk] using h.bounded k
  · by_cases hkk : k = key
    · subst hkk
      simpa using ha
    · simpa [List.count_singleton, Ne.symm hkk] using hold k
  · have hne : key ≠ k := by
      rintro rfl
      exact key_notMem_eraseIdx hnodup hi (List.mem_map.mpr ⟨_, hm, rfl⟩)
    simpa [List.count_singleton, hne] using hcopy k l' (List.mem_of_mem_eraseIdx hm)

/-- `SendItem` and its outcome. -/
theorem Pace.sent (h : b.Pace I since n) {cacheCopy : List (Bytes × LogItemPtr)} {i : ℕ}
    {key : Bytes} {l : LogItem} (hpc : b.resender = .send cacheCopy)
    (hi : cacheCopy[i]? = some (key, some l)) (totalSend : ℕ) (received : List Bytes) :
    Pace { b with
        received := received, totalSend := totalSend, resender := .send (cacheCopy.eraseIdx i) } I
        since (fun k => n k + [key].count k) ∧
      Pace { b with received := received, totalSend := totalSend, resender := .wait } I b.clock
        (fun k => n k + [key].count k) := by
  obtain ⟨ht, hk, hle, hage, hrest⟩ := h.sendItem hpc hi
  obtain ⟨-, hnodup, -⟩ : b.PaceOk I since n (.send cacheCopy) := hpc ▸ h.ok
  have hadded : ∀ k, k ∉ b.ledger.added → n k + [key].count k = 0 := fun k hn => by
    have hne : key ≠ k := fun e => hn (e ▸ hk)
    simp [hne, h.added k hn]
  exact ⟨⟨h.since_le, h.cached, hadded, hle,
      ⟨hage, hnodup.sublist ((List.eraseIdx_sublist _ i).map Prod.fst), hrest⟩⟩,
    ⟨le_rfl, h.cached, hadded, hle, fun k _ => hage k⟩⟩

/-- Where the resender is when it makes a step. -/
theorem resender_of_step {r : ResenderStep} (hr : b.resenderStep r = some b') :
    match r with
    | .wake => b.resender = .wait
    | .size => b.resender = .size
    | .copy => b.resender = .copy
    | .copyAgain => b.resender = .copyAgain
    | .done => b.resender = .send []
    | _ => True := by
  unfold resenderStep at hr
  split at hr <;> first | assumption | trivial

/-- `CheckItemAge` of an entry: its key is noted if the test says so, and the others are kept. -/
theorem of_check {i : ℕ} (hr : b.resenderStep (.check i) = some b') :
    ∃ cacheBak keysToRemove key v keysToRemove', b.resender = .filter cacheBak keysToRemove ∧
      cacheBak[i]? = some (key, v) ∧
      b' = { b with resender := .filter (cacheBak.eraseIdx i) keysToRemove' } ∧
      keysToRemove.map Prod.fst ⊆ keysToRemove'.map Prod.fst ∧
      (LogItem.checkItemAge b.ackTimeoutMS b.clock v = true →
        key ∈ keysToRemove'.map Prod.fst) := by
  cases hpc : b.resender with
  | filter cacheBak keysToRemove =>
    simp only [Backup.resenderStep, hpc] at hr
    split at hr
    · cases hr
    · rename_i key hi
      cases hr
      exact ⟨_, _, key, none, _, rfl, hi, rfl, List.Subset.refl _, fun h => by cases h⟩
    · rename_i key l hi
      cases hr
      refine ⟨_, _, key, some l, _, rfl, hi, rfl, ?_, fun h => ?_⟩
      · split
        · rw [List.map_append]
          exact List.subset_append_left _ _
        · exact List.Subset.refl _
      · rw [if_pos h, List.map_append]
        exact List.mem_append_right _ (by simp)
  | _ => simp [Backup.resenderStep, hpc] at hr

/-- `SendItem` of an entry: of a NULL pointer, or of an item, which `Send` returns for or throws. -/
theorem of_send {i : ℕ} {ok delivered : Bool}
    (hr : b.resenderStep (.send i ok delivered) = some b') :
    ∃ cacheCopy key v, b.resender = .send cacheCopy ∧ cacheCopy[i]? = some (key, v) ∧
      ((v = none ∧ b' = { b with resender := .send (cacheCopy.eraseIdx i) }) ∨
        ∃ l received, v = some l ∧
          (b' = { b with received := received, totalSend := b.totalSend + 1,
                         resender := .send (cacheCopy.eraseIdx i) } ∨
            b' = { b with received := received, totalSend := b.totalSend,
                          resender := .wait })) := by
  cases hpc : b.resender with
  | send cacheCopy =>
    simp only [Backup.resenderStep, hpc] at hr
    split at hr
    · cases hr
    · rename_i key hi
      cases hr
      exact ⟨_, key, none, rfl, hi, .inl ⟨rfl, rfl⟩⟩
    · rename_i key l hi
      cases hr
      refine ⟨_, key, some l, rfl, hi, .inr ⟨l, if delivered then b.received ++ [l.item.tag] else
        b.received, rfl, ?_⟩⟩
      cases ok
      · cases delivered <;> exact .inr rfl
      · cases delivered <;> exact .inl rfl
  | _ => simp [Backup.resenderStep, hpc] at hr

theorem nodup_keys_entries (b : Backup) : (b.entries.map Prod.fst).Nodup := by
  have h : b.entries.map Prod.fst = b.dataCache.entries.map Sigma.fst := by
    simp [entries, Function.comp_def]
  rw [h]
  exact b.dataCache.nodupKeys

theorem tags_sublist : ∀ {es : List (Bytes × LogItemPtr)},
    (∀ k l, (k, some l) ∈ es → l.item.tag = k) → List.Sublist (tags es) (es.map Prod.fst)
  | [], _ => .slnil
  | (k, none) :: es, h => (tags_sublist fun k l hm => h k l (List.mem_cons_of_mem _ hm)).cons k
  | (k, some l) :: es, h => by
    obtain rfl := h k l List.mem_cons_self
    exact (tags_sublist fun k l hm => h k l (List.mem_cons_of_mem _ hm)).cons_cons l.item.tag

/-- The cached items have distinct tags. -/
theorem Pace.nodup_tags (h : b.Pace I since n) : (tags b.entries).Nodup :=
  b.nodup_keys_entries.sublist
    (tags_sublist fun k l hm => (h.cached k l (lookup_of_mem_entries hm)).1)

theorem Pace.mem_tags (h : b.Pace I since n) :
    k ∈ tags b.entries ↔ ∃ l, b.dataCache.lookup k = some (some l) := by
  simp only [tags, List.mem_map, List.mem_filterMap]
  constructor
  · rintro ⟨l, ⟨⟨key, v⟩, hm, rfl⟩, rfl⟩
    have hl := lookup_of_mem_entries hm
    rw [(h.cached key l hl).1]
    exact ⟨l, hl⟩
  · rintro ⟨l, hl⟩
    exact ⟨l, ⟨(k, some l), List.mem_map.mpr ⟨_, AList.mem_lookup_iff.mp hl, rfl⟩, rfl⟩,
      (h.cached k l hl).1⟩

/-- `CheckItemAge` of one entry. -/
theorem Pace.check (h : b.Pace I since n) {i : ℕ} (hr : b.resenderStep (.check i) = some b')
    (hfit : b.AgesFit (.resender (.check i))) : b'.Pace I since n := by
  obtain ⟨cacheBak, keysToRemove, key, v, keysToRemove', hpc, hi, rfl, hsub, hold⟩ := of_check hr
  have hok : b.PaceOk I since n (.filter cacheBak keysToRemove) := hpc ▸ h.ok
  refine h.setResender b.totalSend h.since_le fun k =>
    ⟨(hok k).1, fun l hl => ?_⟩
  rcases (hok k).2 l hl with hm | hm | hle
  · rcases eq_or_mem_eraseIdx hi hm with he | hm
    · obtain ⟨rfl, rfl⟩ := Prod.mk.inj he
      -- the entry of the test: it is noted, or not too old
      cases hc : LogItem.checkItemAge b.ackTimeoutMS b.clock (some l) with
      | true => exact .inr (.inl (hold hc))
      | false =>
        exact .inr (.inr ((hok k).1.le_ackTimeoutMS hl (hfit _ _ _ l hpc hi) hc))
    · exact .inl hm
  · exact .inr (.inl (hsub hm))
  · exact .inr (.inr hle)

/-- `Erase` of the keys that were noted: what is left is not too old. -/
theorem Pace.erase (h : b.Pace I since n) {keysToRemove : List (Bytes × ℕ)}
    (hpc : b.resender = .filter [] keysToRemove) (removed : List (Bytes × Reason)) :
    Pace { b with
      dataCache := (ConcurrentMap.eraseList b.dataCache (keysToRemove.map Prod.fst)).2
      ledger := b.ledger.removeAll removed
      resender := .copyAgain } I since n := by
  have hok : b.PaceOk I since n (.filter [] keysToRemove) := hpc ▸ h.ok
  have hlookup : ∀ k l, (ConcurrentMap.eraseList b.dataCache
      (keysToRemove.map Prod.fst)).2.lookup k = some (some l) →
        k ∉ keysToRemove.map Prod.fst ∧ b.dataCache.lookup k = some (some l) := by
    intro k l hl
    rw [ConcurrentMap.lookup_eraseList] at hl
    split at hl
    · cases hl
    · exact ⟨‹_›, hl⟩
  refine ⟨h.since_le, fun k l hl => h.cached k l (hlookup k l hl).2, h.added, h.bounded,
    fun k => ⟨fun l hl => (hok k).1 l (hlookup k l hl).2, fun l hl => ?_⟩⟩
  obtain ⟨hk, hl⟩ := hlookup k l hl
  rcases (hok k).2 l hl with hm | hm | hle
  · cases hm
  · exact absurd hm hk
  · exact hle

/-- **The resender keeps the pace**, if it waits for its interval and no age wraps around. -/
theorem Pace.resenderStep (h : b.Pace I since n) {r : ResenderStep}
    (hr : b.resenderStep r = some b') (hfit : b.AgesFit (.resender r))
    (hwake : r = .wake → since + I * 1000000 ≤ b.clock) :
    b'.Pace I (sinceAfter since b b') fun k => n k + (b.resentBy (.resender r)).count k := by
  have hpc := resender_of_step hr
  have hok := h.ok
  cases r with
  | wake =>
    rw [hpc] at hok
    obtain rfl : b' = { b with resender := .size } := by
      simpa [Backup.resenderStep, hpc] using hr.symm
    have hs : sinceAfter since b { b with resender := .size } = since := by simp [sinceAfter, hpc]
    rw [hs]
    refine h.setResender b.totalSend h.since_le fun k => ?_
    rcases Nat.eq_zero_or_pos (n k) with hz | hpos
    · rw [hz]
      exact h.aged_zero k
    · have := (hok k hpos).later (hwake rfl)
      rwa [Nat.sub_add_cancel hpos] at this
  | size =>
    rw [hpc] at hok
    obtain rfl : b' = { b with resender := if 0 < b.dataCache.size then .copy else .wait } := by
      simpa [Backup.resenderStep, hpc] using hr.symm
    by_cases hsize : 0 < b.dataCache.size
    · have hs : sinceAfter since b { b with resender := .copy } = since := by
        simp [sinceAfter, hpc]
      rw [if_pos hsize, hs]
      exact h.setResender b.totalSend h.since_le hok
    · have hs : sinceAfter since b { b with resender := .wait } = b.clock := by
        simp [sinceAfter, hpc]
      rw [if_neg hsize, hs]
      exact h.setResender b.totalSend le_rfl fun k _ =>
        (hok k).mono (Nat.sub_le _ _) le_rfl
  | copy =>
    rw [hpc] at hok
    obtain rfl : b' = { b with resender := .filter b.entries [] } := by
      simpa [Backup.resenderStep, hpc] using hr.symm
    have hs : sinceAfter since b { b with resender := .filter b.entries [] } = since := by
      simp [sinceAfter, hpc]
    rw [hs]
    refine h.setResender b.totalSend h.since_le fun k => ⟨hok k, fun l hl => .inl ?_⟩
    exact List.mem_map.mpr ⟨_, AList.mem_lookup_iff.mp hl, rfl⟩
  | check i =>
    have hs : sinceAfter since b b' = since := by
      obtain ⟨_, _, _, _, _, hpc', -, rfl, -⟩ := of_check hr
      simp [sinceAfter, hpc']
    rw [hs]
    exact h.check hr hfit
  | erase =>
    cases resenderMove hr with
    | @erase keysToRemove hpc' =>
      have hs : ∀ m L, sinceAfter since b
          { b with dataCache := m, ledger := L, resender := .copyAgain } = since := fun m L => by
        simp [sinceAfter, hpc']
      rw [hs]
      exact h.erase hpc' _
  | copyAgain =>
    rw [hpc] at hok
    obtain rfl : b' = { b with resender := .send b.entries } := by
      simpa [Backup.resenderStep, hpc] using hr.symm
    have hs : sinceAfter since b { b with resender := .send b.entries } = since := by
      simp [sinceAfter, hpc]
    rw [hs]
    refine h.setResender b.totalSend h.since_le
      ⟨fun k => (hok k).1.mono (Nat.sub_le _ _) le_rfl, b.nodup_keys_entries, fun k l hm => ?_⟩
    have hl := lookup_of_mem_entries hm
    obtain ⟨ht, hk, -⟩ := h.cached k l hl
    exact ⟨ht, hk, (hok k).2 l hl, (hok k).1⟩
  | send i ok delivered =>
    obtain ⟨cacheCopy, key, v, hpc', hi, ⟨rfl, rfl⟩ | ⟨l, received, rfl, rfl | rfl⟩⟩ := of_send hr
    · obtain ⟨hold, hnodup, hcopy⟩ : b.PaceOk I since n (.send cacheCopy) := hpc' ▸ hok
      have hs : sinceAfter since b { b with resender := .send (cacheCopy.eraseIdx i) } = since := by
        simp [sinceAfter, hpc']
      rw [hs, resentBy_send hpc', hi]
      exact h.setResender b.totalSend h.since_le
        ⟨hold, hnodup.sublist ((List.eraseIdx_sublist _ i).map Prod.fst),
          fun k l hm => hcopy k l (List.mem_of_mem_eraseIdx hm)⟩
    · have hs : sinceAfter since b { b with
          received := received, totalSend := b.totalSend + 1,
          resender := .send (cacheCopy.eraseIdx i) } = since := by
        simp [sinceAfter, hpc']
      have ht := (h.sendItem hpc' hi).1
      rw [hs, resentBy_send hpc', hi]
      simpa [ht] using (h.sent hpc' hi (b.totalSend + 1) received).1
    · have hs : sinceAfter since b { b with
          received := received, totalSend := b.totalSend, resender := .wait } = b.clock := by
        simp [sinceAfter, hpc']
      have ht := (h.sendItem hpc' hi).1
      rw [hs, resentBy_send hpc', hi]
      simpa [ht] using (h.sent hpc' hi b.totalSend received).2
  | done =>
    rw [hpc] at hok
    obtain rfl : b' = { b with resender := .wait } := by
      simpa [Backup.resenderStep, hpc] using hr.symm
    have hs : sinceAfter since b { b with resender := .wait } = b.clock := by
      simp [sinceAfter, hpc]
    rw [hs]
    exact h.setResender b.totalSend le_rfl fun k _ => hok.1 k

/-! ## The steps of the others -/

theorem Passes.of_lookup (ht : b'.ackTimeoutMS = b.ackTimeoutMS) (hr : b'.resender = b.resender)
    (hc : b.clock ≤ b'.clock) (ha : b'.ledger.added = b.ledger.added)
    (hl : ∀ k l, b'.dataCache.lookup k = some (some l) → b.dataCache.lookup k = some (some l)) :
    b.Passes b' :=
  ⟨ht, hr, hc, ha ▸ List.Subset.refl _, fun k l h => .inl (hl k l h)⟩

/-- A step of the reader or of the clock. -/
theorem passes_step {bs : BackupStep} (hb : b.step bs = some b')
    (hr : ∀ r, bs ≠ .resender r) : b.Passes b' := by
  obtain ⟨removed, hl, -⟩ := ledger_step hb
  refine .of_lookup ?_ ?_ ?_ (by rw [hl]; rfl) fun k l hk => ?_
  · cases bs with
    | resender r => exact absurd rfl (hr r)
    | reader e => cases hb; cases e <;> rfl
    | tick ns => cases hb; rfl
  · cases bs with
    | resender r => exact absurd rfl (hr r)
    | reader e => cases hb; cases e <;> rfl
    | tick ns => cases hb; rfl
  · cases bs with
    | resender r => exact absurd rfl (hr r)
    | reader e => cases hb; cases e <;> exact le_rfl
    | tick ns => cases hb; exact Nat.le_add_right _ _
  · rw [lookup_step hb] at hk
    split at hk
    · cases hk
    · exact hk

/-- An item that was not added before, and was touched before. -/
theorem passes_add {l : LogItem} (hn : l.item.tag ∉ b.ledger.added) (ht : l.touchTime ≤ b.clock)
    (hb : b.add l.item.tag l = .ok b') : b.Passes b' := by
  have hcache := dataCache_add hb
  have hledger := ledger_add hb
  have hrest : b'.ackTimeoutMS = b.ackTimeoutMS ∧ b'.resender = b.resender ∧
      b'.clock = b.clock := by
    unfold Backup.add at hb
    split at hb <;> cases hb
    exact ⟨rfl, rfl, rfl⟩
  refine ⟨hrest.1, hrest.2.1, hrest.2.2.ge, ?_, fun k l' hl => ?_⟩
  · rw [hledger]
    exact List.subset_append_left _ _
  · rw [hcache] at hl
    rcases lookup_insert_cases hl with ⟨rfl, he⟩ | ⟨-, hl⟩
    · cases he
      exact .inr ⟨hn, rfl, by simp [hledger], hrest.2.2.symm ▸ ht⟩
    · exact .inl hl

theorem passes_eraseFailed (tag : Bytes) : b.Passes (b.eraseFailed tag) := by
  refine .of_lookup rfl rfl le_rfl rfl fun k l hl => ?_
  by_cases hk : k = tag
  · subst hk
    simp only [eraseFailed, ConcurrentMap.erase] at hl
    split at hl
    · exact hl
    · simp at hl
  · rwa [lookup_eraseFailed hk] at hl

theorem passes_received (received : List Bytes) : b.Passes { b with received := received } :=
  .of_lookup rfl rfl le_rfl rfl fun _ _ => id

/-- A step of the others does not end a wait, and does not begin one. -/
theorem Passes.sinceAfter (hp : b.Passes b') (since : ℕ) : sinceAfter since b b' = since := by
  unfold Backup.sinceAfter
  rw [hp.resender]
  cases b.resender <;> rfl

end Backup

/-- A socket logger whose resender keeps its interval, with what was handed to `Send`. -/
structure PacedLogger where
  logger : SocketLogger
  resendIntervalMS : ℕ
  /-- When the resender began to wait. -/
  waitingSince : ℕ
  /-- The tags handed to `Send` by the rounds of the resender. -/
  resent : List Bytes
  /-- The tags handed to `Send` by the calls of `SendDjson`. -/
  sent : List Bytes

namespace PacedLogger

open Backup SocketLogger CallPc

/-- A new logger. -/
def init (ackTimeoutMS resendIntervalMS : ℕ) : PacedLogger :=
  ⟨.init ackTimeoutMS, resendIntervalMS, 0, [], []⟩

/-- The resender would end its wait before the interval has passed. -/
def Early (s : PacedLogger) : Label → Prop
  | .backup (.resender .wake) =>
    s.logger.backup.clock < s.waitingSince + s.resendIntervalMS * 1000000
  | _ => False

instance (s : PacedLogger) : ∀ l, Decidable (s.Early l)
  | .backup (.resender .wake) => inferInstanceAs (Decidable (_ < _))
  | .backup (.resender .size) | .backup (.resender .copy) | .backup (.resender (.check _))
  | .backup (.resender .erase) | .backup (.resender .copyAgain)
  | .backup (.resender (.send _ _ _)) | .backup (.resender .done)
  | .backup (.reader _) | .backup (.tick _) | .call _ _ | .otherItems _ =>
    inferInstanceAs (Decidable False)

/-- The tag that a step of a call hands to `Send`. -/
def sentBy (s : SocketLogger) : Label → List Bytes
  | .call c (.send _ _) =>
    match s.pc c with
    | .gotAgain _ l => [l.item.tag]
    | _ => []
  | _ => []

/-- The tags that a step of the system hands to `Send` in a round. -/
def resentIn (b : Backup) : Label → List Bytes
  | .backup bs => b.resentBy bs
  | _ => []

/-- A step of the system. -/
def step (s : PacedLogger) (l : Label) : Option PacedLogger :=
  if s.Early l then none
  else (s.logger.step l).map fun g => { s with
    logger := g
    waitingSince := sinceAfter s.waitingSince s.logger.backup g.backup
    resent := s.resent ++ resentIn s.logger.backup l
    sent := s.sent ++ sentBy s.logger l }

/-- The ages are tested before they wrap around. -/
def AgesFit (s : PacedLogger) : Label → Prop
  | .backup bs => s.logger.backup.AgesFit bs
  | _ => True

/-! ## The invariant -/

/-- The item that a call has not added yet. -/
def unadded : CallPc → Option LogItem
  | .constructed l => some l
  | .started l => some l
  | .touched l => some l
  | _ => none

/-- A call may have called `Send`. -/
def mayHaveSent : CallPc → Bool
  | .failing _ => true
  | .returned _ _ => true
  | _ => false

/-- Every call has a tag of its own, which it adds once and sends once; the resender keeps its
pace; and the server gets what was sent. -/
structure Inv (s : PacedLogger) : Prop where
  tags : TagsOk s.logger.pc s.logger.counter
  owned : ∀ tag ∈ s.logger.backup.ledger.added, ∃ c, (s.logger.pc c).tag? = some tag
  fresh : ∀ c l, unadded (s.logger.pc c) = some l → l.item.tag ∉ s.logger.backup.ledger.added
  touched : ∀ c l, s.logger.pc c = .touched l → l.touchTime ≤ s.logger.backup.clock
  gotAgain : ∀ c tag l, s.logger.pc c = .gotAgain tag l → l.item.tag = tag
  pace : s.logger.backup.Pace s.resendIntervalMS s.waitingSince fun k => s.resent.count k
  owner : ∀ tag ∈ s.sent, ∃ c, (s.logger.pc c).tag? = some tag ∧
    mayHaveSent (s.logger.pc c) = true
  sentOnce : s.sent.Nodup
  received : ∀ tag, s.logger.backup.received.count tag ≤ s.resent.count tag + s.sent.count tag

theorem inv_init (ackTimeoutMS resendIntervalMS : ℕ) :
    (init ackTimeoutMS resendIntervalMS).Inv where
  tags := ⟨by simp [init, SocketLogger.init, tag?], by simp [init, SocketLogger.init, tag?]⟩
  owned := by simp [init, SocketLogger.init, Backup.init, Ledger.empty]
  fresh := by simp [init, SocketLogger.init, unadded]
  touched := by simp [init, SocketLogger.init]
  gotAgain := by simp [init, SocketLogger.init]
  pace := ⟨le_rfl, by simp [init, SocketLogger.init, Backup.init], fun _ _ => rfl,
    fun k => by simp [init], fun k hk => by simp [init] at hk⟩
  owner := by simp [init]
  sentOnce := by simp [init]
  received := by simp [init, SocketLogger.init, Backup.init]

variable {s s' : PacedLogger} {c : ℕ}

theorem tag?_of_unadded {pc : CallPc} {l : LogItem} (h : unadded pc = some l) :
    pc.tag? = some l.item.tag := by
  cases pc <;> simp_all [unadded, tag?]

/-- What holds of a call, after one has gone on. -/
theorem exists_update {f : ℕ → CallPc} {pc : CallPc} {P : CallPc → Prop} (hc : P (f c) → P pc)
    (h : ∃ c', P (f c')) : ∃ c', P (Function.update f c pc c') := by
  obtain ⟨c', hc'⟩ := h
  by_cases he : c' = c
  · subst he
    exact ⟨c', by rw [Function.update_self]; exact hc hc'⟩
  · exact ⟨c', by rw [Function.update_of_ne he]; exact hc'⟩

/-- A call goes on: it keeps its tag, or begins with a new one. -/
theorem Inv.move (h : s.Inv) {pc : CallPc} {b : Backup} {counter totalSend : ℕ}
    (htags : TagsOk (Function.update s.logger.pc c pc) counter)
    (hkeep : ∀ t, (s.logger.pc c).tag? = some t → pc.tag? = some t)
    (hmay : mayHaveSent (s.logger.pc c) = true → mayHaveSent pc = true)
    (hp : s.logger.backup.Passes b)
    (hadded : ∀ t ∈ b.ledger.added, t ∈ s.logger.backup.ledger.added ∨ pc.tag? = some t)
    (hfresh : ∀ l, unadded pc = some l → l.item.tag ∉ b.ledger.added)
    (htouched : ∀ l, pc = .touched l → l.touchTime ≤ b.clock)
    (hgot : ∀ tag l, pc = .gotAgain tag l → l.item.tag = tag) {sent : List Bytes}
    (hsent : sent = s.sent ∨ ∃ tag, sent = s.sent ++ [tag] ∧
      (s.logger.pc c).tag? = some tag ∧ mayHaveSent (s.logger.pc c) = false ∧
      mayHaveSent pc = true)
    (hreceived : ∀ t, b.received.count t ≤ s.resent.count t + sent.count t) :
    Inv { s with logger := ⟨b, counter, totalSend, Function.update s.logger.pc c pc⟩,
                 sent := sent } := by
  refine ⟨htags, fun t ht => ?_,
    (Function.forall_update_iff s.logger.pc fun _ p => ∀ l, unadded p = some l →
      l.item.tag ∉ b.ledger.added).mpr ⟨hfresh, fun c' he l hl hm => ?_⟩,
    (Function.forall_update_iff s.logger.pc fun _ p => ∀ l, p = .touched l →
      l.touchTime ≤ b.clock).mpr
        ⟨htouched, fun c' _ l hl => (h.touched c' l hl).trans hp.clock⟩,
    (Function.forall_update_iff s.logger.pc fun _ p => ∀ tag l, p = .gotAgain tag l →
      l.item.tag = tag).mpr ⟨hgot, fun c' _ => h.gotAgain c'⟩,
    h.pace.passes hp, fun t ht => ?_, ?_, hreceived⟩
  · rcases hadded t ht with ht | ht
    · exact exists_update (P := fun p => p.tag? = some t) (hkeep t) (h.owned t ht)
    · exact ⟨c, (congrArg tag? (Function.update_self ..)).trans ht⟩
  · rcases hadded _ hm with hm | hm
    · exact h.fresh c' l hl hm
    · -- the tag of another call
      have htag : (s.logger.pc c').tag? = some l.item.tag := tag?_of_unadded hl
      refine he (htags.distinct c' c _ ?_ ((congrArg tag? (Function.update_self ..)).trans hm))
      exact (congrArg tag? (Function.update_of_ne he ..)).trans htag
  · have hold : ∀ t ∈ s.sent, ∃ c', (Function.update s.logger.pc c pc c').tag? = some t ∧
        mayHaveSent (Function.update s.logger.pc c pc c') = true := fun t ht =>
      exists_update (P := fun p => p.tag? = some t ∧ mayHaveSent p = true)
        (fun hc => ⟨hkeep t hc.1, hmay hc.2⟩) (h.owner t ht)
    rcases hsent with rfl | ⟨tag, rfl, htag, -, hm⟩
    · exact hold t ht
    · rcases List.mem_append.mp ht with ht | ht
      · exact hold t ht
      · obtain rfl := List.mem_singleton.mp ht
        have hself := Function.update_self c pc s.logger.pc
        exact ⟨c, (congrArg tag? hself).trans (hkeep t htag), (congrArg mayHaveSent hself).trans hm⟩
  · rcases hsent with rfl | ⟨tag, rfl, htag, hm, -⟩
    · exact h.sentOnce
    · refine List.nodup_append.mpr ⟨h.sentOnce, by simp, fun t ht t' ht' he => ?_⟩
      rw [List.mem_singleton.mp ht'] at he
      subst he
      obtain ⟨c', hc', hm'⟩ := h.owner t ht
      obtain rfl := h.tags.distinct c' c t hc' htag
      rw [hm] at hm'
      cases hm'

/-- A call goes on, and leaves the cache alone. -/
theorem Inv.stay (h : s.Inv) {pc : CallPc} {counter totalSend : ℕ}
    (htags : TagsOk (Function.update s.logger.pc c pc) counter)
    (hkeep : ∀ t, (s.logger.pc c).tag? = some t → pc.tag? = some t)
    (hmay : mayHaveSent (s.logger.pc c) = true → mayHaveSent pc = true)
    (hfresh : ∀ l, unadded pc = some l → l.item.tag ∉ s.logger.backup.ledger.added)
    (htouched : ∀ l, pc = .touched l → l.touchTime ≤ s.logger.backup.clock)
    (hgot : ∀ tag l, pc = .gotAgain tag l → l.item.tag = tag) :
    Inv { s with logger := ⟨s.logger.backup, counter, totalSend,
      Function.update s.logger.pc c pc⟩ } :=
  h.move htags hkeep hmay (passes_received s.logger.backup.received) (fun _ ht => .inl ht) hfresh
    htouched hgot (.inl rfl) h.received

/-- `Send` of a call, whether or not the server gets the message. -/
theorem Inv.send (h : s.Inv) {pc : CallPc} {totalSend : ℕ} {tag : Bytes} {l : LogItem}
    {delivered : Bool} (hpc : s.logger.pc c = .gotAgain tag l) (ht : pc.tag? = some tag)
    (hm : mayHaveSent pc = true) :
    Inv { s with
      logger := ⟨if delivered then s.logger.backup.deliver l.item.tag else s.logger.backup,
        s.logger.counter, totalSend, Function.update s.logger.pc c pc⟩
      sent := s.sent ++ [l.item.tag] } := by
  have htag : (s.logger.pc c).tag? = some tag := by rw [hpc]; rfl
  have hl := h.gotAgain c tag l hpc
  have hun : unadded pc = none := by cases pc <;> first | rfl | cases hm
  refine h.move (h.tags.update (htag ▸ ht)) (fun t hc => (htag ▸ hc) ▸ ht)
    (by simp [hpc, mayHaveSent])
    ?_ ?_ (by simp [hun]) ?_ ?_ (.inr ⟨l.item.tag, rfl, hl ▸ htag, by simp [hpc, mayHaveSent], hm⟩)
    fun t => ?_
  · cases delivered
    · exact passes_received s.logger.backup.received
    · exact passes_received _
  · cases delivered <;> exact fun _ hm => .inl hm
  · rintro l' rfl
    cases hm
  · rintro tag' l' rfl
    cases hm
  · have hr := h.received t
    cases delivered
    · simp only [List.count_append, Bool.false_eq_true, if_false]
      omega
    · simp only [List.count_append, if_true, Backup.deliver]
      omega

theorem Inv.callStep (h : s.Inv) {a : CallStep} {g : SocketLogger}
    (hs : s.logger.callStep c a = some g) :
    Inv { s with logger := g, sent := s.sent ++ sentBy s.logger (.call c a) } := by
  have hup : ∀ {pc : CallPc}, pc.tag? = (s.logger.pc c).tag? →
      TagsOk (Function.update s.logger.pc c pc) s.logger.counter := fun ht => h.tags.update ht
  have hfresh := h.fresh c
  have hsentBy : ∀ a, (∀ ok delivered, a ≠ .send ok delivered) →
      s.sent ++ sentBy s.logger (.call c a) = s.sent := fun a ha => by
    cases a with
    | send ok delivered => exact absurd rfl (ha ok delivered)
    | _ => simp [sentBy]
  have hsend : ∀ {tag l ok delivered}, s.logger.pc c = .gotAgain tag l →
      sentBy s.logger (.call c (.send ok delivered)) = [l.item.tag] := fun hpc => by
    simp [sentBy, hpc]
  cases callMove hs with
  | reject hpc =>
    rw [hsentBy _ (by simp)]
    exact h.stay (hup (by rw [hpc]; rfl)) (by simp [hpc, tag?]) (by simp [mayHaveSent])
      (by simp [unadded]) (by simp) (by simp)
  | construct hpc =>
    rw [hsentBy _ (by simp)]
    refine h.stay (h.tags.update_next rfl) (by simp [hpc, tag?]) (by simp [hpc, mayHaveSent]) ?_
      (by simp) (by simp)
    rintro l hl
    cases hl
    intro hm
    obtain ⟨c', hc'⟩ := h.owned _ hm
    exact h.tags.fresh c' hc'
  | notStarted hpc | notAdded hpc =>
    rw [hsentBy _ (by simp)]
    exact h.stay (hup (by rw [hpc]; rfl)) (by simp [hpc, tag?]) (by simp [mayHaveSent])
      (by simp [unadded]) (by simp) (by simp)
  | started hpc =>
    rw [hsentBy _ (by simp)]
    exact h.stay (hup (by rw [hpc]; rfl)) (by simp [hpc, tag?]) (by simp [hpc, mayHaveSent])
      (by simpa [hpc, unadded] using hfresh) (by simp) (by simp)
  | touch hpc =>
    rw [hsentBy _ (by simp)]
    refine h.stay (hup (by rw [hpc]; rfl)) (by simp [hpc, tag?, LogItem.touch])
      (by simp [hpc, mayHaveSent]) ?_ ?_ (by simp)
    · simpa [hpc, unadded, LogItem.touch] using hfresh
    · rintro l hl
      cases hl
      exact le_rfl
  | @add l b hpc hb =>
    rw [hsentBy _ (by simp)]
    have hn : l.item.tag ∉ s.logger.backup.ledger.added := by simpa [hpc, unadded] using hfresh
    refine h.move (hup (by rw [hpc]; rfl)) (by simp [hpc, tag?]) (by simp [hpc, mayHaveSent])
      (passes_add hn (h.touched c l hpc) hb) (fun t ht => ?_) (by simp [unadded]) (by simp)
      (by simp) (.inl rfl) fun t => ?_
    · rw [ledger_add hb] at ht
      rcases List.mem_append.mp ht with ht | ht
      · exact .inl ht
      · exact .inr (congrArg some (List.mem_singleton.mp ht).symm)
    · have hr : b.received = s.logger.backup.received := by
        unfold Backup.add at hb
        split at hb <;> cases hb
        rfl
      rw [hr]
      exact h.received t
  | notFound hpc | get hpc | notFoundAgain hpc =>
    rw [hsentBy _ (by simp)]
    exact h.stay (hup (by rw [hpc]; rfl)) (by simp [hpc, tag?]) (by simp [hpc, mayHaveSent])
      (by simp [unadded]) (by simp) (by simp)
  | @getAgain tag l hpc hg =>
    rw [hsentBy _ (by simp)]
    refine h.stay (hup (by rw [hpc]; rfl)) (by simp [hpc, tag?]) (by simp [hpc, mayHaveSent])
      (by simp [unadded]) (by simp) ?_
    rintro tag' l' hl
    cases hl
    exact (h.pace.cached _ _ (ConcurrentMap.lookup_of_get hg)).1
  | sent hpc =>
    rw [hsend hpc]
    exact h.send hpc rfl rfl
  | threw hpc =>
    rw [hsend hpc]
    exact h.send hpc rfl rfl
  | @erase tag hpc =>
    rw [hsentBy _ (by simp)]
    exact h.move (hup (by rw [hpc]; rfl)) (by simp [hpc, tag?]) (by simp [mayHaveSent])
      (passes_eraseFailed tag) (fun t ht => .inl ht) (by simp [unadded]) (by simp) (by simp)
      (.inl rfl) h.received

/-! ## The runs -/

/-- A call leaves the resender and the timeout alone. -/
theorem resender_callStep {g g' : SocketLogger} {a : CallStep} (hs : g.callStep c a = some g') :
    g'.backup.resender = g.backup.resender ∧ g'.backup.ackTimeoutMS = g.backup.ackTimeoutMS := by
  cases callMove hs with
  | add hpc hb =>
    unfold Backup.add at hb
    split at hb <;> cases hb
    exact ⟨rfl, rfl⟩
  | @sent tag l delivered hpc | @threw tag l delivered hpc => cases delivered <;> exact ⟨rfl, rfl⟩
  | _ => exact ⟨rfl, rfl⟩

theorem sinceAfter_of_resender_eq {b b' : Backup} (h : b'.resender = b.resender) (since : ℕ) :
    sinceAfter since b b' = since := by
  unfold sinceAfter
  rw [h]
  cases b.resender <;> rfl

theorem of_step {l : Label} (hs : s.step l = some s') :
    ¬ s.Early l ∧ ∃ g, s.logger.step l = some g ∧ s' = { s with
      logger := g
      waitingSince := sinceAfter s.waitingSince s.logger.backup g.backup
      resent := s.resent ++ resentIn s.logger.backup l
      sent := s.sent ++ sentBy s.logger l } := by
  unfold step at hs
  split at hs
  · cases hs
  · obtain ⟨g, hg, rfl⟩ := Option.map_eq_some_iff.mp hs
    exact ⟨‹_›, g, hg, rfl⟩

/-- A call leaves the pace of the resender as it is. -/
theorem Inv.passes (h : s.Inv) {a : CallStep} {g : SocketLogger}
    (hs : s.logger.callStep c a = some g) : s.logger.backup.Passes g.backup := by
  cases callMove hs with
  | @add l b hpc hb =>
    have hfresh : l.item.tag ∉ s.logger.backup.ledger.added :=
      h.fresh c l (by rw [hpc]; rfl)
    exact passes_add hfresh (h.touched c l hpc) hb
  | @sent tag l delivered hpc | @threw tag l delivered hpc =>
    cases delivered <;> exact passes_received _
  | erase hpc => exact passes_eraseFailed _
  | _ => exact passes_received _

/-- **Every step of the system keeps a pace of the resender**, if no age wraps around before it is
tested. -/
theorem Inv.pace_step (h : s.Inv) {I since : ℕ} {n : Bytes → ℕ}
    (hp : s.logger.backup.Pace I since n) {l : Label} {g : SocketLogger}
    (hg : s.logger.step l = some g) (hfit : s.AgesFit l)
    (hwake : l = .backup (.resender .wake) → since + I * 1000000 ≤ s.logger.backup.clock) :
    g.backup.Pace I (sinceAfter since s.logger.backup g.backup) fun k =>
      n k + (resentIn s.logger.backup l).count k := by
  cases l with
  | call c a =>
    rw [sinceAfter_of_resender_eq (resender_callStep hg).1]
    exact hp.passes (h.passes hg)
  | otherItems n =>
    cases hg
    rw [sinceAfter_of_resender_eq rfl]
    exact hp
  | backup bs =>
    obtain ⟨b, hb, rfl⟩ := Option.map_eq_some_iff.mp hg
    cases bs with
    | resender r => exact hp.resenderStep hb hfit fun he => hwake (he ▸ rfl)
    | reader e | tick ns =>
      have hpass := passes_step hb (by simp)
      rw [hpass.sinceAfter]
      exact hp.passes hpass

/-- A background thread or the clock, which moves on no call. -/
theorem Inv.backupStep (h : s.Inv) {bs : BackupStep} {b : Backup}
    (hb : s.logger.backup.step bs = some b) (hfit : s.logger.backup.AgesFit bs)
    (hearly : ¬ s.Early (.backup bs)) :
    Inv { s with
      logger := { s.logger with backup := b }
      waitingSince := sinceAfter s.waitingSince s.logger.backup b
      resent := s.resent ++ s.logger.backup.resentBy bs } := by
  obtain ⟨removed, hl, -⟩ := ledger_step hb
  have hadded : b.ledger.added = s.logger.backup.ledger.added := by rw [hl]; rfl
  have hg : s.logger.step (.backup bs) = some { s.logger with backup := b } :=
    congrArg (Option.map _) hb
  have hpace : b.Pace s.resendIntervalMS (sinceAfter s.waitingSince s.logger.backup b) fun k =>
      (s.resent ++ s.logger.backup.resentBy bs).count k := by
    simp only [List.count_append]
    refine h.pace_step h.pace hg hfit fun he => Nat.le_of_not_lt ?_
    rw [he] at hearly
    exact hearly
  have hclock : s.logger.backup.clock ≤ b.clock := by
    cases bs with
    | resender r =>
      cases resenderMove hb with
      | @sent _ _ delivered | @threw _ _ delivered => cases delivered <;> exact le_rfl
      | _ => exact le_rfl
    | reader e | tick ns => exact (passes_step hb (by simp)).clock
  refine ⟨h.tags, fun t ht => h.owned t (hadded ▸ ht), fun c l hc => hadded ▸ h.fresh c l hc,
    fun c l hc => (h.touched c l hc).trans hclock, h.gotAgain, hpace, h.owner, h.sentOnce,
    fun t => ?_⟩
  have hr := h.received t
  change b.received.count t ≤
    (s.resent ++ s.logger.backup.resentBy bs).count t + s.sent.count t
  rw [List.count_append]
  rcases received_step hb with he | ⟨i, ok, cacheCopy, key, l, rfl, hpc, hi, he⟩
  · rw [he]
    omega
  · rw [he, resentBy_send hpc, hi, List.count_append]
    simp only [Option.bind_some, Option.toList_some, List.map_cons, List.map_nil]
    omega

/-- **Every step keeps the invariant**, if no age wraps around before it is tested. -/
theorem Inv.step (h : s.Inv) {l : Label} (hfit : s.AgesFit l) (hs : s.step l = some s') :
    s'.Inv := by
  obtain ⟨hearly, g, hg, rfl⟩ := of_step hs
  cases l with
  | call c a =>
    have hr : resentIn s.logger.backup (.call c a) = [] := rfl
    rw [sinceAfter_of_resender_eq (resender_callStep hg).1, hr, List.append_nil]
    exact h.callStep hg
  | backup bs =>
    obtain ⟨b, hb, rfl⟩ := Option.map_eq_some_iff.mp hg
    have hs' : sentBy s.logger (.backup bs) = [] := rfl
    rw [hs', List.append_nil]
    exact h.backupStep hb hfit hearly
  | otherItems n =>
    cases hg
    have hr : resentIn s.logger.backup (.otherItems n) = [] := rfl
    have hs' : sentBy s.logger (.otherItems n) = [] := rfl
    rw [sinceAfter_of_resender_eq rfl, hr, hs', List.append_nil, List.append_nil]
    refine ⟨⟨fun c tag ht => ?_, h.tags.distinct⟩, h.owned, h.fresh, h.touched, h.gotAgain, h.pace,
      h.owner, h.sentOnce, h.received⟩
    obtain ⟨m, hm, he⟩ := h.tags.numbered c tag ht
    exact ⟨m, Nat.le_add_right_of_le hm, he⟩

/-- The configuration does not change. -/
theorem config_step {l : Label} (hs : s.step l = some s') :
    s'.resendIntervalMS = s.resendIntervalMS ∧
      s'.logger.backup.ackTimeoutMS = s.logger.backup.ackTimeoutMS := by
  obtain ⟨-, g, hg, rfl⟩ := of_step hs
  refine ⟨rfl, ?_⟩
  cases l with
  | call c a => exact (resender_callStep hg).2
  | backup bs =>
    obtain ⟨b, hb, rfl⟩ := Option.map_eq_some_iff.mp hg
    cases bs with
    | resender r =>
      cases resenderMove hb with
      | @sent _ _ delivered | @threw _ _ delivered => cases delivered <;> rfl
      | _ => rfl
    | reader e | tick ns => exact (passes_step hb (by simp)).ackTimeoutMS
  | otherItems n =>
    cases hg
    rfl

/-- What holds of a logger in a run. -/
theorem inv_of_reach {ackTimeoutMS resendIntervalMS : ℕ}
    (h : Reach step AgesFit (init ackTimeoutMS resendIntervalMS) s) :
    s.Inv ∧ s.resendIntervalMS = resendIntervalMS ∧
      s.logger.backup.ackTimeoutMS = ackTimeoutMS :=
  h.invariant
    (I := fun t => t.Inv ∧ t.resendIntervalMS = resendIntervalMS ∧
      t.logger.backup.ackTimeoutMS = ackTimeoutMS)
    ⟨inv_init _ _, rfl, rfl⟩ fun _ _ _ ht hfit hs =>
      ⟨ht.1.step hfit hs, (config_step hs).1.trans ht.2.1, (config_step hs).2.trans ht.2.2⟩

/-- **The pace of resending.** In every run in which no age wraps around before it is tested, the
rounds of the resender hand an item to `Send` at most `ackTimeoutMS / resendIntervalMS + 1` times,
and the server gets its message at most once more. -/
theorem resent_le {ackTimeoutMS resendIntervalMS : ℕ} (hi : 0 < resendIntervalMS)
    (h : Reach step AgesFit (init ackTimeoutMS resendIntervalMS) s) (tag : Bytes) :
    s.resent.count tag ≤ ackTimeoutMS / resendIntervalMS + 1 ∧
      s.logger.backup.received.count tag ≤ ackTimeoutMS / resendIntervalMS + 2 := by
  obtain ⟨hinv, hI, hT⟩ := inv_of_reach h
  have hb := hinv.pace.bounded tag
  rw [hI, hT] at hb
  have hn : s.resent.count tag - 1 ≤ ackTimeoutMS / resendIntervalMS :=
    (Nat.le_div_iff_mul_le hi).mpr hb
  have hone := List.nodup_iff_count_le_one.mp hinv.sentOnce tag
  have hr := hinv.received tag
  omega

/-- Whether the age that a step tests has not wrapped around. -/
def agesFit (s : PacedLogger) : Label → Bool
  | .backup (.resender (.check i)) =>
    match s.logger.backup.resender with
    | .filter cacheBak _ =>
      (cacheBak[i]?.bind Prod.snd).all fun l => l.ageMS s.logger.backup.clock < 4294967296
    | _ => true
  | _ => true

theorem agesFit_of {l : Label} (h : s.agesFit l = true) : s.AgesFit l := by
  cases l with
  | call c a | otherItems n => trivial
  | backup bs =>
    cases bs with
    | reader e | tick ns => trivial
    | resender r =>
      cases r with
      | check i =>
        intro cacheBak keysToRemove key l hpc hi
        simpa [agesFit, hpc, hi] using h
      | _ => trivial

/-- A round of the resender for one item. -/
def roundOfOne : List Label :=
  [.backup (.resender .wake), .backup (.resender .size), .backup (.resender .copy),
    .backup (.resender (.check 0)), .backup (.resender .erase), .backup (.resender .copyAgain),
    .backup (.resender (.send 0 true true)), .backup (.resender .done)]

/-- An interval of a millisecond, and a call; a round right after it, and one a millisecond
later. -/
def twoRounds : List Label :=
  [.backup (.tick 1000000), .call 0 (.begin (lit "s") (lit "d")), .call 0 (.startWorkers true),
    .call 0 .touch, .call 0 .add, .call 0 .get, .call 0 .getAgain, .call 0 (.send true true)] ++
  roundOfOne ++ [.backup (.tick 1000000)] ++ roundOfOne

/-- With a timeout and an interval of a millisecond, an item is resent twice and received three
times: the bounds are reached. -/
theorem resent_le_reached :
    ∃ s : PacedLogger, (s.resent.count (toDec 1) = 2 ∧
        s.logger.backup.received.count (toDec 1) = 3) ∧
      s.resent.count (toDec 1) ≤ 1 / 1 + 1 ∧
        s.logger.backup.received.count (toDec 1) ≤ 1 / 1 + 2 := by
  obtain ⟨s, hs, ht⟩ : ∃ s, Reach step AgesFit (init 1 1) s ∧
      decide (s.resent.count (toDec 1) = 2 ∧
        s.logger.backup.received.count (toDec 1) = 3) = true :=
    @Reach.exists_of_exec _ _ step _ _ agesFit _ twoRounds
      (fun _ _ h => agesFit_of h) (by decide) (by decide)
  exact ⟨s, of_decide_eq_true ht, resent_le (by decide) hs (toDec 1)⟩

/-! ## A round -/

theorem tags_eraseIdx {es : List (Bytes × LogItemPtr)} {i : ℕ} {e : Bytes × LogItemPtr}
    (hi : es[i]? = some e) :
    ((e.2.toList.map fun l => l.item.tag) ++ Backup.tags (es.eraseIdx i)).Perm (tags es) := by
  obtain ⟨hlt, rfl⟩ := List.getElem?_eq_some_iff.mp hi
  have hp := ((List.getElem_cons_eraseIdx_perm hlt).filterMap Prod.snd).map fun l => l.item.tag
  refine List.Perm.trans (List.Perm.of_eq ?_) hp
  rw [List.filterMap_cons]
  cases es[i].2 <;> simp [tags]

/-- A step within a round: the entries not visited yet, and those handed to `Send`. -/
theorem sending_step {b b' : Backup} {bs : BackupStep} {cacheCopy' : List (Bytes × LogItemPtr)}
    (hb : b.step bs = some b') (hne : bs ≠ .resender .copyAgain)
    (hpc' : b'.resender = .send cacheCopy') :
    ∃ cacheCopy, b.resender = .send cacheCopy ∧
      (b.resentBy bs ++ tags cacheCopy').Perm (tags cacheCopy) := by
  cases bs with
  | reader e | tick ns =>
    rw [(passes_step hb (by simp)).resender] at hpc'
    exact ⟨cacheCopy', hpc', .refl _⟩
  | resender r =>
    cases r with
    | send i ok delivered =>
      obtain ⟨cacheCopy, key, v, hpc, hi, ⟨rfl, rfl⟩ | ⟨l, received, rfl, rfl | rfl⟩⟩ := of_send hb
      · cases hpc'
        refine ⟨cacheCopy, hpc, ?_⟩
        rw [resentBy_send hpc, hi]
        exact tags_eraseIdx hi
      · cases hpc'
        refine ⟨cacheCopy, hpc, ?_⟩
        rw [resentBy_send hpc, hi]
        exact tags_eraseIdx hi
      · cases hpc'
    | copyAgain => exact absurd rfl hne
    | check i =>
      obtain ⟨_, _, _, _, _, -, -, rfl, -⟩ := of_check hb
      cases hpc'
    | size =>
      cases resenderMove hb with
      | size =>
        dsimp only at hpc'
        split at hpc' <;> cases hpc'
    | wake | copy | erase | done =>
      cases resenderMove hb
      all_goals cases hpc'

/-- A round has begun and has not made the copy it sends from. -/
def beforeCopy : ResenderPc → Bool
  | .size | .copy | .filter _ _ | .copyAgain => true
  | .wait | .send _ => false

/-- Only its own `wake` begins a round, and a round hands nothing to `Send` before its second
copy. -/
theorem beforeCopy_of_step {g g' : SocketLogger} {l : Label} (hg : g.step l = some g')
    (hl : l ≠ .backup (.resender .wake)) (h : beforeCopy g'.backup.resender = true) :
    beforeCopy g.backup.resender = true ∧ resentIn g.backup l = [] := by
  cases l with
  | call c a =>
    rw [(resender_callStep hg).1] at h
    exact ⟨h, rfl⟩
  | otherItems n =>
    cases hg
    exact ⟨h, rfl⟩
  | backup bs =>
    obtain ⟨b, hb, rfl⟩ := Option.map_eq_some_iff.mp hg
    cases bs with
    | reader e | tick ns =>
      rw [(passes_step hb (by simp)).resender] at h
      exact ⟨h, rfl⟩
    | resender r =>
      have hat := resender_of_step hb
      cases resenderMove hb with
      | wake => exact absurd rfl hl
      | size | copy =>
        rw [hat]
        exact ⟨rfl, rfl⟩
      | checkNull hpc | check hpc | erase hpc =>
        rw [hpc]
        exact ⟨rfl, rfl⟩
      | @sent _ _ delivered | @threw _ _ delivered => cases delivered <;> cases h
      | copyAgain | sendNull | done => cases h

/-- What a step of a round may be: no age wraps around, and no new round begins. -/
def InRound (s : PacedLogger) (l : Label) : Prop :=
  s.AgesFit l ∧ l ≠ .backup (.resender .wake)

/-- A round that no exception ends. It begins in `start`, makes the copy it sends from in `copy`,
and is over in `finish`; the calls, the reader and the clock go on in the meantime. -/
structure Round (start copy finish : PacedLogger) : Prop where
  begins : ∃ s, start.step (.backup (.resender .wake)) = some s ∧ Reach step InRound s copy
  ends : ∃ s s', copy.step (.backup (.resender .copyAgain)) = some s ∧
    Reach step InRound s s' ∧ s'.step (.backup (.resender .done)) = some finish

/-- The age of the item cached under a key, up to one millisecond more than the ack timeout. -/
def agedAt (b : Backup) (k : Bytes) : ℕ :=
  match b.dataCache.lookup k with
  | some (some l) => min (l.ageMS b.clock) (b.ackTimeoutMS + 1)
  | _ => 0

/-- At its beginning a round can take the ages of the items, in intervals of a millisecond, for
numbers of rounds: its test keeps them below the ack timeout. -/
theorem pace_agedAt {b : Backup} {I since : ℕ} {n : Bytes → ℕ} (h : b.Pace I since n) :
    Backup.Pace { b with resender := .size } 1 b.clock (agedAt b) where
  since_le := le_rfl
  cached := h.cached
  added k hk := by
    unfold agedAt
    split
    · exact absurd (h.cached _ _ ‹_›).2.1 hk
    · rfl
  bounded k := by
    unfold agedAt
    split
    · have := min_le_right (LogItem.ageMS ‹_› b.clock) (b.ackTimeoutMS + 1)
      change (_ - 1) * 1 ≤ b.ackTimeoutMS
      omega
    · exact Nat.zero_le _
  ok k l hl := by
    have hl : b.dataCache.lookup k = some (some l) := hl
    have hle := (h.cached k l hl).2.2
    have hage := Nat.div_mul_le_self (b.clock - l.touchTime) 1000000
    have hmin := Nat.mul_le_mul_right 1000000 (min_le_left (l.ageMS b.clock) (b.ackTimeoutMS + 1))
    simp only [agedAt, hl, Nat.one_mul, LogItem.ageMS] at hmin ⊢
    omega

/-- What holds of a round that began in `s`, up to its second copy: nothing was handed to `Send`,
and the ages that the items had at the beginning are a pace of the resender. -/
structure ToCopy (s t : PacedLogger) : Prop where
  inv : t.Inv
  ackTimeoutMS : t.logger.backup.ackTimeoutMS = s.logger.backup.ackTimeoutMS
  before : beforeCopy t.logger.backup.resender = true → t.resent = s.resent ∧
    ∃ since, t.logger.backup.Pace 1 since (agedAt s.logger.backup)

theorem Inv.toCopy (h : s.Inv) (hwake : s.step (.backup (.resender .wake)) = some s') :
    s.ToCopy s' := by
  refine ⟨h.step (by trivial) hwake, (config_step hwake).2, fun _ => ?_⟩
  obtain ⟨-, g, hg, rfl⟩ := of_step hwake
  obtain ⟨b, hb, rfl⟩ := Option.map_eq_some_iff.mp hg
  obtain rfl : b = { s.logger.backup with resender := .size } := by
    simpa [Backup.step, Backup.resenderStep, resender_of_step hb] using hb.symm
  exact ⟨by simp [resentIn, resentBy], _, pace_agedAt h.pace⟩

theorem ToCopy.step {t t' : PacedLogger} (h : s.ToCopy t) {l : Label} (hl : t.InRound l)
    (hs : t.step l = some t') : s.ToCopy t' := by
  refine ⟨h.inv.step hl.1 hs, (config_step hs).2.trans h.ackTimeoutMS, fun hbefore => ?_⟩
  obtain ⟨-, g, hg, rfl⟩ := of_step hs
  obtain ⟨hbefore, hnone⟩ := beforeCopy_of_step hg hl.2 hbefore
  obtain ⟨hresent, since, hpace⟩ := h.before hbefore
  have hpace' := h.inv.pace_step hpace hg hl.1 fun he => absurd he hl.2
  simp only [hnone, List.count_nil, Nat.add_zero] at hpace'
  exact ⟨by simp [hresent, hnone], _, hpace'⟩

/-- At its second copy a round has taken out of the cache every item that was too old when it
began. -/
theorem ToCopy.not_old {t : PacedLogger} (h : s.ToCopy t)
    (hpc : t.logger.backup.resender = .copyAgain) {k : Bytes} {l l' : LogItem}
    (hl : s.logger.backup.dataCache.lookup k = some (some l))
    (hl' : t.logger.backup.dataCache.lookup k = some (some l')) :
    l.ageMS s.logger.backup.clock ≤ s.logger.backup.ackTimeoutMS := by
  obtain ⟨-, since, hpace⟩ := h.before (by rw [hpc]; rfl)
  have hok := hpace.ok
  rw [hpc] at hok
  have hle := (hok k).2 l' hl'
  simp only [agedAt, hl, h.ackTimeoutMS] at hle
  omega

/-- **From its second copy** a round that no exception ends hands every item of the copy to
`Send`. -/
theorem resent_fromCopy {s₁ s₂ s₃ : PacedLogger}
    (hcopy : s.step (.backup (.resender .copyAgain)) = some s₁) (h : Reach step InRound s₁ s₂)
    (hdone : s₂.step (.backup (.resender .done)) = some s₃) :
    ∃ l, s₃.resent = s.resent ++ l ∧ l.Perm (tags s.logger.backup.entries) := by
  obtain ⟨-, g, hg, rfl⟩ := of_step hcopy
  obtain ⟨b, hb, rfl⟩ := Option.map_eq_some_iff.mp hg
  -- what was handed to `Send`, and what was not visited yet
  have hround := h.invariant (I := fun t => beforeCopy t.logger.backup.resender = false ∧
    ∀ cacheCopy, t.logger.backup.resender = .send cacheCopy → ∃ l, t.resent = s.resent ++ l ∧
      (l ++ tags cacheCopy).Perm (tags s.logger.backup.entries)) ?_ ?_
  · obtain ⟨-, g', hg', rfl⟩ := of_step hdone
    obtain ⟨b', hb', rfl⟩ := Option.map_eq_some_iff.mp hg'
    obtain ⟨l, hl, hperm⟩ := hround.2 [] (resender_of_step hb')
    refine ⟨l, ?_, by simpa [tags] using hperm⟩
    simpa [resentIn, resentBy] using hl
  · cases resenderMove hb with
    | copyAgain =>
      refine ⟨rfl, fun cacheCopy hpc => ?_⟩
      cases hpc
      exact ⟨[], by simp [resentIn, resentBy], .refl _⟩
  · rintro t l t' ⟨hafter, ht⟩ ⟨-, hl⟩ hs
    obtain ⟨-, g', hg', rfl⟩ := of_step hs
    refine ⟨?_, fun cacheCopy' hpc' => ?_⟩
    · rw [Bool.eq_false_iff]
      intro hbefore
      rw [(beforeCopy_of_step hg' hl hbefore).1] at hafter
      cases hafter
    · cases l with
      | call c a =>
        rw [(resender_callStep hg').1] at hpc'
        obtain ⟨l, hl, hperm⟩ := ht _ hpc'
        exact ⟨l, by simpa [resentIn] using hl, hperm⟩
      | otherItems n =>
        cases hg'
        obtain ⟨l, hl, hperm⟩ := ht _ hpc'
        exact ⟨l, by simpa [resentIn] using hl, hperm⟩
      | backup bs =>
        obtain ⟨b', hb', rfl⟩ := Option.map_eq_some_iff.mp hg'
        have hne : bs ≠ .resender .copyAgain := by
          rintro rfl
          rw [resender_of_step hb'] at hafter
          cases hafter
        obtain ⟨cacheCopy, hpc, hsent⟩ := sending_step hb' hne hpc'
        obtain ⟨l, hl, hperm⟩ := ht _ hpc
        refine ⟨l ++ t.logger.backup.resentBy bs, ?_, ?_⟩
        · simp [resentIn, hl]
        · rw [List.append_assoc]
          exact (hsent.append_left l).trans hperm

/-- **A round.** In every run in which no age wraps around before it is tested, a round that no
exception ends hands to `Send` exactly the items in the cache at its second copy, and each once,
whatever the calls, the reader and the clock do in the meantime: also an item that is acked before
its turn, and none that was older than the ack timeout when the round began. -/
theorem round_sends_all {ackTimeoutMS resendIntervalMS : ℕ} {start copy finish : PacedLogger}
    (h : Reach step AgesFit (init ackTimeoutMS resendIntervalMS) start)
    (hr : Round start copy finish) :
    ∃ l, finish.resent = start.resent ++ l ∧ l.Nodup ∧
      (∀ k, k ∈ l ↔ ∃ it, copy.logger.backup.dataCache.lookup k = some (some it)) ∧
      ∀ k it, start.logger.backup.dataCache.lookup k = some (some it) →
        ackTimeoutMS < it.ageMS start.logger.backup.clock → k ∉ l := by
  obtain ⟨hinv, -, hT⟩ := inv_of_reach h
  obtain ⟨s, hwake, hto⟩ := hr.begins
  obtain ⟨s', s'', hcopy, hfrom, hdone⟩ := hr.ends
  have hpc : copy.logger.backup.resender = .copyAgain := by
    obtain ⟨-, g, hg, -⟩ := of_step hcopy
    obtain ⟨b, hb, -⟩ := Option.map_eq_some_iff.mp hg
    exact resender_of_step hb
  have hcopied : start.ToCopy copy :=
    hto.invariant (hinv.toCopy hwake) fun _ _ _ ht hl hs => ht.step hl hs
  obtain ⟨l, hl, hperm⟩ := resent_fromCopy hcopy hfrom hdone
  have hmem : ∀ k, k ∈ l ↔ ∃ it, copy.logger.backup.dataCache.lookup k = some (some it) := fun k =>
    hperm.mem_iff.trans hcopied.inv.pace.mem_tags
  refine ⟨l, (hcopied.before (by rw [hpc]; rfl)).1 ▸ hl,
    hperm.nodup_iff.mpr hcopied.inv.pace.nodup_tags, hmem, fun k it hk hage hm => ?_⟩
  obtain ⟨it', hk'⟩ := (hmem k).mp hm
  exact absurd (hT ▸ hcopied.not_old hpc hk hk') (Nat.not_le.mpr hage)

/-- A step of a round, as a test. -/
def inRound (s : PacedLogger) : Label → Bool
  | .backup (.resender .wake) => false
  | l => s.agesFit l

theorem inRound_of {l : Label} (h : s.inRound l = true) : s.InRound l := by
  unfold inRound at h
  split at h
  · cases h
  · rename_i hl
    exact ⟨agesFit_of h, hl⟩

/-- The steps of a call of `SendDjson` up to its `Send`. -/
def toSend (c : ℕ) : List Label :=
  [.begin (lit "s") (lit "d"), .startWorkers true, .touch, .add, .get, .getAgain].map (.call c)

/-- A first item, and two milliseconds later a second one, and a third whose call is about to
send. -/
def threeCalls : List Label :=
  sentCall 0 ++ [.backup (.tick 2000000)] ++ sentCall 1 ++ toSend 2

/-- The round up to its second copy: its tests see three items. -/
def roundToCopy : List Label :=
  [.size, .copy, .check 0, .check 0, .check 0, .erase].map fun r => .backup (.resender r)

/-- After the copy, the server acks the second item, and the third call sends. -/
def roundFromCopy : List Label :=
  [.backup (.reader (.line (.ofTag 2))), .backup (.resender (.send 0 true true)),
    .call 2 (.send true true), .backup (.resender (.send 0 true true))]

/-- The state that a list of steps leads to. -/
def after (s : PacedLogger) (ls : List Label) : PacedLogger := (exec step s ls).getD s

theorem exec_after {ls : List Label} (h : (exec step s ls).isSome = true) :
    exec step s ls = some (s.after ls) := by
  obtain ⟨s', hs'⟩ := Option.isSome_iff_exists.mp h
  rw [after, hs', Option.getD_some]

/-- A step, and steps of a round after it. -/
theorem exists_round_of_exec {l : Label} {ls : List Label}
    (ho : ((s.step l).all fun t => okRun step inRound t ls) = true)
    (h : exec step s (l :: ls) = some s') :
    ∃ t, s.step l = some t ∧ Reach step InRound t s' := by
  obtain ⟨t, ht, he⟩ := Option.bind_eq_some_iff.mp h
  rw [ht] at ho
  exact ⟨t, ht, Reach.of_exec (fun _ _ => inRound_of) ho he⟩

/-- The state in which a round begins: three items are cached. -/
def roundStart : PacedLogger := (init 1 1).after threeCalls

/-- The state in which it makes its second copy. -/
def roundCopy : PacedLogger := roundStart.after (.backup (.resender .wake) :: roundToCopy)

/-- The state in which every item of the copy is sent. -/
def roundSent : PacedLogger := roundCopy.after (.backup (.resender .copyAgain) :: roundFromCopy)

/-- With a timeout of a millisecond, the round does not send the first of three items. It sends the
third, whose call sends as well, and the second, which has left the cache with its ack. -/
theorem round_sends_all_three :
    (roundSent.resent = [toDec 3, toDec 2] ∧
      roundSent.logger.backup.dataCache.keys = [toDec 3]) ∧
    ∃ (finish : PacedLogger) (l : List Bytes), finish.resent = roundStart.resent ++ l ∧ l.Nodup ∧
      (∀ k, k ∈ l ↔ ∃ it, roundCopy.logger.backup.dataCache.lookup k = some (some it)) ∧
      ∀ k it, roundStart.logger.backup.dataCache.lookup k = some (some it) →
        1 < it.ageMS roundStart.logger.backup.clock → k ∉ l := by
  have hstart : Reach step AgesFit (init 1 1) roundStart :=
    @Reach.of_exec _ _ step AgesFit agesFit (fun _ _ => agesFit_of) _ _ _ (by decide)
      (exec_after (by decide))
  obtain ⟨t, hsent, hcopied⟩ : ∃ t, roundCopy.step (.backup (.resender .copyAgain)) = some t ∧
      Reach step InRound t roundSent :=
    exists_round_of_exec (by decide) (exec_after (by decide))
  obtain ⟨finish, hdone⟩ : ∃ finish, roundSent.step (.backup (.resender .done)) = some finish :=
    Option.isSome_iff_exists.mp (by decide)
  have hround : Round roundStart roundCopy finish :=
    ⟨exists_round_of_exec (by decide) (exec_after (by decide)), t, roundSent, hsent, hcopied,
      hdone⟩
  exact ⟨by decide, finish, round_sends_all hstart hround⟩

end PacedLogger

end Outmdsd
