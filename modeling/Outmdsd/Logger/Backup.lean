import Outmdsd.Foundations.Ledger
import Outmdsd.Foundations.Runs
import Outmdsd.Item.LogItem
import Outmdsd.Reader.LineEvents

/-!
# The backup cache and its two background threads

The reader erases acked entries from the cache, and the resender erases entries that are too old
and sends the others again. Each of their accesses to the cache is one step (the operations of the
cache are atomic), so the senders of items may step in between. The reader steps line by line.

The ledger of the cache records what was added and why it was removed. A step keeps the entries of
the cache the live ones of the ledger (`Inv.step`), provided that the server acks only tags of
messages it received (`Honest`) and that no fragment of a cut line meets a success ack
(`NoStale`).
-/

namespace Outmdsd

open DataReader

/-- Why an entry was removed from the cache. -/
inductive Reason
  | acked
  /-- A resend round saw it at this age. -/
  | expired (ageMS : ℕ)
  /-- Its `SendData` failed. -/
  | failed
  deriving DecidableEq

/-- Where the resender is; `keysToRemove` carries the ages that were seen. -/
inductive ResenderPc
  | wait
  /-- In `ResendOnce`, before `Size()`. -/
  | size
  /-- In `ResendData`, before the first copy. -/
  | copy
  /-- In `FilterEach`, with the entries not visited yet. -/
  | filter (cacheBak : List (Bytes × LogItemPtr)) (keysToRemove : List (Bytes × ℕ))
  /-- Before the second copy. -/
  | copyAgain
  /-- In `ForEachUnsafe`, with the entries not visited yet. -/
  | send (cacheCopy : List (Bytes × LogItemPtr))

/-- The cache, the threads that serve it, and the server behind the socket. -/
structure Backup where
  ackTimeoutMS : ℕ
  dataCache : DataCache
  /-- The steady clock, in nanoseconds. -/
  clock : ℕ
  resender : ResenderPc
  totalSend : ℕ
  /-- The partial data the reader holds from earlier connections. -/
  fragment : Bytes
  nTagsRead : ℕ
  /-- The tags of the messages the server has received. -/
  received : List Bytes
  ledger : Ledger Bytes Reason

/-- A step of the resender. -/
inductive ResenderStep
  | wake
  | size
  | copy
  /-- `CheckItemAge` on an entry not visited yet. -/
  | check (i : ℕ)
  | erase
  | copyAgain
  /-- `SendItem` on an entry not visited yet: whether `Send` throws, and whether the server gets
  the message. -/
  | send (i : ℕ) (ok delivered : Bool)
  | done

/-- A step of a background thread, or of the clock. -/
inductive BackupStep
  | reader (e : LineEvent)
  | resender (r : ResenderStep)
  | tick (ns : ℕ)

namespace Backup

/-- A logger that has sent nothing yet. -/
def init (ackTimeoutMS : ℕ) : Backup where
  ackTimeoutMS := ackTimeoutMS
  dataCache := ∅
  clock := 0
  resender := .wait
  totalSend := 0
  fragment := []
  nTagsRead := 0
  received := []
  ledger := .empty

/-- The entries of the cache. -/
def entries (b : Backup) : List (Bytes × LogItemPtr) := b.dataCache.entries.map fun e => (e.1, e.2)

/-! ## Steps -/

/-- The server receives a message. -/
def deliver (b : Backup) (tag : Bytes) : Backup := { b with received := b.received ++ [tag] }

/-- A step of the reader. -/
def readerStep (b : Backup) (e : LineEvent) : Backup :=
  match e.item? b.fragment with
  | none => { b with fragment := e.next b.fragment }
  | some item =>
    let s := processItem ⟨some b.dataCache, b.nTagsRead, []⟩ item
    { b with
      dataCache := s.dataCache.getD b.dataCache
      nTagsRead := s.nTagsRead
      fragment := e.next b.fragment
      ledger := b.ledger.removeAll (e.acked.toList.map fun tag => (tag, .acked)) }

/-- A step of the resender. -/
def resenderStep (b : Backup) (r : ResenderStep) : Option Backup :=
  match b.resender, r with
  | .wait, .wake => some { b with resender := .size }
  | .size, .size =>
    some { b with resender := (if 0 < b.dataCache.size then .copy else .wait) }
  | .copy, .copy => some { b with resender := .filter b.entries [] }
  | .filter cacheBak keysToRemove, .check i =>
    match cacheBak[i]? with
    | none => none
    | some (_, none) => some { b with resender := .filter (cacheBak.eraseIdx i) keysToRemove }
    | some (key, some l) =>
      some { b with resender := (.filter (cacheBak.eraseIdx i)
        (if LogItem.checkItemAge b.ackTimeoutMS b.clock (some l) then
          keysToRemove ++ [(key, l.ageMS b.clock)] else keysToRemove)) }
  | .filter [] keysToRemove, .erase =>
    some { b with
      dataCache := (ConcurrentMap.eraseList b.dataCache (keysToRemove.map Prod.fst)).2
      ledger := b.ledger.removeAll (keysToRemove.map fun k => (k.1, .expired k.2))
      resender := .copyAgain }
  | .copyAgain, .copyAgain => some { b with resender := .send b.entries }
  | .send cacheCopy, .send i ok delivered =>
    match cacheCopy[i]? with
    | none => none
    | some (_, none) => some { b with resender := .send (cacheCopy.eraseIdx i) }
    | some (_, some l) =>
      let b := if delivered then b.deliver l.item.tag else b
      -- an exception of `Send` or of `GetData` ends the round
      some (if ok then
          { b with totalSend := b.totalSend + 1, resender := .send (cacheCopy.eraseIdx i) }
        else { b with resender := .wait })
  | .send [], .done => some { b with resender := .wait }
  | _, _ => none

/-- A step of the background threads. -/
def step (b : Backup) : BackupStep → Option Backup
  | .reader e => some (b.readerStep e)
  | .resender r => b.resenderStep r
  | .tick ns => some { b with clock := b.clock + ns }

/-- The server acks only tags of messages it has received. -/
def Honest (b : Backup) : BackupStep → Prop
  | .reader e => ∀ tag ∈ e.ackedLine.toList, tag ∈ b.received
  | _ => True

/-- No fragment of earlier connections stands in front of a success ack, unless the two are `0:`
and `0`. -/
def NoStale (b : Backup) : BackupStep → Prop
  | .reader (.line l) =>
    b.fragment = [] ∨ l.acked = none ∨ (b.fragment = lit "0:" ∧ l.text = lit "0")
  | _ => True

instance (b : Backup) : ∀ s, Decidable (b.Honest s)
  | .reader e => inferInstanceAs (Decidable (∀ tag ∈ e.ackedLine.toList, tag ∈ b.received))
  | .resender _ => inferInstanceAs (Decidable True)
  | .tick _ => inferInstanceAs (Decidable True)

instance (b : Backup) : ∀ s, Decidable (b.NoStale s)
  | .reader (.line l) => inferInstanceAs (Decidable
      (b.fragment = [] ∨ l.acked = none ∨ (b.fragment = lit "0:" ∧ l.text = lit "0")))
  | .reader (.cut _ _) => inferInstanceAs (Decidable True)
  | .resender _ => inferInstanceAs (Decidable True)
  | .tick _ => inferInstanceAs (Decidable True)

end Backup

/-! ## The invariant -/

/-- An added key, with an item of that tag. -/
def EntryOk (L : Ledger Bytes Reason) (e : Bytes × LogItemPtr) : Prop :=
  e.1 ∈ L.added ∧ ∀ l, e.2 = some l → l.item.tag = e.1

/-- What the resender has at hand was in the cache, and what it will remove was seen too old. -/
def ResenderPc.Ok (L : Ledger Bytes Reason) (ackTimeoutMS : ℕ) : ResenderPc → Prop
  | .filter cacheBak keysToRemove => (∀ e ∈ cacheBak, EntryOk L e) ∧
      ∀ k ∈ keysToRemove, k.1 ∈ L.added ∧ ackTimeoutMS < k.2
  | .send cacheCopy => ∀ e ∈ cacheCopy, EntryOk L e
  | _ => True

theorem EntryOk.add {L : Ledger Bytes Reason} {e : Bytes × LogItemPtr} (h : EntryOk L e)
    (tag : Bytes) : EntryOk (L.add tag) e :=
  ⟨List.mem_append_left _ h.1, h.2⟩

theorem ResenderPc.Ok.add {L : Ledger Bytes Reason} {T : ℕ} {pc : ResenderPc} (h : pc.Ok L T)
    (tag : Bytes) : pc.Ok (L.add tag) T := by
  cases pc with
  | filter cacheBak keysToRemove =>
    exact ⟨fun e he => (h.1 e he).add tag, fun k hk =>
      ⟨List.mem_append_left _ (h.2 k hk).1, (h.2 k hk).2⟩⟩
  | send cacheCopy => exact fun e he => (h e he).add tag
  | wait | size | copy | copyAgain => trivial

namespace Backup

/-- The keys of the cache are the live entries of the ledger, and what was sent or is removed was
added before. -/
structure Inv (b : Backup) : Prop where
  sound : b.ledger.Sound
  mem_iff : ∀ k, k ∈ b.dataCache ↔ b.ledger.Live k
  tag_eq : ∀ k l, b.dataCache.lookup k = some (some l) → l.item.tag = k
  received : ∀ t ∈ b.received, t ∈ b.ledger.added
  expired : ∀ k age, (k, Reason.expired age) ∈ b.ledger.removed → b.ackTimeoutMS < age
  resenderOk : b.resender.Ok b.ledger b.ackTimeoutMS

theorem inv_init (ackTimeoutMS : ℕ) : (init ackTimeoutMS).Inv where
  sound := by simp [init, Ledger.empty, Ledger.Sound]
  mem_iff := by simp [init, Ledger.empty, Ledger.Live]
  tag_eq := by simp [init]
  received := by simp [init]
  expired := by simp [init, Ledger.empty]
  resenderOk := trivial

variable {b b' : Backup}

theorem lookup_of_mem_entries {k : Bytes} {v : LogItemPtr} (h : (k, v) ∈ b.entries) :
    b.dataCache.lookup k = some v := by
  obtain ⟨⟨k', v'⟩, hm, he⟩ := List.mem_map.mp h
  obtain ⟨rfl, rfl⟩ := Prod.mk.inj he
  exact AList.mem_lookup_iff.mpr hm

theorem Inv.entryOk (h : b.Inv) {e : Bytes × LogItemPtr} (he : e ∈ b.entries) :
    EntryOk b.ledger e := by
  obtain ⟨k, v⟩ := e
  have hl := lookup_of_mem_entries he
  have hk : k ∈ b.dataCache := by
    rw [← AList.lookup_isSome, hl]
    rfl
  refine ⟨((h.mem_iff k).mp hk).1, ?_⟩
  rintro l rfl
  exact h.tag_eq k l hl

/-- Removing entries from the cache, and from the ledger for a reason, keeps the invariant. -/
theorem Inv.removeAll (h : b.Inv) {m : DataCache} {l : List (Bytes × Reason)}
    (hm : ∀ k, m.lookup k = if k ∈ l.map Prod.fst then none else b.dataCache.lookup k)
    (ha : ∀ e ∈ l, e.1 ∈ b.ledger.added)
    (he : ∀ k age, (k, Reason.expired age) ∈ l → b.ackTimeoutMS < age) :
    Inv { b with dataCache := m, ledger := b.ledger.removeAll l } where
  sound := h.sound.removeAll ha
  mem_iff k := by
    rw [Ledger.live_removeAll, ← h.mem_iff, ← AList.lookup_isSome, ← AList.lookup_isSome, hm]
    by_cases hk : k ∈ l.map Prod.fst
    · simp [hk]
    · simp only [hk, if_false, not_false_eq_true, and_true]
  tag_eq k l' hl' := by
    rw [hm] at hl'
    split at hl'
    · cases hl'
    · exact h.tag_eq k l' hl'
  received := h.received
  expired k age hk := by
    rcases List.mem_append.mp hk with hk | hk
    · exact h.expired k age hk
    · exact he k age hk
  resenderOk := h.resenderOk

/-- A change of the resender alone. -/
theorem Inv.setResender (h : b.Inv) {pc : ResenderPc} {totalSend : ℕ}
    (hp : pc.Ok b.ledger b.ackTimeoutMS) :
    Inv { b with resender := pc, totalSend := totalSend } :=
  ⟨h.sound, h.mem_iff, h.tag_eq, h.received, h.expired, hp⟩

/-- The server receives a message that was added to the cache. -/
theorem Inv.deliver (h : b.Inv) {tag : Bytes} (ht : tag ∈ b.ledger.added) :
    (b.deliver tag).Inv where
  sound := h.sound
  mem_iff := h.mem_iff
  tag_eq := h.tag_eq
  received t htm := by
    rcases List.mem_append.mp htm with htm | htm
    · exact h.received t htm
    · exact List.mem_singleton.mp htm ▸ ht
  expired := h.expired
  resenderOk := h.resenderOk

/-- A line event erases the tag its complete line acks, if no fragment meets it. -/
theorem readerStep_eq {e : LineEvent} (hs : b.NoStale (.reader e)) :
    ∃ m n, b.readerStep e =
        { b with
          dataCache := m
          nTagsRead := n
          fragment := e.next b.fragment
          ledger := b.ledger.removeAll (e.acked.toList.map fun tag => (tag, .acked)) } ∧
      ∀ k, m.lookup k = if some k = e.acked then none else b.dataCache.lookup k := by
  cases e with
  | cut l n =>
    refine ⟨b.dataCache, b.nTagsRead, ?_, by simp [LineEvent.acked]⟩
    simp [readerStep, LineEvent.item?, LineEvent.acked, Ledger.removeAll]
  | line l =>
    have ha : ackTag (b.fragment ++ l.text) = l.acked :=
      (l.ackTag_append_text_iff b.fragment).mpr hs
    refine ⟨_, _, rfl, fun k => ?_⟩
    simp only [dataCache_processItem, Option.getD_some, ha, LineEvent.acked]
    obtain hx | ⟨tag, hx⟩ := Option.eq_none_or_eq_some l.acked
    · simp [hx]
    · by_cases hk : k = tag
      · subst hk
        simp [hx]
      · simp [hx, hk, AList.lookup_erase_ne hk]

theorem Inv.readerStep (h : b.Inv) {e : LineEvent} (hh : b.Honest (.reader e))
    (hs : b.NoStale (.reader e)) : (b.readerStep e).Inv := by
  obtain ⟨m, n, he, hm⟩ := readerStep_eq hs
  have hl : ∀ tag ∈ e.acked.toList, tag ∈ b.ledger.added := fun tag ht =>
    h.received tag (hh tag (by
      cases e with
      | line l => exact ht
      | cut l n => cases ht))
  have hr := h.removeAll (m := m) (l := e.acked.toList.map fun tag => (tag, .acked)) ?_ ?_ ?_
  · rw [he]
    exact ⟨hr.sound, hr.mem_iff, hr.tag_eq, hr.received, hr.expired, hr.resenderOk⟩
  · intro k
    rw [hm]
    refine if_congr ?_ rfl rfl
    cases e.acked <;> simp [eq_comm]
  · intro x hx
    obtain ⟨tag, ht, rfl⟩ := List.mem_map.mp hx
    exact hl tag ht
  · intro k age hk
    obtain ⟨tag, -, ht⟩ := List.mem_map.mp hk
    cases ht

/-- The steps of the resender, by what they do. -/
inductive ResenderMove (b : Backup) : ResenderStep → Backup → Prop
  | wake : ResenderMove b .wake { b with resender := .size }
  | size : ResenderMove b .size
      { b with resender := if 0 < b.dataCache.size then .copy else .wait }
  | copy : ResenderMove b .copy { b with resender := .filter b.entries [] }
  | checkNull {cacheBak : List (Bytes × LogItemPtr)} {keysToRemove : List (Bytes × ℕ)} {i : ℕ}
      (hpc : b.resender = .filter cacheBak keysToRemove) :
    ResenderMove b (.check i) { b with resender := .filter (cacheBak.eraseIdx i) keysToRemove }
  | check {cacheBak : List (Bytes × LogItemPtr)} {keysToRemove : List (Bytes × ℕ)} {i : ℕ}
      {key : Bytes} {l : LogItem} (hpc : b.resender = .filter cacheBak keysToRemove)
      (hi : cacheBak[i]? = some (key, some l)) :
    ResenderMove b (.check i) { b with
      resender := .filter (cacheBak.eraseIdx i)
        (if LogItem.checkItemAge b.ackTimeoutMS b.clock (some l) then
          keysToRemove ++ [(key, l.ageMS b.clock)] else keysToRemove) }
  | erase {keysToRemove : List (Bytes × ℕ)} (hpc : b.resender = .filter [] keysToRemove) :
    ResenderMove b .erase { b with
      dataCache := (ConcurrentMap.eraseList b.dataCache (keysToRemove.map Prod.fst)).2
      ledger := b.ledger.removeAll (keysToRemove.map fun k => (k.1, .expired k.2))
      resender := .copyAgain }
  | copyAgain : ResenderMove b .copyAgain { b with resender := .send b.entries }
  | sendNull {cacheCopy : List (Bytes × LogItemPtr)} {i : ℕ} {ok delivered : Bool}
      (hpc : b.resender = .send cacheCopy) :
    ResenderMove b (.send i ok delivered) { b with resender := .send (cacheCopy.eraseIdx i) }
  | sent {cacheCopy : List (Bytes × LogItemPtr)} {i : ℕ} {delivered : Bool} {key : Bytes}
      {l : LogItem} (hpc : b.resender = .send cacheCopy)
      (hi : cacheCopy[i]? = some (key, some l)) :
    ResenderMove b (.send i true delivered)
      { (if delivered then b.deliver l.item.tag else b) with
        totalSend := b.totalSend + 1
        resender := .send (cacheCopy.eraseIdx i) }
  | threw {cacheCopy : List (Bytes × LogItemPtr)} {i : ℕ} {delivered : Bool} {key : Bytes}
      {l : LogItem} (hpc : b.resender = .send cacheCopy)
      (hi : cacheCopy[i]? = some (key, some l)) :
    ResenderMove b (.send i false delivered)
      { (if delivered then b.deliver l.item.tag else b) with resender := .wait }
  | done : ResenderMove b .done { b with resender := .wait }

theorem resenderMove {r : ResenderStep} (hb : b.resenderStep r = some b') :
    ResenderMove b r b' := by
  unfold resenderStep at hb
  split at hb
  case h_4 hpc =>
    split at hb
    · cases hb
    · cases hb
      exact .checkNull hpc
    · rename_i hi
      cases hb
      exact .check hpc hi
  case h_5 hpc =>
    cases hb
    exact .erase hpc
  case h_7 ok delivered hpc =>
    split at hb
    · cases hb
    · cases hb
      exact .sendNull hpc
    · rename_i hi
      cases hb
      cases ok
      · exact .threw hpc hi
      · cases delivered <;> exact .sent hpc hi
  case h_9 => cases hb
  all_goals
    cases hb
    constructor

/-- `SendItem`, whether or not the server gets the message. -/
theorem Inv.deliverIf (h : b.Inv) {cacheCopy : List (Bytes × LogItemPtr)} {i : ℕ}
    {delivered : Bool} {key : Bytes} {l : LogItem} (hpc : b.resender = .send cacheCopy)
    (hi : cacheCopy[i]? = some (key, some l)) :
    (if delivered then b.deliver l.item.tag else b).Inv := by
  cases delivered with
  | false => exact h
  | true =>
    have hp := h.resenderOk
    rw [hpc] at hp
    have he := hp _ (List.mem_of_getElem? hi)
    refine h.deliver ?_
    rw [he.2 l rfl]
    exact he.1

theorem Inv.resenderStep (h : b.Inv) {r : ResenderStep} (hr : b.resenderStep r = some b') :
    b'.Inv := by
  have hp := h.resenderOk
  cases resenderMove hr with
  | wake | done => exact h.setResender trivial
  | size =>
    refine h.setResender ?_
    split <;> trivial
  | copy => exact h.setResender ⟨fun e he => h.entryOk he, by simp⟩
  | checkNull hpc =>
    rw [hpc] at hp
    exact h.setResender ⟨fun e he => hp.1 e (List.mem_of_mem_eraseIdx he), hp.2⟩
  | check hpc hi =>
    rw [hpc] at hp
    refine h.setResender ⟨fun e he => hp.1 e (List.mem_of_mem_eraseIdx he), ?_⟩
    split
    · rename_i hage
      intro k hk
      rcases List.mem_append.mp hk with hk | hk
      · exact hp.2 k hk
      · rw [List.mem_singleton.mp hk]
        exact ⟨(hp.1 _ (List.mem_of_getElem? hi)).1, LogItem.lt_ageMS_of_checkItemAge hage⟩
    · exact hp.2
  | @erase keysToRemove hpc =>
    rw [hpc] at hp
    have hr := h.removeAll
      (m := (ConcurrentMap.eraseList b.dataCache (keysToRemove.map Prod.fst)).2)
      (l := keysToRemove.map fun k => (k.1, .expired k.2)) ?_ ?_ ?_
    · exact hr.setResender trivial
    · intro k
      rw [ConcurrentMap.lookup_eraseList, List.map_map]
      rfl
    · intro x hx
      obtain ⟨k, hk, rfl⟩ := List.mem_map.mp hx
      exact (hp.2 k hk).1
    · intro k age hk
      obtain ⟨k', hk', he⟩ := List.mem_map.mp hk
      cases he
      exact (hp.2 k' hk').2
  | copyAgain => exact h.setResender fun e he => h.entryOk he
  | sendNull hpc =>
    rw [hpc] at hp
    exact h.setResender fun e he => hp e (List.mem_of_mem_eraseIdx he)
  | @sent cacheCopy i delivered key l hpc hi =>
    have hd : (if delivered then b.deliver l.item.tag else b).Inv := h.deliverIf hpc hi
    rw [hpc] at hp
    cases delivered <;>
      exact hd.setResender fun e he => hp e (List.mem_of_mem_eraseIdx he)
  | @threw cacheCopy i delivered key l hpc hi =>
    exact (h.deliverIf hpc hi).setResender trivial

/-- **The background threads keep the invariant.** -/
theorem Inv.step (h : b.Inv) {s : BackupStep} (hh : b.Honest s) (hs : b.NoStale s)
    (hb : b.step s = some b') : b'.Inv := by
  cases s with
  | reader e =>
    cases hb
    exact h.readerStep hh hs
  | resender r => exact h.resenderStep hb
  | tick ns =>
    cases hb
    exact ⟨h.sound, h.mem_iff, h.tag_eq, h.received, h.expired, h.resenderOk⟩

theorem ledger_resenderStep {r : ResenderStep} (hb : b.resenderStep r = some b') :
    b'.ledger = b.ledger ∨
      ∃ l : List (Bytes × ℕ),
        b'.ledger = b.ledger.removeAll (l.map fun k => (k.1, .expired k.2)) := by
  cases resenderMove hb with
  | erase hpc => exact .inr ⟨_, rfl⟩
  | @sent _ _ delivered | @threw _ _ delivered => cases delivered <;> exact .inl rfl
  | _ => exact .inl rfl

/-- A step of the background threads adds nothing, and removes nothing as failed. -/
theorem ledger_step {s : BackupStep} (hb : b.step s = some b') :
    ∃ l, b'.ledger = b.ledger.removeAll l ∧ ∀ t, (t, Reason.failed) ∉ l := by
  have hn : b.ledger = b.ledger.removeAll [] := by simp [Ledger.removeAll]
  cases s with
  | reader e =>
    cases hb
    cases e with
    | cut l n => exact ⟨[], hn, by simp⟩
    | line l => exact ⟨_, rfl, by simp⟩
  | resender r =>
    rcases ledger_resenderStep hb with he | ⟨l, he⟩
    · exact ⟨[], he.trans hn, by simp⟩
    · exact ⟨_, he, by simp⟩
  | tick ns =>
    cases hb
    exact ⟨[], hn, by simp⟩

/-- A step of the background threads forgets no removal. -/
theorem removed_step {s : BackupStep} (hb : b.step s = some b') :
    b.ledger.removed ⊆ b'.ledger.removed := by
  obtain ⟨l, hl, -⟩ := ledger_step hb
  rw [hl]
  exact List.subset_append_left _ _

/-- The keys a step of the background threads erases. -/
def erases (b : Backup) : BackupStep → List Bytes
  | .reader e => (e.item? b.fragment).toList.flatMap fun item => (ackTag item).toList
  | .resender .erase =>
    match b.resender with
    | .filter [] keysToRemove => keysToRemove.map Prod.fst
    | _ => []
  | _ => []

/-- A step of the resender leaves the cache as it is, but for the keys it erases. -/
theorem lookup_resenderStep {r : ResenderStep} (hb : b.resenderStep r = some b') (k : Bytes) :
    b'.dataCache.lookup k =
      if k ∈ b.erases (.resender r) then none else b.dataCache.lookup k := by
  cases resenderMove hb with
  | erase hpc => simp only [erases, hpc, ConcurrentMap.lookup_eraseList]
  | @sent _ _ delivered | @threw _ _ delivered => cases delivered <;> simp [erases, deliver]
  | _ => simp [erases]

/-- **Frame.** A step of the background threads leaves the cache as it is, but for the keys it
erases. -/
theorem lookup_step {s : BackupStep} (hb : b.step s = some b') (k : Bytes) :
    b'.dataCache.lookup k = if k ∈ b.erases s then none else b.dataCache.lookup k := by
  cases s with
  | reader e =>
    cases hb
    cases e with
    | cut l n => simp [readerStep, LineEvent.item?, erases]
    | line l =>
      simp only [readerStep, LineEvent.item?, dataCache_processItem, Option.getD_some, erases,
        Option.toList_some, List.flatMap_cons, List.flatMap_nil, List.append_nil]
      cases ackTag (b.fragment ++ l.text) with
      | none => simp
      | some tag =>
        by_cases hk : k = tag
        · subst hk
          simp
        · simp [hk, AList.lookup_erase_ne hk]
  | resender r => exact lookup_resenderStep hb k
  | tick ns =>
    cases hb
    simp [erases]

/-! ## Steps of the senders -/

/-- `m_dataCache->Add(tag, item)` -/
def add (b : Backup) (tag : Bytes) (l : LogItem) : Except Exn Backup :=
  match ConcurrentMap.add b.dataCache tag (some l) with
  | .error e => .error e
  | .ok m => .ok { b with dataCache := m, ledger := b.ledger.add tag }

/-- `m_dataCache->Erase(tag)` after a failed send. -/
def eraseFailed (b : Backup) (tag : Bytes) : Backup :=
  { b with
    dataCache := (ConcurrentMap.erase b.dataCache tag).2
    ledger := b.ledger.removeAll [(tag, .failed)] }

theorem ledger_add {tag : Bytes} {l : LogItem} (hb : b.add tag l = .ok b') :
    b'.ledger = b.ledger.add tag := by
  unfold Backup.add at hb
  split at hb
  · cases hb
  · cases hb
    rfl

/-- A cache that holds items under their tags does so with one more. -/
theorem tag_eq_insert {m : DataCache} (h : ∀ k l, m.lookup k = some (some l) → l.item.tag = k)
    (l : LogItem) (k : Bytes) (l' : LogItem)
    (hl : (m.insert l.item.tag (some l)).lookup k = some (some l')) : l'.item.tag = k := by
  rcases lookup_insert_cases hl with ⟨rfl, he⟩ | ⟨-, hl⟩
  · cases he
    rfl
  · exact h k l' hl

/-- Adding an item whose tag was never added keeps the invariant. -/
theorem Inv.add (h : b.Inv) {l : LogItem} (ht : l.item.tag ∉ b.ledger.added)
    (hb : b.add l.item.tag l = .ok b') : b'.Inv := by
  unfold Backup.add at hb
  split at hb
  · cases hb
  · rename_i m hm
    have hne : l.item.tag ≠ [] := fun h0 => by simp [ConcurrentMap.add, h0] at hm
    rw [ConcurrentMap.add_eq_ok hne] at hm
    cases hm
    cases hb
    refine ⟨h.sound.add _, fun k => ?_, tag_eq_insert h.tag_eq l, fun t htr => ?_, h.expired,
      h.resenderOk.add _⟩
    · rw [Ledger.live_add h.sound ht, ← h.mem_iff, AList.mem_insert]
    · exact List.mem_append_left _ (h.received t htr)

theorem dataCache_add {tag : Bytes} {l : LogItem} (hb : b.add tag l = .ok b') :
    b'.dataCache = b.dataCache.insert tag (some l) := by
  unfold Backup.add at hb
  split at hb
  · cases hb
  · rename_i m hm
    cases hb
    unfold ConcurrentMap.add at hm
    split at hm
    · cases hm
    · cases hm
      rfl

theorem lookup_eraseFailed {k tag : Bytes} (hk : k ≠ tag) :
    (b.eraseFailed tag).dataCache.lookup k = b.dataCache.lookup k := by
  simp only [Backup.eraseFailed, ConcurrentMap.erase]
  split
  · rfl
  · exact AList.lookup_erase_ne hk

theorem Inv.eraseFailed (h : b.Inv) {tag : Bytes} (ht : tag ∈ b.ledger.added) (h0 : tag ≠ []) :
    (b.eraseFailed tag).Inv := by
  refine h.removeAll (fun k => ?_) (by simpa using ht) (by simp)
  rw [ConcurrentMap.erase, if_neg h0]
  by_cases hk : k = tag
  · subst hk
    simp
  · simp [hk, AList.lookup_erase_ne hk]

end Backup

end Outmdsd
