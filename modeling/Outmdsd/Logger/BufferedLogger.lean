import Outmdsd.Foundations.Places
import Outmdsd.Logger.DataSender
import Outmdsd.Logger.Removals

/-!
# The buffered logger

Any number of callers use `AddData` and `WaitUntilAllSend`; behind the incoming queue are the
sender, the reader and the resender, which the first `AddData` starts. An item that `AddData` has
accepted is in one of six places: in the queue, dropped by the queue, in the hand of the sender, in
the cache, removed by its ack, or removed by age.

In every run in which no fragment of a cut line meets a success ack, it is in exactly one, and a
`Send` that fails changes none (`items_conserved`).
-/

namespace Outmdsd

open DataReader

/-- The element that a push drops. -/
def ConcurrentQueue.dropped {α : Type*} (q : ConcurrentQueue α) : Option α :=
  if q.isFull then q.dataQueue.head? else none

/-- A push puts its element behind the others, and drops what it drops from the front. -/
theorem ConcurrentQueue.dropped_append_push {α : Type*} (q : ConcurrentQueue α) (x : α) :
    q.dropped.toList ++ (q.push x).dataQueue = q.dataQueue ++ [x] := by
  unfold ConcurrentQueue.dropped ConcurrentQueue.push
  by_cases hf : q.isFull = true
  · rw [if_pos hf]
    simp only [hf, if_true]
    cases hq : q.dataQueue with
    | cons y ys => rfl
    | nil =>
      -- a full queue is not empty
      simp [ConcurrentQueue.isFull, hq] at hf
      omega
  · rw [if_neg hf]
    simp [hf]

/-- How a call ends. -/
inductive CallResult
  | done
  | threw
  /-- `WaitUntilAllSend` returns. -/
  | waited (ready : Bool)
  deriving DecidableEq

/-- Where a caller is. -/
inductive CallerPc
  | returned (r : CallResult)
  /-- In `AddData`, before `call_once`. -/
  | adding (item : QueuedItem)
  | pushing (item : QueuedItem)
  /-- In `WaitUntilAllSend`, before `stop_once_empty`. -/
  | stopping
  | waiting

/-- A step of a caller. -/
inductive CallerStep
  /-- `AddData`, of a pointer that can be NULL. -/
  | addData (item : Option QueuedItem)
  | startWorkers
  | push
  | waitUntilAllSend
  | stopOnceEmpty
  /-- `wait_for` returns, for the end of the task or the timeout. -/
  | wait

/-- A buffered logger with its callers. -/
structure BufferedLogger where
  sender : DataSender
  /-- `StartWorkers` was called. -/
  started : Bool
  pc : ℕ → CallerPc
  /-- The tags of the items pushed so far. -/
  accepted : List Bytes
  /-- The tags of the items dropped by the limit of the queue. -/
  dropped : List Bytes
  /-- The tags of the items handed to `DataSender::Send`. -/
  handed : List Bytes
  /-- The tags erased from the cache by the acks of their items. -/
  acked : List Bytes
  /-- The tags erased from the cache by the resender. -/
  expired : List Bytes

/-- The future of the sender's task is ready. -/
def SenderPc.ready : SenderPc → Bool
  | .left _ => true
  | _ => false

/-- The tag of a queued item. -/
def QueuedItem.tag (x : QueuedItem) : Bytes := x.logItem.item.tag

/-- The tags of a queue and of a new item are those dropped and those queued after the push. -/
theorem ConcurrentQueue.tags_push (q : ConcurrentQueue QueuedItem) (x : QueuedItem) :
    q.dataQueue.map QueuedItem.tag ++ [x.tag] =
      q.dropped.toList.map QueuedItem.tag ++ (q.push x).dataQueue.map QueuedItem.tag := by
  rw [← List.map_append, q.dropped_append_push x, List.map_append]
  rfl

namespace BufferedLogger

/-- A step of the system. -/
inductive Label
  | caller (c : ℕ) (a : CallerStep)
  | sender (a : SenderStep)
  | backup (b : BackupStep)
  | otherSchema (svlist : List ItemInfo)

/-- A new logger. -/
def init (ackTimeoutMS bufferLimit : ℕ) (ids : IdMgr) : BufferedLogger where
  sender := .init (ackTimeoutMS ≠ 0) ackTimeoutMS bufferLimit ids
  started := false
  pc _ := .returned .done
  accepted := []
  dropped := []
  handed := []
  acked := []
  expired := []

def setPc (s : BufferedLogger) (c : ℕ) (pc : CallerPc) : BufferedLogger :=
  { s with pc := Function.update s.pc c pc }

/-- `m_incomingQueue->push(item)` -/
def push (s : BufferedLogger) (item : QueuedItem) : BufferedLogger :=
  { s with
    sender := { s.sender with incomingQueue := s.sender.incomingQueue.push item }
    accepted := s.accepted ++ [item.tag]
    dropped := s.dropped ++ s.sender.incomingQueue.dropped.toList.map QueuedItem.tag }

/-- A step of the caller `c`. -/
def callerStep (s : BufferedLogger) (c : ℕ) (a : CallerStep) : Option BufferedLogger :=
  match s.pc c, a with
  | .returned _, .addData none => some (s.setPc c (.returned .threw))
  | .returned _, .addData (some item) => some (s.setPc c (.adding item))
  | .adding item, .startWorkers => some ({ s with started := true }.setPc c (.pushing item))
  | .pushing item, .push => some ((s.push item).setPc c (.returned .done))
  | .returned _, .waitUntilAllSend => some (s.setPc c .stopping)
  | .stopping, .stopOnceEmpty =>
    some ({ s with sender := { s.sender with
      incomingQueue := s.sender.incomingQueue.stop } }.setPc c .waiting)
  | .waiting, .wait =>
    -- before `StartWorkers` there is no future to wait for
    some (s.setPc c (.returned (if s.started then .waited s.sender.pc.ready else .threw)))
  | _, _ => none

/-- The item that a step of the sender hands to `DataSender::Send`. -/
def handedBy (d : DataSender) (a : SenderStep) : List Bytes :=
  match d.pc, a with
  | .send l, .run => [l.item.tag]
  | _, _ => []

theorem handedBy_of_ne_send {d : DataSender} (h : ∀ l, d.pc ≠ .send l) (a : SenderStep) :
    handedBy d a = [] := by
  unfold handedBy
  split
  · exact absurd ‹_› (h _)
  · rfl

/-- The tags that an ack erases from the cache: its own, if it is there. -/
def ackedBy (b : Backup) : BackupStep → List Bytes
  | .reader e => b.dataCache.keys.filter fun k => e.acked = some k
  | _ => []

/-- The tags that the resender erases from the cache. -/
def expiredBy (b : Backup) : BackupStep → List Bytes
  | .resender r => b.dataCache.keys.filter fun k => k ∈ b.erases (.resender r)
  | _ => []

/-- A step of a background thread, or of the clock. There is no resender without a cache. -/
def backupStep (s : BufferedLogger) (bs : BackupStep) : Option BufferedLogger :=
  match bs, s.sender.caching with
  | .resender _, false => none
  | _, _ => (s.sender.backup.step bs).map fun b => { s with
      sender := { s.sender with backup := b }
      acked := s.acked ++ ackedBy s.sender.backup bs
      expired := s.expired ++ expiredBy s.sender.backup bs }

/-- A step of the system. The workers run once they are started. -/
def step (s : BufferedLogger) : Label → Option BufferedLogger
  | .caller c a => s.callerStep c a
  | .sender a =>
    if s.started then (s.sender.senderStep a).map fun d =>
      { s with sender := d, handed := s.handed ++ handedBy s.sender a }
    else none
  | .backup bs => if s.started then s.backupStep bs else none
  | .otherSchema svlist =>
    (s.sender.step (.otherSchema svlist)).map fun d => { s with sender := d }

/-! ## The places of an item -/

/-- Where an item is. -/
inductive Place
  | queue
  | dropped
  /-- In the hand of the sender, between the pop and `Add`. -/
  | hand
  | cache
  | acked
  | expired
  deriving DecidableEq

instance : Fintype Place where
  elems := {.queue, .dropped, .hand, .cache, .acked, .expired}
  complete p := by cases p <;> decide

/-- The tag of the item that the sender has popped and not added yet. -/
def hand : SenderPc → List Bytes
  | .popped l => [l.item.tag]
  | .taken l => [l.item.tag]
  | .touched l => [l.item.tag]
  | _ => []

/-- The tags of the items at a place. -/
def place (s : BufferedLogger) : Place → List Bytes
  | .queue => s.sender.incomingQueue.dataQueue.map QueuedItem.tag
  | .dropped => s.dropped
  | .hand => hand s.sender.pc
  | .cache => s.sender.backup.dataCache.keys
  | .acked => s.acked
  | .expired => s.expired

/-- The items of `AddData` are distinct. -/
def Distinct (s : BufferedLogger) : Label → Prop
  | .caller c .push => ∀ item, s.pc c = .pushing item → item.tag ∉ s.accepted
  | _ => True

/-- No fragment of a cut line meets a success ack. -/
def NoStale (s : BufferedLogger) : Label → Prop
  | .backup bs => s.sender.backup.NoStale bs
  | _ => True

/-- The server acks only tags of messages it has received. -/
def Honest (s : BufferedLogger) : Label → Prop
  | .backup bs => s.sender.backup.Honest bs
  | _ => True

/-- A `Send` of the sender or of the resender throws. -/
def FailedSend : Label → Prop
  | .sender (.send false _) => True
  | .backup (.resender (.send _ false _)) => True
  | _ => False

/-- Every accepted item is in exactly one place, and the items removed by age were seen older than
the ack timeout. -/
structure Conserved (s : BufferedLogger) : Prop where
  exactlyOne : ∀ tag ∈ s.accepted, ∃! p, tag ∈ s.place p
  expired : ∀ tag ∈ s.expired, ∃ age, s.sender.backup.ackTimeoutMS < age ∧
    (tag, Reason.expired age) ∈ s.sender.backup.ledger.removed

variable {s s' : BufferedLogger} {d d' : DataSender}

/-! ## The steps of the parts -/

theorem of_step_sender {a : SenderStep} (hs : s.step (.sender a) = some s') :
    ∃ d, s.sender.senderStep a = some d ∧
      s' = { s with sender := d, handed := s.handed ++ handedBy s.sender a } := by
  simp only [step] at hs
  split at hs
  · obtain ⟨d, hd, rfl⟩ := Option.map_eq_some_iff.mp hs
    exact ⟨d, hd, rfl⟩
  · cases hs

theorem of_step_backup {bs : BackupStep} (hs : s.step (.backup bs) = some s') :
    ∃ b, s.sender.backup.step bs = some b ∧ s' = { s with
      sender := { s.sender with backup := b }
      acked := s.acked ++ ackedBy s.sender.backup bs
      expired := s.expired ++ expiredBy s.sender.backup bs } := by
  simp only [step] at hs
  split at hs
  · unfold backupStep at hs
    split at hs
    · cases hs
    · obtain ⟨b, hb, rfl⟩ := Option.map_eq_some_iff.mp hs
      exact ⟨b, hb, rfl⟩
  · cases hs

theorem of_step_otherSchema {svlist : List ItemInfo}
    (hs : s.step (.otherSchema svlist) = some s') :
    ∃ ids, s.sender.step (.otherSchema svlist) = some { s.sender with ids := ids } ∧
      s' = { s with sender := { s.sender with ids := ids } } := by
  obtain ⟨d, hd, rfl⟩ := Option.map_eq_some_iff.mp hs
  have hd' := hd
  simp only [DataSender.step] at hd'
  split at hd'
  · cases hd'
  · cases hd'
    exact ⟨_, hd, rfl⟩

/-! ## What a step does to the places -/

/-- What a step of the sender does to the queue, its hand and the cache. -/
inductive SenderMove (d d' : DataSender) : Prop
  | stay (hq : d'.incomingQueue = d.incomingQueue) (hh : hand d'.pc = hand d.pc)
      (hc : d'.backup.dataCache = d.backup.dataCache)
  | pop (x : QueuedItem) (hq : d.incomingQueue.dataQueue = x :: d'.incomingQueue.dataQueue)
      (hd : hand d.pc = []) (hh : hand d'.pc = [x.tag])
      (hc : d'.backup.dataCache = d.backup.dataCache)
  | add (tag : Bytes) (l : LogItem) (hq : d'.incomingQueue = d.incomingQueue)
      (hd : hand d.pc = [tag]) (hh : hand d'.pc = [])
      (hc : d'.backup.dataCache = d.backup.dataCache.insert tag (some l))

/-- What the sender keeps: it has a cache, it is not stopped, and what it has in its hand has a
tag. -/
structure SenderOk (d : DataSender) : Prop where
  caching : d.caching = true
  notStopped : d.stopSender = false
  tag_ne_nil : ∀ tag ∈ hand d.pc, tag ≠ []

/-- The resender and the removals are as before. -/
structure SameRemovals (b b' : Backup) : Prop where
  ackTimeoutMS : b'.ackTimeoutMS = b.ackTimeoutMS
  resender : b'.resender = b.resender
  removed : b'.ledger.removed = b.ledger.removed

/-- A step of a sender that goes on as it should. -/
structure Moves (d d' : DataSender) : Prop where
  ok : SenderOk d'
  move : SenderMove d d'
  removals : SameRemovals d.backup d'.backup

theorem moves_setPc (h : SenderOk d) (ids : IdMgr) {pc : SenderPc} (hh : hand pc = hand d.pc) :
    Moves d ({ d with ids := ids }.setPc pc) where
  ok := ⟨h.caching, h.notStopped, fun tag ht => h.tag_ne_nil tag (hh ▸ ht)⟩
  move := .stay rfl hh rfl
  removals := ⟨rfl, rfl, rfl⟩

/-- `GetData` and what follows it leave the hand of the sender empty. -/
theorem moves_getDataStep (h : SenderOk d) (hd : hand d.pc = []) (l : LogItem) :
    Moves d (d.getDataStep l) := by
  have hmove : ∀ pc, hand pc = [] → Moves d (d.setPc pc) := fun pc hp =>
    moves_setPc h d.ids (hp.trans hd.symm)
  unfold DataSender.getDataStep
  split
  · split
    · split
      · exact hmove _ rfl
      · exact hmove _ rfl
      · exact hmove _ rfl
    · exact hmove _ rfl
  · exact hmove _ rfl

/-- **A step of the sender.** -/
theorem moves_senderStep (h : SenderOk d) {a : SenderStep} (hs : d.senderStep a = some d') :
    Moves d d' := by
  have hmove : ∀ pc, hand pc = hand d.pc → Moves d (d.setPc pc) := fun pc hp =>
    moves_setPc h d.ids hp
  have hpoint : ∀ pc, hand pc = hand d.pc → Moves d (d.interruptPoint pc) := fun pc hp => by
    unfold DataSender.interruptPoint
    rw [h.notStopped]
    exact hmove pc hp
  have hnil : ∀ tag ∈ ([] : List Bytes), tag ≠ [] := fun _ ht => absurd ht List.not_mem_nil
  cases DataSender.runMove hs with
  | loop hpc =>
    rw [h.notStopped]
    exact hmove .pop (by rw [hpc]; rfl)
  | popEnd hpc => exact hmove .drained (by rw [hpc]; rfl)
  | @pop x q hpc hq =>
    have hd : hand d.pc = [] := by rw [hpc]; rfl
    refine ⟨⟨h.caching, h.notStopped, ?_⟩,
      .pop x (ConcurrentQueue.waitAndPop_eq_some hq) hd rfl rfl, rfl, rfl, rfl⟩
    intro tag ht
    rw [List.mem_singleton.mp ht]
    exact x.tag_ne_nil
  | drained hpc =>
    refine hmove _ ?_
    rw [hpc]
    split <;> rfl
  | popped hpc => exact hpoint _ (by rw [hpc]; rfl)
  | @taken l hpc =>
    rw [h.caching]
    exact hmove (.touched (l.touch d.backup.clock)) (by rw [hpc]; rfl)
  | @addThrew l e hpc ht =>
    have hd : l.item.tag ∈ hand d.pc := by
      rw [hpc]
      exact List.mem_singleton.mpr rfl
    exact absurd ht (h.tag_ne_nil _ hd)
  | @add l hpc =>
    have hd : hand d.pc = [l.item.tag] := by rw [hpc]; rfl
    exact ⟨⟨h.caching, h.notStopped, hnil⟩, .add l.item.tag l rfl hd rfl rfl, rfl, rfl, rfl⟩
  | addedThrew hpc | addedGone hpc | added hpc | getAgainThrew hpc | getAgain hpc | composed hpc =>
    exact hmove _ (by rw [hpc]; rfl)
  | got hpc => exact hpoint _ (by rw [hpc]; rfl)
  | @data l hpc => exact moves_getDataStep h (by rw [hpc]; rfl) l
  | missed hpc =>
    unfold DataSender.insertStep
    split
    · exact hmove _ (by rw [hpc]; rfl)
    · exact moves_setPc h _ (by rw [hpc]; rfl)
  | send hpc =>
    have hd : hand d.pc = [] := by rw [hpc]; rfl
    exact ⟨⟨h.caching, h.notStopped, hnil⟩, .stay rfl hd.symm rfl, rfl, rfl, rfl⟩
  | @sending l ok delivered hpc =>
    have hd : hand d.pc = [] := by rw [hpc]; rfl
    cases delivered <;>
      exact ⟨⟨h.caching, h.notStopped, hnil⟩, .stay rfl hd.symm rfl, rfl, rfl, rfl⟩
  | sent hpc => exact hpoint _ (by rw [hpc]; rfl)

/-- The sender is as it should be, every item is in one place, and what was removed by age was too
old. -/
structure Inv (s : BufferedLogger) : Prop where
  senderOk : SenderOk s.sender
  nodup : s.accepted.Nodup
  places : Places.Conserved s.accepted s.place
  aged : s.sender.backup.Aged
  expired : ∀ tag ∈ s.expired, ∃ age, (tag, Reason.expired age) ∈ s.sender.backup.ledger.removed

theorem inv_init {ackTimeoutMS : ℕ} (h : 0 < ackTimeoutMS) (bufferLimit : ℕ) (ids : IdMgr) :
    (init ackTimeoutMS bufferLimit ids).Inv where
  senderOk := ⟨by simp [init, DataSender.init, h.ne'], rfl, nofun⟩
  nodup := List.nodup_nil
  places := Places.conserved_nil fun p => by cases p <;> rfl
  aged := ⟨by simp [init, DataSender.init, Backup.init, Ledger.empty], nofun⟩
  expired := nofun

theorem Inv.conserved (h : s.Inv) : s.Conserved where
  exactlyOne _ ht := h.places.existsUnique h.nodup ht
  expired tag ht := by
    obtain ⟨age, hr⟩ := h.expired tag ht
    exact ⟨age, h.aged.removed tag age hr, hr⟩

/-- A step that leaves the sender's data as they are. -/
theorem Inv.setPc (h : s.Inv) (started : Bool) (c : ℕ) (pc : CallerPc) :
    Inv ({ s with started := started }.setPc c pc) :=
  ⟨h.senderOk, h.nodup, h.places, h.aged, h.expired⟩

/-- A new item is pushed, and the queue may drop its oldest one. -/
theorem Inv.push (h : s.Inv) {item : QueuedItem} (hn : item.tag ∉ s.accepted) :
    (s.push item).Inv where
  senderOk := ⟨h.senderOk.caching, h.senderOk.notStopped, h.senderOk.tag_ne_nil⟩
  nodup := by
    refine h.nodup.append (List.nodup_singleton _) ?_
    exact List.disjoint_singleton.mpr hn
  places := by
    refine h.places.accept_move (p := .queue) (q := .dropped) (by decide) (.of_eq ?_)
      (List.Perm.refl _) fun r hq hd => ?_
    · exact s.sender.incomingQueue.tags_push item
    · cases r with
      | queue => exact absurd rfl hq
      | dropped => exact absurd rfl hd
      | hand | cache | acked | expired => rfl
  aged := h.aged
  expired := h.expired

theorem Inv.callerStep (h : s.Inv) {c : ℕ} {a : CallerStep} (hd : s.Distinct (.caller c a))
    (hs : s.callerStep c a = some s') : s'.Inv := by
  unfold BufferedLogger.callerStep at hs
  split at hs
  case h_4 item hpc =>
    cases hs
    exact (h.push (hd item hpc)).setPc _ c _
  case h_6 =>
    cases hs
    exact ⟨⟨h.senderOk.caching, h.senderOk.notStopped, h.senderOk.tag_ne_nil⟩, h.nodup, h.places,
      h.aged, h.expired⟩
  case h_8 => cases hs
  all_goals
    cases hs
    exact h.setPc _ c _

/-- The places after a step of the sender. -/
theorem Inv.senderStep (h : s.Inv) {a : SenderStep} (hs : s.sender.senderStep a = some d') :
    Inv { s with sender := d', handed := s.handed ++ handedBy s.sender a } := by
  obtain ⟨hok, hmove, hrem⟩ := moves_senderStep h.senderOk hs
  refine ⟨hok, h.nodup, ?_, ⟨fun tag age hr => ?_, fun cacheBak keys hp => ?_⟩, fun tag ht => ?_⟩
  · cases hmove with
    | stay hq hh hc =>
      have hplace : place { s with sender := d', handed := s.handed ++ handedBy s.sender a } =
          s.place := by
        funext p
        cases p with
        | queue => exact congrArg (fun q => q.dataQueue.map QueuedItem.tag) hq
        | hand => exact hh
        | cache => exact congrArg AList.keys hc
        | dropped | acked | expired => rfl
      rw [hplace]
      exact h.places
    | pop x hq hd hh hc =>
      refine h.places.move (p := .queue) (q := .hand) (m := [x.tag]) (by decide) ?_ ?_ ?_
      · change (s.sender.incomingQueue.dataQueue.map QueuedItem.tag).Perm _
        rw [hq]
        exact List.Perm.refl _
      · change (hand d'.pc).Perm (hand s.sender.pc ++ [x.tag])
        rw [hd, hh]
        exact List.Perm.refl _
      · intro r hnq hnh
        cases r with
        | queue => exact absurd rfl hnq
        | hand => exact absurd rfl hnh
        | cache => exact congrArg AList.keys hc
        | dropped | acked | expired => rfl
    | add tag l hq hd hh hc =>
      -- the item in the hand is not in the cache
      have hnot : tag ∉ s.sender.backup.dataCache.keys := fun hm => by
        have hhand : tag ∈ s.place .hand := by
          change tag ∈ hand s.sender.pc
          rw [hd]
          exact List.mem_singleton.mpr rfl
        exact absurd (h.places.eq_of_mem (p := .hand) (q := .cache) h.nodup hhand hm) (by decide)
      refine h.places.move (p := .hand) (q := .cache) (m := [tag]) (by decide) ?_ ?_ ?_
      · change (hand s.sender.pc).Perm ([tag] ++ hand d'.pc)
        rw [hd, hh]
        exact List.Perm.refl _
      · change d'.backup.dataCache.keys.Perm (s.sender.backup.dataCache.keys ++ [tag])
        rw [hc, AList.keys, AList.entries_insert_of_notMem hnot]
        exact (List.perm_append_singleton tag _).symm
      · intro r hnh hnc
        cases r with
        | hand => exact absurd rfl hnh
        | cache => exact absurd rfl hnc
        | queue => exact congrArg (fun q => q.dataQueue.map QueuedItem.tag) hq
        | dropped | acked | expired => rfl
  · rw [hrem.ackTimeoutMS]
    exact h.aged.removed tag age (hrem.removed ▸ hr)
  · rw [hrem.ackTimeoutMS]
    exact h.aged.noted cacheBak keys (hrem.resender.symm.trans hp)
  · rw [hrem.removed]
    exact h.expired tag ht

/-- The places after a step of the background threads, which take out of the cache what they
erase. -/
theorem Inv.backup (h : s.Inv) {bs : BackupStep} {b' : Backup}
    (hn : s.sender.backup.NoStale bs) (hb : s.sender.backup.step bs = some b') :
    Inv { s with
      sender := { s.sender with backup := b' }
      acked := s.acked ++ ackedBy s.sender.backup bs
      expired := s.expired ++ expiredBy s.sender.backup bs } := by
  have hkeys := Backup.keys_step hb
  refine ⟨⟨h.senderOk.caching, h.senderOk.notStopped, h.senderOk.tag_ne_nil⟩, h.nodup, ?_,
    h.aged.step hb, fun tag ht => ?_⟩
  · cases bs with
    | reader e =>
      have herase : s.sender.backup.dataCache.keys.filter
            (fun k => k ∈ s.sender.backup.erases (.reader e)) =
          ackedBy s.sender.backup (.reader e) := by
        rw [Backup.erases_reader hn]
        refine List.filter_congr fun k _ => ?_
        simp [Option.mem_toList]
      rw [herase] at hkeys
      refine h.places.move (p := .cache) (q := .acked) (by decide) hkeys (List.Perm.refl _) ?_
      intro r hnc hna
      cases r with
      | cache => exact absurd rfl hnc
      | acked => exact absurd rfl hna
      | expired => exact List.append_nil _
      | queue | dropped | hand => rfl
    | resender r =>
      refine h.places.move (p := .cache) (q := .expired) (by decide) hkeys (List.Perm.refl _) ?_
      intro r hnc hne
      cases r with
      | cache => exact absurd rfl hnc
      | expired => exact absurd rfl hne
      | acked => exact List.append_nil _
      | queue | dropped | hand => rfl
    | tick ns =>
      cases hb
      have hplace : place { s with
          sender := { s.sender with
            backup := { s.sender.backup with clock := s.sender.backup.clock + ns } }
          acked := s.acked ++ [], expired := s.expired ++ [] } = s.place := by
        rw [List.append_nil, List.append_nil]
        rfl
      exact hplace ▸ h.places
  · rcases List.mem_append.mp ht with ht | ht
    · obtain ⟨age, hr⟩ := h.expired tag ht
      exact ⟨age, Backup.removed_step hb hr⟩
    · cases bs with
      | reader e => cases ht
      | resender r =>
        exact Backup.exists_age_of_erases hb (by simpa using (List.mem_filter.mp ht).2)
      | tick ns => cases ht

/-- **Every step keeps the account.** -/
theorem Inv.step (h : s.Inv) {l : Label} (hd : s.Distinct l) (hn : s.NoStale l)
    (hs : s.step l = some s') : s'.Inv := by
  cases l with
  | caller c a => exact h.callerStep hd hs
  | sender a =>
    obtain ⟨d, hd, rfl⟩ := of_step_sender hs
    exact h.senderStep hd
  | backup bs =>
    obtain ⟨b, hb, rfl⟩ := of_step_backup hs
    exact h.backup hn hb
  | otherSchema svlist =>
    obtain ⟨ids, -, rfl⟩ := of_step_otherSchema hs
    exact ⟨⟨h.senderOk.caching, h.senderOk.notStopped, h.senderOk.tag_ne_nil⟩, h.nodup, h.places,
      h.aged, h.expired⟩

/-- A `Send` that fails leaves every place as it is. -/
theorem place_failedSend {l : Label} (hf : FailedSend l) (hs : s.step l = some s') :
    s'.place = s.place := by
  cases l with
  | sender a =>
    cases a with
    | send ok delivered =>
      cases ok with
      | true => exact absurd hf id
      | false =>
        obtain ⟨d, hd, rfl⟩ := of_step_sender hs
        cases DataSender.runMove hd with
        | sending hpc =>
          have hh : hand s.sender.pc = [] := by rw [hpc]; rfl
          funext p
          cases p with
          | hand => exact hh.symm
          | cache => cases delivered <;> rfl
          | queue | dropped | acked | expired => rfl
    | run | composed => exact absurd hf id
  | backup bs =>
    cases bs with
    | resender r =>
      cases r with
      | send i ok delivered =>
        cases ok with
        | true => exact absurd hf id
        | false =>
          obtain ⟨b, hb, rfl⟩ := of_step_backup hs
          funext p
          cases p with
          | cache => exact congrArg AList.keys (Backup.dataCache_send hb)
          | acked => exact List.append_nil _
          | expired =>
            change s.expired ++ expiredBy s.sender.backup _ = s.expired
            simp [expiredBy, Backup.erases]
          | queue | dropped | hand => rfl
      | wake | size | copy | check | erase | copyAgain | done => exact absurd hf id
    | reader | tick => exact absurd hf id
  | caller | otherSchema => exact absurd hf id

/-- The runs in which the items are distinct and no fragment of a cut line meets a success ack. -/
abbrev Run (ackTimeoutMS bufferLimit : ℕ) (ids : IdMgr) : BufferedLogger → Prop :=
  Reach step (fun s l => s.Distinct l ∧ s.NoStale l) (init ackTimeoutMS bufferLimit ids)

/-- **Conservation of the items.** With caching on, in every state of a run each accepted item is in
exactly one place, and a `Send` that fails leaves every place as it is. -/
theorem items_conserved {ackTimeoutMS bufferLimit : ℕ} {ids : IdMgr} (ht : 0 < ackTimeoutMS)
    (h : Run ackTimeoutMS bufferLimit ids s) :
    s.Conserved ∧ ∀ l s', FailedSend l → s.step l = some s' → s'.place = s.place :=
  ⟨(h.invariant (inv_init ht bufferLimit ids) fun _ _ _ hi hok hs =>
    hi.step hok.1 hok.2 hs).conserved, fun _ _ hf hs => place_failedSend hf hs⟩

/-! ## Runs -/

instance (s : BufferedLogger) : ∀ l, Decidable (s.NoStale l)
  | .backup bs => inferInstanceAs (Decidable (s.sender.backup.NoStale bs))
  | .caller _ _ => inferInstanceAs (Decidable True)
  | .sender _ => inferInstanceAs (Decidable True)
  | .otherSchema _ => inferInstanceAs (Decidable True)

instance (s : BufferedLogger) : ∀ l, Decidable (s.Honest l)
  | .backup bs => inferInstanceAs (Decidable (s.sender.backup.Honest bs))
  | .caller _ _ => inferInstanceAs (Decidable True)
  | .sender _ => inferInstanceAs (Decidable True)
  | .otherSchema _ => inferInstanceAs (Decidable True)

/-- `Distinct`, as a test. -/
def distinct (s : BufferedLogger) : Label → Bool
  | .caller c .push =>
    match s.pc c with
    | .pushing item => item.tag ∉ s.accepted
    | _ => true
  | _ => true

theorem distinct_of {l : Label} (h : s.distinct l = true) : s.Distinct l := by
  cases l with
  | caller c a =>
    cases a with
    | push =>
      intro item hpc
      simpa [distinct, hpc] using h
    | addData | startWorkers | waitUntilAllSend | stopOnceEmpty | wait => trivial
  | sender | backup | otherSchema => trivial

/-- A call of `AddData`. -/
def adding (c : ℕ) (item : QueuedItem) : List Label :=
  [.addData (some item), .startWorkers, .push].map (.caller c)

/-- A turn of the sender on an item. -/
def sending (ok delivered : Bool) : List Label :=
  List.replicate 10 (.sender .run) ++ [.sender (.send ok delivered), .sender .run]

/-- An item whose first `Send` fails is sent again by the resender, and acked. -/
def resendingRun : List Label :=
  adding 0 (DataSender.textItem 1) ++ sending false false ++
    [.wake, .size, .copy, .check 0, .erase, .copyAgain, .send 0 true true].map
      (fun r => .backup (.resender r)) ++
    adding 1 (DataSender.textItem 2) ++ [.backup (.reader (.line (.ofTag 1)))]

/-- One item is acked, another one in the queue. -/
theorem items_conserved_resent :
    ∃ s : BufferedLogger, (s.acked = [lit "1"] ∧ s.accepted = [lit "1", lit "2"]) ∧
      s.Conserved ∧ ∀ l s', FailedSend l → s.step l = some s' → s'.place = s.place := by
  obtain ⟨s, hs, ht⟩ : ∃ s, Run 1000 0 .empty s ∧
      decide (s.acked = [lit "1"] ∧ s.accepted = [lit "1", lit "2"]) = true :=
    @Reach.exists_of_exec _ _ step _ _ (fun s l => s.distinct l && decide (s.NoStale l)) _
      resendingRun
      (fun _ _ h => ⟨distinct_of (Bool.and_eq_true_iff.mp h).1,
        of_decide_eq_true (Bool.and_eq_true_iff.mp h).2⟩) (by decide) (by decide)
  exact ⟨s, of_decide_eq_true ht, items_conserved (by decide) hs⟩

/-- The acks of 1 and 2 are sent, the connection is cut inside the first: the reader processes the
line `12`. -/
def staleRun : List Label :=
  [1, 2, 12].flatMap (fun n => adding 0 (DataSender.textItem n) ++ sending true true) ++
    [.backup (.reader (.cut (.ofTag 1) 1)), .backup (.reader (.line (.ofTag 2)))]

/-- With an honest server, the item 12 is in no place. -/
theorem item_in_no_place :
    ∃ s, Reach step (fun s l => s.Distinct l ∧ s.Honest l) (init 1000 0 .empty) s ∧
      (lit "12" ∈ s.accepted ∧ ∀ p, lit "12" ∉ s.place p) ∧ ¬ s.Conserved := by
  obtain ⟨s, hs, ht⟩ : ∃ s,
      Reach step (fun s l => s.Distinct l ∧ s.Honest l) (init 1000 0 .empty) s ∧
        decide (lit "12" ∈ s.accepted ∧ ∀ p, lit "12" ∉ s.place p) = true :=
    @Reach.exists_of_exec _ _ step _ _ (fun s l => s.distinct l && decide (s.Honest l)) _ staleRun
      (fun _ _ h => ⟨distinct_of (Bool.and_eq_true_iff.mp h).1,
        of_decide_eq_true (Bool.and_eq_true_iff.mp h).2⟩) (by decide) (by decide)
  have hd := of_decide_eq_true ht
  refine ⟨s, hs, hd, fun h => ?_⟩
  obtain ⟨p, hp, -⟩ := h.exactlyOne _ hd.1
  exact hd.2 p hp

end BufferedLogger

end Outmdsd
