import Outmdsd.Cache.ConcurrentQueue
import Outmdsd.Item.SchemaIdentity
import Outmdsd.Logger.Backup

/-!
# The sender loop

`DataSender::Run` pops an item, adds it to the cache, looks it up twice, composes its message and
sends it. Each access to the queue, the cache, the schema ids or the socket is one step; producers,
the reader, the resender and other users of the schema ids step in between.

An exception leaves the loop, since its handler stands outside. In every run in which the popped
items have something to send, no thread erases the tag that is being looked up, no other schema is
stored under a key that was just missed, and nothing is pushed behind the end of the queue, the
loop is left only when the sender or the queue was told to stop (`ends_only_when_told`).
-/

namespace Outmdsd

namespace DjsonLogItem

/-- The item with its message composed under a schema. -/
def composeWith (item : DjsonLogItem) (schema : ℕ × Bytes) : DjsonLogItem :=
  composeFullData { item with
    svlist := []
    schemaAndData := schemaText schema ++ composeDataValue item.svlist }

end DjsonLogItem

/-- An item of the queue: its constructor gave it a tag. -/
structure QueuedItem where
  logItem : LogItem
  tag_ne_nil : logItem.item.tag ≠ []

/-- Where the sender is in `Run`. -/
inductive SenderPc
  /-- Before the loop test. -/
  | loop
  | pop
  /-- Nothing was popped; before the assertion that the queue is empty. -/
  | drained
  /-- Before the first interrupt point. -/
  | popped (l : LogItem)
  | taken (l : LogItem)
  | touched (l : LogItem)
  /-- After `Add`. -/
  | added (tag : Bytes)
  /-- After the first `Get`. -/
  | got (tag : Bytes)
  /-- Before the second `Get`. -/
  | getAgain (tag : Bytes)
  /-- Before `GetData`. -/
  | data (l : LogItem)
  /-- In `ComposeSchema`, after `GetItem` has missed. -/
  | missed (l : LogItem)
  /-- Before the call of `Send`. -/
  | send (l : LogItem)
  /-- `Send` has counted the call, and calls the client. -/
  | sending (l : LogItem)
  /-- Before the last interrupt point. -/
  | sent
  /-- `Run` has returned, with the exception it caught. -/
  | left (e : Option Exn)
  /-- The assertion failed. -/
  | aborted
  deriving DecidableEq

/-- `Run` has not ended. -/
def SenderPc.running : SenderPc → Bool
  | .left _ => false
  | .aborted => false
  | _ => true

/-- A step of the sender. -/
inductive SenderStep
  | run
  /-- `GetData`, if the resender has composed the message of the item, under this schema. -/
  | composed (schema : ℕ × Bytes)
  /-- `Send`: whether it returns, and whether the server gets the message. -/
  | send (ok delivered : Bool)

/-- A sender with its queue, its cache and the schema ids. -/
structure DataSender where
  stopSender : Bool
  /-- `m_dataCache` is not NULL. -/
  caching : Bool
  incomingQueue : ConcurrentQueue QueuedItem
  ids : IdMgr
  backup : Backup
  numSend : ℕ
  numSuccess : ℕ
  pc : SenderPc

namespace DataSender

open DjsonLogItem

/-- A step of the system. -/
inductive Label
  | sender (a : SenderStep)
  | push (item : QueuedItem)
  | stopOnceEmpty
  | stop
  | backup (b : BackupStep)
  /-- `FindOrInsert` for an item with these fields, by another thread. -/
  | otherSchema (svlist : List ItemInfo)

/-- A new sender. -/
def init (caching : Bool) (ackTimeoutMS maxSize : ℕ) (ids : IdMgr) : DataSender :=
  ⟨false, caching, .new maxSize, ids, .init ackTimeoutMS, 0, 0, .loop⟩

def setPc (s : DataSender) (pc : SenderPc) : DataSender := { s with pc := pc }

/-- `InterruptPoint`, whose exception leaves the loop. -/
def interruptPoint (s : DataSender) (pc : SenderPc) : DataSender :=
  s.setPc (if s.stopSender then .left none else pc)

/-- `FindOrInsert` as `ComposeSchema` calls it. -/
def findOrInsertSchema (ids : IdMgr) (svlist : List ItemInfo) : Except Exn (ℕ × IdMgr) :=
  ids.findOrInsert (getSchemaCacheKey svlist) (composeSchemaArray svlist)

/-- The steps of `GetData` up to a miss in the schema ids. -/
def getDataStep (s : DataSender) (l : LogItem) : DataSender :=
  if l.item.djsonData = [] then
    if l.item.schemaAndData = [] then
      match s.ids.getItem (getSchemaCacheKey l.item.svlist) with
      | .error e => s.setPc (.left (some e))
      | .ok (some cachedInfo) => s.setPc (.send { l with item := l.item.composeWith cachedInfo })
      | .ok none => s.setPc (.missed l)
    else s.setPc (.send { l with item := l.item.composeFullData })
  else s.setPc (.send l)

/-- The step of `GetData` after a miss. -/
def insertStep (s : DataSender) (l : LogItem) : DataSender :=
  match findOrInsertSchema s.ids l.item.svlist with
  | .error e => s.setPc (.left (some e))
  | .ok (schemaId, ids) => { s with ids := ids }.setPc
      (.send { l with item := l.item.composeWith (schemaId, composeSchemaArray l.item.svlist) })

/-- A step of `Run`. -/
def senderStep (s : DataSender) (a : SenderStep) : Option DataSender :=
  match s.pc, a with
  | .loop, .run => some (s.setPc (if s.stopSender then .left none else .pop))
  | .pop, .run =>
    match s.incomingQueue.waitAndPop with
    | none => none
    | some (none, _) => some (s.setPc .drained)
    | some (some x, q) => some ({ s with incomingQueue := q }.setPc (.popped x.logItem))
  | .drained, .run =>
    some (s.setPc (if s.incomingQueue.dataQueue.isEmpty then .left none else .aborted))
  | .popped l, .run => some (s.interruptPoint (.taken l))
  | .taken l, .run =>
    some (s.setPc (if s.caching then .touched (l.touch s.backup.clock) else .data l))
  | .touched l, .run =>
    match s.backup.add l.item.tag l with
    | .error e => some (s.setPc (.left (some e)))
    | .ok b => some ({ s with backup := b }.setPc (.added l.item.tag))
  | .added tag, .run =>
    match ConcurrentMap.get s.backup.dataCache tag with
    | .error e => some (s.setPc (.left (some e)))
    | .ok none => some (s.setPc .sent)
    | .ok (some _) => some (s.setPc (.got tag))
  | .got tag, .run => some (s.interruptPoint (.getAgain tag))
  | .getAgain tag, .run =>
    match ConcurrentMap.get s.backup.dataCache tag with
    | .error e => some (s.setPc (.left (some e)))
    | .ok none => none
    | .ok (some l) => some (s.setPc (.data l))
  | .data l, .run => some (s.getDataStep l)
  | .data l, .composed schema =>
    some (s.setPc (.send { l with item := l.item.composeWith schema }))
  | .missed l, .run => some (s.insertStep l)
  | .send l, .run => some ({ s with numSend := s.numSend + 1 }.setPc (.sending l))
  | .sending l, .send ok delivered =>
    some { s with
      numSuccess := s.numSuccess + (if ok then 1 else 0)
      backup := (if delivered then s.backup.deliver l.item.tag else s.backup)
      pc := .sent }
  | .sent, .run => some (s.interruptPoint .loop)
  | _, _ => none

/-- A step of the system. -/
def step (s : DataSender) : Label → Option DataSender
  | .sender a => s.senderStep a
  | .push item => some { s with incomingQueue := s.incomingQueue.push item }
  | .stopOnceEmpty => some { s with incomingQueue := s.incomingQueue.stop }
  | .stop => some { s with stopSender := true }
  | .backup bs => (s.backup.step bs).map fun b => { s with backup := b }
  | .otherSchema svlist =>
    match findOrInsertSchema s.ids svlist with
    | .error _ => none
    | .ok (_, ids) => some { s with ids := ids }

/-- `GetData` of the sender, if no other step comes between its two accesses to the schema ids. -/
theorem getData_eq_steps (s : DataSender) (l : LogItem) :
    (match l.item.getData s.ids with
      | .ok (item, ids) => { s with ids := ids }.setPc (.send { l with item := item })
      | .error e => s.setPc (.left (some e))) =
    if (s.getDataStep l).pc = .missed l then (s.getDataStep l).insertStep l
    else s.getDataStep l := by
  by_cases hd : l.item.djsonData = []
  · by_cases hs : l.item.schemaAndData = []
    · have hg : l.item.getData s.ids = (composeSchema l.item.svlist s.ids).bind fun r =>
          .ok (l.item.composeWith r.1, r.2) := by
        simp only [getData, hd, hs, composeSchemaAndData, bind, Except.bind, pure, Except.pure,
          if_true]
        cases composeSchema l.item.svlist s.ids <;> rfl
      rw [hg]
      simp only [getDataStep, hd, hs, if_true, composeSchema, bind, Except.bind]
      obtain e | r := s.ids.getItem (getSchemaCacheKey l.item.svlist)
      · simp [setPc]
      · cases r with
        | some info => simp [setPc, pure, Except.pure]
        | none =>
          -- a miss: `FindOrInsert` is a step of its own
          simp only [setPc, insertStep, findOrInsertSchema, if_true]
          cases s.ids.findOrInsert (getSchemaCacheKey l.item.svlist)
            (composeSchemaArray l.item.svlist) <;> rfl
    · simp [getDataStep, getData, hd, hs, setPc, pure, Except.pure]
  · simp [getDataStep, getData, hd, setPc, pure, Except.pure]

variable {s s' : DataSender} {l : LogItem}

/-- The steps of `Run`, by what they do. -/
inductive RunMove (s : DataSender) : SenderStep → DataSender → Prop
  | loop (hpc : s.pc = .loop) :
    RunMove s .run (s.setPc (if s.stopSender then .left none else .pop))
  | popEnd {q : ConcurrentQueue QueuedItem} (hpc : s.pc = .pop)
      (hq : s.incomingQueue.waitAndPop = some (none, q)) : RunMove s .run (s.setPc .drained)
  | pop {x : QueuedItem} {q : ConcurrentQueue QueuedItem} (hpc : s.pc = .pop)
      (hq : s.incomingQueue.waitAndPop = some (some x, q)) :
    RunMove s .run ({ s with incomingQueue := q }.setPc (.popped x.logItem))
  | drained (hpc : s.pc = .drained) :
    RunMove s .run (s.setPc (if s.incomingQueue.dataQueue.isEmpty then .left none else .aborted))
  | popped {l : LogItem} (hpc : s.pc = .popped l) : RunMove s .run (s.interruptPoint (.taken l))
  | taken {l : LogItem} (hpc : s.pc = .taken l) :
    RunMove s .run (s.setPc (if s.caching then .touched (l.touch s.backup.clock) else .data l))
  | addThrew {l : LogItem} {e : Exn} (hpc : s.pc = .touched l) (ht : l.item.tag = []) :
    RunMove s .run (s.setPc (.left (some e)))
  | add {l : LogItem} (hpc : s.pc = .touched l) (ht : l.item.tag ≠ []) :
    RunMove s .run ({ s with backup := { s.backup with
      dataCache := s.backup.dataCache.insert l.item.tag (some l)
      ledger := s.backup.ledger.add l.item.tag } }.setPc (.added l.item.tag))
  | addedThrew {tag : Bytes} {e : Exn} (hpc : s.pc = .added tag)
      (hg : ConcurrentMap.get s.backup.dataCache tag = .error e) :
    RunMove s .run (s.setPc (.left (some e)))
  | addedGone {tag : Bytes} (hpc : s.pc = .added tag)
      (hg : ConcurrentMap.get s.backup.dataCache tag = .ok none) : RunMove s .run (s.setPc .sent)
  | added {tag : Bytes} {l : LogItem} (hpc : s.pc = .added tag)
      (hg : ConcurrentMap.get s.backup.dataCache tag = .ok (some l)) :
    RunMove s .run (s.setPc (.got tag))
  | got {tag : Bytes} (hpc : s.pc = .got tag) : RunMove s .run (s.interruptPoint (.getAgain tag))
  | getAgainThrew {tag : Bytes} {e : Exn} (hpc : s.pc = .getAgain tag)
      (hg : ConcurrentMap.get s.backup.dataCache tag = .error e) :
    RunMove s .run (s.setPc (.left (some e)))
  | getAgain {tag : Bytes} {l : LogItem} (hpc : s.pc = .getAgain tag)
      (hg : ConcurrentMap.get s.backup.dataCache tag = .ok (some l)) :
    RunMove s .run (s.setPc (.data l))
  | data {l : LogItem} (hpc : s.pc = .data l) : RunMove s .run (s.getDataStep l)
  | composed {l : LogItem} {schema : ℕ × Bytes} (hpc : s.pc = .data l) :
    RunMove s (.composed schema) (s.setPc (.send { l with item := l.item.composeWith schema }))
  | missed {l : LogItem} (hpc : s.pc = .missed l) : RunMove s .run (s.insertStep l)
  | send {l : LogItem} (hpc : s.pc = .send l) :
    RunMove s .run ({ s with numSend := s.numSend + 1 }.setPc (.sending l))
  | sending {l : LogItem} {ok delivered : Bool} (hpc : s.pc = .sending l) :
    RunMove s (.send ok delivered) { s with
      numSuccess := s.numSuccess + (if ok then 1 else 0)
      backup := (if delivered then s.backup.deliver l.item.tag else s.backup)
      pc := .sent }
  | sent (hpc : s.pc = .sent) : RunMove s .run (s.interruptPoint .loop)

theorem runMove {a : SenderStep} (hs : s.senderStep a = some s') : RunMove s a s' := by
  unfold senderStep at hs
  split at hs
  case h_2 hpc =>
    split at hs
    · cases hs
    · rename_i hq
      cases hs
      exact .popEnd hpc hq
    · rename_i hq
      cases hs
      exact .pop hpc hq
  case h_6 l hpc =>
    by_cases ht : l.item.tag = []
    · simp only [Backup.add, ConcurrentMap.add, if_pos ht] at hs
      cases hs
      exact .addThrew hpc ht
    · simp only [Backup.add, ConcurrentMap.add_eq_ok ht] at hs
      cases hs
      exact .add hpc ht
  case h_7 hpc =>
    split at hs
    · rename_i hg
      cases hs
      exact .addedThrew hpc hg
    · rename_i hg
      cases hs
      exact .addedGone hpc hg
    · rename_i hg
      cases hs
      exact .added hpc hg
  case h_9 hpc =>
    split at hs
    · rename_i hg
      cases hs
      exact .getAgainThrew hpc hg
    · cases hs
    · rename_i hg
      cases hs
      exact .getAgain hpc hg
  case h_10 hpc =>
    cases hs
    exact .data hpc
  case h_12 hpc =>
    cases hs
    exact .missed hpc
  case h_16 => cases hs
  all_goals
    rename_i hpc
    cases hs
    constructor
    exact hpc

theorem senderStep_send {a : SenderStep} (hpc : s.pc = .send l) (hs : s.senderStep a = some s') :
    s' = { s with numSend := s.numSend + 1 }.setPc (.sending l) := by
  cases a <;> simp_all [senderStep]

/-! ## What the sender relies on -/

/-- The tag the sender is about to look up. -/
def awaited : SenderPc → Option Bytes
  | .added tag => some tag
  | .got tag => some tag
  | .getAgain tag => some tag
  | _ => none

/-- The item whose schema key was missed. -/
def missedItem : SenderPc → Option LogItem
  | .missed l => some l
  | _ => none

/-- A step that does not make the sender fail: an item with nothing to send is not popped, the tag
that is looked up is not erased, no other schema is stored under a key that was missed, and nothing
is pushed behind the end of the queue. -/
def Harmless (s : DataSender) : Label → Prop
  | .sender .run => s.pc = .pop → ∀ x ∈ s.incomingQueue.dataQueue.head?, x.logItem.item.HasData
  | .push _ => s.pc ≠ .drained
  | .backup bs => ∀ tag ∈ awaited s.pc, tag ∉ s.backup.erases bs
  | .otherSchema svlist => ∀ l ∈ missedItem s.pc,
      getSchemaCacheKey svlist = getSchemaCacheKey l.item.svlist →
      getSchemaCacheKey svlist ∈ s.ids.cache ∨
        composeSchemaArray svlist = composeSchemaArray l.item.svlist
  | _ => True

instance (s : DataSender) : ∀ a, Decidable (s.Harmless a)
  | .sender .run => inferInstanceAs (Decidable (s.pc = .pop →
      ∀ x ∈ s.incomingQueue.dataQueue.head?, x.logItem.item.HasData))
  | .sender (.composed _) => inferInstanceAs (Decidable True)
  | .sender (.send _ _) => inferInstanceAs (Decidable True)
  | .push _ => inferInstanceAs (Decidable (s.pc ≠ .drained))
  | .stopOnceEmpty => inferInstanceAs (Decidable True)
  | .stop => inferInstanceAs (Decidable True)
  | .backup bs => inferInstanceAs (Decidable (∀ tag ∈ awaited s.pc, tag ∉ s.backup.erases bs))
  | .otherSchema svlist => inferInstanceAs (Decidable (∀ l ∈ missedItem s.pc,
      getSchemaCacheKey svlist = getSchemaCacheKey l.item.svlist →
      getSchemaCacheKey svlist ∈ s.ids.cache ∨
        composeSchemaArray svlist = composeSchemaArray l.item.svlist))

/-- The sender was told to stop, or the queue was and is empty. -/
def Told (s : DataSender) : Prop :=
  s.stopSender = true ∨ s.incomingQueue.stopOnceEmpty = true ∧ s.incomingQueue.dataQueue = []

/-- What the position of the sender says about the cache, the schema ids and the queue. -/
def PcOk (cache : DataCache) (ids : IdMgr) (q : ConcurrentQueue QueuedItem) : SenderPc → Prop
  | .drained => q.stopOnceEmpty = true ∧ q.dataQueue = []
  | .popped l | .taken l | .touched l => l.item.HasData ∧ l.item.tag ≠ []
  | .added tag | .got tag | .getAgain tag =>
    tag ≠ [] ∧ ∃ l, cache.lookup tag = some (some l) ∧ l.item.HasData
  | .data l => l.item.HasData
  | .missed l => l.item.svlist ≠ [] ∧ ∀ info,
      ids.cache.lookup (getSchemaCacheKey l.item.svlist) = some info →
        info.2 = composeSchemaArray l.item.svlist
  | _ => True

def Inv (s : DataSender) : Prop := PcOk s.backup.dataCache s.ids s.incomingQueue s.pc

/-- A good step of the sender: the sender is where it may be, and if `Run` has ended it was told
to. -/
def Good (s s' : DataSender) : Prop := s'.Inv ∧ (s'.pc.running = false → s.Told)

theorem good_interruptPoint {pc : SenderPc} (hr : pc.running = true)
    (h : PcOk s.backup.dataCache s.ids s.incomingQueue pc) : s.Good (s.interruptPoint pc) := by
  unfold interruptPoint Good Inv
  by_cases hs : s.stopSender = true
  · rw [if_pos hs]
    exact ⟨trivial, fun _ => .inl hs⟩
  · rw [if_neg hs]
    exact ⟨h, fun he => absurd (he.symm.trans hr) (by decide)⟩

/-- An item with something to send asks `GetItem` for a key that is not empty. It is composed, under
its tag, or its key is missed. -/
theorem getDataStep_eq (h : l.item.HasData) :
    (∃ item : DjsonLogItem, item.tag = l.item.tag ∧
        s.getDataStep l = s.setPc (.send { l with item := item })) ∨
      s.getDataStep l = s.setPc (.missed l) ∧ l.item.svlist ≠ [] ∧
        s.ids.cache.lookup (getSchemaCacheKey l.item.svlist) = none := by
  unfold getDataStep
  by_cases hd : l.item.djsonData = []
  · by_cases hs : l.item.schemaAndData = []
    · have hf : l.item.svlist ≠ [] := by
        rcases h with h | h | h
        · exact absurd hd h
        · exact absurd hs h
        · exact h
      rw [if_pos hd, if_pos hs, IdMgr.getItem, if_neg (getSchemaCacheKey_ne_nil hf)]
      obtain hl | ⟨info, hl⟩ :=
        Option.eq_none_or_eq_some (s.ids.cache.lookup (getSchemaCacheKey l.item.svlist))
      · simp only [hl]
        exact .inr ⟨trivial, hf, trivial⟩
      · simp only [hl]
        exact .inl ⟨l.item.composeWith info, rfl, rfl⟩
    · rw [if_pos hd, if_neg hs]
      exact .inl ⟨l.item.composeFullData, rfl, rfl⟩
  · rw [if_neg hd]
    exact .inl ⟨l.item, rfl, rfl⟩

theorem good_getDataStep (h : l.item.HasData) : s.Good (s.getDataStep l) := by
  rcases @getDataStep_eq s l h with ⟨item, -, he⟩ | ⟨he, hf, hl⟩
  · rw [he]
    exact ⟨trivial, by simp [setPc, SenderPc.running]⟩
  · rw [he]
    exact ⟨⟨hf, fun info hi => by
      rw [show (s.setPc (.missed l)).ids = s.ids from rfl, hl] at hi
      cases hi⟩, by simp [setPc, SenderPc.running]⟩

/-- `FindOrInsert` meets no other schema. -/
theorem insertStep_eq (hf : l.item.svlist ≠ []) (hi : ∀ info,
    s.ids.cache.lookup (getSchemaCacheKey l.item.svlist) = some info →
      info.2 = composeSchemaArray l.item.svlist) :
    ∃ (ids : IdMgr) (item : DjsonLogItem), item.tag = l.item.tag ∧
      s.insertStep l = { s with ids := ids }.setPc (.send { l with item := item }) := by
  have hd : composeSchemaArray l.item.svlist ≠ [] := by
    rw [composeSchemaArray_eq]
    exact schemaArrayOf_ne_nil _
  unfold insertStep findOrInsertSchema IdMgr.findOrInsert
  rw [if_neg (getSchemaCacheKey_ne_nil hf), if_neg hd]
  obtain hl | ⟨info, hl⟩ :=
    Option.eq_none_or_eq_some (s.ids.cache.lookup (getSchemaCacheKey l.item.svlist))
  · simp only [hl]
    exact ⟨_, l.item.composeWith _, rfl, rfl⟩
  · have he : ¬ composeSchemaArray l.item.svlist ≠ info.2 := fun hne => hne (hi info hl).symm
    simp only [hl, if_neg he]
    exact ⟨_, l.item.composeWith _, rfl, rfl⟩

theorem good_insertStep (hf : l.item.svlist ≠ []) (hi : ∀ info,
    s.ids.cache.lookup (getSchemaCacheKey l.item.svlist) = some info →
      info.2 = composeSchemaArray l.item.svlist) : s.Good (s.insertStep l) := by
  obtain ⟨ids, item, -, he⟩ := insertStep_eq hf hi
  rw [he]
  exact ⟨trivial, by simp [setPc, SenderPc.running]⟩

/-- A lookup of the awaited tag finds its item. -/
theorem get_of_pcOk {cache : DataCache} {tag : Bytes}
    (h : tag ≠ [] ∧ ∃ l, cache.lookup tag = some (some l) ∧ l.item.HasData) :
    ∃ l, ConcurrentMap.get cache tag = .ok (some l) ∧ l.item.HasData := by
  obtain ⟨hne, l, hl, hd⟩ := h
  exact ⟨l, (ConcurrentMap.get_eq_ok_iff hne).mpr hl, hd⟩

/-- **A step of the sender.** -/
theorem good_senderStep {a : SenderStep} (h : s.Inv) (hh : s.Harmless (.sender a))
    (hs : s.senderStep a = some s') : s.Good s' := by
  unfold Inv at h
  cases runMove hs with
  | loop => exact @good_interruptPoint s .pop rfl trivial
  | popEnd hpc hq =>
    obtain ⟨he, hstop, -⟩ := ConcurrentQueue.waitAndPop_eq_none hq
    exact ⟨⟨hstop, he⟩, by simp [setPc, SenderPc.running]⟩
  | @pop x q hpc hq =>
    have hx := ConcurrentQueue.waitAndPop_eq_some hq
    exact ⟨⟨hh hpc x (by rw [hx]; rfl), x.tag_ne_nil⟩, by simp [setPc, SenderPc.running]⟩
  | drained hpc =>
    -- the assertion
    rw [hpc] at h
    refine ⟨?_, fun _ => .inr h⟩
    unfold Inv
    simp only [setPc, h.2]
    trivial
  | popped hpc =>
    rw [hpc] at h
    exact good_interruptPoint rfl h
  | taken hpc =>
    rw [hpc] at h
    unfold Good Inv
    cases s.caching
    · exact ⟨h.1, by simp [setPc, SenderPc.running]⟩
    · exact ⟨h, by simp [setPc, SenderPc.running]⟩
  | addThrew hpc ht =>
    rw [hpc] at h
    exact absurd ht h.2
  | @add l hpc ht =>
    rw [hpc] at h
    exact ⟨⟨ht, l, AList.lookup_insert _, h.1⟩, by simp [setPc, SenderPc.running]⟩
  | addedThrew hpc hg | addedGone hpc hg | getAgainThrew hpc hg =>
    -- the awaited tag is in the cache
    rw [hpc] at h
    obtain ⟨l, hg', -⟩ := get_of_pcOk h
    cases hg.symm.trans hg'
  | added hpc =>
    rw [hpc] at h
    exact ⟨h, by simp [setPc, SenderPc.running]⟩
  | got hpc =>
    rw [hpc] at h
    exact good_interruptPoint rfl h
  | getAgain hpc hg =>
    rw [hpc] at h
    obtain ⟨l, hg', hd⟩ := get_of_pcOk h
    cases hg.symm.trans hg'
    exact ⟨hd, by simp [setPc, SenderPc.running]⟩
  | data hpc =>
    rw [hpc] at h
    exact good_getDataStep h
  | composed => exact ⟨trivial, by simp [setPc, SenderPc.running]⟩
  | missed hpc =>
    rw [hpc] at h
    exact good_insertStep h.1 h.2
  | send | sending => exact ⟨trivial, by simp [setPc, SenderPc.running]⟩
  | sent => exact good_interruptPoint rfl trivial

/-- **A step of the system.** -/
theorem Inv.step {a : Label} (h : s.Inv) (hh : s.Harmless a) (hs : s.step a = some s') :
    s'.Inv := by
  cases a with
  | sender a => exact (good_senderStep h hh hs).1
  | push item =>
    cases hs
    unfold Inv at h ⊢
    cases hpc : s.pc with
    | drained => exact absurd hpc hh
    | _ =>
      rw [hpc] at h
      exact h
  | stopOnceEmpty =>
    cases hs
    unfold Inv at h ⊢
    cases hpc : s.pc with
    | drained =>
      rw [hpc] at h
      exact ⟨rfl, h.2⟩
    | _ =>
      rw [hpc] at h
      exact h
  | stop =>
    cases hs
    exact h
  | backup bs =>
    obtain ⟨b, hb, rfl⟩ := Option.map_eq_some_iff.mp hs
    have hl : ∀ tag ∈ awaited s.pc, b.dataCache.lookup tag = s.backup.dataCache.lookup tag :=
      fun tag ht => by rw [Backup.lookup_step hb, if_neg (hh tag ht)]
    unfold Inv at h ⊢
    cases hpc : s.pc with
    | added tag | got tag | getAgain tag =>
      rw [hpc] at h hl
      obtain ⟨hne, l, hg, hd⟩ := h
      exact ⟨hne, l, (hl tag rfl).trans hg, hd⟩
    | _ =>
      rw [hpc] at h
      exact h
  | otherSchema svlist =>
    simp only [DataSender.step] at hs
    rcases hf : findOrInsertSchema s.ids svlist with e | ⟨id, ids⟩
    · simp [hf] at hs
    · simp only [hf] at hs
      cases hs
      unfold Inv at h ⊢
      cases hpc : s.pc with
      | missed l =>
        rw [hpc] at h
        refine ⟨h.1, fun info hi => ?_⟩
        rcases IdMgr.lookup_findOrInsert hf (getSchemaCacheKey l.item.svlist) with he | ⟨hk, hn, he⟩
        · exact h.2 info (he.symm.trans hi)
        · rcases hh l (by rw [hpc]; rfl) hk.symm with hm | ha
          · exact absurd hm hn
          · rw [Option.some.inj (hi.symm.trans he)]
            exact ha
      | _ =>
        rw [hpc] at h
        exact h

/-- The runs in which every step is harmless. -/
abbrev Run (s₀ : DataSender) : DataSender → Prop := Reach step Harmless s₀

theorem inv_of_run {caching : Bool} {ackTimeoutMS maxSize : ℕ} {ids : IdMgr}
    (h : Run (init caching ackTimeoutMS maxSize ids) s) : s.Inv :=
  h.invariant (I := Inv) trivial fun _ _ _ hi hh hs => hi.step hh hs

/-- **The loop is left only when told to.** In a run of harmless steps, every step with which `Run`
ends is taken after `Stop`, or after `stop_once_empty` with the queue empty. -/
theorem ends_only_when_told {caching : Bool} {ackTimeoutMS maxSize : ℕ} {ids : IdMgr}
    (h : Run (init caching ackTimeoutMS maxSize ids) s) :
    ∀ a s', s.Harmless a → s.step a = some s' → s.pc.running = true → s'.pc.running = false →
      s.Told := by
  intro a s' hh hs hr he
  have hpc : ∀ {t : DataSender}, t.pc = s.pc → t.pc.running ≠ false := fun ht hf => by
    rw [ht, hr] at hf
    cases hf
  cases a with
  | sender a => exact (good_senderStep (inv_of_run h) hh hs).2 he
  | push item | stopOnceEmpty | stop =>
    cases hs
    exact absurd he (hpc rfl)
  | backup bs =>
    obtain ⟨b, -, rfl⟩ := Option.map_eq_some_iff.mp hs
    exact absurd he (hpc rfl)
  | otherSchema svlist =>
    simp only [DataSender.step] at hs
    split at hs
    · cases hs
    · cases hs
      exact absurd he (hpc rfl)

/-- The item with tag `n` and a text of schema and data. -/
def textItem (n : ℕ) : QueuedItem := ⟨⟨ofSchemaAndData n (lit "s") (lit "d"), 0⟩, toDec_ne_nil n⟩

/-- The item with tag `n` and no fields. -/
def emptyItem (n : ℕ) : QueuedItem := ⟨⟨ofSource n (lit "s"), 0⟩, toDec_ne_nil n⟩

/-- One item is pushed and sent, then the queue is found empty. -/
def drainingRun : List Label :=
  [.push (textItem 1), .stopOnceEmpty] ++ List.replicate 10 (.sender .run) ++
    [.sender (.send true true)] ++ List.replicate 3 (.sender .run)

/-- The last step of the sender after one item was sent. -/
theorem ends_only_when_told_drained :
    ∃ s : DataSender, s.pc = .drained ∧ s.numSuccess = 1 ∧
      ∀ a s', s.Harmless a → s.step a = some s' → s.pc.running = true → s'.pc.running = false →
        s.Told := by
  obtain ⟨s, hs, ht⟩ : ∃ s, Run (init true 1000 0 .empty) s ∧
      decide (s.pc = .drained ∧ s.numSuccess = 1) = true :=
    @Reach.exists_of_exec _ _ step _ _ (fun s a => decide (s.Harmless a)) _ drainingRun
      (fun _ _ h => of_decide_eq_true h) (by decide) (by decide)
  exact ⟨s, (of_decide_eq_true ht).1, (of_decide_eq_true ht).2, ends_only_when_told hs⟩

/-- The server acks only tags of messages it has received. -/
def Honest (s : DataSender) : Label → Prop
  | .backup bs => s.backup.Honest bs
  | _ => True

instance (s : DataSender) : ∀ a, Decidable (s.Honest a)
  | .backup bs => inferInstanceAs (Decidable (s.backup.Honest bs))
  | .sender _ => inferInstanceAs (Decidable True)
  | .push _ => inferInstanceAs (Decidable True)
  | .stopOnceEmpty => inferInstanceAs (Decidable True)
  | .stop => inferInstanceAs (Decidable True)
  | .otherSchema _ => inferInstanceAs (Decidable True)

/-- The sender has added its item; the resender sends it, and its ack erases it. -/
def resentRun : List Label :=
  .push (textItem 1) :: List.replicate 5 (.sender .run) ++
    [.wake, .size, .copy, .check 0, .erase, .copyAgain, .send 0 true true].map
      (fun r => .backup (.resender r)) ++
    [.backup (.reader (.line (.ofTag 1)))]

/-- With an honest server and nobody told to stop, `Run` ends because of an item without fields,
and because of an item that was acked before its first lookup. -/
theorem ends_untold :
    (∃ s s', Reach step Honest (init true 1000 0 .empty) s ∧ s.step (.sender .run) = some s' ∧
      s.pc.running = true ∧ ¬ s.Told ∧ s'.pc = .left (some (.invalidArgument
        (lit "GetItem(): invalid empty string for 'key' parameter.")))) ∧
    ∃ s s', Reach step Honest (init true 1000 0 .empty) s ∧ s.step (.sender .run) = some s' ∧
      s.pc.running = true ∧ ¬ s.Told ∧ s'.pc = .left (some (.outOfRange
        (lit "ConcurrentMap::Get(): key not found 1"))) := by
  have key : ∀ (ls : List Label) (e : Exn), okRun step (fun s a => decide (s.Honest a))
        (init true 1000 0 .empty) ls = true →
      (exec step (init true 1000 0 .empty) ls).map (fun s => decide (s.pc.running = true ∧
        s.stopSender = false ∧ s.incomingQueue.stopOnceEmpty = false ∧
        (s.step (.sender .run)).map DataSender.pc = some (.left (some e)))) = some true →
      ∃ s s', Reach step Honest (init true 1000 0 .empty) s ∧ s.step (.sender .run) = some s' ∧
        s.pc.running = true ∧ ¬ s.Told ∧ s'.pc = .left (some e) := by
    intro ls e ho he
    obtain ⟨s, hs, ht⟩ := @Reach.exists_of_exec _ _ step Honest _ _ _ _
      (fun s a h => of_decide_eq_true h) ho he
    obtain ⟨hr, hstop, hq, hl⟩ := of_decide_eq_true ht
    obtain ⟨s', hs', hpc⟩ := Option.map_eq_some_iff.mp hl
    refine ⟨s, s', hs, hs', hr, ?_, hpc⟩
    rintro (h | ⟨h, -⟩)
    · exact absurd (hstop.symm.trans h) (by decide)
    · exact absurd (hq.symm.trans h) (by decide)
  refine ⟨key (.push (emptyItem 1) :: List.replicate 8 (.sender .run)) _ ?_ ?_,
    key resentRun _ ?_ ?_⟩ <;> decide

end DataSender

end Outmdsd
