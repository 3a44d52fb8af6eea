import Outmdsd.Item.Receiving
import Outmdsd.Logger.Lifetime

/-!
# From `AddData` to the server

The items of `AddData` pass the queue, the sender, the cache and the resender; two threads hand
their messages to the client, which sends them in pieces, on one connection after another. As long
as the client stays in step (its calls are orderly, and no message holds a NUL), what the server
takes from any connection are payloads of items that were given to `AddData`, and what is left over
is a proper prefix of a message (`received_payloads`).
-/

namespace Outmdsd

/-- A payload of an item: around its text of schema and data, or around one composed from its fields
under some schema. -/
def DjsonLogItem.HasPayload (x : DjsonLogItem) (p : Bytes) : Prop :=
  ∃ text, p = payload { x with schemaAndData := text } ∧
    (text = x.schemaAndData ∨ ∃ schema, text = schemaText schema ++ composeDataValue x.svlist)

/-- The message of an item in `Q`. -/
def IsMessage (Q : DjsonLogItem → Prop) (m : Bytes) : Prop :=
  ∃ x p, Q x ∧ x.HasPayload p ∧ m = frame p

/-- A new item in `Q`, whose message is not composed yet. -/
def NewIn (Q : DjsonLogItem → Prop) (item : DjsonLogItem) : Prop := Q item ∧ item.djsonData = []

variable {Q : DjsonLogItem → Prop}

/-- Composing gives the message of the item. -/
theorem isMessage_composeFullData {x item : DjsonLogItem} (hx : Q x) (hs : item.source = x.source)
    (ht : item.tag = x.tag) (htext : item.schemaAndData = x.schemaAndData ∨
      ∃ schema, item.schemaAndData =
        DjsonLogItem.schemaText schema ++ DjsonLogItem.composeDataValue x.svlist) :
    IsMessage Q item.composeFullData.djsonData := by
  refine ⟨x, item.payload, hx, ⟨item.schemaAndData, ?_, htext⟩, item.djsonData_composeFullData⟩
  simp only [DjsonLogItem.payload, hs, ht]

theorem NewIn.composeFullData {item : DjsonLogItem} (h : NewIn Q item) :
    IsMessage Q item.composeFullData.djsonData :=
  isMessage_composeFullData h.1 rfl rfl (.inl rfl)

theorem NewIn.composeWith {item : DjsonLogItem} (h : NewIn Q item) (schema : ℕ × Bytes) :
    IsMessage Q (item.composeWith schema).djsonData :=
  isMessage_composeFullData (x := item) h.1 rfl rfl (.inr ⟨schema, rfl⟩)

/-- The message that the resender sends for an item. -/
theorem NewIn.message {l : LogItem} (h : NewIn Q l.item) (schema : ℕ × Bytes) :
    IsMessage Q (l.message schema) := by
  unfold LogItem.message
  rw [if_neg (not_not.mpr h.2)]
  split
  · exact h.composeFullData
  · exact h.composeWith schema

namespace BufferedLogger

/-- The item in the hand of the sender. -/
def heldItem : SenderPc → Option LogItem
  | .popped l | .taken l | .touched l | .data l | .missed l => some l
  | _ => none

/-- Every item in the logger is one that `AddData` got. -/
structure Origin (Q : DjsonLogItem → Prop) (s : BufferedLogger) : Prop where
  callers : ∀ c item, s.pc c = .adding item ∨ s.pc c = .pushing item → NewIn Q item.logItem.item
  queue : ∀ x ∈ s.sender.incomingQueue.dataQueue, NewIn Q x.logItem.item
  held : ∀ l, heldItem s.sender.pc = some l → NewIn Q l.item
  send : ∀ l, s.sender.pc = .send l → IsMessage Q l.item.djsonData
  cache : ∀ k l, s.sender.backup.dataCache.lookup k = some (some l) → NewIn Q l.item
  copied : ∀ cacheCopy, s.sender.backup.resender = .send cacheCopy →
    ∀ k l, (k, some l) ∈ cacheCopy → NewIn Q l.item

theorem origin_init (Q : DjsonLogItem → Prop) (ackTimeoutMS bufferLimit : ℕ) (ids : IdMgr) :
    (init ackTimeoutMS bufferLimit ids).Origin Q where
  callers c item h := by simp [init] at h
  queue x hx := by simp [init, DataSender.init, ConcurrentQueue.new] at hx
  held := nofun
  send := nofun
  cache k l h := by simp [init, DataSender.init, Backup.init] at h
  copied := nofun

/-- `AddData` gets new items in `Q`. -/
def AddsNew (Q : DjsonLogItem → Prop) : Label → Prop
  | .caller _ (.addData (some item)) => NewIn Q item.logItem.item
  | _ => True

variable {s s' : BufferedLogger} {d d' : DataSender}

/-- A caller is at another place. -/
theorem Origin.setPc (h : s.Origin Q) (started : Bool) (c : ℕ) {pc : CallerPc}
    (hpc : ∀ item, pc = .adding item ∨ pc = .pushing item → NewIn Q item.logItem.item) :
    Origin Q ({ s with started := started }.setPc c pc) := by
  refine ⟨fun c' item hc => ?_, h.queue, h.held, h.send, h.cache, h.copied⟩
  by_cases he : c' = c
  · subst he
    refine hpc item ?_
    simpa [BufferedLogger.setPc] using hc
  · refine h.callers c' item ?_
    simpa [BufferedLogger.setPc, he] using hc

theorem mem_of_push {q : ConcurrentQueue QueuedItem} {x y : QueuedItem}
    (h : y ∈ (q.push x).dataQueue) : y ∈ q.dataQueue ∨ y = x := by
  have hm : y ∈ q.dataQueue ++ [x] := by
    rw [← q.dropped_append_push x]
    exact List.mem_append_right _ h
  simpa using hm

theorem Origin.caller (h : s.Origin Q) {c : ℕ} {a : CallerStep}
    (ha : AddsNew Q (.caller c a)) (hs : s.callerStep c a = some s') : s'.Origin Q := by
  unfold BufferedLogger.callerStep at hs
  split at hs
  case h_2 item hpc =>
    cases hs
    refine h.setPc s.started c fun item' hi => ?_
    obtain rfl : item = item' := by simpa using hi
    exact ha
  case h_3 item hpc =>
    cases hs
    refine h.setPc true c fun item' hi => ?_
    obtain rfl : item = item' := by simpa using hi
    exact h.callers c item (.inl hpc)
  case h_4 item hpc =>
    cases hs
    have hpush : (s.push item).Origin Q := by
      refine ⟨h.callers, fun y hy => ?_, h.held, h.send, h.cache, h.copied⟩
      rcases mem_of_push hy with hy | rfl
      · exact h.queue y hy
      · exact h.callers c y (.inr hpc)
    exact hpush.setPc _ c (by simp)
  case h_6 =>
    cases hs
    exact Origin.setPc (s := { s with sender := { s.sender with
      incomingQueue := s.sender.incomingQueue.stop } })
      ⟨h.callers, h.queue, h.held, h.send, h.cache, h.copied⟩ s.started c (by simp)
  case h_8 => cases hs
  all_goals
    cases hs
    exact h.setPc s.started c (by simp)

/-- The sender is at another place. -/
theorem Origin.setSender (h : s.Origin Q) (ids : IdMgr) (handed : List Bytes) {pc : SenderPc}
    (hheld : ∀ l, heldItem pc = some l → NewIn Q l.item)
    (hsend : ∀ l, pc = .send l → IsMessage Q l.item.djsonData) :
    Origin Q { s with
      sender := { s.sender with ids := ids }.setPc pc, handed := handed } :=
  ⟨h.callers, h.queue, hheld, hsend, h.cache, h.copied⟩

theorem Origin.sender (h : s.Origin Q) {a : SenderStep} (hs : s.sender.senderStep a = some d') :
    Origin Q { s with sender := d', handed := s.handed ++ handedBy s.sender a } := by
  have hkeep : ∀ pc, (∀ l, heldItem pc = some l → NewIn Q l.item) → (∀ l, pc ≠ .send l) →
      Origin Q { s with
        sender := s.sender.setPc pc, handed := s.handed ++ handedBy s.sender a } := fun pc hp hn =>
    h.setSender s.sender.ids _ hp fun l hl => absurd hl (hn l)
  have hpoint : ∀ pc, (∀ l, heldItem pc = some l → NewIn Q l.item) → (∀ l, pc ≠ .send l) →
      Origin Q { s with
        sender := s.sender.interruptPoint pc
        handed := s.handed ++ handedBy s.sender a } := fun pc hp hn => by
    unfold DataSender.interruptPoint
    split
    · exact hkeep (.left none) nofun nofun
    · exact hkeep pc hp hn
  have hsend : ∀ l : LogItem, IsMessage Q l.item.djsonData → ∀ ids : IdMgr, Origin Q { s with
      sender := { s.sender with ids := ids }.setPc (.send l)
      handed := s.handed ++ handedBy s.sender a } := fun l hm ids =>
    h.setSender ids _ nofun fun l' hl => by
      obtain rfl := SenderPc.send.inj hl
      exact hm
  have hheld : ∀ {l : LogItem}, heldItem s.sender.pc = some l →
      ∀ l', some l = some l' → NewIn Q l'.item := fun hl l' he => by
    obtain rfl := Option.some.inj he
    exact h.held _ hl
  cases DataSender.runMove hs with
  | loop hpc | drained hpc => split <;> exact hkeep _ nofun nofun
  | popEnd hpc | addThrew hpc | addedThrew hpc | addedGone hpc | added hpc | getAgainThrew hpc =>
    exact hkeep _ nofun nofun
  | @pop x q hpc hq =>
    have hpop := ConcurrentQueue.waitAndPop_eq_some hq
    refine ⟨h.callers, fun y hy => h.queue y ?_, fun l hl => ?_, nofun, h.cache, h.copied⟩
    · rw [hpop]
      exact List.mem_cons_of_mem _ hy
    · obtain rfl := Option.some.inj hl
      refine h.queue x ?_
      rw [hpop]
      exact List.mem_cons_self
  | popped hpc => exact hpoint _ (hheld (by rw [hpc]; rfl)) nofun
  | @taken l hpc =>
    have hl : NewIn Q l.item := h.held l (by rw [hpc]; rfl)
    split
    · exact hkeep _ (fun l' he => Option.some.inj he ▸ hl) nofun
    · exact hkeep _ (fun l' he => Option.some.inj he ▸ hl) nofun
  | @add l hpc =>
    refine ⟨h.callers, h.queue, nofun, nofun, fun k l' hk => ?_, h.copied⟩
    rcases lookup_insert_cases hk with ⟨-, he⟩ | ⟨-, hk⟩
    · obtain rfl := Option.some.inj he
      exact h.held l' (by rw [hpc]; rfl)
    · exact h.cache k l' hk
  | got hpc | sent hpc => exact hpoint _ nofun nofun
  | @getAgain tag l hpc hg =>
    have hl := h.cache tag l (ConcurrentMap.lookup_of_get hg)
    exact hkeep _ (fun l' he => Option.some.inj he ▸ hl) nofun
  | @data l hpc =>
    have hl : NewIn Q l.item := h.held l (by rw [hpc]; rfl)
    unfold DataSender.getDataStep
    split
    · split
      · split
        · exact hkeep _ nofun nofun
        · exact hsend _ (hl.composeWith _) s.sender.ids
        · exact hkeep _ (hheld (by rw [hpc]; rfl)) nofun
      · exact hsend _ hl.composeFullData s.sender.ids
    · exact absurd hl.2 ‹_›
  | @composed l schema hpc =>
    have hl : NewIn Q l.item := h.held l (by rw [hpc]; rfl)
    exact hsend _ (hl.composeWith schema) s.sender.ids
  | @missed l hpc =>
    have hl : NewIn Q l.item := h.held l (by rw [hpc]; rfl)
    unfold DataSender.insertStep
    split
    · exact hkeep _ nofun nofun
    · exact hsend _ (hl.composeWith _) _
  | send hpc => exact ⟨h.callers, h.queue, nofun, nofun, h.cache, h.copied⟩
  | @sending l ok delivered hpc =>
    refine ⟨h.callers, h.queue, nofun, nofun, ?_, ?_⟩
    · cases delivered <;> exact h.cache
    · cases delivered <;> exact h.copied

theorem Origin.backup (h : s.Origin Q) {bs : BackupStep} {b' : Backup}
    (hb : s.sender.backup.step bs = some b') (acked expired : List Bytes) :
    Origin Q { s with
      sender := { s.sender with backup := b' }, acked := acked, expired := expired } := by
  refine ⟨h.callers, h.queue, h.held, h.send, fun k l hk => ?_, fun cacheCopy hr k l hm => ?_⟩
  · have hk : b'.dataCache.lookup k = some (some l) := hk
    rw [Backup.lookup_step hb] at hk
    split at hk
    · cases hk
    · exact h.cache k l hk
  · have hr : b'.resender = .send cacheCopy := hr
    cases bs with
    | reader e | tick ns =>
      rw [Lifetime.resender_backup hb nofun] at hr
      exact h.copied cacheCopy hr k l hm
    | resender r =>
      cases Backup.resenderMove hb with
      | size =>
        dsimp only at hr
        split at hr <;> cases hr
      | copyAgain =>
        obtain rfl := ResenderPc.send.inj hr
        exact h.cache k l (Backup.lookup_of_mem_entries hm)
      | sendNull hpc | sent hpc =>
        obtain rfl := ResenderPc.send.inj hr
        exact h.copied _ hpc k l (List.mem_of_mem_eraseIdx hm)
      | wake | copy | checkNull | check | erase | threw | done => cases hr

theorem Origin.step (h : s.Origin Q) {l : Label} (ha : AddsNew Q l) (hs : s.step l = some s') :
    s'.Origin Q := by
  cases l with
  | caller c a => exact h.caller ha hs
  | sender a =>
    obtain ⟨d, hd, rfl⟩ := of_step_sender hs
    exact h.sender hd
  | backup bs =>
    obtain ⟨b, hb, rfl⟩ := of_step_backup hs
    exact h.backup hb _ _
  | otherSchema svlist =>
    obtain ⟨ids, -, rfl⟩ := of_step_otherSchema hs
    exact ⟨h.callers, h.queue, h.held, h.send, h.cache, h.copied⟩

end BufferedLogger

namespace SocketClient

/-- Only a call that begins is new. -/
theorem calls_step {s s' : SocketClient} {l : Label} (hb : ∀ τ, l.begins τ = false)
    (hs : s.step l = some s') :
    s'.calls = s.calls := by
  cases l with
  | hangUp k =>
    cases hs
    rfl
  | thread τ a =>
    simp only [SocketClient.step, threadStep] at hs
    split at hs
    · split at hs
      · exact absurd (hb τ) (by simp [Label.begins])
      · cases hs
    · exact (sameCalls_connectStep ‹_› hs).calls
    · cases sendMove hs with
      | pollInvalid | notReady | closed | error => exact (sameCalls_throwIn s τ _).calls
      | _ => rfl
    · exact (sameCalls_closeStep hs).calls
    · exact (sameCalls_readStep hs).calls
    · exact (sameCalls_stopStep hs).calls

/-- A call adds its message, if it is one of `Send`. -/
theorem mem_calls_begin {s : SocketClient} {τ : ℕ} {call : ApiCall} {m : Bytes}
    (hm : m ∈ (s.begin τ call).calls) : m ∈ s.calls ∨ call = .send m := by
  cases call with
  | send msg =>
    rw [SocketClient.begin] at hm
    split at hm
    · exact .inl hm
    · rcases List.mem_append.mp hm with hm | hm
      · exact .inl hm
      · exact .inr (by rw [List.mem_singleton.mp hm])
  | connect | close | read | stop => exact .inl hm

end SocketClient

namespace Lifetime

open BufferedLogger

variable {s s' : Lifetime} {l : Label}

/-- The client stays in step: no connection is made while a message is sent in part, and no call
enters the loop of `SendData` on a connection that another one left in mid-message. -/
def Orderly (s : Lifetime) : Label → Prop
  | .client τ a => s.client.Orderly (.thread τ a)
  | _ => True

/-- A message that is handed to the client holds no NUL. -/
def NulFree (s : Lifetime) : Label → Prop
  | .sender .run => ∀ l, s.logger.sender.pc = .send l → (0 : Byte) ∉ l.item.djsonData
  | .resender (.call i schema) => ∀ cacheCopy k l,
      s.logger.sender.backup.resender = .send cacheCopy → cacheCopy[i]? = some (k, some l) →
        (0 : Byte) ∉ l.message schema
  | _ => True

/-- `AddData` gets new items in `Q`. -/
def AddsNew (Q : DjsonLogItem → Prop) : Label → Prop
  | .caller c a => BufferedLogger.AddsNew Q (.caller c a)
  | _ => True

/-- The client is as its threads need it, and every item and message is that of an item in `Q`. -/
structure Origin (Q : DjsonLogItem → Prop) (s : Lifetime) : Prop where
  client : s.ClientOk
  wire : s.client.Inv
  items : s.logger.Origin Q
  calls : ∀ m ∈ s.client.calls, IsMessage Q m

theorem origin_init (Q : DjsonLogItem → Prop) (ackTimeoutMS bufferLimit : ℕ) (ids : IdMgr) :
    (init ackTimeoutMS bufferLimit ids).Origin Q where
  client := clientOk_init _ _ _
  wire := SocketClient.inv_init
  items := BufferedLogger.origin_init Q _ _ _
  calls m hm := by simp [init, SocketClient.init] at hm

/-- A thread that has returned begins a call. -/
theorem Origin.begin (h : s.Origin Q) (hc : s'.ClientOk) {τ : ℕ} {r : Outcome}
    (hr : s.client.pc τ = .returned r) (call : ApiCall)
    (hclient : s'.client = s.client.begin τ call) (hitems : s'.logger.Origin Q)
    (hcall : ∀ m, call = .send m → IsMessage Q m) : s'.Origin Q where
  client := hc
  wire := hclient ▸ SocketClient.Inv.step h.wire (l := .thread τ (.begin call)) trivial
    (begin_eq_step hr call)
  items := hitems
  calls m hm := by
    rw [hclient] at hm
    rcases SocketClient.mem_calls_begin hm with hm | hm
    · exact h.calls m hm
    · exact hcall m hm

/-- A step outside the client. -/
theorem Origin.logger (h : s.Origin Q) (hc : s'.ClientOk) (hclient : s'.client = s.client)
    (hitems : s'.logger.Origin Q) : s'.Origin Q :=
  ⟨hc, hclient ▸ h.wire, hitems, hclient ▸ h.calls⟩

theorem cStr_of_notMem {m : Bytes} (h : (0 : Byte) ∉ m) : cStr m = m := (cStr_eq_self_iff m).mpr h

/-- **Every step keeps what the items and the messages are.** -/
theorem Origin.step (h : s.Origin Q) (ho : s.Orderly l) (hn : s.NulFree l)
    (ha : AddsNew Q l) (hs : s.step l = some s') : s'.Origin Q := by
  have hc := h.client.step hs
  cases move hs with
  | caller hm hg => exact h.logger hc rfl (h.items.step ha hg)
  | destroy hm =>
    obtain ⟨r, hr⟩ := h.client.returned_main (by simp [hm])
    exact h.begin hc hr .stop rfl h.items fun m hm => by cases hm
  | stopOnceEmpty | stopSender =>
    exact h.logger hc rfl ⟨h.items.callers, h.items.queue, h.items.held, h.items.send,
      h.items.cache, h.items.copied⟩
  | clientStopped | lockTimer | setStopMe | notify | unlockTimer | stopRead | getSender
  | getResender | getReader | runTest | runWait | runStopped | roundEnd | awake | readStopped
  | endRead | got | processed => exact h.logger hc rfl h.items
  | sender hpc hpc' hg | endSend hpc hr hg | roundBegin hw hr hn hg | round hw hr hn hin hg
  | endResend hw hn hr hg | line hr hg | tick hg | otherSchema hg =>
    exact h.logger hc rfl (h.items.step (by trivial) hg)
  | @beginSend x g hpc hg =>
    obtain ⟨r, hr⟩ := h.client.idle 1 (by simp [inCall, inSend, hpc])
    have hitems : g.Origin Q := h.items.step (by trivial) hg
    refine h.begin hc hr (.send (cStr x.item.djsonData)) rfl hitems fun m hm => ?_
    cases hm
    rw [cStr_of_notMem (hn x hpc)]
    exact h.items.send x hpc
  | @beginResend i schema cacheCopy k x hw hrun hres hb hi =>
    obtain ⟨r, hr⟩ := h.client.idle 2 (by simp [inCall, hres])
    refine h.begin hc hr (.send (cStr (x.message schema))) rfl h.items fun m hm => ?_
    cases hm
    rw [cStr_of_notMem (hn cacheCopy k x hb hi)]
    exact (h.items.copied cacheCopy hb k x (List.mem_of_getElem? hi)).message schema
  | beginRead hw hr hnot =>
    obtain ⟨r, hr'⟩ := h.client.returned_reader (by simp [hr])
    exact h.begin hc hr' .read rfl h.items fun m hm => by cases hm
  | client hb hk =>
    exact ⟨hc, h.wire.step ho hk, h.items, SocketClient.calls_step hb.begins hk ▸ h.calls⟩
  | hangUp hk =>
    exact ⟨hc, h.wire.step (by trivial) hk, h.items,
      SocketClient.calls_step (fun _ => rfl) hk ▸ h.calls⟩

/-- The steps of `received_payloads`. -/
def InStep (Q : DjsonLogItem → Prop) (s : Lifetime) (l : Label) : Prop :=
  s.Orderly l ∧ s.NulFree l ∧ AddsNew Q l

theorem origin_of_reach {ackTimeoutMS bufferLimit : ℕ} {ids : IdMgr}
    (h : Reach step (InStep Q) (init ackTimeoutMS bufferLimit ids) s) : s.Origin Q :=
  h.invariant (origin_init Q _ _ _) fun _ _ _ ht hok hs => ht.step hok.1 hok.2.1 hok.2.2 hs

/-- The two items of the witness. -/
def OneOrTwo (x : DjsonLogItem) : Prop :=
  x = (DataSender.textItem 1).logItem.item ∨ x = (DataSender.textItem 2).logItem.item

instance (x : DjsonLogItem) : Decidable (OneOrTwo x) := inferInstanceAs (Decidable (_ ∨ _))

/-- `InStep` as a test, of the steps outside the resender. -/
def inStep (s : Lifetime) : Label → Bool
  | .client τ a => s.client.Orderly (.thread τ a)
  | .sender .run =>
    match s.logger.sender.pc with
    | .send l => (0 : Byte) ∉ l.item.djsonData
    | _ => true
  | .caller _ (.addData (some item)) =>
    OneOrTwo item.logItem.item && decide (item.logItem.item.djsonData = [])
  | .caller _ (.addData none) => true
  | .caller _ .startWorkers | .caller _ .push => true
  | .sender (.send _ _) => true
  | _ => false

theorem inStep_of (h : s.inStep l = true) : InStep OneOrTwo s l := by
  unfold inStep at h
  split at h
  · rename_i τ a
    have ho : s.client.Orderly (.thread τ a) := of_decide_eq_true h
    exact ⟨ho, trivial, trivial⟩
  · refine ⟨trivial, fun l hl => ?_, trivial⟩
    rw [hl] at h
    exact of_decide_eq_true h
  · obtain ⟨hq, hd⟩ := Bool.and_eq_true_iff.mp h
    exact ⟨trivial, trivial, of_decide_eq_true hq, of_decide_eq_true hd⟩
  · exact ⟨trivial, trivial, trivial⟩
  · exact ⟨trivial, trivial, trivial⟩
  · exact ⟨trivial, trivial, trivial⟩
  · exact ⟨trivial, trivial, trivial⟩
  · cases h

/-- An item is added, and the sender is in its call of `Send` for it. -/
def sendingItem (n sends : ℕ) : List Label :=
  [.caller 0 (.addData (some (DataSender.textItem n))), .caller 0 .startWorkers, .caller 0 .push] ++
    List.replicate sends (.sender .run)

/-- `send()` takes a piece of the message. -/
def sendPiece (n : ℕ) : List Label :=
  [.client 1 (.poll .ready), .client 1 .run, .client 1 (.send (.accepted n))]

/-- The first item is sent in two pieces, and of the second there is one piece so far. -/
def oneAndPart : List Label :=
  sendingItem 1 10 ++ clientRuns 1 3 ++ [.client 1 (.socket (some 3)), .client 1 (.connect true)] ++
    clientRuns 1 6 ++ sendPiece 5 ++ clientRuns 1 3 ++ sendPiece 6 ++ clientRuns 1 1 ++
    [.sender (.send true true)] ++ sendingItem 2 11 ++ clientRuns 1 7 ++ sendPiece 3

end Lifetime

end Outmdsd
