import Outmdsd.Logger.BufferedLogger

/-!
# Waiting for the sender

`WaitUntilAllSend` tells the queue to stop once it is empty, and returns `true` when the task of
the sender has ended. The task is started once. An item that is pushed after its end stays in the
queue, and still the next `WaitUntilAllSend` returns `true` (`waited_with_item_left`); and the task
also ends by an exception.

In every run in which no exception ends the sender, and nothing is pushed once it has found the
queue empty and told to stop, `WaitUntilAllSend` tells the truth (`wait_truthful`).
-/

namespace Outmdsd

namespace BufferedLogger

/-- The condition on a step: it does not make the sender fail, and nothing is pushed once the sender
has found the queue empty and told to stop. -/
def Steady (s : BufferedLogger) : Label → Prop
  | .caller _ .push => s.sender.pc ≠ .drained ∧ s.sender.pc.running = true
  | .caller _ _ => True
  | .sender a => s.sender.Harmless (.sender a)
  | .backup bs => s.sender.Harmless (.backup bs)
  | .otherSchema svlist => s.sender.Harmless (.otherSchema svlist)

/-- Whenever `WaitUntilAllSend` returns `true`, the queue is empty, and every accepted item was
handed to `DataSender::Send` or dropped by the queue. -/
def Truthful (s : BufferedLogger) : Prop :=
  ∀ c s', s.step (.caller c .wait) = some s' → s'.pc c = .returned (.waited true) →
    s.sender.incomingQueue.dataQueue = [] ∧
      ∀ tag ∈ s.accepted, tag ∈ s.handed ∨ tag ∈ s.dropped

/-! ## On the way to `Send` -/

/-- Where an item is on its way to `Send`. -/
inductive Stage
  | queue
  | dropped
  /-- In the hand of the sender, between the pop and `Send`. -/
  | sending
  | handed
  deriving DecidableEq

instance : Fintype Stage where
  elems := {.queue, .dropped, .sending, .handed}
  complete p := by cases p <;> decide

/-- The tag of the item that the sender has popped and not handed to `Send` yet. -/
def toSend : SenderPc → List Bytes
  | .popped l | .taken l | .touched l | .data l | .missed l | .send l => [l.item.tag]
  | .added tag | .got tag | .getAgain tag => [tag]
  | _ => []

/-- The tags of the items at a stage. -/
def stage (s : BufferedLogger) : Stage → List Bytes
  | .queue => s.sender.incomingQueue.dataQueue.map QueuedItem.tag
  | .dropped => s.dropped
  | .sending => toSend s.sender.pc
  | .handed => s.handed

variable {s s' : BufferedLogger} {d d' : DataSender}

/-- What a step of the sender does to the queue and to the item on its way. -/
inductive Passes (d d' : DataSender) (sent : List Bytes) : Prop
  | stay (hq : d'.incomingQueue = d.incomingQueue) (ht : toSend d'.pc = toSend d.pc)
      (hs : sent = [])
  | pop (x : QueuedItem) (hq : d.incomingQueue.dataQueue = x :: d'.incomingQueue.dataQueue)
      (ht : toSend d.pc = []) (ht' : toSend d'.pc = [x.tag]) (hs : sent = [])
  | send (tag : Bytes) (hq : d'.incomingQueue = d.incomingQueue) (ht : toSend d.pc = [tag])
      (ht' : toSend d'.pc = []) (hs : sent = [tag])

/-- What the sender keeps while no exception ends it: nobody has stopped it, the cache holds the
items under their tags, and it ends with the queue empty. -/
structure Steadfast (d : DataSender) : Prop where
  inv : d.Inv
  notStopped : d.stopSender = false
  tag_eq : ∀ k l, d.backup.dataCache.lookup k = some (some l) → l.item.tag = k
  drained : d.pc.running = false → d.incomingQueue.dataQueue = []

/-- A step of the sender within `Run`: to the end only with the queue empty. -/
structure Goes (d d' : DataSender) (sent : List Bytes) : Prop where
  notStopped : d'.stopSender = false
  tag_eq : ∀ k l, d'.backup.dataCache.lookup k = some (some l) → l.item.tag = k
  drained : d'.pc.running = false → d'.incomingQueue.dataQueue = []
  passes : Passes d d' sent

theorem goes_setPc (h : Steadfast d) (ids : IdMgr) {pc : SenderPc} (hr : pc.running = true)
    (ht : toSend pc = toSend d.pc) : Goes d ({ d with ids := ids }.setPc pc) [] where
  notStopped := h.notStopped
  tag_eq := h.tag_eq
  drained he := absurd (hr.symm.trans he) (by decide)
  passes := .stay rfl ht rfl

/-- **A step of the sender.** -/
theorem goes_senderStep (h : Steadfast d) {a : SenderStep} (hh : d.Harmless (.sender a))
    (hs : d.senderStep a = some d') : Goes d d' (handedBy d a) := by
  have hi := h.inv
  unfold DataSender.Inv at hi
  have hnone : (∀ l, d.pc ≠ .send l) → handedBy d a = [] := fun hn => handedBy_of_ne_send hn a
  have hgo : ∀ pc, (∀ l, d.pc ≠ .send l) → pc.running = true → toSend pc = toSend d.pc →
      Goes d (d.setPc pc) (handedBy d a) := fun pc hn hr ht => by
    rw [hnone hn]
    exact goes_setPc h d.ids hr ht
  have hpoint : ∀ pc, (∀ l, d.pc ≠ .send l) → pc.running = true → toSend pc = toSend d.pc →
      Goes d (d.interruptPoint pc) (handedBy d a) := fun pc hn hr ht => by
    unfold DataSender.interruptPoint
    rw [h.notStopped]
    exact hgo pc hn hr ht
  cases DataSender.runMove hs with
  | loop hpc =>
    rw [h.notStopped]
    exact hgo .pop (by simp [hpc]) rfl (by rw [hpc]; rfl)
  | popEnd hpc =>
    exact hgo .drained (by simp [hpc]) rfl (by rw [hpc]; rfl)
  | @pop x q hpc hq =>
    rw [hnone (by simp [hpc])]
    exact ⟨h.notStopped, h.tag_eq, fun he => (by cases he),
      .pop x (ConcurrentQueue.waitAndPop_eq_some hq) (by rw [hpc]; rfl) rfl rfl⟩
  | drained hpc =>
    rw [hpc] at hi
    rw [hnone (by simp [hpc]), hi.2]
    exact ⟨h.notStopped, h.tag_eq, fun _ => hi.2, .stay rfl (by rw [hpc]; rfl) rfl⟩
  | popped hpc =>
    exact hpoint _ (by simp [hpc]) rfl (by rw [hpc]; rfl)
  | @taken l hpc =>
    cases d.caching
    · exact hgo (.data l) (by simp [hpc]) rfl (by rw [hpc]; rfl)
    · exact hgo (.touched (l.touch d.backup.clock)) (by simp [hpc]) rfl (by rw [hpc]; rfl)
  | addThrew hpc ht =>
    rw [hpc] at hi
    exact absurd ht hi.2
  | @add l hpc =>
    rw [hnone (by simp [hpc])]
    exact ⟨h.notStopped, Backup.tag_eq_insert h.tag_eq l, fun he => (by cases he),
      .stay rfl (by rw [hpc]; rfl) rfl⟩
  | addedThrew hpc hg | addedGone hpc hg | getAgainThrew hpc hg =>
    rw [hpc] at hi
    obtain ⟨l, hg', -⟩ := DataSender.get_of_pcOk hi
    cases hg.symm.trans hg'
  | added hpc =>
    exact hgo _ (by simp [hpc]) rfl (by rw [hpc]; rfl)
  | got hpc =>
    exact hpoint _ (by simp [hpc]) rfl (by rw [hpc]; rfl)
  | @getAgain tag l hpc hg =>
    refine hgo (.data l) (by simp [hpc]) rfl ?_
    rw [hpc]
    exact congrArg (fun tag => [tag]) (h.tag_eq tag l (ConcurrentMap.lookup_of_get hg))
  | @data l hpc =>
    rw [hpc] at hi
    rcases @DataSender.getDataStep_eq d l hi with ⟨item, ht, he⟩ | ⟨he, -, -⟩
    · rw [he]
      refine hgo _ (by simp [hpc]) rfl ?_
      rw [hpc]
      exact congrArg (fun tag => [tag]) ht
    · rw [he]
      exact hgo _ (by simp [hpc]) rfl (by rw [hpc]; rfl)
  | @composed l schema hpc =>
    rw [hnone (by simp [hpc])]
    exact goes_setPc h d.ids rfl (by rw [hpc]; rfl)
  | @missed l hpc =>
    rw [hpc] at hi
    rw [hnone (by simp [hpc])]
    obtain ⟨ids, item, ht, he⟩ := @DataSender.insertStep_eq d l hi.1 hi.2
    rw [he]
    refine goes_setPc h ids rfl ?_
    rw [hpc]
    exact congrArg (fun tag => [tag]) ht
  | @send l hpc =>
    rw [show handedBy d .run = [l.item.tag] by simp only [handedBy, hpc]]
    exact ⟨h.notStopped, h.tag_eq, fun he => (by cases he),
      .send l.item.tag rfl (by rw [hpc]; rfl) rfl rfl⟩
  | @sending l ok delivered hpc =>
    rw [hnone (by simp [hpc])]
    have htag : ∀ k l', (if delivered then d.backup.deliver l.item.tag
        else d.backup).dataCache.lookup k = some (some l') → l'.item.tag = k := by
      cases delivered <;> exact h.tag_eq
    exact ⟨h.notStopped, htag, fun he => (by cases he), .stay rfl (by rw [hpc]; rfl) rfl⟩
  | sent hpc =>
    exact hpoint _ (by simp [hpc]) rfl (by rw [hpc]; rfl)

/-- The sender is steadfast, and every accepted item is at one stage. -/
structure Passing (s : BufferedLogger) : Prop where
  steadfast : Steadfast s.sender
  stages : Places.Conserved s.accepted s.stage

theorem passing_init (ackTimeoutMS bufferLimit : ℕ) (ids : IdMgr) :
    (init ackTimeoutMS bufferLimit ids).Passing where
  steadfast := ⟨trivial, rfl, by simp [init, DataSender.init, Backup.init], nofun⟩
  stages := Places.conserved_nil fun p => by cases p <;> rfl

/-- When the sender has ended, no item is on its way. -/
theorem Passing.truthful (h : s.Passing) : s.Truthful := by
  intro c s' hs hr
  have hready : s.sender.pc.ready = true := by
    simp only [BufferedLogger.step, callerStep] at hs
    split at hs <;> try contradiction
    cases hs
    simp only [setPc, Function.update_self, CallerPc.returned.injEq] at hr
    split at hr
    · exact CallResult.waited.inj hr
    · cases hr
  have hend : s.sender.pc.running = false ∧ toSend s.sender.pc = [] := by
    cases hpc : s.sender.pc <;> simp_all [SenderPc.ready, SenderPc.running, toSend]
  have hq := h.steadfast.drained hend.1
  refine ⟨hq, fun tag ht => ?_⟩
  obtain ⟨p, hp⟩ := h.stages.exists_mem ht
  cases p with
  | handed => exact .inl hp
  | dropped => exact .inr hp
  | queue =>
    rw [stage, hq] at hp
    cases hp
  | sending =>
    rw [stage, hend.2] at hp
    cases hp

/-- A new item is pushed while the sender has not found the queue empty. -/
theorem Passing.push (h : s.Passing) (item : QueuedItem) (hd : s.sender.pc ≠ .drained)
    (hr : s.sender.pc.running = true) : (s.push item).Passing where
  steadfast :=
    ⟨h.steadfast.inv.step (a := .push item) hd rfl, h.steadfast.notStopped, h.steadfast.tag_eq,
      fun he => absurd (hr.symm.trans he) (by decide)⟩
  stages := by
    refine h.stages.accept_move (p := .queue) (q := .dropped) (by decide) (.of_eq ?_)
      (List.Perm.refl _) fun r hq hd => ?_
    · exact s.sender.incomingQueue.tags_push item
    · cases r with
      | queue => exact absurd rfl hq
      | dropped => exact absurd rfl hd
      | sending | handed => rfl

/-- The stages after a step of the sender. -/
theorem Passing.senderStep (h : s.Passing) {a : SenderStep} (hh : s.sender.Harmless (.sender a))
    (hs : s.sender.senderStep a = some d') :
    Passing { s with sender := d', handed := s.handed ++ handedBy s.sender a } := by
  obtain ⟨hstop, htag, hdr, hpass⟩ := goes_senderStep h.steadfast hh hs
  refine ⟨⟨h.steadfast.inv.step (a := .sender a) hh hs, hstop, htag, hdr⟩, ?_⟩
  cases hpass with
  | stay hq ht he =>
    have hstage : stage { s with sender := d', handed := s.handed ++ handedBy s.sender a } =
        s.stage := by
      rw [he, List.append_nil]
      funext p
      cases p with
      | queue => exact congrArg (fun q => q.dataQueue.map QueuedItem.tag) hq
      | sending => exact ht
      | dropped | handed => rfl
    rw [hstage]
    exact h.stages
  | pop x hq ht ht' he =>
    refine h.stages.move (p := .queue) (q := .sending) (m := [x.tag]) (by decide) ?_ ?_ ?_
    · change (s.sender.incomingQueue.dataQueue.map QueuedItem.tag).Perm _
      rw [hq]
      exact List.Perm.refl _
    · change (toSend d'.pc).Perm (toSend s.sender.pc ++ [x.tag])
      rw [ht, ht']
      exact List.Perm.refl _
    · intro r hnq hns
      cases r with
      | queue => exact absurd rfl hnq
      | sending => exact absurd rfl hns
      | handed =>
        change s.handed ++ handedBy s.sender a = s.handed
        rw [he, List.append_nil]
      | dropped => rfl
  | send tag hq ht ht' he =>
    refine h.stages.move (p := .sending) (q := .handed) (m := [tag]) (by decide) ?_ ?_ ?_
    · change (toSend s.sender.pc).Perm ([tag] ++ toSend d'.pc)
      rw [ht, ht']
      exact List.Perm.refl _
    · change (s.handed ++ handedBy s.sender a).Perm (s.handed ++ [tag])
      rw [he]
    · intro r hns hnh
      cases r with
      | sending => exact absurd rfl hns
      | handed => exact absurd rfl hnh
      | queue => exact congrArg (fun q => q.dataQueue.map QueuedItem.tag) hq
      | dropped => rfl

/-- A step of another thread that leaves the queue and the sender where they are. -/
theorem Passing.other (h : s.Passing) {l : DataSender.Label} (acked expired : List Bytes)
    (hh : s.sender.Harmless l) (hs : s.sender.step l = some d')
    (hstop : d'.stopSender = s.sender.stopSender) (hpc : d'.pc = s.sender.pc)
    (hqueue : d'.incomingQueue.dataQueue = s.sender.incomingQueue.dataQueue)
    (hcache : ∀ k v, d'.backup.dataCache.lookup k = some v →
      s.sender.backup.dataCache.lookup k = some v) :
    Passing { s with sender := d', acked := acked, expired := expired } := by
  refine ⟨⟨h.steadfast.inv.step hh hs, hstop.trans h.steadfast.notStopped,
    fun k l hl => h.steadfast.tag_eq k l (hcache k _ hl), fun he => ?_⟩, ?_⟩
  · exact hqueue.trans (h.steadfast.drained (hpc ▸ he))
  · have hstage : stage { s with sender := d', acked := acked, expired := expired } =
        s.stage := by
      funext p
      cases p with
      | queue => exact congrArg (List.map QueuedItem.tag) hqueue
      | sending => exact congrArg toSend hpc
      | dropped | handed => rfl
    rw [hstage]
    exact h.stages

theorem Passing.callerStep (h : s.Passing) {c : ℕ} {a : CallerStep}
    (hok : s.Steady (.caller c a)) (hs : s.callerStep c a = some s') : s'.Passing := by
  unfold BufferedLogger.callerStep at hs
  split at hs
  case h_4 item hpc =>
    cases hs
    have hp := h.push item hok.1 hok.2
    exact ⟨hp.steadfast, hp.stages⟩
  case h_6 =>
    cases hs
    have ho := h.other (l := .stopOnceEmpty) s.acked s.expired trivial rfl
      rfl rfl rfl fun _ _ hl => hl
    exact ⟨ho.steadfast, ho.stages⟩
  case h_8 => cases hs
  all_goals
    cases hs
    exact ⟨h.steadfast, h.stages⟩

/-- **Every steady step keeps the items on their way.** -/
theorem Passing.step (h : s.Passing) {l : Label} (hok : s.Steady l) (hs : s.step l = some s') :
    s'.Passing := by
  cases l with
  | caller c a => exact h.callerStep hok hs
  | sender a =>
    obtain ⟨d, hd, rfl⟩ := of_step_sender hs
    exact h.senderStep hok hd
  | backup bs =>
    obtain ⟨b, hb, rfl⟩ := of_step_backup hs
    refine h.other (l := .backup bs) _ _ hok (by simp [DataSender.step, hb]) rfl rfl rfl ?_
    intro k v hl
    rw [Backup.lookup_step hb] at hl
    split at hl
    · cases hl
    · exact hl
  | otherSchema svlist =>
    obtain ⟨ids, hd, rfl⟩ := of_step_otherSchema hs
    exact h.other (l := .otherSchema svlist) _ _ hok hd rfl rfl rfl fun _ _ hl => hl

/-- **`WaitUntilAllSend` tells the truth.** In every run of steady steps of the callers and the
threads, whenever a call of `WaitUntilAllSend` returns `true` the queue is empty and every accepted
item was handed to `Send` or dropped by the queue. -/
theorem wait_truthful {ackTimeoutMS bufferLimit : ℕ} {ids : IdMgr}
    (h : Reach step Steady (init ackTimeoutMS bufferLimit ids) s) : s.Truthful :=
  (h.invariant (passing_init ackTimeoutMS bufferLimit ids)
    fun _ _ _ hi hok hs => hi.step hok hs).truthful

/-! ## Runs -/

instance (s : BufferedLogger) : ∀ l, Decidable (s.Steady l)
  | .caller _ .push => inferInstanceAs (Decidable (_ ∧ _))
  | .caller _ (.addData _) => inferInstanceAs (Decidable True)
  | .caller _ .startWorkers => inferInstanceAs (Decidable True)
  | .caller _ .waitUntilAllSend => inferInstanceAs (Decidable True)
  | .caller _ .stopOnceEmpty => inferInstanceAs (Decidable True)
  | .caller _ .wait => inferInstanceAs (Decidable True)
  | .sender a => inferInstanceAs (Decidable (s.sender.Harmless (.sender a)))
  | .backup bs => inferInstanceAs (Decidable (s.sender.Harmless (.backup bs)))
  | .otherSchema svlist => inferInstanceAs (Decidable (s.sender.Harmless (.otherSchema svlist)))

/-- A call of `WaitUntilAllSend` would return `true` now. -/
def waitReturnsTrue (s : BufferedLogger) (c : ℕ) : Bool :=
  match s.step (.caller c .wait) with
  | none => false
  | some s' =>
    match s'.pc c with
    | .returned (.waited ready) => ready
    | _ => false

theorem exists_of_waitReturnsTrue {c : ℕ} (h : s.waitReturnsTrue c = true) :
    ∃ s', s.step (.caller c .wait) = some s' ∧ s'.pc c = .returned (.waited true) := by
  unfold waitReturnsTrue at h
  split at h
  · cases h
  · rename_i s' hs
    split at h
    · rename_i ready hpc
      exact ⟨s', hs, h ▸ hpc⟩
    · cases h

/-- A call of `AddData`, whose item the sender sends; then `WaitUntilAllSend`, and the sender finds
the queue empty. -/
def sendingAll : List Label :=
  adding 0 (DataSender.textItem 1) ++ sending true true ++
    [.caller 0 .waitUntilAllSend, .caller 0 .stopOnceEmpty] ++ List.replicate 3 (.sender .run)

/-- Before the return of a `WaitUntilAllSend`. -/
theorem wait_truthful_sent :
    ∃ s : BufferedLogger, (s.accepted = [lit "1"] ∧
      ∃ s', s.step (.caller 0 .wait) = some s' ∧ s'.pc 0 = .returned (.waited true)) ∧
        s.Truthful := by
  obtain ⟨s, hs, ht⟩ : ∃ s, Reach step Steady (init 1000 0 .empty) s ∧
      decide (s.accepted = [lit "1"] ∧ s.waitReturnsTrue 0 = true) = true :=
    @Reach.exists_of_exec _ _ step _ _ (fun s l => decide (s.Steady l)) _ sendingAll
      (fun _ _ h => of_decide_eq_true h) (by decide) (by decide)
  obtain ⟨ha, hw⟩ := of_decide_eq_true ht
  exact ⟨s, ⟨ha, exists_of_waitReturnsTrue hw⟩, wait_truthful hs⟩

/-- `AddData` and `WaitUntilAllSend`, twice. -/
def sendingTwice : List Label :=
  sendingAll ++ [.caller 0 .wait] ++ adding 0 (DataSender.textItem 2) ++
    [.caller 0 .waitUntilAllSend, .caller 0 .stopOnceEmpty]

/-- The second `WaitUntilAllSend` returns `true` and the second item is in the queue; the first one
returns `true` after an item without fields has ended the sender. -/
theorem waited_with_item_left :
    (∃ s, Reach step (fun _ _ => True) (init 1000 0 .empty) s ∧
      (s.waitReturnsTrue 0 = true ∧
        s.sender.incomingQueue.dataQueue.map QueuedItem.tag = [lit "2"]) ∧ ¬ s.Truthful) ∧
    ∃ s, Reach step (fun _ _ => True) (init 1000 0 .empty) s ∧
      (s.waitReturnsTrue 0 = true ∧
        s.sender.incomingQueue.dataQueue.map QueuedItem.tag = [lit "2"]) ∧ ¬ s.Truthful := by
  have hleft : ∀ ls : List Label,
      okRun step (fun _ _ => true) (init 1000 0 .empty) ls = true →
      (exec step (init 1000 0 .empty) ls).map (fun s => decide (s.waitReturnsTrue 0 = true ∧
        s.sender.incomingQueue.dataQueue.map QueuedItem.tag = [lit "2"])) = some true →
      ∃ s, Reach step (fun _ _ => True) (init 1000 0 .empty) s ∧
        (s.waitReturnsTrue 0 = true ∧
          s.sender.incomingQueue.dataQueue.map QueuedItem.tag = [lit "2"]) ∧ ¬ s.Truthful := by
    intro ls ho he
    obtain ⟨s, hs, ht⟩ := @Reach.exists_of_exec _ _ step (fun _ _ => True) _ _ _ _
      (fun _ _ _ => trivial) ho he
    have hd := of_decide_eq_true ht
    refine ⟨s, hs, hd, fun h => ?_⟩
    obtain ⟨s', hstep, hr⟩ := exists_of_waitReturnsTrue hd.1
    have hq := hd.2
    rw [(h 0 s' hstep hr).1] at hq
    cases hq
  refine ⟨hleft sendingTwice (by decide) (by decide), hleft (adding 0 (DataSender.emptyItem 1) ++
    adding 0 (DataSender.textItem 2) ++ List.replicate 9 (.sender .run) ++
      [.caller 0 .waitUntilAllSend, .caller 0 .stopOnceEmpty]) (by decide) (by decide)⟩

end BufferedLogger

end Outmdsd
