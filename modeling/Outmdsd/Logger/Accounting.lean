import Outmdsd.Logger.Lifetime

/-!
# What becomes of the items, and in which order

The items of `AddData` stand in a line: those that were handed to `Send`, the one in the hand of the
sender, and those in the queue. A push puts its item at the end of the line, and may drop the oldest
one of the queue; a step of the sender moves the line on. So `Send` gets the items in the order in
which they were pushed, and each pushed item is in the line or was dropped (`handed_in_order`). The
exception is the item in the hand of the sender when it leaves its loop.
-/

namespace Outmdsd

open scoped List

namespace BufferedLogger

/-- The tag of the item that the sender has popped and not handed over yet. -/
def current : SenderPc → List Bytes
  | .popped l | .taken l | .touched l | .data l | .missed l | .send l => [l.item.tag]
  | .added tag | .got tag | .getAgain tag => [tag]
  | _ => []

theorem length_current_le (pc : SenderPc) : (current pc).length ≤ 1 := by
  cases pc <;> simp [current]

/-- The calls of `Send` in progress. -/
def inProgress (pc : SenderPc) : ℕ := if Lifetime.inSend pc then 1 else 0

/-- The tags of the queued items. -/
def queued (d : DataSender) : List Bytes := d.incomingQueue.dataQueue.map QueuedItem.tag

/-- An entry of the cache is an item under its tag. -/
def CacheTags (b : Backup) : Prop :=
  ∀ k v, b.dataCache.lookup k = some v → ∃ l, v = some l ∧ l.item.tag = k

theorem CacheTags.step {b b' : Backup} {bs : BackupStep} (h : CacheTags b)
    (hb : b.step bs = some b') : CacheTags b' := fun k v hk => by
  rw [Backup.lookup_step hb] at hk
  split at hk
  · cases hk
  · exact h k v hk

variable {d d' : DataSender} {a : SenderStep}

/-- What a step of the sender does to the line. -/
structure MovesOn (d : DataSender) (a : SenderStep) (d' : DataSender) : Prop where
  line : ∃ lost : List Bytes, lost.length ≤ 1 ∧ (d'.pc.running = true → lost = []) ∧
    handedBy d a ++ current d'.pc ++ lost ++ queued d' = current d.pc ++ queued d
  cached : CacheTags d'.backup
  numSend : d'.numSend = d.numSend + (handedBy d a).length
  numSuccess : d'.numSuccess + inProgress d'.pc ≤
    d.numSuccess + inProgress d.pc + (handedBy d a).length

/-- Outside `Send` nothing becomes a success. -/
theorem numSuccess_le (hn : d'.numSuccess = d.numSuccess) (hs : Lifetime.inSend d'.pc = false)
    (n : ℕ) : d'.numSuccess + inProgress d'.pc ≤ d.numSuccess + inProgress d.pc + n := by
  have h0 : inProgress d'.pc = 0 := by simp [inProgress, hs]
  omega

/-- The sender keeps its item, or leaves with it. -/
theorem movesOn_setPc (h : CacheTags d.backup) (ha : handedBy d a = []) (ids : IdMgr)
    {pc : SenderPc} (hs : Lifetime.inSend pc = false)
    (hpc : current pc = current d.pc ∨ current pc = [] ∧ pc.running = false) :
    MovesOn d a ({ d with ids := ids }.setPc pc) := by
  refine ⟨?_, h, by simp [ha, DataSender.setPc], numSuccess_le (by rfl) hs _⟩
  rcases hpc with hpc | ⟨hpc, hr⟩
  · exact ⟨[], Nat.zero_le 1, fun _ => rfl, by simp [ha, hpc, DataSender.setPc, queued]⟩
  · refine ⟨current d.pc, length_current_le _, fun hrun => ?_, ?_⟩
    · exact absurd (hr.symm.trans hrun) (by decide)
    · simp [ha, hpc, DataSender.setPc, queued]

theorem current_left (e : Option Exn) :
    current (.left e) = [] ∧ (SenderPc.left e).running = false := ⟨rfl, rfl⟩

/-- **A step of the sender moves the line on.** -/
theorem movesOn_senderStep (h : CacheTags d.backup) (hs : d.senderStep a = some d') :
    MovesOn d a d' := by
  have hkeep : ∀ pc, (∀ l, d.pc ≠ .send l) → Lifetime.inSend pc = false →
      current pc = current d.pc → MovesOn d a (d.setPc pc) := fun pc hn hs hpc =>
    movesOn_setPc h (handedBy_of_ne_send hn a) d.ids hs (.inl hpc)
  have hleave : ∀ e, (∀ l, d.pc ≠ .send l) → MovesOn d a (d.setPc (.left e)) := fun e hn =>
    movesOn_setPc h (handedBy_of_ne_send hn a) d.ids rfl (.inr (current_left e))
  have hpoint : ∀ pc, (∀ l, d.pc ≠ .send l) → Lifetime.inSend pc = false →
      current pc = current d.pc → MovesOn d a (d.interruptPoint pc) := fun pc hn hs hpc => by
    unfold DataSender.interruptPoint
    split
    · exact hleave none hn
    · exact hkeep pc hn hs hpc
  cases DataSender.runMove hs with
  | loop hpc =>
    split
    · exact hleave none (by simp [hpc])
    · exact hkeep .pop (by simp [hpc]) rfl (by rw [hpc]; rfl)
  | popEnd hpc => exact hkeep .drained (by simp [hpc]) rfl (by rw [hpc]; rfl)
  | @pop x q hpc hq =>
    have hnone : handedBy d .run = [] := handedBy_of_ne_send (by simp [hpc]) .run
    refine ⟨⟨[], Nat.zero_le 1, fun _ => rfl, ?_⟩, h, by simp [hnone, DataSender.setPc],
      numSuccess_le (by rfl) (by rfl) _⟩
    have hpop := ConcurrentQueue.waitAndPop_eq_some hq
    simp only [hnone, hpc, DataSender.setPc, queued, current, hpop, List.map_cons]
    rfl
  | drained hpc =>
    split
    · exact hleave none (by simp [hpc])
    · exact hkeep .aborted (by simp [hpc]) rfl (by rw [hpc]; rfl)
  | popped hpc => exact hpoint _ (by simp [hpc]) rfl (by rw [hpc]; rfl)
  | taken hpc =>
    split
    · exact hkeep _ (by simp [hpc]) rfl (by rw [hpc]; rfl)
    · exact hkeep _ (by simp [hpc]) rfl (by rw [hpc]; rfl)
  | addThrew hpc | addedThrew hpc | getAgainThrew hpc => exact hleave _ (by simp [hpc])
  | @add l hpc =>
    have hnone : handedBy d .run = [] := handedBy_of_ne_send (by simp [hpc]) .run
    refine ⟨⟨[], Nat.zero_le 1, fun _ => rfl,
      by simp [hnone, hpc, DataSender.setPc, queued, current]⟩,
      fun k v hk => ?_, by simp [hnone, DataSender.setPc],
      numSuccess_le (by rfl) (by rfl) _⟩
    rcases lookup_insert_cases hk with ⟨rfl, rfl⟩ | ⟨-, hk⟩
    · exact ⟨l, rfl, rfl⟩
    · exact h k v hk
  | @addedGone tag hpc hg =>
    -- no entry is a NULL pointer
    obtain ⟨l, hl, -⟩ := h tag none (ConcurrentMap.lookup_of_get hg)
    cases hl
  | added hpc => exact hkeep _ (by simp [hpc]) rfl (by rw [hpc]; rfl)
  | got hpc => exact hpoint _ (by simp [hpc]) rfl (by rw [hpc]; rfl)
  | @getAgain tag l hpc hg =>
    obtain ⟨l', hl, htag⟩ := h tag _ (ConcurrentMap.lookup_of_get hg)
    obtain rfl := Option.some.inj hl
    exact hkeep _ (by simp [hpc]) rfl (by rw [hpc, current, current, htag])
  | @data l hpc =>
    have hsend : ∀ item : DjsonLogItem, item.tag = l.item.tag →
        MovesOn d .run (d.setPc (.send { l with item := item })) := fun item ht =>
      hkeep _ (by simp [hpc]) rfl (by rw [hpc, current, current, ht])
    unfold DataSender.getDataStep
    split
    · split
      · split
        · exact hleave _ (by simp [hpc])
        · exact hsend _ rfl
        · exact hkeep _ (by simp [hpc]) rfl (by rw [hpc]; rfl)
      · exact hsend _ rfl
    · exact hsend l.item rfl
  | @composed l schema hpc =>
    exact hkeep _ (by simp [hpc]) rfl (by rw [hpc]; rfl)
  | missed hpc =>
    unfold DataSender.insertStep
    split
    · exact hleave _ (by simp [hpc])
    · exact movesOn_setPc h (handedBy_of_ne_send (by simp [hpc]) .run) _ rfl
        (.inl (by rw [hpc]; rfl))
  | @send l hpc =>
    have hhanded : handedBy d .run = [l.item.tag] := by simp only [handedBy, hpc]
    refine ⟨⟨[], Nat.zero_le 1, fun _ => rfl, ?_⟩, h, ?_, ?_⟩
    · simp [hhanded, hpc, current, queued, DataSender.setPc]
    · simp [hhanded, DataSender.setPc]
    · simp [hhanded, hpc, DataSender.setPc, inProgress, Lifetime.inSend]
  | @sending l ok delivered hpc =>
    have hnone : handedBy d (.send ok delivered) = [] := handedBy_of_ne_send (by simp [hpc]) _
    refine ⟨⟨[], Nat.zero_le 1, fun _ => rfl, ?_⟩, ?_, ?_, ?_⟩
    · simp [hnone, hpc, current, queued]
    · cases delivered <;> exact h
    · simp [hnone]
    · cases ok <;> simp [hnone, hpc, inProgress, Lifetime.inSend]
  | sent hpc => exact hpoint _ (by simp [hpc]) rfl (by rw [hpc]; rfl)

/-- The account of a logger. -/
structure Account (s : BufferedLogger) (lost : List Bytes) : Prop where
  perm : s.accepted.Perm
    (s.dropped ++ (s.handed ++ current s.sender.pc ++ lost ++ queued s.sender))
  order : (s.handed ++ current s.sender.pc ++ lost ++ queued s.sender).Sublist s.accepted
  length_lost : lost.length ≤ 1
  lost : s.sender.pc.running = true → lost = []
  numSend : s.sender.numSend = s.handed.length
  numSuccess : s.sender.numSuccess + inProgress s.sender.pc ≤ s.sender.numSend
  cached : CacheTags s.sender.backup

theorem account_init (ackTimeoutMS bufferLimit : ℕ) (ids : IdMgr) :
    (init ackTimeoutMS bufferLimit ids).Account [] where
  perm := List.Perm.refl []
  order := List.Sublist.refl []
  length_lost := Nat.zero_le 1
  lost _ := rfl
  numSend := rfl
  numSuccess := le_rfl
  cached k v hk := by simp [init, DataSender.init, Backup.init] at hk

variable {s s' : BufferedLogger} {lost : List Bytes}

/-- An item is pushed, and the queue may drop its oldest one. -/
theorem Account.push (h : s.Account lost) (item : QueuedItem) : (s.push item).Account lost := by
  obtain ⟨q, q', hq, hdrop, hpush⟩ : ∃ q q' : List Bytes, queued s.sender ++ [item.tag] = q ++ q' ∧
      (s.push item).dropped = s.dropped ++ q ∧ queued (s.push item).sender = q' :=
    ⟨_, _, s.sender.incomingQueue.tags_push item, rfl, rfl⟩
  refine ⟨?_, ?_, h.length_lost, h.lost, h.numSend, h.numSuccess, h.cached⟩
  · rw [hdrop, hpush]
    calc s.accepted ++ [item.tag]
      _ ~ s.dropped ++ (s.handed ++ current s.sender.pc ++ lost ++ queued s.sender) ++ [item.tag] :=
        h.perm.append_right _
      _ = s.dropped ++ (s.handed ++ current s.sender.pc ++ lost ++ (q ++ q')) := by
        rw [← hq]
        simp only [List.append_assoc]
      _ ~ s.dropped ++ (q ++ (s.handed ++ current s.sender.pc ++ lost ++ q')) :=
        (List.perm_append_comm_assoc _ q q').append_left _
      _ = s.dropped ++ q ++ (s.handed ++ current s.sender.pc ++ lost ++ q') := by
        simp only [List.append_assoc]
  · rw [hpush]
    calc s.handed ++ current s.sender.pc ++ lost ++ q'
      _ <+ s.handed ++ current s.sender.pc ++ lost ++ (q ++ q') :=
        (List.sublist_append_right q q').append_left _
      _ = s.handed ++ current s.sender.pc ++ lost ++ queued s.sender ++ [item.tag] := by
        rw [← hq]
        simp only [List.append_assoc]
      _ <+ s.accepted ++ [item.tag] := h.order.append_right _

/-- A sender that has left its loop makes no step. -/
theorem running_of_senderStep (hs : d.senderStep a = some d') : d.pc.running = true := by
  cases hpc : d.pc with
  | left e | aborted => simp [DataSender.senderStep, hpc] at hs
  | _ => rfl

theorem Account.sender (h : s.Account lost) {a : SenderStep}
    (hs : s.sender.senderStep a = some d') :
    ∃ lost, Account { s with sender := d', handed := s.handed ++ handedBy s.sender a } lost := by
  obtain ⟨⟨lost', hlen, hlost, hline⟩, hcached, hsend, hsuccess⟩ := movesOn_senderStep h.cached hs
  -- a sender that makes a step has lost nothing before
  obtain rfl : lost = [] := h.lost (running_of_senderStep hs)
  have heq : s.handed ++ handedBy s.sender a ++ current d'.pc ++ lost' ++ queued d' =
      s.handed ++ current s.sender.pc ++ [] ++ queued s.sender := by
    simp only [List.append_assoc] at hline ⊢
    rw [hline]
    rfl
  refine ⟨lost', ?_, ?_, hlen, hlost, ?_, ?_, hcached⟩
  · exact heq ▸ h.perm
  · exact heq ▸ h.order
  · rw [hsend, h.numSend, List.length_append]
  · have := h.numSuccess
    dsimp only
    omega

theorem Account.step (h : s.Account lost) {l : Label} (hs : s.step l = some s') :
    ∃ lost, s'.Account lost := by
  cases l with
  | caller c a =>
    simp only [BufferedLogger.step, callerStep] at hs
    split at hs
    case h_4 item hpc =>
      cases hs
      have hp := h.push item
      exact ⟨lost, hp.perm, hp.order, hp.length_lost, hp.lost, hp.numSend, hp.numSuccess, hp.cached⟩
    case h_8 => cases hs
    all_goals
      cases hs
      exact ⟨lost, h.perm, h.order, h.length_lost, h.lost, h.numSend, h.numSuccess, h.cached⟩
  | sender a =>
    obtain ⟨d, hd, rfl⟩ := of_step_sender hs
    exact h.sender hd
  | backup bs =>
    obtain ⟨b, hb, rfl⟩ := of_step_backup hs
    exact ⟨lost, h.perm, h.order, h.length_lost, h.lost, h.numSend, h.numSuccess, h.cached.step hb⟩
  | otherSchema svlist =>
    obtain ⟨ids, -, rfl⟩ := of_step_otherSchema hs
    exact ⟨lost, h.perm, h.order, h.length_lost, h.lost, h.numSend, h.numSuccess, h.cached⟩

end BufferedLogger

namespace Lifetime

open BufferedLogger

variable {s s' : Lifetime} {lost : List Bytes}

theorem account_step (h : s.logger.Account lost) {l : Label} (hs : s.step l = some s') :
    ∃ lost, s'.logger.Account lost := by
  cases move hs with
  | caller hm hg | sender hpc hpc' hg | endSend hpc hr hg | roundBegin hw hr hn hg
  | round hw hr hn hin hg | endResend hw hn hr hg | line hr hg | tick hg | otherSchema hg =>
    exact h.step hg
  | beginSend hpc hg => exact h.step hg
  | _ =>
    exact ⟨lost, h.perm, h.order, h.length_lost, h.lost, h.numSend, h.numSuccess, h.cached⟩

/-- **Order and account.** In every state from construction to destruction, the items handed to
`Send`, the one in the hand of the sender and those in the queue stand in the order in which they
were pushed; together with those that the limit of the queue dropped, and at most one that the
sender lost when it left its loop, they are the items that were pushed. `numSend` counts the calls
of `Send`. -/
theorem handed_in_order {ackTimeoutMS bufferLimit : ℕ} {ids : IdMgr}
    (h : Reach step (fun _ _ => True) (init ackTimeoutMS bufferLimit ids) s) :
    ∃ lost : List Bytes, lost.length ≤ 1 ∧ (s.logger.sender.pc.running = true → lost = []) ∧
      s.logger.accepted ~ s.logger.dropped ++
        (s.logger.handed ++ current s.logger.sender.pc ++ lost ++ queued s.logger.sender) ∧
      s.logger.handed ++ current s.logger.sender.pc ++ lost ++ queued s.logger.sender <+
        s.logger.accepted ∧
      s.logger.sender.numSend = s.logger.handed.length ∧
      s.logger.sender.numSuccess ≤ s.logger.sender.numSend := by
  obtain ⟨lost, ha⟩ := h.invariant (I := fun t => ∃ lost, t.logger.Account lost)
    ⟨[], account_init ackTimeoutMS bufferLimit ids⟩ fun _ _ _ ⟨_, ht⟩ _ hs => account_step ht hs
  exact ⟨lost, ha.length_lost, ha.lost, ha.perm, ha.order, ha.numSend,
    (Nat.le_add_right _ _).trans ha.numSuccess⟩

/-- Two items are pushed to a queue of one, then the logger is destroyed before the sender adds
the other one to the cache. -/
def losingOne : List Label :=
  [.caller 0 (.addData (some (DataSender.textItem 1))), .caller 0 .startWorkers, .caller 0 .push,
    .caller 0 (.addData (some (DataSender.textItem 2))), .caller 0 .startWorkers,
    .caller 0 .push] ++
    List.replicate 2 (.sender .run) ++ [.main] ++ clientRuns 0 4 ++ List.replicate 8 .main ++
    [.sender .run]

theorem handed_in_order_losing :
    ∃ s : Lifetime, (s.logger.dropped = [lit "1"] ∧ s.logger.accepted = [lit "1", lit "2"] ∧
        s.logger.sender.pc = .left none) ∧
      ∃ lost : List Bytes, lost.length ≤ 1 ∧ (s.logger.sender.pc.running = true → lost = []) ∧
        s.logger.accepted ~ s.logger.dropped ++
          (s.logger.handed ++ current s.logger.sender.pc ++ lost ++ queued s.logger.sender) ∧
        s.logger.handed ++ current s.logger.sender.pc ++ lost ++ queued s.logger.sender <+
          s.logger.accepted ∧
        s.logger.sender.numSend = s.logger.handed.length ∧
        s.logger.sender.numSuccess ≤ s.logger.sender.numSend := by
  obtain ⟨s, hs, ht⟩ : ∃ s, Reach step (fun _ _ => True) (init 1000 1 .empty) s ∧
      decide (s.logger.dropped = [lit "1"] ∧ s.logger.accepted = [lit "1", lit "2"] ∧
        s.logger.sender.pc = .left none) = true :=
    @Reach.exists_of_exec _ _ step _ _ (fun _ _ => true) _ losingOne (fun _ _ _ => trivial)
      (by decide) (by decide)
  exact ⟨s, of_decide_eq_true ht, handed_in_order hs⟩

end Lifetime

end Outmdsd
