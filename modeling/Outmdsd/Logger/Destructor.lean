import Outmdsd.Logger.Lifetime
import Outmdsd.Logger.ResendPace

/-!
# When the destructor returns

Once the workers have been told to stop, every step of a thread lowers the work that is left
(`work_step`), but for a `poll()` that is tried again after a signal. Until the destructor has
returned, some thread can make such a step (`Going.canStep`), unless a worker is lost in a `poll()`
without a descriptor; a lost worker keeps the destructor waiting for ever (`Inv.not_destroyed`).
Before the workers are told, the destructor can get there from whatever state it finds them in
(`destructor_returns`).
-/

namespace Outmdsd

namespace Lifetime

open BufferedLogger

variable {s s' : Lifetime} {l : Label}

/-! ## The work that is left -/

/-- The steps that the sender has left outside the client, once it was told to stop. -/
def senderLeft : SenderPc → ℕ
  | .loop | .drained | .popped _ | .got _ | .sent => 1
  | .pop | .added _ | .sending _ => 2
  | .touched _ => 3
  | .send _ => 8
  | .missed _ => 9
  | .data _ => 10
  | .taken _ | .getAgain _ => 11
  | .left _ | .aborted => 0

/-- The entries that the sender may still add. -/
def mayAdd : SenderPc → ℕ
  | .taken _ | .touched _ => 1
  | _ => 0

/-- The number of entries the cache may get to. -/
def entriesLeft (s : Lifetime) : ℕ :=
  s.logger.sender.backup.entries.length + mayAdd s.logger.sender.pc

/-- The steps that `ResendOnce` has left outside the client, with at most `n` entries. -/
def roundLeft (n : ℕ) (resending : Option ℕ) : ResenderPc → ℕ
  | .wait => 0
  | .size => 8 * n + 7
  | .copy => 8 * n + 6
  | .filter cacheBak _ => cacheBak.length + 7 * n + 5
  | .copyAgain => 7 * n + 4
  | .send cacheCopy => 7 * cacheCopy.length + 3 - (if resending.isSome then 6 else 0)

/-- The steps that the resender has left outside the client, once it was told to stop. -/
def runLeft (s : Lifetime) : ℕ :=
  match s.run with
  | .test | .testAgain => 1
  | .wait | .woken _ => 2
  | .round => roundLeft s.entriesLeft s.resending s.logger.sender.backup.resender + 2
  | .asleep | .ended => 0

/-- The steps that the reader has left outside the client, once it was told to stop. -/
def readerLeft : ReadLoopPc → ℕ
  | .turn | .got _ => 1
  | .read => 2
  | .process n => n + 2
  | .ended => 0

/-- The steps that the calls of the workers have left. -/
def callsLeft (client : SocketClient) : ℕ :=
  (client.pc 1).rank + (client.pc 2).rank + (client.pc 3).rank

/-- The work that is left once the workers were told to stop. -/
def work (s : Lifetime) : ℕ :=
  (12 - s.main.num) + senderLeft s.logger.sender.pc + s.runLeft + readerLeft s.reader +
    callsLeft s.client

/-- The entries at hand in a round of the resender. -/
def copied : ResenderPc → ℕ
  | .filter cacheBak _ => cacheBak.length
  | .send cacheCopy => cacheCopy.length
  | _ => 0

/-- The lines of its last chunk that the reader may have left. -/
def linesLeft : ReadLoopPc → ℕ
  | .process n => n
  | _ => 0

theorem roundLeft_le (n : ℕ) (resending : Option ℕ) (pc : ResenderPc) :
    roundLeft n resending pc ≤ 8 * n + 7 * copied pc + 7 := by
  cases pc <;> simp only [roundLeft, copied] <;> omega

theorem work_le (h : 9 ≤ s.main.num) :
    s.work ≤ 8 * s.logger.sender.backup.entries.length +
      7 * copied s.logger.sender.backup.resender + linesLeft s.reader + 48 := by
  have hsender : senderLeft s.logger.sender.pc ≤ 11 := by
    unfold senderLeft
    split <;> omega
  have hadd : mayAdd s.logger.sender.pc ≤ 1 := by
    unfold mayAdd
    split <;> omega
  have hrun : s.runLeft ≤ 8 * s.entriesLeft + 7 * copied s.logger.sender.backup.resender + 9 := by
    have := roundLeft_le s.entriesLeft s.resending s.logger.sender.backup.resender
    unfold runLeft
    split <;> omega
  have hreader : readerLeft s.reader ≤ linesLeft s.reader + 2 := by
    cases s.reader <;> simp [readerLeft, linesLeft]
  have h1 := (s.client.pc 1).rank_le
  have h2 := (s.client.pc 2).rank_le
  have h3 := (s.client.pc 3).rank_le
  unfold entriesLeft at hrun
  unfold work callsLeft
  omega

/-! ## A step -/

/-- A step of a thread of the logger, other than another try of `poll()` after a signal. -/
def Label.counts : Label → Bool
  | .client _ (.poll .eintr) => false
  | .main | .sender _ | .resender _ | .reader _ | .client _ _ | .caller _ _ => true
  | .hangUp _ | .tick _ | .otherSchema _ => false

/-- All have been told to stop. -/
structure AllTold (s : Lifetime) : Prop where
  inv : s.Inv
  num : 9 ≤ s.main.num

theorem AllTold.final (h : s.AllTold) : s.client.Final :=
  h.inv.client.final (by have := h.num; omega)

theorem AllTold.stopSender (h : s.AllTold) : s.logger.sender.stopSender = true :=
  h.inv.told 4 (by have := h.num; omega)

theorem AllTold.stopOnceEmpty (h : s.AllTold) :
    s.logger.sender.incomingQueue.stopOnceEmpty = true :=
  h.inv.told 3 (by have := h.num; omega)

theorem AllTold.stopMe (h : s.AllTold) (hr : s.hasResender = true) : s.stopMe = true :=
  h.inv.told 6 (by have := h.num; omega) hr

theorem AllTold.not_asleep (h : s.AllTold) : s.run ≠ .asleep :=
  h.inv.told 7 (by have := h.num; omega)

theorem AllTold.stopRead (h : s.AllTold) : s.stopRead = true :=
  h.inv.told 9 h.num

theorem AllTold.ne_inUse (h : s.AllTold) : s.main ≠ .inUse := fun he => by
  have := h.num
  simp [he, MainPc.num] at this

theorem Inv.step (h : s.Inv) (hs : s.step l = some s') : s'.Inv :=
  ⟨h.client.step hs, h.workers.step hs, h.told.step h.workers hs⟩

/-- The destructor does not go back. -/
theorem num_le_of_step (hs : s.step l = some s') : s.main.num ≤ s'.main.num := by
  cases move hs with
  | destroy hm | clientStopped hm | stopOnceEmpty hm | lockTimer hm | setStopMe hm | notify hm
  | unlockTimer hm | stopRead hm | getSender hm | getResender hm | getReader hm =>
    simp [hm, MainPc.num]
  | stopSender hm =>
    rw [hm]
    dsimp only
    split <;> simp [MainPc.num]
  | _ => exact le_rfl

theorem AllTold.step (h : s.AllTold) (hs : s.step l = some s') : s'.AllTold :=
  ⟨h.inv.step hs, h.num.trans (num_le_of_step hs)⟩

/-! ### The client -/

theorem callsLeft_begin {k : SocketClient} {τ : ℕ} {r : Outcome} (hr : k.pc τ = .returned r)
    (call : ApiCall) : callsLeft (k.begin τ call) ≤ callsLeft k + 5 := by
  have hpc := (SocketClient.stepOf_begin call hr).pc
  have hle := ((k.begin τ call).pc τ).rank_le
  have h : ∀ τ', ((k.begin τ call).pc τ').rank ≤ (k.pc τ').rank + if τ' = τ then 5 else 0 :=
    fun τ' => by
      by_cases hne : τ' = τ
      · subst hne
        simp only [if_true]
        omega
      · rw [hpc τ' hne]
        simp [hne]
  have h1 := h 1
  have h2 := h 2
  have h3 := h 3
  unfold callsLeft
  split at h1 <;> split at h2 <;> split at h3 <;> omega

/-- A step of the client is paid for by the rank of its thread. -/
theorem callsLeft_step {k k' : SocketClient} {cl : SocketClient.Label} (hf : k.Final)
    (hb : SocketClient.Label.goesOn cl) (hk : k.step cl = some k') :
    callsLeft k' + (if cl.advances 1 then 1 else 0) + (if cl.advances 2 then 1 else 0) +
      (if cl.advances 3 then 1 else 0) ≤ callsLeft k := by
  have h1 := SocketClient.rank_step hf (hb.begins 1) hk
  have h2 := SocketClient.rank_step hf (hb.begins 2) hk
  have h3 := SocketClient.rank_step hf (hb.begins 3) hk
  unfold callsLeft
  omega

/-- Only the workers are in calls. -/
theorem worker_of_step (h : s.AllTold) {τ : ℕ} {a : Act} {k : SocketClient}
    (hb : SocketClient.Label.goesOn (.thread τ a)) (hk : s.client.step (.thread τ a) = some k) :
    τ = 1 ∨ τ = 2 ∨ τ = 3 := by
  by_contra hτ
  have hin : s.inCall τ = false := by
    revert hτ
    refine forall_thread (P := fun τ => ¬ (τ = 1 ∨ τ = 2 ∨ τ = 3) → s.inCall τ = false)
      (fun _ => ?_) (by simp) (by simp) (by simp) (fun n _ => rfl) τ
    have hm : s.main ≠ .stopClient := fun he => by
      have := h.num
      simp [he, MainPc.num] at this
    simpa [inCall] using hm
  obtain ⟨r, hr⟩ := h.inv.client.idle τ hin
  cases a with
  | begin call => exact absurd hb id
  | _ => simp [SocketClient.step, SocketClient.threadStep, hr] at hk

theorem callsLeft_thread (h : s.AllTold) {τ : ℕ} {a : Act} {k : SocketClient}
    (hb : SocketClient.Label.goesOn (.thread τ a)) (hk : s.client.step (.thread τ a) = some k) :
    callsLeft k + (if (Label.client τ a).counts then 1 else 0) ≤ callsLeft s.client := by
  have hle := callsLeft_step h.final hb hk
  by_cases ha : a = .poll .eintr
  · subst ha
    simp only [Label.counts, Bool.false_eq_true, if_false]
    omega
  · have hadv : (SocketClient.Label.thread τ a).advances τ = true := by
      cases a with
      | poll answer => cases answer <;> simp_all [SocketClient.Label.advances]
      | _ => simp [SocketClient.Label.advances]
    have hcount : (if (Label.client τ a).counts then 1 else 0) ≤ 1 := by split <;> omega
    obtain rfl | rfl | rfl := worker_of_step h hb hk <;>
      simp only [hadv, if_true] at hle <;> omega

/-! ### The sender -/

theorem length_entries_insert {V : Type*} (m : StringMap V) (k : Bytes) (v : V) :
    (m.insert k v).entries.length ≤ m.entries.length + 1 := by
  rw [AList.entries_insert, List.length_cons]
  exact Nat.succ_le_succ (List.length_eraseP_le ..)

theorem length_entries (b : Backup) : b.entries.length = b.dataCache.entries.length := by
  simp [Backup.entries]

/-- The sender was told to stop: a step outside its call of `Send` lowers what it has left. -/
theorem senderLeft_step {d d' : DataSender} {a : SenderStep} (hstop : d.stopSender = true)
    (hpc : ∀ l, d.pc ≠ .send l) (hpc' : ∀ l, d.pc ≠ .sending l) (hd : d.senderStep a = some d') :
    senderLeft d'.pc < senderLeft d.pc ∧
      d'.backup.entries.length + mayAdd d'.pc ≤ d.backup.entries.length + mayAdd d.pc := by
  have hpoint : ∀ pc, d.interruptPoint pc = d.setPc (.left none) := fun pc => by
    simp [DataSender.interruptPoint, hstop]
  cases DataSender.runMove hd with
  | @add l hp ht =>
    have := length_entries_insert d.backup.dataCache l.item.tag (some l)
    simp only [length_entries, DataSender.setPc, hp, senderLeft, mayAdd]
    omega
  | send hp => exact absurd hp (hpc _)
  | sending hp => exact absurd hp (hpc' _)
  | data hp =>
    obtain ⟨pc, he, hp⟩ := getDataStep_eq_setPc d ‹_›
    rw [he]
    rcases hp with rfl | ⟨l', rfl⟩ | ⟨e, rfl⟩ <;>
      simp [DataSender.setPc, hp, senderLeft, mayAdd]
  | missed hp =>
    obtain ⟨ids, pc, he, hp⟩ := insertStep_eq_setPc d ‹_›
    rw [he]
    rcases hp with ⟨l', rfl⟩ | ⟨e, rfl⟩ <;> simp [DataSender.setPc, hp, senderLeft, mayAdd]
  | drained hp | taken hp =>
    simp only [DataSender.setPc, hp]
    split <;> simp [senderLeft, mayAdd]
  | loop hp | popEnd hp | pop hp | popped hp | addThrew hp | addedThrew hp
  | addedGone hp | added hp | got hp | getAgainThrew hp | getAgain hp | composed hp
  | sent hp =>
    simp [hpoint, DataSender.setPc, hp, senderLeft, mayAdd, hstop]

/-! ### The resender -/

/-- The background threads add no entry. -/
theorem length_entries_backup {b b' : Backup} {bs : BackupStep} (hb : b.step bs = some b') :
    b'.entries.length ≤ b.entries.length := by
  rw [length_entries, length_entries]
  cases bs with
  | reader e =>
    cases hb
    cases e with
    | cut l n => exact le_rfl
    | line l =>
      simp only [Backup.readerStep, DataReader.LineEvent.item?, DataReader.dataCache_processItem,
        Option.getD_some]
      split
      · exact le_rfl
      · rw [StringMap.entries_erase]
        exact List.length_filter_le ..
  | tick ns =>
    cases hb
    exact le_rfl
  | resender r =>
    cases Backup.resenderMove hb with
    | erase hpc =>
      dsimp only
      rw [ConcurrentMap.entries_eraseList]
      exact List.length_filter_le ..
    | @sent _ _ delivered | @threw _ _ delivered => cases delivered <;> exact le_rfl
    | _ => exact le_rfl

theorem roundLeft_mono {m n : ℕ} (h : m ≤ n) (resending : Option ℕ) (pc : ResenderPc) :
    roundLeft m resending pc ≤ roundLeft n resending pc := by
  cases pc <;> simp only [roundLeft] <;> omega

/-- A step of `ResendOnce` outside its call of `Send` lowers what it has left. -/
theorem roundLeft_step {b b' : Backup} {r : ResenderStep} {n : ℕ} (hr : inRound r = true)
    (hb : b.resenderStep r = some b') (hn : b.entries.length ≤ n) :
    roundLeft n none b'.resender < roundLeft n none b.resender := by
  have hpc := Backup.resender_of_step hb
  cases r with
  | wake => cases hr
  | size =>
    cases Backup.resenderMove hb
    simp only [hpc]
    split <;> simp [roundLeft]
  | copy =>
    cases Backup.resenderMove hb
    simp only [hpc, roundLeft]
    omega
  | copyAgain =>
    cases Backup.resenderMove hb
    simp [hpc, roundLeft]
    omega
  | check i =>
    obtain ⟨cacheBak, keysToRemove, key, v, keysToRemove', hpc', hi, rfl, -⟩ := Backup.of_check hb
    have hlt := (List.getElem?_eq_some_iff.mp hi).1
    simp only [hpc', roundLeft, List.length_eraseIdx, hlt, if_true]
    omega
  | erase =>
    cases Backup.resenderMove hb with
    | erase hpc' => simp [hpc', roundLeft]
  | send i ok delivered =>
    obtain ⟨cacheCopy, key, v, hpc', hi, h⟩ := Backup.of_send hb
    have hlt := (List.getElem?_eq_some_iff.mp hi).1
    rcases h with ⟨-, rfl⟩ | ⟨l, received, -, rfl | rfl⟩ <;>
      simp [hpc', roundLeft, List.length_eraseIdx, hlt]
    · omega
    · omega
  | done =>
    cases Backup.resenderMove hb
    simp [hpc, roundLeft]

/-- The end of a call of `Send` for an entry. -/
theorem roundLeft_endResend {b b' : Backup} {i n : ℕ} {ok delivered : Bool}
    {cacheCopy : List (Bytes × LogItemPtr)} {k : Bytes} {l : LogItem}
    (hpc : b.resender = .send cacheCopy) (hi : cacheCopy[i]? = some (k, some l))
    (hb : b.resenderStep (.send i ok delivered) = some b') :
    roundLeft n none b'.resender < roundLeft n (some i) b.resender := by
  have hlt := (List.getElem?_eq_some_iff.mp hi).1
  obtain ⟨cacheCopy', key, v, hpc', hi', h⟩ := Backup.of_send hb
  obtain rfl : cacheCopy = cacheCopy' := by
    rw [hpc] at hpc'
    exact ResenderPc.send.inj hpc'
  rcases h with ⟨-, rfl⟩ | ⟨l, received, -, rfl | rfl⟩ <;>
    simp only [hpc, roundLeft, List.length_eraseIdx, hlt, if_true, Option.isSome_some,
      Option.isSome_none, Bool.false_eq_true, if_false] <;> omega

/-! ### The system -/

theorem runLeft_le {s s' : Lifetime} (hr : s'.run = s.run) (hi : s'.resending = s.resending)
    (hb : s'.logger.sender.backup.resender = s.logger.sender.backup.resender)
    (hn : s'.entriesLeft ≤ s.entriesLeft) : s'.runLeft ≤ s.runLeft := by
  unfold runLeft
  rw [hr, hi, hb]
  have := roundLeft_mono hn s.resending s.logger.sender.backup.resender
  split <;> omega

theorem runLeft_of_round (hr : s.run = .round) :
    s.runLeft = roundLeft s.entriesLeft s.resending s.logger.sender.backup.resender + 2 := by
  simp only [runLeft, hr]

/-- A step of the cache or of its resender adds no entry. -/
theorem entriesLeft_backup {bs : BackupStep} {g : BufferedLogger}
    (hg : s.logger.step (.backup bs) = some g) :
    ∃ b, s.logger.sender.backup.step bs = some b ∧ g.sender.backup = b ∧
      g.sender.pc = s.logger.sender.pc ∧
      g.sender.backup.entries.length + mayAdd g.sender.pc ≤ s.entriesLeft := by
  obtain ⟨b, hb, rfl⟩ := of_step_backup hg
  exact ⟨b, hb, rfl, rfl, Nat.add_le_add_right (length_entries_backup hb) _⟩

/-- The work that a step of a worker does. -/
theorem work_of {s s' : Lifetime} {l : Label} (hm : s'.main = s.main)
    (h : senderLeft s'.logger.sender.pc + s'.runLeft + readerLeft s'.reader +
        callsLeft s'.client + (if l.counts then 1 else 0) ≤
      senderLeft s.logger.sender.pc + s.runLeft + readerLeft s.reader +
        callsLeft s.client) :
    s'.work + (if l.counts then 1 else 0) ≤ s.work := by
  unfold work
  rw [hm]
  omega

/-- The resender has gone on outside the client. -/
theorem work_run {s : Lifetime} {l : Label} {pc : RunPc}
    (h : runLeft { s with run := pc } < s.runLeft) :
    work { s with run := pc } + (if l.counts then 1 else 0) ≤ s.work := by
  refine work_of rfl ?_
  have hone : (if l.counts then 1 else 0) ≤ 1 := by split <;> omega
  dsimp only
  omega

/-- The reader has gone on outside the client. -/
theorem work_reader {s : Lifetime} {l : Label} {pc : ReadLoopPc}
    (h : readerLeft pc < readerLeft s.reader) :
    work { s with reader := pc } + (if l.counts then 1 else 0) ≤ s.work := by
  refine work_of rfl ?_
  have hone : (if l.counts then 1 else 0) ≤ 1 := by split <;> omega
  have hrun : runLeft { s with reader := pc } = s.runLeft := rfl
  dsimp only
  omega

theorem senderStep_of_step {g g' : BufferedLogger} {a : SenderStep}
    (hg : g.step (.sender a) = some g') : g.sender.senderStep a = some g'.sender := by
  obtain ⟨d, hd, rfl⟩ := of_step_sender hg
  exact hd

/-- **The work that is left pays for the steps.** -/
theorem work_step (h : s.AllTold) (hs : s.step l = some s') :
    s'.work + (if l.counts then 1 else 0) ≤ s.work := by
  have hnum := h.num
  have hone : (if l.counts then 1 else 0) ≤ 1 := by split <;> omega
  have hstopMe : (s.logger.started && s.hasResender) = true → s.stopMe = true := fun hw =>
    h.stopMe (Bool.and_eq_true_iff.mp hw).2
  cases move hs with
  | caller hm => exact absurd hm h.ne_inUse
  | destroy hm | clientStopped hm | stopOnceEmpty hm | stopSender hm | lockTimer hm | setStopMe hm
  | notify hm | unlockTimer hm | stopRead hm => simp [hm, MainPc.num] at hnum
  | getSender hm | getResender hm | getReader hm =>
    have hrun : ∀ pc, runLeft { s with main := pc } = s.runLeft := fun _ => rfl
    simp only [work, hm, MainPc.num, hrun]
    omega
  | @sender a g hpc hpc' hg =>
    have hd := senderStep_of_step hg
    obtain ⟨hleft, hadd⟩ := senderLeft_step h.stopSender hpc hpc' hd
    have hrun := @runLeft_le s { s with logger := g } rfl rfl (senderFrame hd).resender hadd
    refine work_of rfl ?_
    dsimp only at hrun ⊢
    omega
  | @beginSend l g hpc hg =>
    obtain ⟨r, hr⟩ := h.inv.client.idle 1 (by simp [inCall, inSend, hpc])
    have hcalls := callsLeft_begin hr (.send (cStr l.item.djsonData))
    have hd := senderStep_of_step hg
    have hrun := @runLeft_le s
      { s with logger := g, client := s.client.begin 1 (.send (cStr l.item.djsonData)) } rfl rfl
      (senderFrame hd).resender
      (by simp [entriesLeft, DataSender.senderStep_send hpc hd, hpc, mayAdd, DataSender.setPc])
    have hpc' : g.sender.pc = .sending l := by rw [DataSender.senderStep_send hpc hd]; rfl
    refine work_of rfl ?_
    simp only [hpc, hpc', senderLeft]
    omega
  | @endSend l r delivered g hpc hr hg =>
    have hd := senderStep_of_step hg
    have hsent : g.sender.pc = .sent ∧
        g.sender.backup.entries.length = s.logger.sender.backup.entries.length := by
      generalize g.sender = d at hd
      cases DataSender.runMove hd with
      | sending => cases delivered <;> exact ⟨rfl, rfl⟩
    have hrun := @runLeft_le s { s with logger := g } rfl rfl
      (senderFrame hd).resender (by simp [entriesLeft, hsent, hpc, mayAdd])
    refine work_of rfl ?_
    simp only [hsent.1, hpc, senderLeft]
    omega
  | runTest hw hr =>
    refine work_run ?_
    simp [runLeft, hr, hstopMe hw]
  | runWait hw hr =>
    refine work_run ?_
    rcases hr with ⟨hr, -⟩ | hr <;> simp [runLeft, hr, hstopMe hw]
  | runStopped hw hr =>
    refine work_run ?_
    simp [runLeft, hr]
  | roundBegin hw hr hn => exact absurd ((hstopMe hw).symm.trans hn) (by decide)
  | roundEnd hw hr hb =>
    refine work_run ?_
    simp [runLeft, hr, hb]
  | awake _ hw hr => exact absurd hr h.not_asleep
  | @round r g hw hr hn hin hg =>
    obtain ⟨b, hb, hgb, hpc, hadd⟩ := entriesLeft_backup hg
    have hlt := roundLeft_step hin hb
      (Nat.le_add_right s.logger.sender.backup.entries.length (mayAdd s.logger.sender.pc))
    have hmono := roundLeft_mono hadd none b.resender
    have hrun : runLeft { s with logger := g } < s.runLeft := by
      rw [runLeft_of_round hr, runLeft_of_round (s := { s with logger := g }) hr]
      simp only [entriesLeft, hgb, hn] at hadd hmono ⊢
      omega
    refine work_of rfl ?_
    simp only [hpc]
    omega
  | @beginResend i schema cacheCopy k l hw hr hn hb hi =>
    obtain ⟨r, hr'⟩ := h.inv.client.idle 2 (by simp [inCall, hn])
    have hcalls := callsLeft_begin hr' (.send (cStr (l.message schema)))
    have hlt := (List.getElem?_eq_some_iff.mp hi).1
    refine work_of rfl ?_
    simp only [runLeft, hr, hn, hb, roundLeft, Option.isSome_some, Option.isSome_none, if_true,
      Bool.false_eq_true, if_false]
    omega
  | @endResend i r delivered g hw hn hr hg =>
    obtain ⟨hrun, cacheCopy, k, l, hc, hi⟩ := h.inv.workers.resending i hn
    obtain ⟨b, hb, hgb, hpc, hadd⟩ := entriesLeft_backup hg
    have hlt := @roundLeft_endResend _ _ _ s.entriesLeft _ _ _ _ _ hc hi hb
    have hmono := roundLeft_mono hadd none b.resender
    refine work_of rfl ?_
    simp only [runLeft, hrun, hn, hpc, hgb, entriesLeft] at hadd hmono hlt ⊢
    omega
  | readStopped hw hr | processed hw hr =>
    refine work_reader ?_
    simp [readerLeft, hr]
  | beginRead hw hr hn => exact absurd (h.stopRead.symm.trans hn) (by decide)
  | endRead hw hr hc hp =>
    refine work_reader ?_
    rcases hp with rfl | rfl | ⟨n, rfl⟩ <;> simp [readerLeft, hr]
  | got hw hr =>
    refine work_reader ?_
    simp [readerLeft, hr, h.stopRead]
  | @line n e g hr hg =>
    obtain ⟨b, hb, hgb, hpc, hadd⟩ := entriesLeft_backup hg
    have hrun := @runLeft_le s { s with logger := g, reader := .process n } rfl rfl
      (hgb ▸ resender_backup hb (by simp)) hadd
    refine work_of rfl ?_
    simp only [hpc, hr, readerLeft]
    omega
  | client hb hk =>
    have hcalls := callsLeft_thread h hb hk
    have hrun : ∀ k, runLeft { s with client := k } = s.runLeft := fun _ => rfl
    refine work_of rfl ?_
    simp only [hrun]
    omega
  | @hangUp n k hk =>
    have hcalls : callsLeft k = callsLeft s.client := by
      cases hk
      rfl
    exact work_of rfl (by
      dsimp only
      rw [hcalls]
      exact le_rfl)
  | @tick ns g hg =>
    obtain ⟨b, hb, hgb, hpc, hadd⟩ := entriesLeft_backup hg
    have hrun := @runLeft_le s { s with logger := g } rfl rfl
      (hgb ▸ resender_backup hb (by simp)) hadd
    refine work_of rfl ?_
    simp only [hpc, Label.counts, Bool.false_eq_true, if_false]
    omega
  | otherSchema hg =>
    obtain ⟨ids, -, rfl⟩ := of_step_otherSchema hg
    exact le_rfl

/-! ## What holds a thread up -/

/-- Nothing is pushed between the end of the queue and the assertion that it is empty. -/
def NoLatePush (s : Lifetime) : Label → Prop
  | .caller _ .push => s.logger.sender.pc ≠ .drained
  | _ => True

/-- The sender finds the queue empty where it asserts that, and has not aborted. -/
structure Unaborted (s : Lifetime) : Prop where
  drained : s.logger.sender.pc = .drained →
    s.logger.sender.incomingQueue.stopOnceEmpty = true ∧
      s.logger.sender.incomingQueue.dataQueue = []
  notAborted : s.logger.sender.pc ≠ .aborted

/-- After the destructor has begun, nothing is pushed. -/
theorem noLatePush_of_step (hm : s.main ≠ .inUse) (hs : s.step l = some s') : s.NoLatePush l := by
  cases move hs with
  | caller hm' => exact absurd hm' hm
  | _ => trivial

/-- The sender has made a step. -/
theorem Unaborted.sender (h : s.Unaborted) {a : SenderStep} {g : BufferedLogger}
    (hg : s.logger.step (.sender a) = some g) (client : SocketClient) :
    Unaborted { s with logger := g, client := client } := by
  have hf := senderFrame (senderStep_of_step hg)
  refine ⟨hf.drained, fun ha => ?_⟩
  obtain ⟨hd, hne⟩ := hf.aborted ha
  exact hne (h.drained hd).2

theorem Unaborted.step (h : s.Unaborted) (hok : s.NoLatePush l) (hs : s.step l = some s') :
    s'.Unaborted := by
  cases move hs with
  | @caller c a g hm hg =>
    obtain ⟨hpc, -, -, -, hq⟩ := caller_frame hg
    refine ⟨fun hd => ?_, hpc ▸ h.notAborted⟩
    have hd' : s.logger.sender.pc = .drained := hpc.symm.trans hd
    obtain ⟨hstop, hempty⟩ := h.drained hd'
    by_cases ha : a = .push
    · subst ha
      exact absurd hd' hok
    · exact ⟨(hq ha).2 hstop, (hq ha).1.trans hempty⟩
  | stopOnceEmpty => exact ⟨fun hd => ⟨rfl, (h.drained hd).2⟩, h.notAborted⟩
  | sender _ _ hg => exact h.sender hg s.client
  | beginSend _ hg => exact h.sender hg _
  | endSend _ _ hg => exact h.sender hg s.client
  | roundBegin _ _ _ hg | round _ _ _ _ hg | endResend _ _ _ hg | line _ hg | tick hg =>
    obtain ⟨b, -, rfl⟩ := of_step_backup hg
    exact ⟨h.drained, h.notAborted⟩
  | otherSchema hg =>
    obtain ⟨ids, -, rfl⟩ := of_step_otherSchema hg
    exact ⟨h.drained, h.notAborted⟩
  | _ => exact ⟨h.drained, h.notAborted⟩

/-- **After the client was stopped, it is settled which calls are lost.** -/
theorem Inv.lost_step (h : s.Inv) (hm : 2 ≤ s.main.num) (hs : s.step l = some s') (τ : ℕ) :
    s'.client.Lost τ ↔ s.client.Lost τ := by
  have hf := h.client.final hm
  cases move hs with
  | destroy hm' => simp [hm', MainPc.num] at hm
  | beginSend hpc hg =>
    obtain ⟨r, hr⟩ := h.client.idle 1 (by simp [inCall, inSend, hpc])
    exact hf.lost_step (begin_eq_step hr _) τ
  | beginResend hw hrun hn =>
    obtain ⟨r, hr⟩ := h.client.idle 2 (by simp [inCall, hn])
    exact hf.lost_step (begin_eq_step hr _) τ
  | beginRead hw hr =>
    obtain ⟨r, hr'⟩ := h.client.returned_reader (by simp [hr])
    exact hf.lost_step (begin_eq_step hr' _) τ
  | client _ hk | hangUp hk => exact hf.lost_step hk τ
  | _ => exact Iff.rfl

/-! ## Some thread goes on -/

/-- Some thread can make a step that counts. -/
def CanStep (s : Lifetime) : Prop := ∃ l s', l.counts = true ∧ s.step l = some s'

/-- All have been told to stop, and nothing holds a thread up for ever. -/
structure Going (s : Lifetime) : Prop where
  told : s.AllTold
  unaborted : s.Unaborted
  notLost : ∀ τ, ¬ s.client.Lost τ

theorem Going.step (h : s.Going) (hs : s.step l = some s') : s'.Going where
  told := h.told.step hs
  unaborted := h.unaborted.step (noLatePush_of_step h.told.ne_inUse hs) hs
  notLost τ hl := by
    have hnum := h.told.num
    exact h.notLost τ ((h.told.inv.lost_step (by omega) hs τ).mp hl)

/-- As long as a worker is in its call, some step of the client is there to be made. -/
theorem Going.client_canStep (h : s.Going) {τ : ℕ} (hr : ∀ r, s.client.pc τ ≠ .returned r) :
    s.CanStep := by
  obtain ⟨τ', a, k, ⟨hgo, ha⟩, hk⟩ :=
    h.told.final.exists_step h.told.inv.client.sendHeld h.notLost hr
  refine ⟨.client τ' a, { s with client := k }, ?_, ?_⟩
  · cases a with
    | poll answer => cases answer <;> simp_all [Label.counts]
    | _ => rfl
  · cases a with
    | begin call => exact absurd hgo id
    | _ => simp only [Lifetime.step, hk, Option.map_some]

/-- A step of the sender in the logger is one of the system, outside its call of `Send`. -/
theorem step_sender {a : SenderStep} {d : DataSender} (hs : s.logger.started = true)
    (hpc : ∀ l, s.logger.sender.pc ≠ .send l) (hpc' : ∀ l, s.logger.sender.pc ≠ .sending l)
    (hd : s.logger.sender.senderStep a = some d) : s.CanStep := by
  refine ⟨.sender a, { s with logger := { s.logger with
    sender := d, handed := s.logger.handed ++ handedBy s.logger.sender a } }, rfl, ?_⟩
  simp only [Lifetime.step, hs, if_true, Lifetime.senderStep]
  split
  · exact absurd ‹_› (hpc _)
  · exact absurd ‹_› (hpc' _)
  · exact absurd ‹_› (hpc _)
  · exact absurd ‹_› (hpc' _)
  · simp [BufferedLogger.step, hs, hd]

/-- A sender that has not ended and is in no call can make a step. -/
theorem exists_senderStep {d : DataSender} (hr : d.pc.ready = false) (ha : d.pc ≠ .aborted)
    (hpc : ∀ l, d.pc ≠ .sending l) (hq : d.incomingQueue.stopOnceEmpty = true)
    (hc : ∀ k, d.backup.dataCache.lookup k ≠ some none) :
    ∃ d', d.senderStep .run = some d' := by
  cases hp : d.pc with
  | left e => simp [hp, SenderPc.ready] at hr
  | aborted => exact absurd hp ha
  | sending l => exact absurd hp (hpc l)
  | pop =>
    simp only [DataSender.senderStep, hp, ConcurrentQueue.waitAndPop]
    cases d.incomingQueue.dataQueue with
    | nil => exact ⟨d.setPc .drained, by simp [hq]⟩
    | cons x xs => exact ⟨_, rfl⟩
  | touched l =>
    simp only [DataSender.senderStep, hp]
    cases d.backup.add l.item.tag l <;> exact ⟨_, rfl⟩
  | added tag =>
    simp only [DataSender.senderStep, hp]
    cases ConcurrentMap.get d.backup.dataCache tag with
    | error e => exact ⟨_, rfl⟩
    | ok p => cases p <;> exact ⟨_, rfl⟩
  | getAgain tag =>
    simp only [DataSender.senderStep, hp]
    cases hg : ConcurrentMap.get d.backup.dataCache tag with
    | error e => exact ⟨_, rfl⟩
    | ok p =>
      cases p with
      | none => exact absurd (ConcurrentMap.lookup_of_get hg) (hc tag)
      | some l => exact ⟨_, rfl⟩
  | _ => exact ⟨_, by simp only [DataSender.senderStep, hp]; rfl⟩

/-- The sender that has not ended goes on, or is in its call. -/
theorem Going.sender_canStep (h : s.Going) (hs : s.logger.started = true)
    (hr : s.logger.sender.pc.ready = false) : s.CanStep := by
  by_cases hpc' : ∃ l, s.logger.sender.pc = .sending l
  · obtain ⟨l, hl⟩ := hpc'
    by_cases hc : ∃ r, s.client.pc 1 = .returned r
    · obtain ⟨r, hc⟩ := hc
      obtain ⟨g, hg⟩ : ∃ g, s.logger.step (.sender (.send (decide (r = .done)) false)) = some g :=
        ⟨_, by simp [BufferedLogger.step, hs, DataSender.senderStep, hl]; rfl⟩
      refine ⟨.sender (.send (decide (r = .done)) false), { s with logger := g }, rfl, ?_⟩
      simp [Lifetime.step, Lifetime.senderStep, hs, hl, hc, hg]
    · exact h.client_canStep fun r hc' => hc ⟨r, hc'⟩
  · have hpc' : ∀ l, s.logger.sender.pc ≠ .sending l := fun l hl => hpc' ⟨l, hl⟩
    obtain ⟨d, hd⟩ := exists_senderStep hr h.unaborted.notAborted hpc' h.told.stopOnceEmpty
      h.told.inv.workers.cached
    by_cases hpc : ∃ l, s.logger.sender.pc = .send l
    · obtain ⟨l, hl⟩ := hpc
      obtain ⟨g, hg⟩ : ∃ g, s.logger.step (.sender .run) = some g :=
        ⟨_, by simp only [BufferedLogger.step, hs, if_true, hd, Option.map_some]; rfl⟩
      refine ⟨.sender .run,
        { s with logger := g, client := s.client.begin 1 (.send (cStr l.item.djsonData)) }, rfl, ?_⟩
      simp [Lifetime.step, Lifetime.senderStep, hs, hl, hg]
    · exact step_sender hs (fun l hl => hpc ⟨l, hl⟩) hpc' hd

/-- A step of `ResendOnce` in the cache is one of the system. -/
theorem exists_backup {r : ResenderStep} {b : Backup}
    (hw : (s.logger.started && s.hasResender) = true)
    (hb : s.logger.sender.backup.resenderStep r = some b) :
    ∃ g, s.logger.step (.backup (.resender r)) = some g := by
  obtain ⟨hs, hc⟩ := Bool.and_eq_true_iff.mp hw
  have hc' : s.logger.sender.caching = true := hc
  refine ⟨{ s.logger with
    sender := { s.logger.sender with backup := b }
    acked := s.logger.acked ++ ackedBy s.logger.sender.backup (.resender r)
    expired := s.logger.expired ++ expiredBy s.logger.sender.backup (.resender r) }, ?_⟩
  simp [BufferedLogger.step, hs, BufferedLogger.backupStep, hc', Backup.step, hb]

/-- A step of `ResendOnce` outside `Send`. -/
theorem canStep_round {r : ResenderStep} {b : Backup}
    (hw : (s.logger.started && s.hasResender) = true) (hr : s.run = .round)
    (hn : s.resending = none) (hin : inRound r = true)
    (hb : s.logger.sender.backup.resenderStep r = some b) : s.CanStep := by
  obtain ⟨g, hg⟩ := exists_backup hw hb
  refine ⟨.resender (.round r), { s with logger := g }, rfl, ?_⟩
  simp [Lifetime.step, hw, Lifetime.resenderStep, hr, hn, hin, hg]

/-- The resender in a round goes on, or is in its call. -/
theorem Going.round_canStep (h : s.Going) (hw : (s.logger.started && s.hasResender) = true)
    (hr : s.run = .round) : s.CanStep := by
  cases hn : s.resending with
  | some i =>
    obtain ⟨-, cacheCopy, k, l, hpc, hi⟩ := h.told.inv.workers.resending i hn
    by_cases hc : ∃ r, s.client.pc 2 = .returned r
    · obtain ⟨r, hc⟩ := hc
      obtain ⟨g, hg⟩ := exists_backup (r := .send i (decide (r = .done)) false) hw
        (by simp only [Backup.resenderStep, hpc, hi]; rfl)
      refine ⟨.resender (.return false), { s with logger := g, resending := none }, rfl, ?_⟩
      simp [Lifetime.step, hw, Lifetime.resenderStep, hn, hc, hg]
    · exact h.client_canStep fun r hc' => hc ⟨r, hc'⟩
  | none =>
    cases hpc : s.logger.sender.backup.resender with
    | wait =>
      refine ⟨.resender .run, { s with run := .test }, rfl, ?_⟩
      simp [Lifetime.step, hw, Lifetime.resenderStep, runStep, hr, hpc]
    | size =>
      exact canStep_round (r := .size) hw hr hn rfl (by simp only [Backup.resenderStep, hpc]; rfl)
    | copy =>
      exact canStep_round (r := .copy) hw hr hn rfl (by simp only [Backup.resenderStep, hpc]; rfl)
    | copyAgain =>
      exact canStep_round (r := .copyAgain) hw hr hn rfl
        (by simp only [Backup.resenderStep, hpc]; rfl)
    | filter cacheBak keysToRemove =>
      cases cacheBak with
      | nil =>
        exact canStep_round (r := .erase) hw hr hn rfl
          (by simp only [Backup.resenderStep, hpc]; rfl)
      | cons e es =>
        obtain ⟨b, hb⟩ : ∃ b, s.logger.sender.backup.resenderStep (.check 0) = some b := by
          obtain ⟨k, v⟩ := e
          cases v <;> exact ⟨_, by simp only [Backup.resenderStep, hpc]; rfl⟩
        exact canStep_round hw hr hn rfl hb
    | send cacheCopy =>
      cases cacheCopy with
      | nil =>
        exact canStep_round (r := .done) hw hr hn rfl (by simp only [Backup.resenderStep, hpc]; rfl)
      | cons e es =>
        obtain ⟨k, v⟩ := e
        cases v with
        | none =>
          exact canStep_round (r := .send 0 false false) hw hr hn rfl
            (by simp only [Backup.resenderStep, hpc]; rfl)
        | some l =>
          refine ⟨.resender (.call 0 (0, [])), { s with
            client := s.client.begin 2 (.send (cStr (l.message (0, []))))
            resending := some 0 }, rfl, ?_⟩
          simp [Lifetime.step, hw, Lifetime.resenderStep, hr, hn, hpc]

/-- The resender that has not ended goes on, or is in its call. -/
theorem Going.resender_canStep (h : s.Going)
    (hw : (s.logger.started && s.hasResender) = true) (hm : s.main.holdsTimer = false)
    (hr : s.run ≠ .ended) : s.CanStep := by
  have hstop := h.told.stopMe (Bool.and_eq_true_iff.mp hw).2
  have hgo : ∀ pc, s.runStep = some { s with run := pc } → s.CanStep := fun pc hs =>
    ⟨.resender .run, { s with run := pc }, rfl, by
      simp [Lifetime.step, hw, Lifetime.resenderStep, hs]⟩
  cases hrun : s.run with
  | ended => exact absurd hrun hr
  | asleep => exact absurd hrun h.told.not_asleep
  | round => exact h.round_canStep hw hrun
  | test => exact hgo .ended (by simp [runStep, hrun, hstop])
  | testAgain => exact hgo .ended (by simp [runStep, hrun, hstop])
  | wait => exact hgo .testAgain (by simp [runStep, hrun, timerTest, hm, hstop])
  | woken timedOut => exact hgo .testAgain (by simp [runStep, hrun, timerTest, hm, hstop])

/-- The reader that has not ended goes on, or is in its call. -/
theorem Going.reader_canStep (h : s.Going) (hs : s.logger.started = true)
    (hr : s.reader ≠ .ended) : s.CanStep := by
  have hgo : ∀ t, s.readerStep .run = some t → s.CanStep := fun t ht =>
    ⟨.reader .run, t, rfl, by simp [Lifetime.step, hs, ht]⟩
  cases hpc : s.reader with
  | ended => exact absurd hpc hr
  | turn => exact hgo _ (by simp only [Lifetime.readerStep, hpc]; rfl)
  | got n => exact hgo _ (by simp only [Lifetime.readerStep, hpc]; rfl)
  | process n => exact hgo { s with reader := .turn } (by simp [Lifetime.readerStep, hpc])
  | read =>
    by_cases hc : ∃ r, s.client.pc 3 = .returned r
    · obtain ⟨r, hc⟩ := hc
      simp only [Lifetime.readerStep, hpc, hc] at hgo
      cases r with
      | stopped | done | threw => exact hgo _ rfl
      | read n => cases n <;> exact hgo _ rfl
    · exact h.client_canStep fun r hc' => hc ⟨r, hc'⟩

/-- **Until the destructor has returned, some thread can go on.** -/
theorem Going.canStep (h : s.Going) (hd : s.main ≠ .destroyed) : s.CanStep := by
  have hmain : ∀ pc, s.mainStep = some { s with main := pc } → s.CanStep := fun pc hs =>
    ⟨.main, { s with main := pc }, rfl, hs⟩
  have hnum := h.told.num
  cases hm : s.main with
  | destroyed => exact absurd hm hd
  | getSender =>
    by_cases hr : s.logger.started = true → s.logger.sender.pc.ready = true
    · exact hmain .getResender (by simp only [mainStep, hm, if_pos hr])
    · obtain ⟨hs, hr⟩ := Classical.not_imp.mp hr
      exact h.sender_canStep hs (Bool.eq_false_iff.mpr hr)
  | getResender =>
    by_cases hr : s.logger.started = true ∧ s.hasResender = true → s.run = .ended
    · exact hmain .getReader (by simp only [mainStep, hm, if_pos hr])
    · obtain ⟨hw, hr⟩ := Classical.not_imp.mp hr
      exact h.resender_canStep (Bool.and_eq_true_iff.mpr hw) (by rw [hm]; rfl) hr
  | getReader =>
    by_cases hr : s.logger.started = true → s.reader = .ended
    · exact hmain .destroyed (by simp only [mainStep, hm, if_pos hr])
    · obtain ⟨hs, hr⟩ := Classical.not_imp.mp hr
      exact h.reader_canStep hs hr
  | _ => simp [hm, MainPc.num] at hnum

/-! ## To the end -/

theorem ofThread_of_counts (hl : l.counts = true) : l.ofThread = true := by
  cases l with
  | hangUp | tick | otherSchema => cases hl
  | _ => rfl

/-- A step of a thread of the logger. -/
def OfThread (l : Label) : Prop := l.ofThread = true

/-- A run of the client within its calls is one of the system. -/
theorem canReach_client {Q : SocketClient → Prop}
    (h : CanReach SocketClient.step SocketClient.Label.goesOn s.client Q) :
    CanReach Lifetime.step OfThread s fun t => Q t.client ∧ t = { s with client := t.client } := by
  obtain ⟨ls, k, hls, hk, hq⟩ := h
  induction ls generalizing s with
  | nil =>
    obtain rfl : s.client = k := Option.some.inj hk
    exact .here ⟨hq, rfl⟩
  | cons cl ls ih =>
    obtain ⟨k₁, hk₁, hk'⟩ := Option.bind_eq_some_iff.mp hk
    obtain ⟨hcl, hls'⟩ := List.forall_mem_cons.mp hls
    cases cl with
    | hangUp n => cases hcl
    | thread τ a =>
      have hs : s.step (.client τ a) = some { s with client := k₁ } := by
        cases a with
        | begin call => cases hcl
        | _ => simp only [Lifetime.step, hk₁, Option.map_some]
      have hof : OfThread (.client τ a) := rfl
      exact .head hof hs (ih (s := { s with client := k₁ }) hls' hk')

/-- Between the call of `Stop` and the wait for the tasks, the destructor goes on by itself. -/
theorem exists_mainStep (h2 : 2 ≤ s.main.num) (h9 : s.main.num < 9) :
    ∃ s', s.step .main = some s' ∧ s.main.num < s'.main.num := by
  simp only [Lifetime.step]
  cases hm : s.main with
  | inUse | stopClient => simp [hm, MainPc.num] at h2
  | getSender | getResender | getReader | destroyed => simp [hm, MainPc.num] at h9
  | stopSender =>
    refine ⟨_, by simp only [mainStep, hm]; rfl, ?_⟩
    dsimp only
    split <;> simp [MainPc.num]
  | _ => exact ⟨_, by simp only [mainStep, hm]; rfl, by simp [MainPc.num]⟩

theorem ne_inUse_of_num {n : ℕ} (hn : 0 < n) (hm : n ≤ s.main.num) : s.main ≠ .inUse := fun he => by
  simp only [he, MainPc.num] at hm
  omega

/-- After the client was stopped, the destructor gets to where all have been told. -/
theorem Inv.canTell (h : s.Inv) (hu : s.Unaborted) (hm : 2 ≤ s.main.num)
    (hlost : ∀ τ, ¬ s.client.Lost τ) : CanReach Lifetime.step OfThread s Going := by
  refine exists_run
    (I := fun t => t.Inv ∧ t.Unaborted ∧ 2 ≤ t.main.num ∧ ∀ τ, ¬ t.client.Lost τ)
    (μ := fun t => 12 - t.main.num) (fun t ht => ?_) ⟨h, hu, hm, hlost⟩
  obtain ⟨hinv, hu, h2, hlost⟩ := ht
  rcases Nat.lt_or_ge t.main.num 9 with h9 | h9
  · have hof : OfThread .main := rfl
    obtain ⟨t', hs, hlt⟩ := exists_mainStep h2 h9
    have hu' := hu.step (noLatePush_of_step (ne_inUse_of_num (by decide) h2) hs) hs
    refine .single hof hs (.inr ⟨⟨hinv.step hs, hu', by omega, fun τ hl => ?_⟩, by omega⟩)
    exact hlost τ ((hinv.lost_step h2 hs τ).mp hl)
  · exact .here (.inl ⟨⟨hinv, h9⟩, hu, hlost⟩)

theorem ne_inUse_of_step (hm : s.main ≠ .inUse) (hs : s.step l = some s') : s'.main ≠ .inUse := by
  have hle := num_le_of_step hs
  intro he
  cases hpc : s.main with
  | inUse => exact hm hpc
  | _ => simp [hpc, he, MainPc.num] at hle

/-- While the destructor stops the client, only the workers can be before a `poll()`. -/
theorem Inv.polls_mem (h : s.Inv) (hm : s.main = .stopClient) :
    ∀ τ, (s.client.pc τ).pollFd? none = some none → τ ∈ [1, 2, 3] := by
  have hidle : ∀ τ, s.inCall τ = false → (s.client.pc τ).pollFd? none ≠ some none := fun τ hτ => by
    obtain ⟨r, hr⟩ := h.client.idle τ hτ
    rw [hr]
    exact nofun
  have hstop := h.client.stop
  simp only [hm, StopDone] at hstop
  refine forall_thread (fun hp => ?_) (by simp) (by simp) (by simp)
    fun n hp => absurd hp (hidle _ rfl)
  cases hpc : s.client.pc 0 with
  | send | read =>
    rw [hpc] at hstop
    exact absurd hstop id
  | _ => simp [hpc, Pc.pollFd?] at hp

/-- The destructor in its call of `Stop` gets out of it, and no call gets lost by that. -/
theorem Inv.canStopClient (h : s.Inv) (hm : s.main = .stopClient)
    (hlost : ∀ τ, ¬ s.client.Lost τ) : CanReach Lifetime.step OfThread s fun t =>
      t.Inv ∧ t.main = .stopClient ∧ (∃ r, t.client.pc 0 = .returned r) ∧
        ∀ τ, ¬ t.client.Lost τ := by
  have hkeeps : ∀ (t : Lifetime) l t', t.Inv → OfThread l → t.step l = some t' → t'.Inv :=
    fun t l t' ht _ hs => ht.step hs
  -- the workers get into their `poll()` first
  have hsettle := SocketClient.canSettle [1, 2, 3] s.client hlost (h.polls_mem hm)
  refine ((canReach_client hsettle).keeps h hkeeps).trans fun t ht => ?_
  obtain ⟨hinv, hset, he⟩ := ht
  have hm' : t.main = .stopClient := by rw [he]; exact hm
  have hstop := hinv.client.stop
  simp only [hm', StopDone] at hstop
  have hreturn := SocketClient.StopOk.canReturn hstop hinv.client.fds hinv.client.held hset
  refine ((canReach_client hreturn).keeps hinv hkeeps).mono (fun _ => id) fun t' ht' => ?_
  obtain ⟨hinv', ⟨⟨r, hr⟩, hset'⟩, he'⟩ := ht'
  have hm'' : t'.main = .stopClient := by rw [he']; exact hm'
  have hfinal : t'.client.Final := by
    have hstop' := hinv'.client.stop
    simp only [hm'', StopDone, hr] at hstop'
    exact hstop'
  exact ⟨hinv', hm'', ⟨r, hr⟩, hfinal.settled_iff.mp hset'⟩

/-- The destructor, once it has begun, can go on to its end if no call is lost. -/
theorem Inv.canReturn (h : s.Inv) (hu : s.Unaborted) (hd : s.main ≠ .inUse)
    (hlost : ∀ τ, ¬ s.client.Lost τ) :
    CanReach Lifetime.step OfThread s fun t => t.main = .destroyed := by
  have hgoing : CanReach Lifetime.step OfThread s Going := by
    by_cases hm : s.main = .stopClient
    · have hkeeps : ∀ (t : Lifetime) l t', (t.Unaborted ∧ t.main ≠ .inUse) → OfThread l →
          t.step l = some t' → t'.Unaborted ∧ t'.main ≠ .inUse := fun t l t' ht _ hs =>
        ⟨ht.1.step (noLatePush_of_step ht.2 hs) hs, ne_inUse_of_step ht.2 hs⟩
      refine ((h.canStopClient hm hlost).keeps ⟨hu, hd⟩ hkeeps).trans fun t ht => ?_
      obtain ⟨⟨hu', hne⟩, hinv, hm', ⟨r, hr⟩, hlost'⟩ := ht
      have hs : t.step .main = some { t with main := .stopOnceEmpty } := by
        simp only [Lifetime.step, mainStep, hm', hr]
      have hof : OfThread .main := rfl
      exact .head hof hs ((hinv.step hs).canTell (hu'.step (noLatePush_of_step hne hs) hs)
        (by simp [MainPc.num]) hlost')
    · refine h.canTell hu ?_ hlost
      cases hpc : s.main with
      | inUse => exact absurd hpc hd
      | stopClient => exact absurd hpc hm
      | _ => simp [MainPc.num]
  refine hgoing.trans fun t ht => ?_
  refine exists_run (I := Going) (μ := work) (fun t ht => ?_) ht
  by_cases hd' : t.main = .destroyed
  · exact .here (.inl hd')
  · obtain ⟨l, t', hl, hs⟩ := ht.canStep hd'
    have hlt := work_step ht.told hs
    rw [if_pos hl] at hlt
    exact .single (ofThread_of_counts hl) hs (.inr ⟨ht.step hs, by omega⟩)

/-- A call that is lost keeps the destructor from its end. -/
theorem Inv.not_destroyed (h : s.Inv) (hm : 2 ≤ s.main.num) {τ : ℕ} (hlost : s.client.Lost τ)
    {ls : List Label} (hs : exec Lifetime.step s ls = some s') : s'.main ≠ .destroyed := by
  obtain ⟨hinv, -, hlost'⟩ : s'.Inv ∧ 2 ≤ s'.main.num ∧ s'.client.Lost τ :=
    @exec_invariant _ _ _ _ _ _ (fun _ => True)
      (fun t => t.Inv ∧ 2 ≤ t.main.num ∧ t.client.Lost τ)
      (fun t l t' ht _ hs => ⟨ht.1.step hs, ht.2.1.trans (num_le_of_step hs),
        (ht.1.lost_step ht.2.1 hs τ).mpr ht.2.2⟩) ⟨h, hm, hlost⟩ (fun _ _ => trivial) hs
  intro hd
  obtain ⟨r, hr⟩ := hinv.client.idle τ (hinv.inCall_eq_false hd τ)
  simp [SocketClient.Lost, hr, Pc.pollFd?] at hlost'

theorem unaborted_of_reach {ackTimeoutMS bufferLimit : ℕ} {ids : IdMgr}
    (h : Reach step NoLatePush (init ackTimeoutMS bufferLimit ids) s) : s.Unaborted :=
  h.invariant (I := Unaborted) ⟨nofun, nofun⟩ fun _ _ _ ht hok hs => ht.step hok hs

/-- **When the destructor returns.** Nothing is pushed while the sender asserts that the queue is
empty. From whatever it finds the workers doing when it begins, the destructor can go on to its end
if no worker is in a `poll()` without a descriptor, or about to be; once the client was stopped,
such a worker keeps it waiting for ever. When it waits for the tasks of the workers, the threads
make at most so many steps more, not counting a `poll()` tried again after a signal, and they can go
on until it has returned. -/
theorem destructor_returns {ackTimeoutMS bufferLimit : ℕ} {ids : IdMgr}
    (h : Reach step NoLatePush (init ackTimeoutMS bufferLimit ids) s) (hd : s.main ≠ .inUse) :
    ((∀ τ, ¬ s.client.Lost τ) →
      CanReach Lifetime.step OfThread s fun t => t.main = .destroyed) ∧
      (2 ≤ s.main.num → ∀ τ, s.client.Lost τ → ∀ ls s', exec step s ls = some s' →
        s'.main ≠ .destroyed) ∧
      (9 ≤ s.main.num → ∀ ls s', exec step s ls = some s' →
        ls.countP Label.counts ≤ 8 * s.logger.sender.backup.entries.length +
          7 * copied s.logger.sender.backup.resender + linesLeft s.reader + 48 ∧
        ((∀ τ, ¬ s.client.Lost τ) → s'.main = .destroyed ∨ s'.CanStep)) := by
  have hinv := inv_of_reach (h.mono fun _ _ _ => trivial)
  have hu := unaborted_of_reach h
  refine ⟨hinv.canReturn hu hd, fun hm τ hl ls s' hs => hinv.not_destroyed hm hl hs,
    fun hn ls s' hs => ⟨?_, fun hlost => ?_⟩⟩
  · have hlowers : Lowers step (fun _ => True) Label.counts AllTold work :=
      ⟨fun _ _ _ ht _ hs => ht.step hs, fun _ _ _ ht _ hs => work_step ht hs⟩
    obtain ⟨-, hwork⟩ := hlowers.run ⟨hinv, hn⟩ (fun _ _ => trivial) hs
    have := work_le hn
    omega
  · have hgoing : s'.Going :=
      @exec_invariant _ _ _ _ _ _ (fun _ => True) Going (fun _ _ _ ht _ hs => ht.step hs)
        ⟨⟨hinv, hn⟩, hu, hlost⟩ (fun _ _ => trivial) hs
    by_cases hd' : s'.main = .destroyed
    · exact .inl hd'
    · exact .inr (hgoing.canStep hd')

/-- `NoLatePush` as a test. -/
def noLatePush (s : Lifetime) : Label → Bool
  | .caller _ .push => s.logger.sender.pc ≠ .drained
  | _ => true

theorem noLatePush_of (h : s.noLatePush l = true) : s.NoLatePush l := by
  cases l with
  | caller c a =>
    cases a with
    | push => simpa [noLatePush, NoLatePush] using h
    | addData | startWorkers | waitUntilAllSend | stopOnceEmpty | wait => trivial
  | _ => trivial

/-- The destructor waits for the sender, which polls in its call of `Send`. -/
theorem destructor_returns_polling :
    ∃ s : Lifetime,
      (s.main = .getSender ∧ s.client.pc 1 ≠ .returned .done ∧ ∀ τ, ¬ s.client.Lost τ) ∧
      ((∀ τ, ¬ s.client.Lost τ) →
        CanReach Lifetime.step OfThread s fun t => t.main = .destroyed) ∧
      (2 ≤ s.main.num → ∀ τ, s.client.Lost τ → ∀ ls s', exec step s ls = some s' →
        s'.main ≠ .destroyed) ∧
      (9 ≤ s.main.num → ∀ ls s', exec step s ls = some s' →
        ls.countP Label.counts ≤ 8 * s.logger.sender.backup.entries.length +
          7 * copied s.logger.sender.backup.resender + linesLeft s.reader + 48 ∧
        ((∀ τ, ¬ s.client.Lost τ) → s'.main = .destroyed ∨ s'.CanStep)) := by
  obtain ⟨s, hs, ht⟩ : ∃ s, Reach step NoLatePush (init 1000 0 .empty) s ∧
      decide (s.main = .getSender ∧ (s.client.pc 1).pollFd? none = some (some 3) ∧
        (s.client.pc 2).pollFd? none = none ∧ (s.client.pc 3).pollFd? none = none) = true :=
    @Reach.exists_of_exec _ _ step _ _ noLatePush _ stoppingAll (fun _ _ => noLatePush_of)
      (by decide) (by decide)
  obtain ⟨hm, h1, h2, h3⟩ := of_decide_eq_true ht
  have hinv := inv_of_reach (hs.mono fun _ _ _ => trivial)
  have hidle : ∀ τ, s.inCall τ = false → (s.client.pc τ).pollFd? none ≠ some none := fun τ hτ => by
    obtain ⟨r, hr⟩ := hinv.client.idle τ hτ
    simp [hr, Pc.pollFd?]
  have hset : s.client.Settled :=
    forall_thread (hidle 0 (by simp [inCall, hm])) (by simp [h1]) (by simp [h2]) (by simp [h3])
      fun n => hidle _ rfl
  have hlost := (hinv.client.final (by rw [hm]; decide)).settled_iff.mp hset
  refine ⟨s, ⟨hm, fun he => ?_, hlost⟩, destructor_returns hs (by simp [hm])⟩
  rw [he] at h1
  cases h1

end Lifetime

end Outmdsd
