import Outmdsd.Foundations.Progress
import Outmdsd.Socket.Stopped
import Outmdsd.Socket.Undisturbed
import Outmdsd.Socket.WholeMessages

/-!
# Calls in progress at a stop

`SocketClient` promises that all the threads in its calls can be stopped immediately. Once a call of
`Stop` has returned, a call of another thread is wherever it was: at a mutex, in `poll()`, about to
send or to read. It has at most five steps of its own left (`rank`), not counting a `poll()` that is
tried again after a signal. `m_fdMutex` is held before a loop test that fails, and `m_sendMutex` by
a thread that finds the flag or no socket.

One thing holds a call up. `PollSocket` tests `m_sockfd` and reads it again for `poll()`, and when
the socket was closed in between, `poll()` is asked about a negative descriptor without a timeout:
it never returns, and a `Send` in it keeps `m_sendMutex`. These calls and those that wait for that
mutex do not end; all the others can (`calls_end`).
-/

namespace Outmdsd

/-- The steps of `Connect` that are left once the client is stopped and closed. -/
def ConnectPc.rank : ConnectPc → ℕ
  | .test => 3
  | .lock => 2
  | _ => 1

/-- The steps that are left after `Connect`. -/
def Caller.rank : Caller → ℕ
  | .api => 0
  | .send _ => 2

/-- The steps a thread has left once the client is stopped and closed. -/
def Pc.rank : Pc → ℕ
  | .returned _ => 0
  | .connect p k => k.rank + p.rank
  | .send _ (.loop _) => 1
  | .send _ (.pollLoad _) => 4
  | .send _ (.polling _ _) => 3
  | .send _ (.call _ _) => 3
  | .send _ _ => 2
  | .close _ .lock => 1
  | .close _ _ => 2
  | .read .test => 1
  | .read .testAgain => 1
  | .read .pollLoad => 4
  | .read (.polling _) => 3
  | .read _ => 2
  | .stop .set => 3
  | .stop _ => 2

theorem Pc.rank_le (pc : Pc) : pc.rank ≤ 5 := by
  unfold Pc.rank
  split
  case h_2 p k => cases p <;> cases k <;> simp [ConnectPc.rank, Caller.rank]
  all_goals omega

/-- The steps its holder needs at most to free `m_fdMutex`, once the client is stopped. -/
def Pc.holdRank : Pc → ℕ
  | .connect _ .loop | .close _ .clear => 1
  | .connect _ .retry | .close _ .close => 2
  | .connect _ .clear => 3
  | .connect _ .close => 4
  | .connect _ .connect => 5
  | .connect _ .socket => 6
  | _ => 0

/-- An act with which a thread goes on once the client is stopped and closed. -/
def Pc.goOn : Pc → Act
  | .send _ (.polling _ _) => .poll (.hangUp 0)
  | .send _ (.call _ _) => .send .again
  | .read (.polling _) => .poll (.hangUp 0)
  | .read .read => .read .again
  | _ => .run

/-- The descriptor of the `poll()` that a thread is in or, with this `m_sockfd`, about to begin. -/
def Pc.pollFd? (sockfd : Option ℕ) : Pc → Option (Option ℕ)
  | .send _ (.pollLoad _) => some sockfd
  | .send _ (.polling _ fd) => some fd
  | .read .pollLoad => some sockfd
  | .read (.polling fd) => some fd
  | _ => none

/-- The thread waits for `m_fdMutex`. -/
def Pc.awaitsFd : Pc → Bool
  | .connect _ .lock => true
  | .close _ .lock => true
  | .read .wait => true
  | .stop .notify => true
  | _ => false

/-- The thread waits for `m_sendMutex`. -/
def Pc.awaitsSend : Pc → Bool
  | .send _ .lock => true
  | _ => false

/-- The thread has nothing to do with `m_sendMutex` or with `poll()`. -/
structure Pc.Clear (pc : Pc) : Prop where
  progress : pc.progress? = none
  awaitsSend : pc.awaitsSend = false
  pollFd : ∀ fd, pc.pollFd? fd = none

namespace SocketClient

variable {s s' : SocketClient} {τ τ' : ℕ} {a : Act} {l : Label} {r : Outcome}

/-! ## The holder of `m_sendMutex` -/

/-- The holder of `m_sendMutex` is the thread in the loop of `SendData`. -/
def SendHeld (s : SocketClient) : Prop :=
  ∀ τ, s.sendMutex = some τ ↔ (s.pc τ).progress?.isSome = true

theorem sendHeld_init : init.SendHeld := by
  simp [SendHeld, init, Pc.progress?]

theorem sendMutex_closeSockfd (s : SocketClient) : s.closeSockfd.sendMutex = s.sendMutex := by
  unfold closeSockfd
  split <;> rfl

theorem sendMutex_throwIn (s : SocketClient) (τ : ℕ) (g : Progress) :
    (s.throwIn τ g).sendMutex = none := by
  unfold throwIn
  cases g.conn <;> rfl

/-- What a step of a thread does to `m_sendMutex`. -/
inductive SendMutexMove (s : SocketClient) (τ : ℕ) (s' : SocketClient) : Prop
  | same (hm : s'.sendMutex = s.sendMutex)
      (hp : (s'.pc τ).progress?.isSome = (s.pc τ).progress?.isSome)
  | take (hn : s.sendMutex = none) (hm : s'.sendMutex = some τ)
      (hp : (s'.pc τ).progress?.isSome = true)
  | free (hp : (s.pc τ).progress?.isSome = true) (hm : s'.sendMutex = none)
      (hp' : (s'.pc τ).progress?.isSome = false)

/-- An exception in the loop of `SendData` frees `m_sendMutex`. -/
theorem sendMutexMove_throwIn (hp : (s.pc τ).progress?.isSome = true) (g : Progress) :
    SendMutexMove s τ (s.throwIn τ g) :=
  .free hp (sendMutex_throwIn s τ g) (by rw [pc_throwIn]; rfl)

theorem sendMutexMove_sendStep {c : SendCall} {k : SendPc} (hpc : s.pc τ = .send c k)
    (hs : s.sendStep τ c k a = some s') : SendMutexMove s τ s' := by
  have hsame : ∀ pc, pc.progress?.isSome = (Pc.send c k).progress?.isSome →
      SendMutexMove s τ (s.setPc τ pc) := fun pc hp =>
    .same rfl (by rw [hpc, setPc_pc, Function.update_self, hp])
  cases sendMove hs with
  | lock hm => exact .take hm rfl (by simp [Pc.progress?, SendPc.progress?])
  | leave => exact .free (by rw [hpc]; rfl) rfl (by simp [Pc.progress?])
  | pollInvalid | notReady | closed | error => exact sendMutexMove_throwIn (by rw [hpc]; rfl) _
  | pollAgain => exact .same rfl rfl
  | accepted =>
    exact .same rfl (by simp [accept, hpc, Pc.progress?, SendPc.progress?])
  | _ => exact hsame _ rfl

theorem clear_afterConnect (p : Caller) : (afterConnect p).Clear := by
  cases p <;> exact ⟨rfl, rfl, fun _ => rfl⟩

/-- Outside `Send` and `Read` nobody takes or frees `m_sendMutex`, or gets to `poll()`. -/
theorem clear_step (hs : s.step (.thread τ a) = some s') (hn : ∀ c k, s.pc τ ≠ .send c k)
    (hr : ∀ k, s.pc τ ≠ .read k) : s'.sendMutex = s.sendMutex ∧ (s'.pc τ).Clear := by
  have hset : ∀ (t : SocketClient) pc, t.sendMutex = s.sendMutex → pc.Clear →
      (t.setPc τ pc).sendMutex = s.sendMutex ∧ ((t.setPc τ pc).pc τ).Clear := fun t pc hm hp =>
    ⟨hm, by rwa [setPc_pc, Function.update_self]⟩
  simp only [SocketClient.step, threadStep] at hs
  split at hs
  · split at hs
    · cases hs
      rename_i call
      cases call with
      | send msg =>
        rw [SocketClient.begin]
        split <;> exact hset _ _ rfl ⟨rfl, rfl, fun _ => rfl⟩
      | _ => exact hset _ _ rfl ⟨rfl, rfl, fun _ => rfl⟩
    · cases hs
  · cases connectMove hs with
    | close => exact hset _ _ s.sendMutex_closeSockfd ⟨rfl, rfl, fun _ => rfl⟩
    | valid | leave | connected | giveUp => exact hset _ _ rfl (clear_afterConnect _)
    | _ => exact hset _ _ rfl ⟨rfl, rfl, fun _ => rfl⟩
  · exact absurd ‹_› (hn _ _)
  · cases closeMove hs with
    | close => exact hset _ _ s.sendMutex_closeSockfd ⟨rfl, rfl, fun _ => rfl⟩
    | _ => exact hset _ _ rfl ⟨rfl, rfl, fun _ => rfl⟩
  · exact absurd ‹_› (hr _)
  · obtain ⟨stop, pc, rfl, -, hp⟩ := stopStep_eq hs
    refine hset _ _ rfl ?_
    obtain ⟨r, rfl⟩ | ⟨k, rfl⟩ := hp <;> exact ⟨rfl, rfl, fun _ => rfl⟩

/-- `Read` has nothing to do with `m_sendMutex`. -/
theorem sendMutex_readStep {k : ReadPc} (hpc : s.pc τ = .read k)
    (hs : s.readStep τ k a = some s') :
    s'.sendMutex = s.sendMutex ∧ (s'.pc τ).progress? = none ∧ (s'.pc τ).awaitsSend = false := by
  obtain rfl | ⟨pc, rfl, ⟨r, rfl⟩ | ⟨r, rfl⟩ | ⟨k, rfl⟩⟩ := readStep_eq hs
  · simp [hpc, Pc.progress?, Pc.awaitsSend]
  all_goals simp [Pc.progress?, Pc.awaitsSend]

theorem sendStep_of_step {c : SendCall} {k : SendPc} (hpc : s.pc τ = .send c k)
    (hs : s.step (.thread τ a) = some s') : s.sendStep τ c k a = some s' := by
  simpa only [SocketClient.step, threadStep, hpc] using hs

theorem readStep_of_step {k : ReadPc} (hpc : s.pc τ = .read k)
    (hs : s.step (.thread τ a) = some s') : s.readStep τ k a = some s' := by
  simpa only [SocketClient.step, threadStep, hpc] using hs

theorem sendMutexMove (hs : s.step (.thread τ a) = some s') : SendMutexMove s τ s' := by
  cases hpc : s.pc τ with
  | send c k => exact sendMutexMove_sendStep hpc (sendStep_of_step hpc hs)
  | read k =>
    obtain ⟨hm, hp, -⟩ := sendMutex_readStep hpc (readStep_of_step hpc hs)
    exact .same hm (by rw [hp, hpc]; rfl)
  | returned | connect | close | stop =>
    obtain ⟨hm, hc⟩ := clear_step hs (by simp [hpc]) (by simp [hpc])
    exact .same hm (by rw [hc.progress, hpc]; rfl)

theorem SendHeld.step (h : s.SendHeld) (hs : s.step l = some s') : s'.SendHeld := by
  cases l with
  | hangUp k =>
    cases hs
    exact h
  | thread τ a =>
    have hpc := (stepOf_step hs).pc
    intro τ'
    cases sendMutexMove hs with
    | same hm hp =>
      rw [hm, h τ']
      by_cases hne : τ' = τ
      · rw [hne, hp]
      · rw [hpc τ' hne]
    | take hn hm hp =>
      rw [hm]
      by_cases hne : τ' = τ
      · simp [hne, hp]
      · -- nobody else was in the loop
        rw [hpc τ' hne, ← h τ', hn]
        simp [Ne.symm hne]
    | free hp hm hp' =>
      rw [hm]
      by_cases hne : τ' = τ
      · simp [hne, hp']
      · rw [hpc τ' hne, ← h τ', (h τ).mpr hp]
        simp [Ne.symm hne]

/-! ## One step on -/

theorem rank_afterConnect (p : Caller) : (afterConnect p).rank = p.rank := by
  cases p <;> rfl

/-- **A thread gets one step further**, unless it tries `poll()` again or begins another call. -/
theorem Final.rank_lt (h : s.Final) (hs : s.step (.thread τ a) = some s')
    (hl : (Label.thread τ a).begins τ = false) (ha : a ≠ .poll .eintr) :
    (s'.pc τ).rank < (s.pc τ).rank := by
  have hclosed := h.closed
  have hstopped := h.stopped
  simp only [SocketClient.step, threadStep] at hs
  split at hs
  · split at hs
    · simp [Label.begins] at hl
    · cases hs
  · rename_i p k hpc
    have hloop : (Pc.connect p k).holdsFd = true → k = .loop := fun hh => by
      obtain ⟨p', hp'⟩ := h.atLoop τ (by rw [hpc]; exact hh)
      rw [hpc] at hp'
      cases hp'
      rfl
    rw [hpc]
    cases connectMove hs with
    | valid hsome => simp [hclosed] at hsome
    | test => simp [Pc.rank, ConnectPc.rank]
    | lock => simp [Pc.rank, ConnectPc.rank]
    | leave =>
      rw [setPc_pc, Function.update_self, rank_afterConnect]
      simp only [Pc.rank, ConnectPc.rank]
      omega
    | loop hstop => simp [hstopped] at hstop
    | _ => cases hloop rfl
  · rename_i c k hpc
    rw [hpc]
    cases sendMove hs with
    | valid hsome | validAgain hsome | pollValid hsome => simp [hclosed] at hsome
    | load hfd => simp [hclosed] at hfd
    | loop hstop => simp [hstopped] at hstop
    | pollAgain => exact absurd rfl ha
    | pollInvalid | notReady | closed | error => simp [pc_throwIn, Pc.rank]
    | accepted hk =>
      -- no descriptor is open
      have := (h.fds.isOpen _ _ hk).1
      simp [hclosed] at this
    | _ => simp [Pc.rank]
  · rename_i r k hpc
    have hlock := h.closeStep_eq hpc hs
    rw [hpc, hlock]
    cases k <;> simp [Pc.rank]
  · rename_i k hpc
    rw [hpc]
    unfold readStep at hs
    split at hs
    case h_6 => exact absurd rfl ha
    case h_7 =>
      cases hs
      rw [setPc_pc, Function.update_self]
      split <;> simp [Pc.rank]
    case h_2 =>
      split at hs
      · cases hs
        simp [hstopped, Pc.rank]
      · cases hs
    case h_12 => cases hs
    all_goals
      cases hs
      simp [hstopped, hclosed, Pc.rank]
  · rename_i k hpc
    rw [hpc]
    unfold stopStep at hs
    split at hs
    case h_3 =>
      split at hs
      · cases hs
        simp [Pc.rank]
      · cases hs
    case h_4 => cases hs
    all_goals
      cases hs
      simp [hstopped, Pc.rank]

/-- The thread is in `poll()` without a descriptor, or about to be. -/
def Lost (s : SocketClient) (τ : ℕ) : Prop := (s.pc τ).pollFd? s.sockfd = some none

/-- The thread is lost, or waits for `m_sendMutex`, which a lost one has. -/
def Stuck (s : SocketClient) (τ : ℕ) : Prop :=
  s.Lost τ ∨ (s.pc τ).awaitsSend = true ∧ ∃ τ', s.sendMutex = some τ' ∧ s.Lost τ'

/-- **A lost thread stays lost, and no other one gets lost.** -/
theorem Final.lost_step (h : s.Final) (hs : s.step l = some s') (τ : ℕ) :
    s'.Lost τ ↔ s.Lost τ := by
  unfold Lost
  rw [h.closed, (h.step hs).closed]
  cases l with
  | hangUp k =>
    cases hs
    rfl
  | thread τ' a =>
    by_cases hne : τ = τ'
    · subst hne
      cases hpc : s.pc τ with
      | send c k =>
        cases sendMove (sendStep_of_step hpc hs) with
        | valid hsome | validAgain hsome | pollValid hsome => simp [h.closed] at hsome
        | pollLoad => simp [h.closed, Pc.pollFd?]
        | pollAgain => rw [hpc]
        | pollInvalid | notReady | closed | error => simp [pc_throwIn, Pc.pollFd?]
        | accepted => simp [accept, Pc.pollFd?]
        | _ => simp [Pc.pollFd?]
      | read k =>
        have hs' := readStep_of_step hpc hs
        unfold readStep at hs'
        split at hs'
        case h_2 =>
          split at hs'
          · cases hs'
            simp [h.stopped, Pc.pollFd?]
          · cases hs'
        case h_6 =>
          cases hs'
          rw [hpc]
        case h_7 =>
          cases hs'
          rw [setPc_pc, Function.update_self]
          split <;> simp [Pc.pollFd?]
        case h_12 => cases hs'
        all_goals
          cases hs'
          simp [h.stopped, h.closed, Pc.pollFd?]
      | returned | connect | close | stop =>
        obtain ⟨-, hc⟩ := clear_step hs (by simp [hpc]) (by simp [hpc])
        rw [hc.pollFd]
        simp [Pc.pollFd?]
    · rw [(stepOf_step hs).pc τ hne]

/-- A lost thread takes and frees nothing. -/
theorem Lost.sendMutex_step (h : s.Lost τ) (hclosed : s.sockfd = none)
    (hs : s.step (.thread τ a) = some s') : s'.sendMutex = s.sendMutex := by
  simp only [Lost, hclosed] at h
  cases hpc : s.pc τ with
  | send c k =>
    rw [hpc] at h
    cases sendMove (sendStep_of_step hpc hs) with
    | pollLoad | pollAgain => rfl
    | _ => simp [Pc.pollFd?] at h
  | read k => exact (sendMutex_readStep hpc (readStep_of_step hpc hs)).1
  | returned | connect | close | stop => simp [hpc, Pc.pollFd?] at h

/-- A lost thread keeps `m_sendMutex`, and does not take it. -/
theorem Final.sendMutex_step (h : s.Final) (hh : s.SendHeld) (hs : s.step l = some s')
    (hlost : s.Lost τ) : s'.sendMutex = some τ ↔ s.sendMutex = some τ := by
  cases l with
  | hangUp k =>
    cases hs
    rfl
  | thread τ' a =>
    by_cases hne : τ = τ'
    · subst hne
      rw [hlost.sendMutex_step h.closed hs]
    · rw [hh τ, hh.step hs τ, (stepOf_step hs).pc τ hne]

/-- Nobody begins to wait for `m_sendMutex`, or gets it from its holder. -/
theorem Final.awaitsSend_step (h : s.Final) (hm : s.sendMutex ≠ none) (hs : s.step l = some s')
    (τ : ℕ) : (s'.pc τ).awaitsSend = (s.pc τ).awaitsSend := by
  cases l with
  | hangUp k =>
    cases hs
    rfl
  | thread τ' a =>
    by_cases hne : τ = τ'
    · subst hne
      cases hpc : s.pc τ with
      | send c k =>
        cases sendMove (sendStep_of_step hpc hs) with
        | valid hsome | validAgain hsome | pollValid hsome => simp [h.closed] at hsome
        | lock hn => exact absurd hn hm
        | pollAgain => rw [hpc]
        | pollInvalid | notReady | closed | error => simp [pc_throwIn, Pc.awaitsSend]
        | accepted => simp [accept, Pc.awaitsSend]
        | _ => simp [Pc.awaitsSend]
      | read k => exact (sendMutex_readStep hpc (readStep_of_step hpc hs)).2.2
      | returned | connect | close | stop =>
        exact (clear_step hs (by simp [hpc]) (by simp [hpc])).2.awaitsSend
    · rw [(stepOf_step hs).pc τ hne]

/-- **Who is stuck stays so, and no other thread gets stuck.** -/
theorem Final.stuck_step (h : s.Final) (hh : s.SendHeld) (hs : s.step l = some s') (τ : ℕ) :
    s'.Stuck τ ↔ s.Stuck τ := by
  have hholder : ∀ τ', (s'.sendMutex = some τ' ∧ s'.Lost τ') ↔ s.sendMutex = some τ' ∧ s.Lost τ' :=
    fun τ' => by
      rw [h.lost_step hs τ']
      exact and_congr_left fun hl => h.sendMutex_step hh hs hl
  unfold Stuck
  rw [h.lost_step hs τ]
  simp only [hholder]
  refine or_congr_right (and_congr_left fun ⟨τ', hm, _⟩ => ?_)
  rw [h.awaitsSend_step (by simp [hm]) hs τ]

/-- A run leads from final states to final states, and leaves it at who is stuck. -/
theorem Final.stuck_exec (h : s.Final) (hh : s.SendHeld) {ls : List Label}
    (hs : exec SocketClient.step s ls = some s') (τ : ℕ) :
    (s'.Final ∧ s'.SendHeld) ∧ (s'.Stuck τ ↔ s.Stuck τ) := by
  refine @exec_invariant _ _ _ _ _ _ (fun _ => True)
    (fun t => (t.Final ∧ t.SendHeld) ∧ (t.Stuck τ ↔ s.Stuck τ)) (fun t l t' ht _ hs => ?_)
    ⟨⟨h, hh⟩, .rfl⟩ (fun _ _ => trivial) hs
  exact ⟨⟨ht.1.1.step hs, ht.1.2.step hs⟩, (ht.1.1.stuck_step ht.1.2 hs τ).trans ht.2⟩

/-- A thread that is stuck has not returned. -/
theorem Stuck.not_returned (h : s.Stuck τ) : ∀ r, s.pc τ ≠ .returned r := by
  intro r hr
  rcases h with h | ⟨h, -⟩
  · simp [Lost, hr, Pc.pollFd?] at h
  · simp [hr, Pc.awaitsSend] at h

/-- A thread that has not returned and is not lost can go on, unless another has the mutex it waits
for. -/
theorem Final.goOn_enabled (h : s.Final) (hr : ∀ r, s.pc τ ≠ .returned r) (hlost : ¬ s.Lost τ)
    (hfd : (s.pc τ).awaitsFd = true → s.fdMutex = none)
    (hsend : (s.pc τ).awaitsSend = true → s.sendMutex = none) :
    ∃ s', s.step (.thread τ (s.pc τ).goOn) = some s' := by
  have hat := h.atLoop τ
  simp only [SocketClient.step, threadStep]
  unfold Lost at hlost
  generalize s.pc τ = pc at hr hlost hfd hsend hat ⊢
  cases pc with
  | returned r => exact absurd rfl (hr r)
  | connect p k =>
    cases k with
    | test | loop => exact ⟨_, rfl⟩
    | lock => exact ⟨_, by simp [Pc.goOn, connectStep, hfd rfl]; rfl⟩
    | _ =>
      obtain ⟨p', hp'⟩ := hat rfl
      cases hp'
  | send c k =>
    cases k with
    | test | testAgain | loop | poll | pollLoad | call => exact ⟨_, rfl⟩
    | lock => exact ⟨_, by simp [Pc.goOn, sendStep, hsend rfl]; rfl⟩
    | polling g fd =>
      cases fd with
      | none => exact absurd rfl hlost
      | some fd => exact ⟨_, rfl⟩
    | load g =>
      refine ⟨s.throwIn τ g, ?_⟩
      simp [Pc.goOn, sendStep, h.closed]
  | close r k =>
    cases k with
    | lock => exact ⟨_, by simp [Pc.goOn, closeStep, hfd rfl]; rfl⟩
    | close | clear =>
      obtain ⟨p', hp'⟩ := hat rfl
      cases hp'
  | read k =>
    cases k with
    | wait => exact ⟨_, by simp [Pc.goOn, readStep, hfd rfl]; rfl⟩
    | polling fd =>
      cases fd with
      | none => exact absurd rfl hlost
      | some fd => exact ⟨_, rfl⟩
    | _ => exact ⟨_, rfl⟩
  | stop k =>
    cases k with
    | notify => exact ⟨_, by simp [Pc.goOn, stopStep, hfd rfl]; rfl⟩
    | _ => exact ⟨_, rfl⟩

theorem goOn_ne_eintr (pc : Pc) : pc.goOn ≠ .poll .eintr := by
  cases pc with
  | send c k => cases k <;> simp [Pc.goOn]
  | read k => cases k <;> simp [Pc.goOn]
  | _ => simp [Pc.goOn]

/-! ## To the end of a call -/

/-- A step of the thread, other than another try of `poll()` after a signal. -/
def Label.advances (τ : ℕ) : Label → Bool
  | .thread _ (.poll .eintr) => false
  | .thread τ' _ => τ' = τ
  | .hangUp _ => false

/-- A thread goes on with its call. -/
def Label.goesOn : Label → Prop
  | .thread _ (.begin _) => False
  | .thread _ _ => True
  | .hangUp _ => False

theorem Label.goesOn.begins (h : l.goesOn) (τ : ℕ) : l.begins τ = false := by
  unfold Label.begins
  split
  · exact absurd h id
  · rfl

theorem Label.goesOn_thread (h : ∀ call, a ≠ .begin call) : Label.goesOn (.thread τ a) := by
  cases a with
  | begin call => exact absurd rfl (h call)
  | _ => trivial

theorem goesOn_goOn (pc : Pc) (τ : ℕ) : Label.goesOn (.thread τ pc.goOn) := by
  cases pc with
  | send c k => cases k <;> trivial
  | read k => cases k <;> trivial
  | _ => trivial

/-- Whatever the others do, the call of the thread takes at most `n` more steps. If it is not stuck
now, it can always go on to its end without a new call of anybody, and if it is, it never can. -/
def Ends (s : SocketClient) (τ n : ℕ) : Prop :=
  ∀ ls s', (∀ l ∈ ls, l.begins τ = false) → exec step s ls = some s' →
    ls.countP (Label.advances τ) ≤ n ∧
      (CanReach step Label.goesOn s' (fun t => ∃ r, t.pc τ = .returned r) ↔ ¬ s.Stuck τ)

theorem rank_step (h : s.Final) (hl : l.begins τ = false) (hs : s.step l = some s') :
    (s'.pc τ).rank + (if l.advances τ then 1 else 0) ≤ (s.pc τ).rank := by
  cases l with
  | hangUp k =>
    cases hs
    exact le_rfl
  | thread τ' a =>
    by_cases hne : τ = τ'
    · subst hne
      by_cases ha : a = .poll .eintr
      · subst ha
        have hpc : s'.pc τ = s.pc τ ∨ (s'.pc τ).rank < (s.pc τ).rank := by
          simp only [SocketClient.step, threadStep] at hs
          split at hs
          · simp at hs
          · rename_i k _
            cases k <;> simp [connectStep] at hs
          · cases sendMove hs with
            | pollAgain => exact .inl rfl
            | notReady he => exact absurd rfl he
          · rename_i k _
            cases k <;> simp [closeStep] at hs
          · rename_i k _
            cases k <;> simp [readStep] at hs
            rw [← hs]
            exact .inl rfl
          · rename_i k _
            cases k <;> simp [stopStep] at hs
        rcases hpc with he | hlt
        · simp [he, Label.advances]
        · simpa [Label.advances] using hlt.le
      · have hlt := h.rank_lt hs hl ha
        split <;> omega
    · have hadv : (Label.thread τ' a).advances τ = false := by
        cases a with
        | poll answer => cases answer <;> simp [Label.advances, Ne.symm hne]
        | _ => simp [Label.advances, Ne.symm hne]
      rw [(stepOf_step hs).pc τ hne, hadv]
      simp

/-- The rank pays for the steps of the thread. -/
theorem lowers_rank (τ : ℕ) :
    Lowers SocketClient.step (fun l => l.begins τ = false) (Label.advances τ)
      (fun s => s.Final ∧ s.SendHeld) fun s => (s.pc τ).rank where
  keeps _ _ _ h _ hs := ⟨h.1.step hs, h.2.step hs⟩
  lower _ _ _ h hl hs := rank_step h.1 hl hs

/-- The holder of `m_sendMutex` can free it with its next step, unless it is lost. -/
theorem Final.freeSend (h : s.Final) (hh : s.SendHeld) (hm : s.sendMutex = some τ')
    (hlost : ¬ s.Lost τ') :
    ∃ a s', (Label.goesOn (.thread τ' a) ∧ a ≠ .poll .eintr) ∧ s.step (.thread τ' a) = some s' ∧
      s'.sendMutex = none := by
  have hheld := (hh τ').mp hm
  have hstep := h.stopped
  have hclosed := h.closed
  simp only [Lost, hclosed] at hlost
  cases hpc : s.pc τ' with
  | send c k =>
    cases k with
    | loop g =>
      refine ⟨.run, { s with sendMutex := none }.setPc τ' (.returned .done),
        ⟨trivial, by simp⟩, ?_, rfl⟩
      simp [SocketClient.step, threadStep, hpc, sendStep, hstep]
    | pollLoad g => simp [hpc, Pc.pollFd?] at hlost
    | polling g fd =>
      cases fd with
      | none => simp [hpc, Pc.pollFd?] at hlost
      | some fd =>
        refine ⟨.poll (.hangUp 0), s.throwIn τ' g, ⟨trivial, by simp⟩, ?_, sendMutex_throwIn s τ' g⟩
        simp [SocketClient.step, threadStep, hpc, sendStep]
    | poll g | load g =>
      refine ⟨.run, s.throwIn τ' g, ⟨trivial, by simp⟩, ?_, sendMutex_throwIn s τ' g⟩
      simp [SocketClient.step, threadStep, hpc, sendStep, hclosed]
    | call g fd =>
      refine ⟨.send (.error 0), s.throwIn τ' g, ⟨trivial, by simp⟩, ?_, sendMutex_throwIn s τ' g⟩
      simp [SocketClient.step, threadStep, hpc, sendStep]
    | test | testAgain | lock => simp [hpc, Pc.progress?, SendPc.progress?] at hheld
  | _ => simp [hpc, Pc.progress?] at hheld

/-- A thread that waits for a mutex does not hold it. -/
theorem ne_of_awaitsFd (h : s.Final) (hw : (s.pc τ).awaitsFd = true) (hm : s.fdMutex = some τ') :
    τ ≠ τ' := by
  rintro rfl
  have hholds := h.held τ hm
  cases hpc : s.pc τ with
  | connect p k => cases k <;> simp [hpc, Pc.awaitsFd, Pc.holdsFd] at hw hholds
  | close r k => cases k <;> simp [hpc, Pc.awaitsFd, Pc.holdsFd] at hw hholds
  | _ => simp [hpc, Pc.holdsFd] at hholds

theorem ne_of_awaitsSend (hh : s.SendHeld) (hw : (s.pc τ).awaitsSend = true)
    (hm : s.sendMutex = some τ') : τ ≠ τ' := by
  rintro rfl
  have hholds := (hh τ).mp hm
  cases hpc : s.pc τ with
  | send c k => cases k <;> simp [hpc, Pc.awaitsSend, Pc.progress?, SendPc.progress?] at hw hholds
  | _ => simp [hpc, Pc.awaitsSend] at hw

theorem not_awaitsSend_of_awaitsFd {pc : Pc} (h : pc.awaitsFd = true) : pc.awaitsSend = false := by
  cases pc with
  | send c k => simp [Pc.awaitsFd] at h
  | _ => rfl

/-- Others can free the mutex that a thread waits for, unless it is stuck. -/
theorem Final.unblock (h : s.Final) (hh : s.SendHeld) (hstuck : ¬ s.Stuck τ) :
    CanReach SocketClient.step Label.goesOn s fun t => (t.Final ∧ t.SendHeld) ∧
      t.pc τ = s.pc τ ∧ ((s.pc τ).awaitsFd = true → t.fdMutex = none) ∧
      ((s.pc τ).awaitsSend = true → t.sendMutex = none) := by
  by_cases hfd : (s.pc τ).awaitsFd = true
  · have hsend := not_awaitsSend_of_awaitsFd hfd
    cases hm : s.fdMutex with
    | none => exact .here ⟨⟨h, hh⟩, rfl, fun _ => hm, by simp [hsend]⟩
    | some τ' =>
      obtain ⟨t, ht, hfree⟩ := h.free hm
      exact .single (show Label.goesOn (.thread τ' .run) from trivial) ht
        ⟨⟨h.step ht, hh.step ht⟩,
        (stepOf_step ht).pc τ (ne_of_awaitsFd h hfd hm), fun _ => hfree, by simp [hsend]⟩
  · by_cases hw : (s.pc τ).awaitsSend = true
    · cases hm : s.sendMutex with
      | none => exact .here ⟨⟨h, hh⟩, rfl, fun hw => absurd hw hfd, fun _ => hm⟩
      | some τ' =>
        have hlost : ¬ s.Lost τ' := fun hl => hstuck (.inr ⟨hw, τ', hm, hl⟩)
        obtain ⟨a, t, ⟨hb, -⟩, ht, hfree⟩ := h.freeSend hh hm hlost
        exact .single hb ht ⟨⟨h.step ht, hh.step ht⟩,
          (stepOf_step ht).pc τ (ne_of_awaitsSend hh hw hm), fun hw => absurd hw hfd,
          fun _ => hfree⟩
    · exact .here ⟨⟨h, hh⟩, rfl, fun hw => absurd hw hfd, fun hw' => absurd hw' hw⟩

/-- As long as some call is in progress and none is lost, some thread can make a step, and not only
by trying `poll()` again. -/
theorem Final.exists_step (h : s.Final) (hh : s.SendHeld) (hlost : ∀ τ, ¬ s.Lost τ)
    (hr : ∀ r, s.pc τ ≠ .returned r) :
    ∃ τ' a s', (Label.goesOn (.thread τ' a) ∧ a ≠ .poll .eintr) ∧
      s.step (.thread τ' a) = some s' := by
  by_cases hfd : (s.pc τ).awaitsFd = true → s.fdMutex = none
  · by_cases hsend : (s.pc τ).awaitsSend = true → s.sendMutex = none
    · obtain ⟨t, ht⟩ := h.goOn_enabled hr (hlost τ) hfd hsend
      exact ⟨τ, _, t, ⟨goesOn_goOn _ _, goOn_ne_eintr _⟩, ht⟩
    · obtain ⟨-, hm⟩ := Classical.not_imp.mp hsend
      obtain ⟨τ', hτ'⟩ := Option.ne_none_iff_exists'.mp hm
      obtain ⟨a, t, hgo, ht, -⟩ := h.freeSend hh hτ' (hlost τ')
      exact ⟨τ', a, t, hgo, ht⟩
  · obtain ⟨-, hm⟩ := Classical.not_imp.mp hfd
    obtain ⟨τ', hτ'⟩ := Option.ne_none_iff_exists'.mp hm
    obtain ⟨t, ht, -⟩ := h.free hτ'
    exact ⟨τ', .run, t, ⟨trivial, nofun⟩, ht⟩

/-- From a final state every call can go on to its end that is not stuck. -/
theorem Final.exists_returned (h : s.Final) (hh : s.SendHeld) (hstuck : ¬ s.Stuck τ) :
    CanReach SocketClient.step Label.goesOn s fun t => ∃ r, t.pc τ = .returned r := by
  have hkeeps : ∀ (t : SocketClient) l t', ((t.Final ∧ t.SendHeld) ∧ ¬ t.Stuck τ) → Label.goesOn l →
      t.step l = some t' → (t'.Final ∧ t'.SendHeld) ∧ ¬ t'.Stuck τ := fun t l t' ht _ hs =>
    ⟨⟨ht.1.1.step hs, ht.1.2.step hs⟩, by rw [ht.1.1.stuck_step ht.1.2 hs]; exact ht.2⟩
  refine exists_run (I := fun s => (s.Final ∧ s.SendHeld) ∧ ¬ s.Stuck τ)
    (μ := fun s => (s.pc τ).rank) (fun s hs => ?_) ⟨⟨h, hh⟩, hstuck⟩
  by_cases hr : ∃ r, s.pc τ = .returned r
  · exact .here (.inl hr)
  · -- the mutex it waits for is freed, and the thread goes on
    refine ((hs.1.1.unblock hs.1.2 hs.2).keeps hs hkeeps).trans fun t ht => ?_
    obtain ⟨hinv, -, hpc, hfd, hsend⟩ := ht
    rw [← hpc] at hr hfd hsend ⊢
    have hlost : ¬ t.Lost τ := fun hl => hinv.2 (.inl hl)
    obtain ⟨t', ht'⟩ := hinv.1.1.goOn_enabled (fun r he => hr ⟨r, he⟩) hlost hfd hsend
    have hgo := goesOn_goOn (t.pc τ) τ
    exact .single hgo ht' (.inr ⟨hkeeps _ _ _ hinv hgo ht',
      hinv.1.1.rank_lt ht' (hgo.begins τ) (goOn_ne_eintr _)⟩)

/-- **The calls that end.** From a final state a call can go on to its end unless it is stuck. -/
theorem Final.canReturn_iff (h : s.Final) (hh : s.SendHeld) (τ : ℕ) :
    CanReach SocketClient.step Label.goesOn s (fun t => ∃ r, t.pc τ = .returned r) ↔
      ¬ s.Stuck τ := by
  refine ⟨fun hreach hstuck => ?_, h.exists_returned hh⟩
  obtain ⟨ls, t, hls, ht, r, hr⟩ := hreach
  exact ((h.stuck_exec hh ht τ).2.mpr hstuck).not_returned r hr

theorem sendHeld_of_reach {s₀ : SocketClient} {ok : SocketClient → Label → Prop}
    (hh : s₀.SendHeld) (h : Reach SocketClient.step ok s₀ s) : s.SendHeld :=
  h.invariant hh fun _ _ _ h _ hs => h.step hs

/-! ## A call of `Stop` in progress -/

/-- Nobody is about to read `m_sockfd` for `poll()`, or in `poll()` without a descriptor. -/
def Settled (s : SocketClient) : Prop := ∀ τ, (s.pc τ).pollFd? none ≠ some none

theorem Final.settled_iff (h : s.Final) : s.Settled ↔ ∀ τ, ¬ s.Lost τ := by
  simp only [Settled, Lost, h.closed, ne_eq]

/-- A thread outside `Send` and `Read` does not get to `poll()` with one step. -/
theorem Settled.step (h : s.Settled) (hs : s.step (.thread τ a) = some s')
    (hn : ∀ c k, s.pc τ ≠ .send c k) (hr : ∀ k, s.pc τ ≠ .read k) : s'.Settled := by
  intro τ'
  by_cases hne : τ' = τ
  · subst hne
    rw [(clear_step hs hn hr).2.pollFd]
    exact nofun
  · rw [(stepOf_step hs).pc τ' hne]
    exact h τ'

theorem Settled.step_of_holdsFd (h : s.Settled) (hs : s.step (.thread τ a) = some s')
    (hh : (s.pc τ).holdsFd = true) : s'.Settled :=
  h.step hs (fun c k hk => by simp [hk, Pc.holdsFd] at hh) fun k hk => by
    simp [hk, Pc.holdsFd] at hh

/-- As long as the socket is open, the threads before their `poll()` can get into it. -/
theorem canSettle_of_open {fd : ℕ} (τs : List ℕ) : ∀ s : SocketClient, s.sockfd = some fd →
    (∀ τ, ¬ s.Lost τ) → (∀ τ, (s.pc τ).pollFd? none = some none → τ ∈ τs) →
    CanReach SocketClient.step Label.goesOn s Settled := by
  induction τs with
  | nil => exact fun s _ _ hτs => .here fun τ hτ => by simpa using hτs τ hτ
  | cons τ τs ih =>
    intro s hfd hlost hτs
    by_cases hτ : (s.pc τ).pollFd? none = some none
    · -- the thread reads `m_sockfd`
      obtain ⟨pc, hs, hpc⟩ : ∃ pc, s.step (.thread τ .run) = some (s.setPc τ pc) ∧
          ∀ x, pc.pollFd? x = some (some fd) := by
        have hl := hlost τ
        simp only [Lost, hfd] at hl
        simp only [SocketClient.step, threadStep]
        generalize s.pc τ = pc at hτ hl
        unfold Pc.pollFd? at hτ
        split at hτ
        · exact ⟨_, rfl, fun x => by rw [hfd]; rfl⟩
        · cases hτ
          exact absurd rfl hl
        · exact ⟨_, rfl, fun x => by rw [hfd]; rfl⟩
        · cases hτ
          exact absurd rfl hl
        · cases hτ
      have hgo : Label.goesOn (.thread τ .run) := trivial
      refine .head hgo hs (ih _ hfd (fun τ' => ?_) fun τ' hτ' => ?_)
      · by_cases hne : τ' = τ
        · simp [Lost, hne, hpc]
        · simpa [Lost, hne] using hlost τ'
      · by_cases hne : τ' = τ
        · simp [hne, hpc] at hτ'
        · rw [setPc_pc, Function.update_of_ne hne] at hτ'
          exact List.mem_of_ne_of_mem hne (hτs τ' hτ')
    · refine ih s hfd hlost fun τ' hτ' => List.mem_of_ne_of_mem ?_ (hτs τ' hτ')
      rintro rfl
      exact hτ hτ'

theorem canSettle (τs : List ℕ) (s : SocketClient) (hlost : ∀ τ, ¬ s.Lost τ)
    (hτs : ∀ τ, (s.pc τ).pollFd? none = some none → τ ∈ τs) :
    CanReach SocketClient.step Label.goesOn s Settled := by
  cases hfd : s.sockfd with
  | some fd => exact canSettle_of_open τs s hfd hlost hτs
  | none => exact .here fun τ hτ => hlost τ (by rwa [Lost, hfd])

/-- The flag is set: the holder of `m_fdMutex` goes on towards freeing it. -/
theorem holder_step (hstop : s.stopClient = true) (hm : s.fdMutex = some τ)
    (hh : (s.pc τ).holdsFd = true) :
    ∃ a t, s.step (.thread τ a) = some t ∧ Label.goesOn (.thread τ a) ∧
      (t.fdMutex = none ∨ t.fdMutex = some τ ∧ (t.pc τ).holdRank < (s.pc τ).holdRank) := by
  have hc : s.closeSockfd.fdMutex = some τ := s.closeSockfd_same.2.2.trans hm
  simp only [SocketClient.step, threadStep]
  cases hpc : s.pc τ with
  | connect p k =>
    rw [hpc] at hh
    cases k with
    | test | lock => cases hh
    | loop =>
      refine ⟨.run, { s with fdMutex := none }.setPc τ (afterConnect p), ?_, trivial, .inl rfl⟩
      simp [connectStep, hstop]
    | socket => exact ⟨.socket none, _, rfl, trivial, .inr ⟨hm, by simp [Pc.holdRank]⟩⟩
    | connect => exact ⟨.connect false, _, rfl, trivial, .inr ⟨hm, by simp [Pc.holdRank]⟩⟩
    | close => exact ⟨.run, _, rfl, trivial, .inr ⟨hc, by simp [Pc.holdRank]⟩⟩
    | clear => exact ⟨.run, _, rfl, trivial, .inr ⟨hm, by simp [Pc.holdRank]⟩⟩
    | retry => exact ⟨.retry false, _, rfl, trivial, .inl rfl⟩
  | close r k =>
    rw [hpc] at hh
    cases k with
    | lock => cases hh
    | close => exact ⟨.run, _, rfl, trivial, .inr ⟨hc, by simp [Pc.holdRank]⟩⟩
    | clear => exact ⟨.run, _, rfl, trivial, .inl rfl⟩
  | returned | send | read | stop =>
    rw [hpc] at hh
    cases hh

/-- The flag is set: the mutex can be freed without a step of a thread that does not hold it. -/
theorem Held.canFree (h : s.Held) (hstop : s.stopClient = true) (hτ : (s.pc τ).holdsFd = false)
    (hset : s.Settled) : CanReach SocketClient.step Label.goesOn s fun t =>
      t.fdMutex = none ∧ t.pc τ = s.pc τ ∧ t.Settled := by
  refine exists_run (I := fun t => t.Held ∧ t.stopClient = true ∧ t.pc τ = s.pc τ ∧ t.Settled)
    (μ := fun t => (t.fdMutex.map fun τ' => (t.pc τ').holdRank).getD 0) (fun t ht => ?_)
    ⟨h, hstop, rfl, hset⟩
  obtain ⟨hheld, hs, hpc, hset⟩ := ht
  cases hm : t.fdMutex with
  | none => exact .here (.inl ⟨hm, hpc, hset⟩)
  | some τ' =>
    obtain ⟨a, t', ht', hgo, hfree⟩ := holder_step hs hm (hheld τ' hm)
    have hne : τ ≠ τ' := by
      rintro rfl
      have := hheld τ hm
      rw [hpc, hτ] at this
      cases this
    have hpc' := ((stepOf_step ht').pc τ hne).trans hpc
    have hset' := hset.step_of_holdsFd ht' (hheld τ' hm)
    refine .single hgo ht' ?_
    rcases hfree with hfree | ⟨hm', hlt⟩
    · exact .inl ⟨hfree, hpc', hset'⟩
    · refine .inr ⟨⟨hheld.step ht', stopClient_step hs ht', hpc', hset'⟩, ?_⟩
      simpa [hm, hm'] using hlt

/-- The steps of `Stop` that are left. -/
def stopLeft : Pc → ℕ
  | .stop .test => 6
  | .stop .set => 5
  | .stop .notify => 4
  | .close _ .lock => 3
  | .close _ .close => 2
  | .close _ .clear => 1
  | _ => 0

theorem StopOk.runStep (h : s.StopOk (s.pc τ)) (hr : ∀ r, s.pc τ ≠ .returned r)
    (hm : (s.pc τ).awaitsFd = true → s.fdMutex = none) :
    ∃ t, s.step (.thread τ .run) = some t ∧ stopLeft (t.pc τ) < stopLeft (s.pc τ) := by
  simp only [SocketClient.step, threadStep]
  cases hpc : s.pc τ with
  | returned r => exact absurd hpc (hr r)
  | stop k =>
    cases k with
    | test => exact ⟨_, rfl, by cases hstop : s.stopClient <;> simp [stopLeft]⟩
    | set => exact ⟨_, rfl, by simp [stopLeft]⟩
    | notify =>
      refine ⟨s.setPc τ (.close .done .lock), ?_, by simp [stopLeft]⟩
      simp [stopStep, hm (by simp [hpc, Pc.awaitsFd])]
  | close r k =>
    cases k with
    | lock =>
      have hm' := hm (by simp [hpc, Pc.awaitsFd])
      cases hs : s.sockfd.isSome with
      | true => exact ⟨_, by simp [closeStep, hm', hs]; rfl, by simp [stopLeft]⟩
      | false => exact ⟨_, by simp [closeStep, hm', hs]; rfl, by simp [stopLeft]⟩
    | close | clear => exact ⟨_, rfl, by simp [stopLeft]⟩
  | connect | send | read =>
    rw [hpc] at h
    cases h

/-- **A call of `Stop` can go on to its end**, and nobody gets lost by that. -/
theorem StopOk.canReturn (h : s.StopOk (s.pc τ)) (hF : s.FdInv) (hH : s.Held) (hset : s.Settled) :
    CanReach SocketClient.step Label.goesOn s fun t =>
      (∃ r, t.pc τ = .returned r) ∧ t.Settled := by
  have hkeeps : ∀ (t : SocketClient) l t', (t.FdInv ∧ t.Held ∧ t.StopOk (t.pc τ)) → Label.goesOn l →
      t.step l = some t' → t'.FdInv ∧ t'.Held ∧ t'.StopOk (t'.pc τ) := fun t l t' ht hl hs =>
    ⟨ht.1.step hs, ht.2.1.step hs, ht.2.2.step ht.1 ht.2.1 (hl.begins τ) hs⟩
  refine exists_run (I := fun t => (t.FdInv ∧ t.Held ∧ t.StopOk (t.pc τ)) ∧ t.Settled)
    (μ := fun t => stopLeft (t.pc τ)) (fun t ht => ?_) ⟨⟨hF, hH, h⟩, hset⟩
  obtain ⟨ht, hset⟩ := ht
  by_cases hr : ∃ r, t.pc τ = .returned r
  · exact .here (.inl ⟨hr, hset⟩)
  · -- the mutex is freed where the call waits for it
    have hfree : CanReach SocketClient.step Label.goesOn t fun t' =>
        ((t.pc τ).awaitsFd = true → t'.fdMutex = none) ∧ t'.pc τ = t.pc τ ∧ t'.Settled := by
      by_cases hw : (t.pc τ).awaitsFd = true
      · obtain ⟨hstop, hheld⟩ : t.stopClient = true ∧ (t.pc τ).holdsFd = false := by
          have hok := ht.2.2
          cases hpc : t.pc τ with
          | stop k =>
            cases k with
            | notify => exact ⟨by simpa [hpc, StopOk] using hok, rfl⟩
            | test | set => simp [hpc, Pc.awaitsFd] at hw
          | close r k =>
            cases k with
            | lock => exact ⟨by simpa [hpc, StopOk] using hok, rfl⟩
            | close | clear => simp [hpc, Pc.awaitsFd] at hw
          | returned | connect | send | read => simp [hpc, Pc.awaitsFd, StopOk] at hw hok
        exact (ht.2.1.canFree hstop hheld hset).mono (fun _ => id) fun t' h' =>
          ⟨fun _ => h'.1, h'.2⟩
      · exact .here ⟨fun hw' => absurd hw' hw, rfl, hset⟩
    refine (hfree.keeps ht hkeeps).trans fun t' h' => ?_
    obtain ⟨hinv, hm, hpc, hset'⟩ := h'
    rw [← hpc] at hr hm ⊢
    obtain ⟨t'', hs, hlt⟩ := hinv.2.2.runStep (fun r he => hr ⟨r, he⟩) hm
    have hgo : Label.goesOn (.thread τ .run) := trivial
    refine .single hgo hs (.inr ⟨⟨hkeeps _ _ _ hinv hgo hs, hset'.step hs ?_ ?_⟩, hlt⟩)
    all_goals
      intros
      intro hk
      simpa [hk, StopOk] using hinv.2.2

/-- **What a stop does to the calls in progress.** Once a call of `Stop` has returned, any call of
any thread, wherever it is, takes at most five more steps of its own, not counting a `poll()` tried
again after a signal. Which calls are stuck is decided by then: those that had tested `m_sockfd`
before it was closed and read it for `poll()` afterwards, and those that wait for `m_sendMutex` when
such a call has it. They never return; whatever the other threads do, all others can always go on to
their end, since `poll()` returns for a socket that was shut down. -/
theorem calls_end (h : s.StopReturned) (hs : Reach SocketClient.step (fun _ _ => True) s s')
    (τ : ℕ) : (s'.Stuck τ ↔ s.Stuck τ) ∧ s'.Ends τ 5 := by
  have hheld : s.SendHeld := by
    obtain ⟨s₀, s₁, τ₀, r, h₀, hb, h₁, -⟩ := h
    exact sendHeld_of_reach ((sendHeld_of_reach sendHeld_init h₀).step hb) h₁
  obtain ⟨⟨hf', hh'⟩, hstuck⟩ : (s'.Final ∧ s'.SendHeld) ∧ (s'.Stuck τ ↔ s.Stuck τ) :=
    hs.invariant (I := fun t => (t.Final ∧ t.SendHeld) ∧ (t.Stuck τ ↔ s.Stuck τ))
      ⟨⟨h.final, hheld⟩, .rfl⟩ fun _ _ _ ht _ hstep =>
        ⟨⟨ht.1.1.step hstep, ht.1.2.step hstep⟩, (ht.1.1.stuck_step ht.1.2 hstep τ).trans ht.2⟩
  refine ⟨hstuck, fun ls t hl ht => ?_⟩
  obtain ⟨⟨hf, hh⟩, hrank⟩ := (lowers_rank τ).run ⟨hf', hh'⟩ hl ht
  have hle := (s'.pc τ).rank_le
  refine ⟨by omega, ?_⟩
  rw [hf.canReturn_iff hh τ, (hf'.stuck_exec hh' ht τ).2]

/-- Thread 1 polls in the middle of a message, and thread 2 has tested `m_sockfd` for its `poll()`,
when the call of `Stop` goes on. -/
def stoppingWhilePolling : List Label :=
  connecting 1 (lit "ab") ++ runs 1 6 ++ [.thread 2 (.begin .read)] ++ runs 2 4 ++ runs 0 6

/-- Thread 2 goes on to its `poll()` after the stop. -/
theorem calls_end_polling :
    ∃ s s' : SocketClient, (s'.pc 2 = .read (.polling none) ∧ s.Stuck 2 ∧ ¬ s.Stuck 1) ∧
      ((s'.Stuck 2 ↔ s.Stuck 2) ∧ s'.Ends 2 5) ∧ (s'.Stuck 1 ↔ s.Stuck 1) ∧ s'.Ends 1 5 := by
  obtain ⟨s, hs, ht⟩ : ∃ s, Reach step (fun _ l => l.begins 0 = false) (init.begin 0 .stop) s ∧
      decide (s.pc 0 = .returned .done ∧ s.sockfd = none ∧ (s.pc 1).awaitsSend = false ∧
        (s.pc 1).pollFd? none = some (some 3) ∧ s.pc 2 = .read .pollLoad) = true :=
    @Reach.exists_of_exec _ _ step _ _ (fun _ l => !l.begins 0) _ stoppingWhilePolling
      (fun _ _ h => by simpa using h) (by decide) (by decide)
  obtain ⟨hpc, hclosed, hwait, hfd, hread⟩ := of_decide_eq_true ht
  have hstop : s.StopReturned := ⟨init, init.begin 0 .stop, 0, .done, .init, rfl, hs, hpc⟩
  have hnext : s.step (.thread 2 .run) = some (s.setPc 2 (.read (.polling none))) := by
    simp [step, threadStep, hread, readStep, hclosed]
  refine ⟨s, _, ⟨by simp, .inl ?_, ?_⟩, calls_end hstop (.step .init trivial hnext) 2,
    calls_end hstop (.step .init trivial hnext) 1⟩
  · simp [Lost, hclosed, hread, Pc.pollFd?]
  · simp [Stuck, Lost, hclosed, hfd, hwait]

end SocketClient

end Outmdsd
