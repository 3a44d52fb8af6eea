import Outmdsd.Socket.Descriptors

/-!
# After a stop

`Stop` sets the flag before it takes `m_fdMutex`, and its `Close` waits for whoever is in the retry
loop. When it returns, nobody holds the mutex except before a loop test that fails (`Final`), and
that is so for ever: no socket is opened, `Read` returns -1 and `Send` throws (`stop_final`).
-/

namespace Outmdsd

namespace SocketClient

variable {s s' : SocketClient} {τ τ' : ℕ} {pc : Pc} {l : Label} {r : Outcome}

/-- A step of a thread moves no other one, does not take a stop back, and takes or frees
`m_fdMutex` for the thread alone. -/
structure StepOf (τ : ℕ) (s s' : SocketClient) : Prop where
  pc : ∀ τ' ≠ τ, s'.pc τ' = s.pc τ'
  stopped : s.stopClient = true → s'.stopClient = true
  mutex : s'.fdMutex = s.fdMutex ∨ s'.fdMutex = none ∨ s'.fdMutex = some τ
  holds : s'.fdMutex = some τ → (s.fdMutex = some τ → (s.pc τ).holdsFd = true) →
    (s'.pc τ).holdsFd = true

namespace StepOf

theorem refl (τ : ℕ) (s : SocketClient) : StepOf τ s s :=
  ⟨fun _ _ => rfl, id, .inl rfl, fun h h' => h' h⟩

/-- A step that leaves `m_fdMutex` alone, at a place where the thread does not hold it. -/
theorem outside {t : SocketClient} (hpc : t.pc = s.pc)
    (hstop : s.stopClient = true → t.stopClient = true) (hm : t.fdMutex = s.fdMutex)
    (hn : (s.pc τ).holdsFd = false) : StepOf τ s (t.setPc τ pc) where
  pc τ' hτ := (Function.update_of_ne hτ _ _).trans (congrFun hpc τ')
  stopped := hstop
  mutex := .inl hm
  holds h h' := by
    have := h' (hm.symm.trans h)
    rw [hn] at this
    cases this

/-- A step to a place where the thread holds `m_fdMutex`. -/
theorem inside {t : SocketClient} (hpc : t.pc = s.pc) (hstop : t.stopClient = s.stopClient)
    (hm : t.fdMutex = s.fdMutex ∨ t.fdMutex = some τ) (hh : pc.holdsFd = true) :
    StepOf τ s (t.setPc τ pc) where
  pc τ' hτ := (Function.update_of_ne hτ _ _).trans (congrFun hpc τ')
  stopped h := hstop.trans h
  mutex := hm.imp_right .inr
  holds _ _ := by simpa using hh

/-- A step that frees `m_fdMutex`. -/
theorem leave {t : SocketClient} (hpc : t.pc = s.pc) (hstop : t.stopClient = s.stopClient)
    (hm : t.fdMutex = none) : StepOf τ s (t.setPc τ pc) where
  pc τ' hτ := (Function.update_of_ne hτ _ _).trans (congrFun hpc τ')
  stopped h := hstop.trans h
  mutex := .inr (.inl hm)
  holds h _ := by
    have hn : (t.setPc τ pc).fdMutex = none := hm
    rw [hn] at h
    cases h

end StepOf

theorem closeSockfd_same (s : SocketClient) : s.closeSockfd.pc = s.pc ∧
    s.closeSockfd.stopClient = s.stopClient ∧ s.closeSockfd.fdMutex = s.fdMutex := by
  unfold closeSockfd
  split <;> exact ⟨rfl, rfl, rfl⟩

theorem stepOf_connectStep {p : Caller} {k : ConnectPc} {a : Act} (hpc : s.pc τ = .connect p k)
    (hs : s.connectStep τ p k a = some s') : StepOf τ s s' := by
  cases connectMove hs with
  | valid | test => exact .outside rfl id rfl (by rw [hpc]; rfl)
  | lock => exact .inside rfl rfl (.inr rfl) rfl
  | leave | connected | giveUp => exact .leave rfl rfl rfl
  | close =>
    obtain ⟨h1, h2, h3⟩ := s.closeSockfd_same
    exact .inside h1 h2 (.inl h3) rfl
  | _ => exact .inside rfl rfl (.inl rfl) rfl

theorem stepOf_closeStep {k : ClosePc} {a : Act} (hpc : s.pc τ = .close r k)
    (hs : s.closeStep τ r k a = some s') : StepOf τ s s' := by
  cases closeMove hs with
  | lock => exact .inside rfl rfl (.inr rfl) rfl
  | closed => exact .outside rfl id rfl (by rw [hpc]; rfl)
  | close =>
    obtain ⟨h1, h2, h3⟩ := s.closeSockfd_same
    exact .inside h1 h2 (.inl h3) rfl
  | clear => exact .leave rfl rfl rfl

theorem stepOf_throwIn (g : Progress) (hn : (s.pc τ).holdsFd = false) :
    StepOf τ s (s.throwIn τ g) := by
  unfold throwIn
  cases g.conn <;> exact .outside rfl id rfl hn

theorem stepOf_sendStep {c : SendCall} {k : SendPc} {a : Act} (hpc : s.pc τ = .send c k)
    (hs : s.sendStep τ c k a = some s') : StepOf τ s s' := by
  have hn : (s.pc τ).holdsFd = false := by rw [hpc]; rfl
  cases sendMove hs with
  | pollAgain => exact .refl τ s
  | pollInvalid | notReady | closed | error => exact stepOf_throwIn _ hn
  | _ => exact .outside rfl id rfl hn

theorem stepOf_readStep {k : ReadPc} {a : Act} (hpc : s.pc τ = .read k)
    (hs : s.readStep τ k a = some s') : StepOf τ s s' := by
  obtain rfl | ⟨pc, rfl, -⟩ := readStep_eq hs
  · exact .refl τ s'
  · exact .outside rfl id rfl (by rw [hpc]; rfl)

theorem stepOf_stopStep {k : StopPc} {a : Act} (hpc : s.pc τ = .stop k)
    (hs : s.stopStep τ k a = some s') : StepOf τ s s' := by
  obtain ⟨stop, pc, rfl, hstop, -⟩ := stopStep_eq hs
  exact .outside rfl hstop rfl (by rw [hpc]; rfl)

theorem stepOf_begin (call : ApiCall) (hpc : s.pc τ = .returned r) :
    StepOf τ s (s.begin τ call) := by
  have hn : (s.pc τ).holdsFd = false := by rw [hpc]; rfl
  cases call with
  | send msg =>
    by_cases h : msg = []
    · rw [SocketClient.begin, if_pos h]
      exact .outside rfl id rfl hn
    · rw [SocketClient.begin, if_neg h]
      exact .outside rfl id rfl hn
  | connect | close | read | stop => exact .outside rfl id rfl hn

theorem stepOf_step {a : Act} (hs : s.step (.thread τ a) = some s') : StepOf τ s s' := by
  simp only [SocketClient.step, threadStep] at hs
  split at hs
  · rename_i hpc
    split at hs
    · cases hs
      exact stepOf_begin _ hpc
    · cases hs
  · exact stepOf_connectStep ‹_› hs
  · exact stepOf_sendStep ‹_› hs
  · exact stepOf_closeStep ‹_› hs
  · exact stepOf_readStep ‹_› hs
  · exact stepOf_stopStep ‹_› hs

/-- The holder of `m_fdMutex` is at a place where it holds it. -/
def Held (s : SocketClient) : Prop := ∀ τ, s.fdMutex = some τ → (s.pc τ).holdsFd = true

theorem Held.step (h : s.Held) (hs : s.step l = some s') : s'.Held := by
  cases l with
  | hangUp k =>
    cases hs
    exact h
  | thread τ a =>
    have ho := stepOf_step hs
    intro τ' hτ'
    by_cases hne : τ' = τ
    · subst hne
      exact ho.holds hτ' (h τ')
    · rw [ho.pc τ' hne]
      refine h τ' ?_
      rcases ho.mutex with he | hn | hm
      · exact he.symm.trans hτ'
      · rw [hn] at hτ'
        cases hτ'
      · exact absurd (Option.some.inj (hτ'.symm.trans hm)) hne

/-! ## The final states -/

/-- The client is stopped and has no socket, and nobody is about to open one. -/
structure Final (s : SocketClient) : Prop where
  fds : s.FdInv
  held : s.Held
  stopped : s.stopClient = true
  closed : s.sockfd = none
  atLoop : ∀ τ, (s.pc τ).holdsFd = true → ∃ p, s.pc τ = .connect p .loop

/-- A step of `Connect` in a final state takes or frees the mutex at most. -/
theorem Final.connectStep_eq (h : s.Final) {p : Caller} {k : ConnectPc} {a : Act}
    (hpc : s.pc τ = .connect p k) (hs : s.connectStep τ p k a = some s') :
    ∃ mutex pc, s' = { s with fdMutex := mutex }.setPc τ pc ∧
      (pc = .connect p .lock ∨ pc = .connect p .loop ∨ pc = afterConnect p) := by
  -- the holder of the mutex is before a loop test that fails
  have hloop : (Pc.connect p k).holdsFd = true → k = .loop := fun hh => by
    obtain ⟨p', hp'⟩ := h.atLoop τ (by rw [hpc]; exact hh)
    rw [hpc] at hp'
    cases hp'
    rfl
  cases connectMove hs with
  | valid => exact ⟨s.fdMutex, _, rfl, .inr (.inr rfl)⟩
  | test => exact ⟨s.fdMutex, _, rfl, .inl rfl⟩
  | lock => exact ⟨some τ, _, rfl, .inr (.inl rfl)⟩
  | leave => exact ⟨none, _, rfl, .inr (.inr rfl)⟩
  | loop hstop =>
    rw [h.stopped] at hstop
    cases hstop
  | _ => cases hloop rfl

/-- A step of `Close` in a final state returns. -/
theorem Final.closeStep_eq (h : s.Final) {k : ClosePc} {a : Act} (hpc : s.pc τ = .close r k)
    (hs : s.closeStep τ r k a = some s') : s' = s.setPc τ (.returned r) := by
  have hlock : (Pc.close r k).holdsFd = false := by
    by_contra hh
    obtain ⟨p, hp⟩ := h.atLoop τ (by rw [hpc]; simpa using hh)
    rw [hpc] at hp
    cases hp
  cases closeMove hs with
  | lock _ hsome =>
    rw [h.closed] at hsome
    cases hsome
  | closed => rfl
  | close | clear => cases hlock

/-- No step opens a socket. -/
theorem Final.step_same (h : s.Final) (hs : s.step l = some s') :
    s'.sockfd = none ∧ s'.numConns = s.numConns ∧
      ∀ τ, (s'.pc τ).holdsFd = true → ∃ p, s'.pc τ = .connect p .loop := by
  have hsame : SameFds s s' → s'.sockfd = none ∧ s'.numConns = s.numConns ∧
      ∀ τ, (s'.pc τ).holdsFd = true → ∃ p, s'.pc τ = .connect p .loop := fun hf => by
    refine ⟨hf.sockfd.trans h.closed, hf.numConns, fun τ hτ => ?_⟩
    rcases hf.pc τ with he | hn
    · rw [he] at hτ ⊢
      exact h.atLoop τ hτ
    · rw [hn] at hτ
      cases hτ
  cases l with
  | hangUp k =>
    cases hs
    exact hsame (.setConn rfl)
  | thread τ a =>
    simp only [SocketClient.step, threadStep] at hs
    split at hs
    · split at hs
      · cases hs
        exact hsame (sameFds_begin s τ _)
      · cases hs
    · rename_i p k hpc
      obtain ⟨mutex, pc, rfl, hp⟩ := h.connectStep_eq hpc hs
      refine ⟨h.closed, rfl, ?_⟩
      refine (Function.forall_update_iff s.pc
        fun _ pc => pc.holdsFd = true → ∃ p, pc = .connect p .loop).mpr
        ⟨fun hh => ?_, fun τ' _ => h.atLoop τ'⟩
      obtain rfl | rfl | rfl := hp
      · cases hh
      · exact ⟨p, rfl⟩
      · rw [holdsFd_afterConnect] at hh
        cases hh
    · exact hsame (sameFds_sendStep hs)
    · rename_i hpc
      refine hsame ?_
      rw [h.closeStep_eq hpc hs]
      exact .setPc rfl
    · exact hsame (sameFds_readStep hs)
    · exact hsame (sameFds_stopStep hs)

theorem stopClient_step (h : s.stopClient = true) (hs : s.step l = some s') :
    s'.stopClient = true := by
  cases l with
  | hangUp k =>
    cases hs
    exact h
  | thread τ a => exact (stepOf_step hs).stopped h

theorem Final.step (h : s.Final) (hs : s.step l = some s') : s'.Final where
  fds := h.fds.step hs
  held := h.held.step hs
  stopped := stopClient_step h.stopped hs
  closed := (h.step_same hs).1
  atLoop := (h.step_same hs).2.2

/-! ## A call of `Stop` -/

/-- The step begins a call of the thread. -/
def Label.begins (τ : ℕ) : Label → Bool
  | .thread τ' (.begin _) => τ' = τ
  | _ => false

/-- What a thread in `Stop` has done so far. -/
def StopOk (s : SocketClient) : Pc → Prop
  | .stop .test | .stop .set => True
  | .stop .notify => s.stopClient = true
  | .close _ _ => s.stopClient = true
  | .returned _ => s.Final
  | _ => False

/-- Without a socket, what nobody holds is final. -/
theorem final_of_closed (hF : s.FdInv) (hH : s.Held) (hstop : s.stopClient = true)
    (hs : s.sockfd = none) (hm : ∀ τ, (s.pc τ).holdsFd = false) : s.Final :=
  ⟨hF, hH, hstop, hs, fun τ hh => by
    rw [hm τ] at hh
    cases hh⟩

/-- The `Close` of a call of `Stop`. -/
theorem stopOk_closeStep (hF : s.FdInv) (hF' : s'.FdInv) (hH' : s'.Held)
    (hstop : s.stopClient = true) {k : ClosePc} {a : Act} (hpc : s.pc τ = .close r k)
    (hs : s.closeStep τ r k a = some s') : s'.StopOk (s'.pc τ) := by
  have hstop' := (stepOf_closeStep hpc hs).stopped hstop
  have hpc' := (stepOf_closeStep hpc hs).pc
  have hnone : s.fdMutex = none ∨ s.fdMutex = some τ → ∀ τ' ≠ τ, (s'.pc τ').holdsFd = false :=
    fun hm τ' hne => by
      rw [hpc' τ' hne]
      exact hF.not_holdsFd hm hne
  -- no other thread holds the mutex, and this one has returned
  have hreturned : s'.sockfd = none → s'.stopClient = true → s'.pc τ = .returned r →
      s.fdMutex = none ∨ s.fdMutex = some τ → s'.StopOk (s'.pc τ) := fun hn ht hr hm => by
    rw [hr]
    refine final_of_closed hF' hH' ht hn fun τ' => ?_
    by_cases hne : τ' = τ
    · rw [hne, hr]
      rfl
    · exact hnone hm τ' hne
  cases closeMove hs with
  | lock => simpa [StopOk] using hstop
  | closed hm hn => exact hreturned hn hstop (by simp) (.inl hm)
  | close => simpa [StopOk] using hstop'
  | clear => exact hreturned rfl hstop (by simp) (.inr (hF.owner τ (by rw [hpc]; rfl)))

theorem stopOk_stopStep (h : s.StopOk (s.pc τ)) {k : StopPc} {a : Act} (hpc : s.pc τ = .stop k)
    (hs : s.stopStep τ k a = some s') : s'.StopOk (s'.pc τ) := by
  rw [hpc] at h
  unfold stopStep at hs
  split at hs
  · cases hs
    by_cases hstop : s.stopClient = true
    · simp [hstop, StopOk]
    · simp [hstop, StopOk]
  · cases hs
    simp [StopOk]
  · split at hs
    · cases hs
      simpa [StopOk] using h
    · cases hs
  · cases hs

/-- A step of another thread keeps what a call of `Stop` has done. -/
theorem StopOk.frame (h : s.StopOk pc) (hs : s.step l = some s') : s'.StopOk pc := by
  cases pc with
  | returned => exact Final.step h hs
  | stop k =>
    cases k with
    | test | set => trivial
    | notify => exact stopClient_step h hs
  | close => exact stopClient_step h hs
  | connect | send | read => exact h

/-- Every step that does not begin another call of the thread. -/
theorem StopOk.step (h : s.StopOk (s.pc τ)) (hF : s.FdInv) (hH : s.Held)
    (hl : l.begins τ = false) (hs : s.step l = some s') : s'.StopOk (s'.pc τ) := by
  cases l with
  | hangUp k =>
    have hpc : s'.pc = s.pc := by
      cases hs
      rfl
    rw [hpc]
    exact h.frame hs
  | thread τ' a =>
    by_cases hne : τ = τ'
    · subst hne
      have hs' : s.threadStep τ a = some s' := hs
      unfold threadStep at hs'
      split at hs'
      · split at hs'
        · simp [Label.begins] at hl
        · cases hs'
      · rename_i hpc
        rw [hpc] at h
        cases h
      · rename_i hpc
        rw [hpc] at h
        cases h
      · rename_i hpc
        rw [hpc] at h
        exact stopOk_closeStep hF (hF.step hs) (hH.step hs) h hpc hs'
      · rename_i hpc
        rw [hpc] at h
        cases h
      · rename_i hpc
        exact stopOk_stopStep h hpc hs'
    · rw [(stepOf_step hs).pc τ hne]
      exact h.frame hs

/-- A thread begins a call only when it has returned from the one before. -/
theorem step_begin {call : ApiCall} (hs : s.step (.thread τ (.begin call)) = some s') :
    (∃ r, s.pc τ = .returned r) ∧ s' = s.begin τ call := by
  simp only [SocketClient.step, threadStep] at hs
  split at hs
  · cases hs
    exact ⟨⟨_, ‹_›⟩, rfl⟩
  · rename_i k _
    cases k <;> simp [connectStep] at hs
  · rename_i k _
    cases k <;> simp [sendStep] at hs
  · rename_i k _
    cases k <;> simp [closeStep] at hs
  · rename_i k _
    cases k <;> simp [readStep] at hs
  · rename_i k _
    cases k <;> simp [stopStep] at hs

/-- A call of `Stop` has returned. -/
def StopReturned (s : SocketClient) : Prop :=
  ∃ s₀ s₁ τ r, Reach step (fun _ _ => True) init s₀ ∧
    s₀.step (.thread τ (.begin .stop)) = some s₁ ∧
    Reach step (fun _ l => l.begins τ = false) s₁ s ∧ s.pc τ = .returned r

theorem fdInv_held_of_reach {s₀ : SocketClient} {ok : SocketClient → Label → Prop}
    (hF : s₀.FdInv) (hH : s₀.Held) (h : Reach step ok s₀ s) : s.FdInv ∧ s.Held :=
  h.invariant (I := fun s => s.FdInv ∧ s.Held) ⟨hF, hH⟩ fun _ _ _ h _ hs =>
    ⟨h.1.step hs, h.2.step hs⟩

theorem held_init : init.Held := by
  simp [Held, init]

theorem StopReturned.final (h : s.StopReturned) : s.Final := by
  obtain ⟨s₀, s₁, τ, r, h₀, hs, h₁, hpc⟩ := h
  obtain ⟨hF₀, hH₀⟩ := fdInv_held_of_reach fdInv_init held_init h₀
  have hbegin : s₁.StopOk (s₁.pc τ) := by
    rw [(step_begin hs).2]
    simp [SocketClient.begin, StopOk]
  have hall : s.FdInv ∧ s.Held ∧ s.StopOk (s.pc τ) :=
    h₁.invariant (I := fun s => s.FdInv ∧ s.Held ∧ s.StopOk (s.pc τ))
      ⟨hF₀.step hs, hH₀.step hs, hbegin⟩ fun t l t' h hl ht =>
        ⟨h.1.step ht, h.2.1.step ht, h.2.2.step h.1 h.2.1 hl ht⟩
  have hfinal := hall.2.2
  rw [hpc] at hfinal
  exact hfinal

/-! ## Calls after the stop -/

/-- The step is one of the thread. -/
def Label.ownedBy (τ : ℕ) : Label → Bool
  | .thread τ' _ => τ' = τ
  | .hangUp _ => false

/-- Whatever the others do, the call of the thread takes at most `n` more steps, ends with `r`, and
can always go on to its end. -/
def EndsWith (s : SocketClient) (τ n : ℕ) (r : Outcome) : Prop :=
  ∀ ls s', (∀ l ∈ ls, l.begins τ = false) → exec step s ls = some s' →
    ls.countP (Label.ownedBy τ) ≤ n ∧ (∀ r', s'.pc τ = .returned r' → r' = r) ∧
      ∃ ls' s'', (∀ l ∈ ls', l.begins τ = false) ∧ exec step s' ls' = some s'' ∧
        s''.pc τ = .returned r

/-- The steps that a call of `Read` or `Send` has left in a final state, up to its end with `r`. -/
def stepsLeft : Outcome → Pc → Option ℕ
  | .stopped, .read .test => some 1
  | .stopped, .returned .stopped => some 0
  | .threw, .connect (.send _) .test => some 5
  | .threw, .connect (.send _) .lock => some 4
  | .threw, .connect (.send _) .loop => some 3
  | .threw, .send _ .test => some 2
  | .threw, .close .threw .lock => some 1
  | .threw, .returned .threw => some 0
  | _, _ => none

theorem returned_of_stepsLeft (h : stepsLeft r pc = some 0) : pc = .returned r := by
  unfold stepsLeft at h
  split at h <;> first | rfl | simp at h

theorem eq_of_stepsLeft_returned {r' : Outcome} {n : ℕ}
    (h : stepsLeft r (.returned r') = some n) : r' = r ∧ n = 0 := by
  cases r <;> cases r' <;> simp_all [stepsLeft]

/-- **A call goes one step on.** -/
theorem Final.ownStep (h : s.Final) {a : Act} {n : ℕ} (hn : stepsLeft r (s.pc τ) = some n)
    (hl : (Label.thread τ a).begins τ = false) (hs : s.step (.thread τ a) = some s') :
    ∃ m, stepsLeft r (s'.pc τ) = some m ∧ n = m + 1 := by
  have hclosed := h.closed
  have hstopped := h.stopped
  have hs' : s.threadStep τ a = some s' := hs
  unfold threadStep at hs'
  generalize hpc : s.pc τ = pc at hn hs'
  unfold stepsLeft at hn
  split at hn
  · -- `Read` tests the flag
    cases hn
    cases a <;> simp only [readStep, reduceCtorEq] at hs'
    cases hs'
    exact ⟨0, by simp [hstopped, stepsLeft], rfl⟩
  · cases a <;> simp [Label.begins] at hl hs'
  · -- the early test in `Connect`
    cases hn
    cases a <;> simp only [connectStep, reduceCtorEq] at hs'
    cases hs'
    exact ⟨4, by simp [hclosed, stepsLeft], rfl⟩
  · cases hn
    cases a <;> simp only [connectStep, reduceCtorEq] at hs'
    split at hs'
    · cases hs'
      exact ⟨3, by simp [stepsLeft], rfl⟩
    · cases hs'
  · -- the loop test
    cases hn
    cases a <;> simp only [connectStep, reduceCtorEq] at hs'
    cases hs'
    exact ⟨2, by simp [hstopped, afterConnect, stepsLeft], rfl⟩
  · -- no socket
    cases hn
    cases a <;> simp only [sendStep, reduceCtorEq] at hs'
    cases hs'
    exact ⟨1, by simp [hclosed, stepsLeft], rfl⟩
  · cases hn
    cases a <;> simp only [closeStep, reduceCtorEq] at hs'
    split at hs'
    · cases hs'
      exact ⟨0, by simp [hclosed, stepsLeft], rfl⟩
    · cases hs'
  · cases a <;> simp [Label.begins] at hl hs'
  · cases hn

/-- A call that has not returned can take its next step, unless another thread has the mutex. -/
theorem ownStep_enabled {n : ℕ} (hn : stepsLeft r (s.pc τ) = some (n + 1))
    (hm : s.fdMutex = none ∨ (s.pc τ).holdsFd = true) :
    ∃ s', s.step (.thread τ .run) = some s' := by
  simp only [SocketClient.step, threadStep]
  generalize hpc : s.pc τ = pc at hn hm
  unfold stepsLeft at hn
  split at hn <;> simp only [Option.some.injEq, reduceCtorEq] at hn
  case h_1 | h_3 | h_5 | h_6 => exact ⟨_, rfl⟩
  case h_4 | h_7 =>
    have hm' : s.fdMutex = none := by simpa [Pc.holdsFd] using hm
    simp only [connectStep, closeStep, hm', if_true]
    exact ⟨_, rfl⟩

/-- Whoever has the mutex frees it with its next step. -/
theorem Final.free (h : s.Final) (hm : s.fdMutex = some τ') :
    ∃ s', s.step (.thread τ' .run) = some s' ∧ s'.fdMutex = none := by
  obtain ⟨p, hp⟩ := h.atLoop τ' (h.held τ' hm)
  refine ⟨{ s with fdMutex := none }.setPc τ' (afterConnect p), ?_, rfl⟩
  simp [SocketClient.step, threadStep, hp, connectStep, h.stopped]

/-- A run of all threads, in which the call goes on with its own steps. -/
theorem Final.run {ls : List Label} {n : ℕ} (h : s.Final)
    (hn : stepsLeft r (s.pc τ) = some n) (hl : ∀ l ∈ ls, l.begins τ = false)
    (hs : exec SocketClient.step s ls = some s') :
    s'.Final ∧ ∃ m, stepsLeft r (s'.pc τ) = some m ∧ m + ls.countP (Label.ownedBy τ) = n := by
  induction ls generalizing s n with
  | nil =>
    obtain rfl : s = s' := by simpa [exec] using hs
    exact ⟨h, n, hn, rfl⟩
  | cons l ls ih =>
    obtain ⟨s₁, hs₁, hs₂⟩ := Option.bind_eq_some_iff.mp hs
    have hl₁ : l.begins τ = false := hl l (by simp)
    have hls : ∀ l ∈ ls, l.begins τ = false := fun l hm => hl l (by simp [hm])
    by_cases ho : l.ownedBy τ = true
    · obtain ⟨a, rfl⟩ : ∃ a, l = .thread τ a := by
        cases l with
        | hangUp => cases ho
        | thread τ' a =>
          obtain rfl : τ' = τ := by simpa [Label.ownedBy] using ho
          exact ⟨a, rfl⟩
      obtain ⟨m, hm, rfl⟩ := h.ownStep hn hl₁ hs₁
      obtain ⟨hf, k, hk, he⟩ := ih (h.step hs₁) hm hls hs₂
      refine ⟨hf, k, hk, ?_⟩
      rw [List.countP_cons_of_pos ho]
      omega
    · have hpc : s₁.pc τ = s.pc τ := by
        cases l with
        | hangUp =>
          cases hs₁
          rfl
        | thread τ' a =>
          refine (stepOf_step hs₁).pc τ fun he => ho ?_
          simp [Label.ownedBy, he]
      rw [List.countP_cons_of_neg ho]
      exact ih (h.step hs₁) (hpc ▸ hn) hls hs₂

/-- From a final state the call can go on to its end. -/
theorem Final.exists_end {n : ℕ} (h : s.Final) (hn : stepsLeft r (s.pc τ) = some n) :
    ∃ ls s', (∀ l ∈ ls, l.begins τ = false) ∧ exec SocketClient.step s ls = some s' ∧
      s'.pc τ = .returned r := by
  induction n generalizing s with
  | zero => exact ⟨[], s, by simp, rfl, returned_of_stepsLeft hn⟩
  | succ n ih =>
    -- once the mutex is free, or with the thread
    have hgo : ∀ t : SocketClient, t.Final → stepsLeft r (t.pc τ) = some (n + 1) →
        (t.fdMutex = none ∨ (t.pc τ).holdsFd = true) →
        ∃ ls s', (∀ l ∈ ls, l.begins τ = false) ∧ exec SocketClient.step t ls = some s' ∧
          s'.pc τ = .returned r := fun t ht hnt hm => by
      obtain ⟨t₁, ht₁⟩ := ownStep_enabled hnt hm
      obtain ⟨m, hm, he⟩ := ht.ownStep hnt rfl ht₁
      obtain rfl : n = m := by omega
      obtain ⟨ls, s', hl, hs, hpc⟩ := ih (ht.step ht₁) hm
      refine ⟨.thread τ .run :: ls, s', ?_, ?_, hpc⟩
      · simpa [Label.begins] using hl
      · rw [exec, ht₁]
        exact hs
    cases hmutex : s.fdMutex with
    | none => exact hgo s h hn (.inl hmutex)
    | some τ' =>
      by_cases hne : τ = τ'
      · exact hgo s h hn (.inr (h.held τ (hne ▸ hmutex)))
      · obtain ⟨s₁, hs₁, hfree⟩ := h.free hmutex
        have hpc : s₁.pc τ = s.pc τ := (stepOf_step hs₁).pc τ hne
        obtain ⟨ls, s', hl, hs, hr⟩ := hgo s₁ (h.step hs₁) (hpc ▸ hn) (.inl hfree)
        refine ⟨.thread τ' .run :: ls, s', ?_, ?_, hr⟩
        · simpa [Label.begins] using hl
        · rw [exec, hs₁]
          exact hs

theorem Final.endsWith {n : ℕ} (h : s.Final) (hn : stepsLeft r (s.pc τ) = some n) :
    s.EndsWith τ n r := by
  intro ls s' hl hs
  obtain ⟨hf, m, hm, he⟩ := h.run hn hl hs
  refine ⟨by omega, fun r' hr' => ?_, hf.exists_end hm⟩
  rw [hr'] at hm
  exact (eq_of_stepsLeft_returned hm).1

/-- **Stop is final.** Once a call of `Stop` has returned, the socket is closed and no other is
opened; a call of `Read` that begins later returns -1, and a call of `Send` with a buffer that is
not empty throws, within five steps of its own. -/
theorem stop_final (h : s.StopReturned) (hs : Reach step (fun _ _ => True) s s') :
    s'.sockfd = none ∧ (∀ fd, s'.fds fd = none) ∧ s'.numConns = s.numConns ∧
      (∀ τ t, s'.step (.thread τ (.begin .read)) = some t → t.EndsWith τ 1 .stopped) ∧
      ∀ τ msg t, msg ≠ [] → s'.step (.thread τ (.begin (.send msg))) = some t →
        t.EndsWith τ 5 .threw := by
  obtain ⟨hf, hnum⟩ : s'.Final ∧ s'.numConns = s.numConns :=
    hs.invariant (I := fun t => t.Final ∧ t.numConns = s.numConns) ⟨h.final, rfl⟩
      fun _ _ _ ht _ hstep => ⟨ht.1.step hstep, (ht.1.step_same hstep).2.1.trans ht.2⟩
  refine ⟨hf.closed, fun fd => ?_, hnum, fun τ t ht => ?_, fun τ msg t hmsg ht => ?_⟩
  · by_contra hne
    obtain ⟨k, hk⟩ := Option.ne_none_iff_exists'.mp hne
    have := (hf.fds.isOpen fd k hk).1
    rw [hf.closed] at this
    cases this
  · refine (hf.step ht).endsWith ?_
    rw [(step_begin ht).2]
    simp [SocketClient.begin, stepsLeft]
  · refine (hf.step ht).endsWith ?_
    rw [(step_begin ht).2, SocketClient.begin, if_neg hmsg]
    simp [stepsLeft]

/-- Thread 1 opens a socket while thread 0 sets the flag, and connects. -/
def stoppingWhileConnecting : List Label :=
  [.thread 1 (.begin .connect), .thread 1 .run, .thread 1 .run, .thread 1 .run,
    .thread 1 (.socket (some 3)), .thread 0 .run, .thread 0 .run, .thread 1 (.connect true),
    .thread 0 .run, .thread 0 .run, .thread 0 .run, .thread 0 .run]

theorem stop_final_while_connecting :
    ∃ s : SocketClient, s.numConns = 1 ∧ s.sockfd = none ∧
      ∀ t, s.step (.thread 1 (.begin .read)) = some t → t.EndsWith 1 1 .stopped := by
  obtain ⟨s, hs, ht⟩ : ∃ s, Reach step (fun _ l => l.begins 0 = false) (init.begin 0 .stop) s ∧
      decide (s.pc 0 = .returned .done ∧ s.numConns = 1) = true :=
    @Reach.exists_of_exec _ _ step _ _ (fun _ l => !l.begins 0) _ stoppingWhileConnecting
      (fun _ _ h => by simpa using h) (by decide) (by decide)
  obtain ⟨hpc, hnum⟩ := of_decide_eq_true ht
  obtain ⟨hclosed, -, -, hread, -⟩ :=
    stop_final ⟨init, init.begin 0 .stop, 0, .done, .init, rfl, hs, hpc⟩ .init
  exact ⟨s, hnum, hclosed, hread 1⟩

end SocketClient

end Outmdsd
