import Outmdsd.Socket.SocketClient

/-!
# A call alone on its connection

While a call is in the loop of `SendData` and no other thread moves, its steps are the turns of
`sendLoop`: whatever the system answers, the same bytes are accepted and the call ends in the same
way (`sendsAs_sendLoop`).
-/

namespace Outmdsd

namespace SocketClient

/-- Turns without a stop, in which `send()` accepts at least one byte and no more than are left. -/
def Fits : Bytes → List Turn → Prop
  | _, [] => True
  | rest, t :: ts => t.stop = false ∧
    match sendAnswer t.sends with
    | some (.accepted n) => (1 ≤ n ∧ n ≤ rest.length) ∧ Fits (rest.drop n) ts
    | _ => Fits rest ts

/-- Where the thread of a call is when its loop has ended. -/
def EndsAs (pc : Pc) : End → Prop
  | .returned => pc = .returned .done
  | .threw _ => pc = .close .threw .lock
  | .running => True

/-- The thread `τ` alone sends what `r` says on the connection `k`, and ends like it. -/
def SendsAs (s : SocketClient) (τ k : ℕ) (r : Sent) : Prop :=
  ∃ (acts : List Act) (s' : SocketClient), exec step s (acts.map (.thread τ)) = some s' ∧
    (s'.conn k).bytes = (s.conn k).bytes ++ r.accepted ∧ EndsAs (s'.pc τ) r.ending

/-- The client is not stopped, and the connection behind `m_sockfd` can accept bytes. -/
structure CanSend (s : SocketClient) (fd k : ℕ) : Prop where
  notStopped : s.stopClient = false
  sockfd : s.sockfd = some fd
  fds : s.fds fd = some k
  accepts : (s.conn k).Accepts = true

variable {s s' : SocketClient} {τ fd k : ℕ} {c : SendCall} {g : Progress} {a : Act} {r : Sent}

namespace SendsAs

theorem running (s : SocketClient) : SendsAs s τ k ⟨[], .running⟩ :=
  ⟨[], s, rfl, (List.append_nil _).symm, trivial⟩

/-- A step on which bytes are accepted. -/
theorem append {x : Bytes} (hs : s.step (.thread τ a) = some s')
    (hb : (s'.conn k).bytes = (s.conn k).bytes ++ x) (h : SendsAs s' τ k r) :
    SendsAs s τ k ⟨x ++ r.accepted, r.ending⟩ := by
  obtain ⟨acts, s₁, he, hb₁, hE⟩ := h
  refine ⟨a :: acts, s₁, ?_, ?_, hE⟩
  · rw [List.map_cons, exec, hs, Option.bind_some, he]
  · rw [hb₁, hb, List.append_assoc]

/-- A step on which no bytes are accepted. -/
theorem silent (hs : s.step (.thread τ a) = some s')
    (hb : (s'.conn k).bytes = (s.conn k).bytes) (h : SendsAs s' τ k r) : SendsAs s τ k r :=
  append hs (hb.trans (List.append_nil _).symm) h

/-- The last step. -/
theorem last {ending : End} (hs : s.step (.thread τ a) = some s')
    (hb : (s'.conn k).bytes = (s.conn k).bytes) (he : EndsAs (s'.pc τ) ending) :
    SendsAs s τ k ⟨[], ending⟩ :=
  silent hs hb ⟨[], s', rfl, (List.append_nil _).symm, he⟩

end SendsAs

theorem bytes_accept (s : SocketClient) (τ : ℕ) (c : SendCall) (g : Progress) (k n : ℕ) :
    ((s.accept τ c g k n).conn k).bytes = (s.conn k).bytes ++ (c.msg.drop g.total).take n := by
  simp [accept, Conn.bytes]

theorem bytes_throwIn (s : SocketClient) (τ : ℕ) (g : Progress) (k : ℕ) :
    ((s.throwIn τ g).conn k).bytes = (s.conn k).bytes := bytes_eq (accepted_throwIn s τ g k)

theorem pc_throwIn (s : SocketClient) (τ : ℕ) (g : Progress) :
    (s.throwIn τ g).pc τ = .close .threw .lock := by
  unfold throwIn
  rw [setPc_pc, Function.update_self]

theorem CanSend.setPc (h : CanSend s fd k) (pc : Pc) : CanSend (s.setPc τ pc) fd k :=
  ⟨h.notStopped, h.sockfd, h.fds, h.accepts⟩

theorem CanSend.accept (h : CanSend s fd k) (n : ℕ) : CanSend (s.accept τ c g k n) fd k := by
  refine ⟨h.notStopped, h.sockfd, h.fds, ?_⟩
  simpa [SocketClient.accept, Conn.Accepts] using h.accepts

/-- `PollSocket` -/
theorem CanSend.poll (h : CanSend s fd k) (hpc : s.pc τ = .send c (.poll g))
    (polls : List PollAnswer)
    (hload : ∀ t, CanSend t fd k → t.pc τ = .send c (.load g) → SendsAs t τ k r) :
    SendsAs s τ k (match pollSocket polls with
      | some ending => ⟨[], ending⟩
      | none => r) := by
  -- the test of `m_sockfd`, and its second load
  have htest : s.step (.thread τ .run) = some (s.setPc τ (.send c (.pollLoad g))) := by
    simp [step, threadStep, hpc, sendStep, h.sockfd]
  have hsecond : (s.setPc τ (.send c (.pollLoad g))).step (.thread τ .run) =
      some ((s.setPc τ (.send c (.pollLoad g))).setPc τ (.send c (.polling g (some fd)))) := by
    simp [step, threadStep, sendStep, h.sockfd]
  have h₁ : CanSend ((s.setPc τ (.send c (.pollLoad g))).setPc τ
      (.send c (.polling g (some fd)))) fd k := (h.setPc _).setPc _
  have hpc₁ : ((s.setPc τ (.send c (.pollLoad g))).setPc τ
      (.send c (.polling g (some fd)))).pc τ = .send c (.polling g (some fd)) := by simp
  refine .silent htest rfl (.silent hsecond rfl ?_)
  generalize (s.setPc τ (.send c (.pollLoad g))).setPc τ (.send c (.polling g (some fd))) = t
    at h₁ hpc₁
  have hstep : ∀ answer ≠ PollAnswer.eintr, t.step (.thread τ (.poll answer)) =
      some (if answer = .ready then t.setPc τ (.send c (.load g)) else t.throwIn τ g) :=
    fun answer hne => by simp [step, threadStep, hpc₁, sendStep]
  have hthrow : ∀ answer ≠ PollAnswer.eintr, answer ≠ .ready → ∀ e,
      SendsAs t τ k ⟨[], .threw e⟩ := fun answer hne hr e =>
    .last ((hstep answer hne).trans (by rw [if_neg hr])) (bytes_throwIn t τ g k) (pc_throwIn t τ g)
  unfold pollSocket
  cases hp : polls.find? (· ≠ .eintr) with
  | none => exact .running t
  | some answer =>
    cases answer with
    | eintr => exact absurd (List.find?_some hp) (by simp)
    | ready => exact .silent (hstep .ready (by simp)) rfl (hload _ (h₁.setPc _) (by simp))
    | error errnum => exact hthrow (.error errnum) (by simp) (by simp) _
    | hangUp errnum => exact hthrow (.hangUp errnum) (by simp) (by simp) _
    | unexpected errnum => exact hthrow (.unexpected errnum) (by simp) (by simp) _

/-- `m_sockfd` is read for `send()`. -/
theorem CanSend.load (h : CanSend s fd k) (hpc : s.pc τ = .send c (.load g))
    (hcall : ∀ t, CanSend t fd k → t.pc τ = .send c (.call g fd) → SendsAs t τ k r) :
    SendsAs s τ k r := by
  have hs : s.step (.thread τ .run) = some (s.setPc τ (.send c (.call g fd))) := by
    simp [step, threadStep, hpc, sendStep, h.sockfd]
  exact .silent hs rfl (hcall _ (h.setPc _) (by simp))

/-- The loop ends when nothing is left. -/
theorem sendsAs_nil (hpc : s.pc τ = .send c (.loop g)) (he : g.total = c.msg.length) :
    SendsAs s τ k ⟨[], .returned⟩ := by
  have hs : s.step (.thread τ .run) =
      some ({ s with sendMutex := none }.setPc τ (.returned .done)) := by
    simp [step, threadStep, hpc, sendStep, he]
  exact .last hs rfl (by simp [EndsAs])

/-- **A call that nobody disturbs** makes the steps of `sendLoop`: for the answers of every list of
turns it sends the same bytes and ends in the same way. -/
theorem sendsAs_sendLoop (turns : List Turn) : ∀ (s : SocketClient) (g : Progress),
    CanSend s fd k → s.pc τ = .send c (.loop g) → g.total ≤ c.msg.length →
    Fits (c.msg.drop g.total) turns → SendsAs s τ k (sendLoop (c.msg.drop g.total) turns) := by
  have hnil : ∀ g : Progress, g.total ≤ c.msg.length → c.msg.drop g.total = [] →
      g.total = c.msg.length := fun g hle h0 => le_antisymm hle (List.drop_eq_nil_iff.mp h0)
  induction turns with
  | nil =>
    intro s g h hpc hle _
    by_cases h0 : c.msg.drop g.total = []
    · rw [sendLoop, if_pos h0]
      exact sendsAs_nil hpc (hnil g hle h0)
    · rw [sendLoop, if_neg h0]
      exact .running s
  | cons t ts ih =>
    intro s g h hpc hle hfits
    obtain ⟨ht, hfits⟩ := hfits
    by_cases h0 : c.msg.drop g.total = []
    · rw [sendLoop, if_pos (.inr h0)]
      exact sendsAs_nil hpc (hnil g hle h0)
    -- the loop test, then `poll()`, then `m_sockfd` is read
    have hloop : s.step (.thread τ .run) = some (s.setPc τ (.send c (.poll g))) := by
      have hne : g.total ≠ c.msg.length := fun he => h0 (List.drop_eq_nil_iff.mpr he.ge)
      simp [step, threadStep, hpc, sendStep, h.notStopped, hne]
    rw [sendLoop_cons ht h0]
    refine .silent hloop rfl ((h.setPc _).poll (c := c) (g := g) (by simp) t.polls ?_)
    refine fun s₀ h₀ hpc₀ => h₀.load hpc₀ fun s₁ h₁ hpc₁ => ?_
    -- the answer of `send()`
    cases hf : sendAnswer t.sends with
    | none => exact .running s₁
    | some answer =>
      rw [hf] at hfits
      cases answer with
      | eintr => exact .running s₁
      | again =>
        have hs : s₁.step (.thread τ (.send .again)) = some (s₁.setPc τ (.send c (.loop g))) := by
          simp [step, threadStep, hpc₁, sendStep]
        exact .silent hs rfl (ih _ g (h₁.setPc _) (by simp) hle hfits)
      | error errnum =>
        have hs : s₁.step (.thread τ (.send (.error errnum))) = some (s₁.throwIn τ g) := by
          simp [step, threadStep, hpc₁, sendStep]
        exact .last hs (bytes_throwIn s₁ τ g k) (pc_throwIn s₁ τ g)
      | accepted n =>
        obtain ⟨⟨hn, hle'⟩, hfits⟩ := hfits
        have hlen : g.total + n ≤ c.msg.length := by
          rw [List.length_drop] at hle'
          omega
        have hs : s₁.step (.thread τ (.send (.accepted n))) = some (s₁.accept τ c g k n) := by
          simp [step, threadStep, hpc₁, sendStep, h₁.fds, h₁.accepts, hn, hlen]
        have hrest :
            SendsAs (s₁.accept τ c g k n) τ k (sendLoop ((c.msg.drop g.total).drop n) ts) := by
          rw [List.drop_drop] at hfits ⊢
          exact ih _ ⟨g.total + n, some k⟩ (h₁.accept n) (by simp [accept]) hlen hfits
        exact .append hs (bytes_accept s₁ τ c g k n) hrest

end SocketClient

end Outmdsd
