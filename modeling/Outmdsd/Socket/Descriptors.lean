import Outmdsd.Socket.SocketClient

/-!
# The descriptor of the client

Only the holder of `m_fdMutex` opens and closes sockets. So at most one descriptor is open, and
then it is `m_sockfd` (`FdInv`): a connection that was replaced is closed.
-/

namespace Outmdsd

/-- The thread holds `m_fdMutex`. -/
def Pc.holdsFd : Pc → Bool
  | .connect _ .test => false
  | .connect _ .lock => false
  | .connect _ _ => true
  | .close _ .lock => false
  | .close _ _ => true
  | _ => false

namespace SocketClient

/-- What the holder of `m_fdMutex` relies on. -/
def HolderOk (s : SocketClient) : Pc → Prop
  | .connect _ .socket => s.sockfd = none
  | .connect _ .connect => ∀ k, s.current = some k → (s.conn k).connected = false
  | .connect _ .clear | .close _ .clear => ∀ fd, s.fds fd = none
  | _ => True

/-- The open descriptor is `m_sockfd`, and only the holder of `m_fdMutex` changes that. -/
structure FdInv (s : SocketClient) : Prop where
  owner : ∀ τ, (s.pc τ).holdsFd = true → s.fdMutex = some τ
  isOpen : ∀ fd k, s.fds fd = some k → s.sockfd = some fd ∧ k < s.numConns
  fresh : ∀ k, s.numConns ≤ k → (s.conn k).connected = false
  holder : ∀ τ, s.HolderOk (s.pc τ)

theorem fdInv_init : init.FdInv where
  owner := by simp [init, Pc.holdsFd]
  isOpen := by simp [init]
  fresh := by simp [init]
  holder _ := trivial

variable {s s' : SocketClient} {τ τ' : ℕ} {pc : Pc}

theorem holderOk_of_not_holdsFd (h : pc.holdsFd = false) : s.HolderOk pc := by
  cases pc with
  | connect p k => cases k <;> trivial
  | close r k => cases k <;> trivial
  | returned | send | read | stop => trivial

/-- Nobody holds `m_fdMutex` beside the thread that does. -/
theorem FdInv.not_holdsFd (h : s.FdInv) (hm : s.fdMutex = none ∨ s.fdMutex = some τ)
    (hne : τ' ≠ τ) : (s.pc τ').holdsFd = false := by
  by_contra hh
  rw [Bool.not_eq_false] at hh
  exact hne (holder_unique hm (h.owner τ' hh))

/-- A step of the holder of `m_fdMutex`, or of the thread that takes it while it is free. -/
theorem FdInv.change (h : s.FdInv) (hm : s.fdMutex = none ∨ s.fdMutex = some τ)
    (hpc : s'.pc = Function.update s.pc τ pc) (hown : pc.holdsFd = true → s'.fdMutex = some τ)
    (hopen : ∀ fd k, s'.fds fd = some k → s'.sockfd = some fd ∧ k < s'.numConns)
    (hfresh : ∀ k, s'.numConns ≤ k → (s'.conn k).connected = false) (hok : s'.HolderOk pc) :
    s'.FdInv := by
  refine ⟨?_, hopen, hfresh, ?_⟩ <;> rw [hpc]
  · refine (Function.forall_update_iff s.pc
      fun τ' pc => pc.holdsFd = true → s'.fdMutex = some τ').mpr ⟨hown, fun τ' hτ hh => ?_⟩
    rw [h.not_holdsFd hm hτ] at hh
    cases hh
  · exact (Function.forall_update_iff s.pc fun _ pc => s'.HolderOk pc).mpr
      ⟨hok, fun τ' hτ => holderOk_of_not_holdsFd (h.not_holdsFd hm hτ)⟩

/-- A step that leaves the descriptors and their mutex alone. -/
structure SameFds (s s' : SocketClient) : Prop where
  sockfd : s'.sockfd = s.sockfd
  fdMutex : s'.fdMutex = s.fdMutex
  fds : s'.fds = s.fds
  numConns : s'.numConns = s.numConns
  connected : ∀ k, (s'.conn k).connected = (s.conn k).connected
  pc : ∀ τ, s'.pc τ = s.pc τ ∨ (s'.pc τ).holdsFd = false

namespace SameFds

theorem refl (s : SocketClient) : SameFds s s :=
  ⟨rfl, rfl, rfl, rfl, fun _ => rfl, fun _ => .inl rfl⟩

theorem trans {s₁ s₂ s₃ : SocketClient} (h : SameFds s₁ s₂) (h' : SameFds s₂ s₃) :
    SameFds s₁ s₃ where
  sockfd := h'.sockfd.trans h.sockfd
  fdMutex := h'.fdMutex.trans h.fdMutex
  fds := h'.fds.trans h.fds
  numConns := h'.numConns.trans h.numConns
  connected k := (h'.connected k).trans (h.connected k)
  pc τ := by
    rcases h'.pc τ with he | hn
    · rw [he]
      exact h.pc τ
    · exact .inr hn

theorem setPc (hn : pc.holdsFd = false) : SameFds s (s.setPc τ pc) :=
  ⟨rfl, rfl, rfl, rfl, fun _ => rfl,
    (Function.forall_update_iff s.pc fun τ' pc => pc = s.pc τ' ∨ pc.holdsFd = false).mpr
      ⟨.inr hn, fun _ _ => .inl rfl⟩⟩

/-- A change of a connection that keeps whether it is connected. -/
theorem setConn {k : ℕ} {c : Conn} (h : c.connected = (s.conn k).connected) :
    SameFds s (s.setConn k c) :=
  ⟨rfl, rfl, rfl, rfl, conn_setConn_congr Conn.connected h, fun _ => .inl rfl⟩

theorem holderOk (h : SameFds s s') : s'.HolderOk pc ↔ s.HolderOk pc := by
  have hc : s'.current = s.current := by rw [current, current, h.sockfd, h.fds]
  unfold HolderOk
  split <;> simp only [h.sockfd, h.fds, hc, h.connected]

end SameFds

theorem FdInv.same (h : s.FdInv) (hs : SameFds s s') : s'.FdInv := by
  refine ⟨fun τ hh => ?_, fun fd k hk => ?_, fun k hk => ?_, fun τ => ?_⟩
  · rcases hs.pc τ with he | hn
    · exact hs.fdMutex.trans (h.owner τ (he ▸ hh))
    · rw [hn] at hh
      cases hh
  · rw [hs.fds] at hk
    rw [hs.sockfd, hs.numConns]
    exact h.isOpen fd k hk
  · rw [hs.connected]
    exact h.fresh k (hs.numConns ▸ hk)
  · rcases hs.pc τ with he | hn
    · rw [hs.holderOk, he]
      exact h.holder τ
    · exact holderOk_of_not_holdsFd hn

/-- After `close(m_sockfd)` no descriptor is open. -/
theorem FdInv.fds_closeSockfd (h : s.FdInv) (fd : ℕ) : s.closeSockfd.fds fd = none := by
  have hn : s.sockfd ≠ some fd → s.fds fd = none := fun hne => by
    by_contra hk
    obtain ⟨k, hk⟩ := Option.ne_none_iff_exists'.mp hk
    exact hne (h.isOpen fd k hk).1
  unfold closeSockfd
  cases hs : s.sockfd with
  | none => exact hn (by simp [hs])
  | some fd' =>
    change Function.update s.fds fd' none fd = none
    by_cases he : fd = fd'
    · rw [he, Function.update_self]
    · rw [Function.update_of_ne he]
      exact hn fun hf => he (Option.some.inj (hf.symm.trans hs))

/-- The holder of `m_fdMutex` closes the socket. -/
theorem FdInv.closeSockfd (h : s.FdInv) (hm : s.fdMutex = some τ)
    (hok : ∀ t : SocketClient, (∀ fd, t.fds fd = none) → t.HolderOk pc) :
    (s.closeSockfd.setPc τ pc).FdInv := by
  have hfds := h.fds_closeSockfd
  have hsame : s.closeSockfd.pc = s.pc ∧ s.closeSockfd.fdMutex = s.fdMutex ∧
      s.closeSockfd.numConns = s.numConns ∧ s.closeSockfd.conn = s.conn := by
    unfold SocketClient.closeSockfd
    split <;> exact ⟨rfl, rfl, rfl, rfl⟩
  obtain ⟨hpc, hmx, hnum, hconn⟩ := hsame
  refine h.change (.inr hm) (by rw [← hpc]; rfl) (fun _ => hmx.trans hm) ?_ ?_ (hok _ hfds)
  · intro fd k hk
    exact absurd ((hfds fd).symm.trans hk) (by simp)
  · intro k hk
    change (s.closeSockfd.conn k).connected = false
    rw [hconn]
    exact h.fresh k (hnum ▸ hk)

/-! ## Steps -/

@[simp] theorem holdsFd_afterConnect (p : Caller) : (afterConnect p).holdsFd = false := by
  cases p <;> rfl

/-- A step of `Connect`. -/
theorem FdInv.connectStep (h : s.FdInv) {p : Caller} {k : ConnectPc} {a : Act}
    (hpc : s.pc τ = .connect p k) (hs : s.connectStep τ p k a = some s') : s'.FdInv := by
  have hholder := h.holder τ
  rw [hpc] at hholder
  have hown : (Pc.connect p k).holdsFd = true → s.fdMutex = none ∨ s.fdMutex = some τ := fun hh =>
    .inr (h.owner τ (by rw [hpc]; exact hh))
  -- leaving `Connect` with the descriptors as they are
  have hleave : (Pc.connect p k).holdsFd = true →
      FdInv ({ s with fdMutex := none }.setPc τ (afterConnect p)) := fun hh =>
    h.change (hown hh) rfl (by simp) h.isOpen h.fresh (holderOk_of_not_holdsFd (by simp))
  have hmove : ∀ k', (Pc.connect p k).holdsFd = true → s.HolderOk (.connect p k') →
      (s.setPc τ (.connect p k')).FdInv := fun k' hh hok =>
    h.change (hown hh) rfl (fun _ => h.owner τ (by rw [hpc]; exact hh)) h.isOpen h.fresh hok
  cases connectMove hs with
  | valid => exact h.same (.setPc (by simp))
  | test => exact h.same (.setPc rfl)
  | lock hm => exact h.change (.inl hm) rfl (fun _ => rfl) h.isOpen h.fresh trivial
  | leave | giveUp => exact hleave rfl
  | loop _ hn => exact hmove .socket rfl hn
  | noSocket => exact hmove .retry rfl trivial
  | @socket fd hfd =>
    have hnone : ∀ fd' k', s.fds fd' ≠ some k' := fun fd' k' hk => by
      have := (h.isOpen fd' k' hk).1
      rw [show s.sockfd = none from hholder] at this
      cases this
    refine h.change (hown rfl) rfl (fun _ => h.owner τ (by rw [hpc]; rfl)) ?_ ?_ ?_
    · intro fd' k' hk
      change Function.update s.fds fd (some s.numConns) fd' = some k' at hk
      by_cases he : fd' = fd
      · subst he
        rw [Function.update_self] at hk
        cases hk
        exact ⟨rfl, Nat.lt_succ_self _⟩
      · rw [Function.update_of_ne he] at hk
        exact absurd hk (hnone fd' k')
    · exact fun k' hk => h.fresh k' (Nat.le_of_succ_le hk)
    · intro k' hk
      change Function.update s.fds fd (some s.numConns) fd = some k' at hk
      rw [Function.update_self] at hk
      exact h.fresh k' (Option.some.inj hk).le
  | @connected k' hk' =>
    refine h.change (hown rfl) rfl (by simp) h.isOpen ?_ (holderOk_of_not_holdsFd (by simp))
    intro k'' hk''
    obtain ⟨fd, -, hfd⟩ := Option.bind_eq_some_iff.mp hk'
    have hne : k'' ≠ k' := by
      have := (h.isOpen fd k' hfd).2
      rintro rfl
      exact absurd hk'' (Nat.not_le.mpr this)
    change (Function.update s.conn k' { s.conn k' with connected := true } k'').connected = false
    rw [Function.update_of_ne hne]
    exact h.fresh k'' hk''
  | notConnected => exact hmove .close rfl trivial
  | close => exact h.closeSockfd (h.owner τ (by rw [hpc]; rfl)) fun _ hn => hn
  | clear =>
    refine h.change (hown rfl) rfl (fun _ => h.owner τ (by rw [hpc]; rfl)) (fun fd k hk => ?_)
      h.fresh trivial
    exact absurd ((hholder fd).symm.trans hk) (by simp)
  | again => exact hmove .loop rfl trivial

/-- A step of `Close`. -/
theorem FdInv.closeStep (h : s.FdInv) {r : Outcome} {k : ClosePc} {a : Act}
    (hpc : s.pc τ = .close r k) (hs : s.closeStep τ r k a = some s') : s'.FdInv := by
  have hholder := h.holder τ
  rw [hpc] at hholder
  have hown : (Pc.close r k).holdsFd = true → s.fdMutex = none ∨ s.fdMutex = some τ := fun hh =>
    .inr (h.owner τ (by rw [hpc]; exact hh))
  cases closeMove hs with
  | lock hm => exact h.change (.inl hm) rfl (fun _ => rfl) h.isOpen h.fresh trivial
  | closed => exact h.same (.setPc rfl)
  | close => exact h.closeSockfd (h.owner τ (by rw [hpc]; rfl)) fun _ hn => hn
  | clear =>
    refine h.change (hown rfl) rfl (by simp [Pc.holdsFd]) (fun fd k hk => ?_) h.fresh trivial
    exact absurd ((hholder fd).symm.trans hk) (by simp)

/-- A change of `m_sendMutex`, of the flag and of the calls. -/
theorem SameFds.other (s : SocketClient) (stop : Bool) (mutex : Option ℕ) (calls : List Bytes) :
    SameFds s { s with stopClient := stop, sendMutex := mutex, calls := calls } :=
  ⟨rfl, rfl, rfl, rfl, fun _ => rfl, fun _ => .inl rfl⟩

theorem SameFds.throwIn (s : SocketClient) (τ : ℕ) (g : Progress) : SameFds s (s.throwIn τ g) := by
  have hm := SameFds.other s s.stopClient none s.calls
  unfold SocketClient.throwIn
  cases g.conn with
  | none => exact hm.trans (.setPc rfl)
  | some k =>
    have hc : SameFds { s with sendMutex := none }
        ({ s with sendMutex := none }.setConn k { s.conn k with abandoned := true }) := .setConn rfl
    exact (hm.trans hc).trans (.setPc rfl)

theorem SameFds.accept (s : SocketClient) (τ : ℕ) (c : SendCall) (g : Progress) (k n : ℕ) :
    SameFds s (s.accept τ c g k n) := by
  have hc : SameFds s (s.setConn k { s.conn k with
      accepted := (s.conn k).accepted ++ [(c.id, (c.msg.drop g.total).take n)] }) := .setConn rfl
  exact hc.trans (.setPc rfl)

/-- A step of `Send` after `Connect` leaves the descriptors alone. -/
theorem sameFds_sendStep {c : SendCall} {k : SendPc} {a : Act} (hs : s.sendStep τ c k a = some s') :
    SameFds s s' := by
  cases sendMove hs with
  | lock => exact (SameFds.other s s.stopClient (some τ) s.calls).trans (.setPc rfl)
  | leave => exact (SameFds.other s s.stopClient none s.calls).trans (.setPc rfl)
  | pollAgain => exact .refl s
  | pollInvalid | notReady | closed | error => exact .throwIn s τ _
  | accepted => exact .accept s τ c _ _ _
  | _ => exact .setPc rfl

/-- A step of `Read` only moves its thread, or nothing. -/
theorem readStep_eq {k : ReadPc} {a : Act} (hs : s.readStep τ k a = some s') :
    s' = s ∨ ∃ pc, s' = s.setPc τ pc ∧
      ((∃ r, pc = .returned r) ∨ (∃ r, pc = .close r .lock) ∨ ∃ k', pc = .read k') := by
  unfold readStep at hs
  split at hs
  case h_2 =>
    split at hs
    · cases hs
      split <;> exact .inr ⟨_, rfl, by simp⟩
    · cases hs
  case h_6 =>
    cases hs
    exact .inl rfl
  case h_12 => cases hs
  case h_1 | h_3 | h_4 | h_7 =>
    cases hs
    split <;> exact .inr ⟨_, rfl, by simp⟩
  all_goals
    cases hs
    exact .inr ⟨_, rfl, by simp⟩

/-- A step of `Stop` moves its thread, and may set the flag. -/
theorem stopStep_eq {k : StopPc} {a : Act} (hs : s.stopStep τ k a = some s') :
    ∃ stop pc, s' = { s with stopClient := stop }.setPc τ pc ∧ (s.stopClient = true → stop = true) ∧
      ((∃ r, pc = .close r .lock) ∨ ∃ k', pc = .stop k') := by
  unfold stopStep at hs
  split at hs
  · cases hs
    split <;> exact ⟨s.stopClient, _, rfl, id, by simp⟩
  · cases hs
    exact ⟨true, _, rfl, fun _ => rfl, by simp⟩
  · split at hs
    · cases hs
      exact ⟨s.stopClient, _, rfl, id, by simp⟩
    · cases hs
  · cases hs

theorem sameFds_readStep {k : ReadPc} {a : Act} (hs : s.readStep τ k a = some s') :
    SameFds s s' := by
  obtain rfl | ⟨pc, rfl, ⟨r, rfl⟩ | ⟨r, rfl⟩ | ⟨k, rfl⟩⟩ := readStep_eq hs
  · exact .refl s'
  · exact .setPc rfl
  · exact .setPc rfl
  · exact .setPc rfl

theorem sameFds_stopStep {k : StopPc} {a : Act} (hs : s.stopStep τ k a = some s') :
    SameFds s s' := by
  obtain ⟨stop, pc, rfl, -, hpc⟩ := stopStep_eq hs
  refine (SameFds.other s stop s.sendMutex s.calls).trans (.setPc ?_)
  obtain ⟨r, rfl⟩ | ⟨k, rfl⟩ := hpc <;> rfl

theorem sameFds_begin (s : SocketClient) (τ : ℕ) (call : ApiCall) :
    SameFds s (s.begin τ call) := by
  cases call with
  | send msg =>
    by_cases h : msg = []
    · rw [SocketClient.begin, if_pos h]
      exact .setPc rfl
    · rw [SocketClient.begin, if_neg h]
      exact (SameFds.other s s.stopClient s.sendMutex (s.calls ++ [msg])).trans (.setPc rfl)
  | connect | close | read | stop => exact .setPc rfl

/-- **Every step keeps the descriptor discipline.** -/
theorem FdInv.step (h : s.FdInv) {l : Label} (hs : s.step l = some s') : s'.FdInv := by
  cases l with
  | hangUp k =>
    cases hs
    exact h.same (.setConn rfl)
  | thread τ a =>
    simp only [SocketClient.step, threadStep] at hs
    split at hs
    · split at hs
      · cases hs
        exact h.same (sameFds_begin s τ _)
      · cases hs
    · rename_i hpc
      exact h.connectStep hpc hs
    · exact h.same (sameFds_sendStep hs)
    · rename_i hpc
      exact h.closeStep hpc hs
    · exact h.same (sameFds_readStep hs)
    · exact h.same (sameFds_stopStep hs)

end SocketClient

end Outmdsd
