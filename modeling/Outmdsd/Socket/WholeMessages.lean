import Outmdsd.Foundations.Streams
import Outmdsd.Socket.Descriptors

/-!
# Whole messages on every connection

The holder of `m_sendMutex` sends its message in pieces, each on the connection behind `m_sockfd`
at that time. If no other connection is made while a message is sent in part, and no call enters
the loop of `SendData` while the connection is one that another call left in mid-message, then the
bytes accepted on every connection are complete messages followed by at most one proper prefix, and
no call of `Send` has bytes on two connections (`sent_whole`).
-/

namespace Outmdsd

open Frames

/-- How far the loop of `SendData` is. -/
def SendPc.progress? : SendPc → Option Progress
  | .loop g => some g
  | .poll g => some g
  | .pollLoad g => some g
  | .polling g _ => some g
  | .load g => some g
  | .call g _ => some g
  | _ => none

namespace Pc

/-- The call of a thread that holds `m_sendMutex`, and how far it is. -/
def progress? : Pc → Option (SendCall × Progress)
  | .send c k => k.progress?.map fun g => (c, g)
  | _ => none

/-- The call of `Send` a thread is in, and the connection that got its first byte. -/
def call? : Pc → Option (SendCall × Option ℕ)
  | .connect (.send c) _ => some (c, none)
  | .send c k => some (c, k.progress?.bind Progress.conn)
  | _ => none

/-- The thread is before the loop test of `SendData`. -/
def atLoop : Pc → Bool
  | .send _ (.loop _) => true
  | _ => false

end Pc

/-- A part of the message is sent. -/
def Progress.Mid (g : Progress) (c : SendCall) : Prop := 0 < g.total ∧ g.total < c.msg.length

instance (g : Progress) (c : SendCall) : Decidable (g.Mid c) := inferInstanceAs (Decidable (_ ∧ _))

/-- What holds of the progress of a call; behind the loop test bytes are left. -/
def Progress.Ok (g : Progress) (c : SendCall) (atLoop : Bool) : Prop :=
  g.total ≤ c.msg.length ∧ (g.total = 0 → g.conn = none) ∧ (atLoop = false → g.total < c.msg.length)

namespace SocketClient

/-- The messages of the calls of `Send`. -/
def messages (s : SocketClient) : Set Bytes := {m | m ∈ s.calls}

/-- The connection is open and can accept bytes. -/
def Live (s : SocketClient) (k : ℕ) : Prop := (∃ fd, s.fds fd = some k) ∧ (s.conn k).Accepts = true

variable {s s' : SocketClient} {τ τ' : ℕ} {pc : Pc}

/-! ## The calls -/

/-- The bytes of a call are on the connection that got its first one. -/
structure CallOk (s : SocketClient) (c : SendCall) (conn : Option ℕ) : Prop where
  id_lt : c.id < s.calls.length
  msg_mem : c.msg ∈ s.messages
  only : ∀ k e, e ∈ (s.conn k).accepted → e.1 = c.id → conn = some k

/-- The calls of the threads are different, and no call has bytes on two connections. -/
structure CallInv (s : SocketClient) : Prop where
  callOk : ∀ τ c conn, (s.pc τ).call? = some (c, conn) → s.CallOk c conn
  distinct : ∀ τ τ' c conn c' conn', (s.pc τ).call? = some (c, conn) →
    (s.pc τ').call? = some (c', conn') → c.id = c'.id → τ = τ'
  known : ∀ k e, e ∈ (s.conn k).accepted → e.1 < s.calls.length
  unique : ∀ k k' e e', e ∈ (s.conn k).accepted → e' ∈ (s.conn k').accepted → e.1 = e'.1 → k = k'

theorem callInv_init : init.CallInv where
  callOk := by simp [init, Pc.call?]
  distinct := by simp [init, Pc.call?]
  known := by simp [init]
  unique := by simp [init]

/-- No call begins, and every thread stays in its call or leaves it. -/
structure SameCalls (s s' : SocketClient) : Prop where
  calls : s'.calls = s.calls
  call? : ∀ τ, (s'.pc τ).call? = (s.pc τ).call? ∨ (s'.pc τ).call? = none

theorem SameCalls.refl (s : SocketClient) : SameCalls s s := ⟨rfl, fun _ => .inl rfl⟩

theorem SameCalls.setPc (hc : s'.calls = s.calls) (hp : s'.pc = s.pc)
    (hpc : pc.call? = (s.pc τ).call? ∨ pc.call? = none) : SameCalls s (s'.setPc τ pc) := by
  refine ⟨hc, (Function.forall_update_iff s'.pc
    fun τ' pc => pc.call? = (s.pc τ').call? ∨ pc.call? = none).mpr ⟨hpc, fun τ' _ => ?_⟩⟩
  rw [hp]
  exact .inl rfl

/-- A step without a new call or new bytes. -/
theorem CallInv.same (h : s.CallInv) (ha : ∀ k, (s'.conn k).accepted = (s.conn k).accepted)
    (hs : SameCalls s s') : s'.CallInv := by
  have hold : ∀ τ x, (s'.pc τ).call? = some x → (s.pc τ).call? = some x := fun τ x hx => by
    rcases hs.call? τ with he | hn
    · exact he ▸ hx
    · rw [hn] at hx
      cases hx
  refine ⟨fun τ c conn hx => ?_, fun τ τ' c conn c' conn' hx hx' => ?_, fun k e he => ?_,
    fun k k' e e' he he' => ?_⟩
  · have := h.callOk τ c conn (hold τ _ hx)
    exact ⟨hs.calls ▸ this.id_lt, by rw [messages, hs.calls]; exact this.msg_mem,
      fun k e he => this.only k e (ha k ▸ he)⟩
  · exact h.distinct τ τ' c conn c' conn' (hold τ _ hx) (hold τ' _ hx')
  · rw [hs.calls]
    exact h.known k e (ha k ▸ he)
  · exact h.unique k k' e e' (ha k ▸ he) (ha k' ▸ he')

/-- A call of `Send` begins: no bytes have its id. -/
theorem CallInv.begin (h : s.CallInv) (msg : Bytes) :
    CallInv ({ s with calls := s.calls ++ [msg] }.setPc τ
      (.connect (.send ⟨s.calls.length, msg⟩) .test)) := by
  have hcases : ∀ τ' x, (Function.update s.pc τ (.connect (.send ⟨s.calls.length, msg⟩) .test)
      τ').call? = some x → (τ' = τ ∧ x = (⟨s.calls.length, msg⟩, none)) ∨
        (s.pc τ').call? = some x := by
    intro τ' x hx
    by_cases hτ : τ' = τ
    · subst hτ
      rw [Function.update_self] at hx
      exact .inl ⟨rfl, (Option.some.inj hx).symm⟩
    · rw [Function.update_of_ne hτ] at hx
      exact .inr hx
  refine ⟨fun τ' c conn hx => ?_, fun τ₁ τ₂ c conn c' conn' hx hx' he => ?_, fun k e he => ?_,
    h.unique⟩
  · rcases hcases τ' _ hx with ⟨-, he⟩ | hx
    · obtain ⟨rfl, rfl⟩ := Prod.mk.inj he
      refine ⟨by simp, by simp [messages], fun k e hk hid => ?_⟩
      exact absurd (h.known k e hk) (by simp [hid])
    · have := h.callOk τ' c conn hx
      refine ⟨?_, List.mem_append_left _ this.msg_mem, this.only⟩
      rw [setPc_calls, List.length_append]
      exact Nat.lt_add_right _ this.id_lt
  · rcases hcases τ₁ _ hx with ⟨rfl, h₁⟩ | h₁ <;> rcases hcases τ₂ _ hx' with ⟨rfl, h₂⟩ | h₂
    · rfl
    · have := (h.callOk _ _ _ h₂).id_lt
      rw [(Prod.mk.inj h₁).1] at he
      exact absurd (he ▸ this) (Nat.lt_irrefl _)
    · have := (h.callOk _ _ _ h₁).id_lt
      rw [(Prod.mk.inj h₂).1] at he
      exact absurd (he ▸ this) (Nat.lt_irrefl _)
    · exact h.distinct _ _ _ _ _ _ h₁ h₂ he
  · rw [setPc_calls, List.length_append]
    exact Nat.lt_add_right _ (h.known k e he)

/-- Bytes of a call are accepted on the connection of its first byte, or are its first. -/
theorem CallInv.accept (h : s.CallInv) {c : SendCall} {g : Progress} {k n : ℕ}
    (hpc : (s.pc τ).call? = some (c, g.conn)) (hk : g.conn = none ∨ g.conn = some k) :
    (s.accept τ c g k n).CallInv := by
  have hok := h.callOk τ c g.conn hpc
  -- a piece is an old one or the new one
  have hmem : ∀ k' e, e ∈ ((s.accept τ c g k n).conn k').accepted →
      e ∈ (s.conn k').accepted ∨ (k' = k ∧ e.1 = c.id) := by
    intro k' e he
    simp only [SocketClient.accept, setPc_conn, setConn_conn] at he
    by_cases hk' : k' = k
    · subst hk'
      rw [Function.update_self] at he
      rcases List.mem_append.mp he with he | he
      · exact .inl he
      · exact .inr ⟨rfl, by rw [List.mem_singleton.mp he]⟩
    · rw [Function.update_of_ne hk'] at he
      exact .inl he
  have honly : ∀ k' e, e ∈ (s.conn k').accepted → e.1 = c.id → k' = k := by
    intro k' e he hid
    have := hok.only k' e he hid
    rcases hk with hn | hs
    · rw [hn] at this
      cases this
    · exact Option.some.inj (this.symm.trans hs)
  have hcall : ∀ τ' c' conn', ((s.accept τ c g k n).pc τ').call? = some (c', conn') →
      (τ' = τ ∧ c' = c ∧ conn' = some k) ∨ (τ' ≠ τ ∧ (s.pc τ').call? = some (c', conn')) := by
    intro τ' c' conn' hx
    simp only [SocketClient.accept, setPc_pc] at hx
    by_cases hτ : τ' = τ
    · subst hτ
      rw [Function.update_self] at hx
      obtain ⟨rfl, rfl⟩ := Prod.mk.inj (Option.some.inj hx)
      exact .inl ⟨rfl, rfl, rfl⟩
    · rw [Function.update_of_ne hτ] at hx
      exact .inr ⟨hτ, hx⟩
  refine ⟨fun τ' c' conn' hx => ?_, fun τ₁ τ₂ c₁ o₁ c₂ o₂ h₁ h₂ he => ?_, fun k' e he => ?_,
    fun k₁ k₂ e₁ e₂ h₁ h₂ he => ?_⟩
  · rcases hcall τ' c' conn' hx with ⟨rfl, rfl, rfl⟩ | ⟨hτ, hx⟩
    · refine ⟨hok.id_lt, hok.msg_mem, fun k' e he hid => ?_⟩
      rcases hmem k' e he with he | ⟨rfl, -⟩
      · rw [honly k' e he hid]
      · rfl
    · have hok' := h.callOk τ' c' conn' hx
      refine ⟨hok'.id_lt, hok'.msg_mem, fun k' e he hid => ?_⟩
      rcases hmem k' e he with he | ⟨-, hc⟩
      · exact hok'.only k' e he hid
      · exact absurd (h.distinct _ _ _ _ _ _ hx hpc (hid.symm.trans hc)) hτ
  · rcases hcall τ₁ c₁ o₁ h₁ with ⟨rfl, rfl, -⟩ | ⟨-, h₁'⟩ <;>
      rcases hcall τ₂ c₂ o₂ h₂ with ⟨rfl, rfl, -⟩ | ⟨-, h₂'⟩
    · rfl
    · exact h.distinct _ _ _ _ _ _ hpc h₂' he
    · exact h.distinct _ _ _ _ _ _ h₁' hpc he
    · exact h.distinct _ _ _ _ _ _ h₁' h₂' he
  · rcases hmem k' e he with he | ⟨-, hc⟩
    · exact h.known k' e he
    · rw [hc]
      exact hok.id_lt
  · rcases hmem k₁ e₁ h₁ with h₁' | ⟨rfl, hc₁⟩ <;> rcases hmem k₂ e₂ h₂ with h₂' | ⟨rfl, hc₂⟩
    · exact h.unique k₁ k₂ e₁ e₂ h₁' h₂' he
    · exact honly k₁ e₁ h₁' (he.trans hc₂)
    · exact (honly k₂ e₂ h₂' (he.symm.trans hc₁)).symm
    · rfl

/-! ## The connections -/

/-- What holds of a live connection while a call is in the loop. -/
def HeldOk (s : SocketClient) (atLoop : Bool) (c : SendCall) (g : Progress) (k : ℕ) : Prop :=
  if g.Mid c then g.conn = some k ∧ SentUpTo s.messages c.msg g.total (s.conn k).bytes
  else Whole s.messages (s.conn k).bytes ∨ (s.stopClient = true ∧ atLoop = true)

/-- What holds of a live connection while no call is in the loop. -/
def FreeOk (s : SocketClient) (k : ℕ) : Prop :=
  Whole s.messages (s.conn k).bytes ∨ (s.conn k).abandoned = true ∨ s.stopClient = true

/-- Every connection is framed, and a live one is whole, but for the part the holder of
`m_sendMutex` has sent or an earlier call has left. -/
structure WireInv (s : SocketClient) : Prop where
  owner : ∀ τ, (s.pc τ).progress? ≠ none → s.sendMutex = some τ
  progress : ∀ τ c g, (s.pc τ).progress? = some (c, g) → g.Ok c (s.pc τ).atLoop
  framed : ∀ k, Framed s.messages (s.conn k).bytes
  unconnected : ∀ k, (s.conn k).connected = false → (s.conn k).accepted = []
  free : s.sendMutex = none → ∀ k, s.Live k → s.FreeOk k
  held : ∀ τ c g, (s.pc τ).progress? = some (c, g) → ∀ k, s.Live k →
    s.HeldOk (s.pc τ).atLoop c g k

theorem wireInv_init : init.WireInv where
  owner := by simp [init, Pc.progress?]
  progress := by simp [init, Pc.progress?]
  framed _ := whole_nil.framed
  unconnected := by simp [init]
  free _ _ := by simp [init, Live]
  held := by simp [init, Pc.progress?]

/-- The call in the loop has sent nothing, or all of its message. -/
def NoneMid (s : SocketClient) : Prop :=
  ∀ τ ∈ s.sendMutex, ∀ x ∈ (s.pc τ).progress?, ¬ x.2.Mid x.1

/-- A step outside the loop of `SendData`. It makes a connection live only while none is in
mid-message. -/
structure Calm (s s' : SocketClient) : Prop where
  accepted : ∀ k, (s'.conn k).accepted = (s.conn k).accepted
  abandoned : ∀ k, (s'.conn k).abandoned = (s.conn k).abandoned
  connected : ∀ k, (s'.conn k).connected = false → (s.conn k).connected = false
  calls : s.calls ⊆ s'.calls
  stop : s.stopClient = true → s'.stopClient = true
  live : ∀ k, s'.Live k → s.Live k ∨ (s.conn k).accepted = [] ∧ s.NoneMid
  sendMutex : s'.sendMutex = s.sendMutex
  pc : ∀ τ, s'.pc τ = s.pc τ ∨ (s'.pc τ).progress? = none

namespace Calm

theorem refl (s : SocketClient) : Calm s s :=
  ⟨fun _ => rfl, fun _ => rfl, fun _ => id, fun _ h => h, id, fun _ => .inl, rfl, fun _ => .inl rfl⟩

theorem setPc (h : Calm s s') (hn : pc.progress? = none) : Calm s (s'.setPc τ pc) :=
  ⟨h.accepted, h.abandoned, h.connected, h.calls, h.stop, h.live, h.sendMutex,
    (Function.forall_update_iff s'.pc fun τ' pc => pc = s.pc τ' ∨ pc.progress? = none).mpr
      ⟨.inr hn, fun τ' _ => h.pc τ'⟩⟩

/-- A change of the descriptors that makes no connection live. -/
theorem fds (s : SocketClient) (sockfd mutex : Option ℕ) {fds : ℕ → Option ℕ} (numConns : ℕ)
    (h : ∀ k, (∃ fd, fds fd = some k) → (s.conn k).Accepts = true → ∃ fd, s.fds fd = some k) :
    Calm s { s with sockfd := sockfd, fdMutex := mutex, fds := fds, numConns := numConns } :=
  ⟨fun _ => rfl, fun _ => rfl, fun _ => id, fun _ h => h, id,
    fun k hk => .inl ⟨h k hk.1 hk.2, hk.2⟩, rfl, fun _ => .inl rfl⟩

theorem fdMutex (s : SocketClient) (mutex : Option ℕ) : Calm s { s with fdMutex := mutex } :=
  fds s s.sockfd mutex s.numConns fun _ h _ => h

/-- A change of a connection that leaves its bytes alone. -/
theorem setConn {k : ℕ} {c : Conn} (mutex : Option ℕ) (ha : c.accepted = (s.conn k).accepted)
    (hb : c.abandoned = (s.conn k).abandoned)
    (hc : c.connected = false → (s.conn k).connected = false)
    (hl : c.Accepts = true → (s.conn k).Accepts = true ∨ (s.conn k).accepted = [] ∧ s.NoneMid) :
    Calm s ({ s with fdMutex := mutex }.setConn k c) := by
  refine ⟨conn_setConn_congr Conn.accepted ha, conn_setConn_congr Conn.abandoned hb,
    fun k' hk => ?_, fun _ h => h, id, fun k' hk => ?_, rfl, fun _ => .inl rfl⟩ <;>
    by_cases he : k' = k
  · rw [he, setConn_conn, Function.update_self] at hk
    exact he ▸ hc hk
  · rwa [setConn_conn, Function.update_of_ne he] at hk
  · obtain ⟨hfd, hacc⟩ := hk
    rw [he, setConn_conn, Function.update_self] at hacc
    subst he
    exact (hl hacc).imp (fun h => ⟨hfd, h⟩) id
  · obtain ⟨hfd, hacc⟩ := hk
    rw [setConn_conn, Function.update_of_ne he] at hacc
    exact .inl ⟨hfd, hacc⟩

end Calm

theorem WireInv.calm (h : s.WireInv) (hc : Calm s s') : s'.WireInv := by
  have hM : s.messages ⊆ s'.messages := fun _ hm => hc.calls hm
  have hbytes : ∀ k, (s'.conn k).bytes = (s.conn k).bytes := fun k => bytes_eq (hc.accepted k)
  have hnew : ∀ k, (s.conn k).accepted = [] → Whole s'.messages (s'.conn k).bytes := fun k hk => by
    rw [hbytes, Conn.bytes, hk]
    exact whole_nil
  have hpc : ∀ τ x, (s'.pc τ).progress? = some x → s'.pc τ = s.pc τ := fun τ x hx => by
    rcases hc.pc τ with he | hn
    · exact he
    · rw [hn] at hx
      cases hx
  refine ⟨fun τ hx => ?_, fun τ c g hx => ?_, fun k => ?_, fun k hk => ?_, fun hm k hk => ?_,
    fun τ c g hx k hk => ?_⟩
  · obtain ⟨x, hx'⟩ := Option.ne_none_iff_exists'.mp hx
    rw [hpc τ x hx'] at hx
    exact hc.sendMutex.trans (h.owner τ hx)
  · have he := hpc τ _ hx
    rw [he] at hx ⊢
    exact h.progress τ c g hx
  · rw [hbytes]
    exact (h.framed k).mono hM
  · rw [hc.accepted]
    exact h.unconnected k (hc.connected k hk)
  · rcases hc.live k hk with hk | ⟨hk, -⟩
    · rcases h.free (hc.sendMutex ▸ hm) k hk with hw | ha | hs
      · exact .inl (by rw [hbytes]; exact hw.mono hM)
      · exact .inr (.inl (by rwa [hc.abandoned]))
      · exact .inr (.inr (hc.stop hs))
    · exact .inl (hnew k hk)
  · have he := hpc τ _ hx
    rw [he] at hx ⊢
    unfold HeldOk
    rcases hc.live k hk with hk | ⟨hk, hmid⟩
    · have hh := h.held τ c g hx k hk
      rw [HeldOk, ← hbytes] at hh
      by_cases hmid : g.Mid c
      · rw [if_pos hmid] at hh ⊢
        exact ⟨hh.1, hh.2.mono hM⟩
      · rw [if_neg hmid] at hh ⊢
        exact hh.imp (fun hw => hw.mono hM) fun hl => ⟨hc.stop hl.1, hl.2⟩
    · rw [if_neg (hmid τ (h.owner τ (by rw [hx]; simp)) (c, g) hx)]
      exact .inl (hnew k hk)

/-- A step of the holder of `m_sendMutex`, or of the thread that takes it while it is free. -/
theorem WireInv.change (h : s.WireInv) (hm : s.sendMutex = none ∨ s.sendMutex = some τ)
    (hpc : s'.pc = Function.update s.pc τ pc) (hown : pc.progress? ≠ none → s'.sendMutex = some τ)
    (hprog : ∀ c g, pc.progress? = some (c, g) → g.Ok c pc.atLoop)
    (hframed : ∀ k, Framed s'.messages (s'.conn k).bytes)
    (hunconn : ∀ k, (s'.conn k).connected = false → (s'.conn k).accepted = [])
    (hfree : s'.sendMutex = none → ∀ k, s'.Live k → s'.FreeOk k)
    (hheld : ∀ c g, pc.progress? = some (c, g) → ∀ k, s'.Live k → s'.HeldOk pc.atLoop c g k) :
    s'.WireInv := by
  have hothers : ∀ τ', τ' ≠ τ → (s.pc τ').progress? = none := fun τ' hne => by
    by_contra hp
    exact hne (holder_unique hm (h.owner τ' hp))
  have hcases : ∀ τ', (s'.pc τ').progress? ≠ none → τ' = τ ∧ s'.pc τ' = pc := fun τ' hx => by
    by_cases hτ : τ' = τ
    · subst hτ
      exact ⟨rfl, by rw [hpc, Function.update_self]⟩
    · rw [hpc, Function.update_of_ne hτ] at hx
      exact absurd (hothers τ' hτ) hx
  have hsome : ∀ τ' x, (s'.pc τ').progress? = some x → s'.pc τ' = pc := fun τ' x hx =>
    (hcases τ' (by rw [hx]; simp)).2
  refine ⟨fun τ' hx => ?_, fun τ' c g hx => ?_, hframed, hunconn, hfree, fun τ' c g hx k hk => ?_⟩
  · obtain ⟨rfl, he⟩ := hcases τ' hx
    exact hown (he ▸ hx)
  · have he := hsome τ' _ hx
    rw [he] at hx ⊢
    exact hprog c g hx
  · have he := hsome τ' _ hx
    rw [he] at hx ⊢
    exact hheld c g hx k hk

/-- The thread is about to take `m_sendMutex`. -/
def atSendLock : Pc → Bool
  | .send _ .lock => true
  | _ => false

/-- No connection is made while a message is sent in part, and no call enters the loop while
`m_sockfd` is a live connection that an earlier call left in mid-message. -/
def Orderly (s : SocketClient) : Label → Prop
  | .thread _ (.connect true) => s.NoneMid
  | .thread τ .run => atSendLock (s.pc τ) = true →
      ∀ k ∈ s.current, (s.conn k).Accepts = true → (s.conn k).abandoned = false
  | _ => True

instance (s : SocketClient) : Decidable s.NoneMid :=
  inferInstanceAs (Decidable (∀ τ ∈ s.sendMutex, ∀ x ∈ (s.pc τ).progress?, ¬ x.2.Mid x.1))

instance (s : SocketClient) : ∀ l, Decidable (s.Orderly l)
  | .hangUp _ => inferInstanceAs (Decidable True)
  | .thread _ (.connect true) => inferInstanceAs (Decidable s.NoneMid)
  | .thread _ (.connect false) => inferInstanceAs (Decidable True)
  | .thread τ .run => inferInstanceAs (Decidable (atSendLock (s.pc τ) = true →
      ∀ k ∈ s.current, (s.conn k).Accepts = true → (s.conn k).abandoned = false))
  | .thread _ (.begin _) => inferInstanceAs (Decidable True)
  | .thread _ (.socket _) => inferInstanceAs (Decidable True)
  | .thread _ (.retry _) => inferInstanceAs (Decidable True)
  | .thread _ (.poll _) => inferInstanceAs (Decidable True)
  | .thread _ (.send _) => inferInstanceAs (Decidable True)
  | .thread _ (.read _) => inferInstanceAs (Decidable True)

/-- A live connection is the one behind `m_sockfd`. -/
theorem FdInv.current_of_live (h : s.FdInv) {k : ℕ} (hk : s.Live k) : s.current = some k := by
  obtain ⟨⟨fd, hfd⟩, -⟩ := hk
  rw [current, (h.isOpen fd k hfd).1]
  exact hfd

/-- Two live connections are the same. -/
theorem FdInv.live_unique (h : s.FdInv) {k k' : ℕ} (hk : s.Live k) (hk' : s.Live k') : k = k' :=
  Option.some.inj ((h.current_of_live hk).symm.trans (h.current_of_live hk'))

theorem live_setConn {k k' : ℕ} {c : Conn} (hc : c.connected = (s.conn k).connected)
    (hh : c.hungUp = (s.conn k).hungUp) : (s.setConn k c).Live k' ↔ s.Live k' := by
  have ha : c.Accepts = (s.conn k).Accepts := by rw [Conn.Accepts, Conn.Accepts, hc, hh]
  exact and_congr Iff.rfl (by rw [conn_setConn_congr Conn.Accepts ha])

/-! ## Steps outside the loop -/

theorem progress?_afterConnect (p : Caller) : (afterConnect p).progress? = none := by
  cases p <;> rfl

theorem exists_fds_closeSockfd {k : ℕ} (h : ∃ fd, s.closeSockfd.fds fd = some k) :
    ∃ fd, s.fds fd = some k := by
  unfold closeSockfd at h
  cases hs : s.sockfd with
  | none => simpa only [hs] using h
  | some fd' =>
    simp only [hs] at h
    obtain ⟨fd, hfd⟩ := h
    by_cases he : fd = fd'
    · rw [he, Function.update_self] at hfd
      cases hfd
    · exact ⟨fd, by rwa [Function.update_of_ne he] at hfd⟩

theorem calm_closeSockfd (s : SocketClient) : Calm s s.closeSockfd := by
  have h := fun k => @exists_fds_closeSockfd s k
  unfold closeSockfd at h ⊢
  split
  · exact .refl s
  · rename_i fd hfd
    simp only [hfd] at h
    exact .fds s s.sockfd s.fdMutex s.numConns fun k hk _ => h k hk

theorem calm_connectStep (hF : s.FdInv) (hW : s.WireInv) {p : Caller} {k : ConnectPc} {a : Act}
    (hpc : s.pc τ = .connect p k) (ho : s.Orderly (.thread τ a))
    (hs : s.connectStep τ p k a = some s') : Calm s s' := by
  have hafter := progress?_afterConnect p
  cases connectMove hs with
  | valid => exact (Calm.refl s).setPc hafter
  | lock => exact (Calm.fdMutex s _).setPc rfl
  | leave | giveUp => exact (Calm.fdMutex s _).setPc hafter
  | @socket fd =>
    -- a new socket is not connected yet
    refine (Calm.fds s _ s.fdMutex _ fun k' hk' hacc => ?_).setPc rfl
    obtain ⟨fd', hfd'⟩ := hk'
    by_cases he : fd' = fd
    · rw [he, Function.update_self] at hfd'
      have := hF.fresh k' (Option.some.inj hfd').le
      simp [Conn.Accepts, this] at hacc
    · exact ⟨fd', by rwa [Function.update_of_ne he] at hfd'⟩
  | @connected k' hk' =>
    have hnew := hF.holder τ
    rw [hpc] at hnew
    have hc : Calm s
        ({ s with fdMutex := none }.setConn k' { s.conn k' with connected := true }) :=
      .setConn none rfl rfl (fun _ => hnew k' hk') fun _ =>
        .inr ⟨hW.unconnected k' (hnew k' hk'), ho⟩
    exact hc.setPc hafter
  | close => exact (calm_closeSockfd s).setPc rfl
  | clear => exact (Calm.fds s none s.fdMutex s.numConns fun _ h _ => h).setPc rfl
  | _ => exact (Calm.refl s).setPc rfl

theorem calm_closeStep {r : Outcome} {k : ClosePc} {a : Act}
    (hs : s.closeStep τ r k a = some s') : Calm s s' := by
  cases closeMove hs with
  | lock => exact (Calm.fdMutex s _).setPc rfl
  | closed => exact (Calm.refl s).setPc rfl
  | close => exact (calm_closeSockfd s).setPc rfl
  | clear => exact (Calm.fds s none none s.numConns fun _ h _ => h).setPc rfl

theorem calm_readStep {k : ReadPc} {a : Act} (hs : s.readStep τ k a = some s') : Calm s s' := by
  obtain rfl | ⟨pc, rfl, ⟨r, rfl⟩ | ⟨r, rfl⟩ | ⟨k, rfl⟩⟩ := readStep_eq hs
  · exact .refl s'
  · exact (Calm.refl s).setPc rfl
  · exact (Calm.refl s).setPc rfl
  · exact (Calm.refl s).setPc rfl

theorem calm_stopStep {k : StopPc} {a : Act} (hs : s.stopStep τ k a = some s') : Calm s s' := by
  obtain ⟨stop, pc, rfl, hstop, hpc⟩ := stopStep_eq hs
  have hc : Calm s { s with stopClient := stop } :=
    ⟨fun _ => rfl, fun _ => rfl, fun _ => id, fun _ h => h, hstop, fun _ => .inl, rfl,
      fun _ => .inl rfl⟩
  refine hc.setPc ?_
  obtain ⟨r, rfl⟩ | ⟨k, rfl⟩ := hpc <;> rfl

theorem calm_begin (s : SocketClient) (τ : ℕ) (call : ApiCall) : Calm s (s.begin τ call) := by
  cases call with
  | send msg =>
    by_cases h : msg = []
    · rw [SocketClient.begin, if_pos h]
      exact (Calm.refl s).setPc rfl
    · rw [SocketClient.begin, if_neg h]
      have hc : Calm s { s with calls := s.calls ++ [msg] } :=
        ⟨fun _ => rfl, fun _ => rfl, fun _ => id, fun _ => List.mem_append_left _, id,
          fun _ => .inl, rfl, fun _ => .inl rfl⟩
      exact hc.setPc rfl
  | connect | close | read | stop => exact (Calm.refl s).setPc rfl

/-! ## Steps of the loop -/

section Loop

variable {c : SendCall} {g : Progress}

/-- What the loop knows behind its test. -/
theorem WireInv.behindLoop (h : s.WireInv) (hp : (s.pc τ).progress? = some (c, g))
    (hl : (s.pc τ).atLoop = false) {k : ℕ} (hk : s.Live k) :
    (g.Mid c ∧ g.conn = some k ∧ SentUpTo s.messages c.msg g.total (s.conn k).bytes) ∨
      (¬ g.Mid c ∧ Whole s.messages (s.conn k).bytes) := by
  have hh := h.held τ c g hp k hk
  unfold HeldOk at hh
  split at hh
  · rename_i hmid
    exact .inl ⟨hmid, hh.1, hh.2⟩
  · rename_i hmid
    refine .inr ⟨hmid, hh.resolve_right fun hs => ?_⟩
    rw [hl] at hs
    cases hs.2

theorem WireInv.mutex (h : s.WireInv) (hp : (s.pc τ).progress? = some (c, g)) :
    s.sendMutex = some τ := h.owner τ (by rw [hp]; simp)

/-- A call takes `m_sendMutex`. -/
theorem WireInv.lock (h : s.WireInv) (hF : s.FdInv) (hm : s.sendMutex = none)
    (ho : ∀ k ∈ s.current, (s.conn k).Accepts = true → (s.conn k).abandoned = false) :
    WireInv ({ s with sendMutex := some τ }.setPc τ (.send c (.loop ⟨0, none⟩))) := by
  refine h.change (.inl hm) rfl (fun _ => rfl) ?_ h.framed h.unconnected (fun hn => by cases hn) ?_
  · rintro _ _ ⟨⟩
    exact ⟨Nat.zero_le _, fun _ => rfl, fun hl => by cases hl⟩
  · rintro _ _ ⟨⟩ k hk
    have hn : ¬ Progress.Mid ⟨0, none⟩ c := fun hmid => Nat.lt_irrefl _ hmid.1
    rw [HeldOk, if_neg hn]
    rcases h.free hm k hk with hw | ha | hs
    · exact .inl hw
    · rw [ho k (hF.current_of_live hk) hk.2] at ha
      cases ha
    · exact .inr ⟨hs, rfl⟩

/-- The loop test passes. -/
theorem WireInv.enter (h : s.WireInv) (hpc : s.pc τ = .send c (.loop g))
    (hstop : s.stopClient = false) (hlt : g.total ≠ c.msg.length) :
    (s.setPc τ (.send c (.poll g))).WireInv := by
  have hp : (s.pc τ).progress? = some (c, g) := by rw [hpc]; rfl
  have hg := h.progress τ c g hp
  refine h.change (.inr (h.mutex hp)) rfl (fun _ => h.mutex hp) ?_ h.framed h.unconnected h.free ?_
  · rintro _ _ ⟨⟩
    exact ⟨hg.1, hg.2.1, fun _ => lt_of_le_of_ne hg.1 hlt⟩
  · rintro _ _ ⟨⟩ k hk
    have hh := h.held τ c g hp k hk
    unfold HeldOk at hh ⊢
    by_cases hmid : g.Mid c
    · rw [if_pos hmid] at hh ⊢
      exact hh
    · rw [if_neg hmid] at hh ⊢
      refine .inl (hh.resolve_right fun hs => ?_)
      rw [hstop] at hs
      cases hs.1

/-- The loop ends: the message is sent, or the client was stopped. -/
theorem WireInv.leave (h : s.WireInv) (hpc : s.pc τ = .send c (.loop g))
    (hend : s.stopClient = true ∨ g.total = c.msg.length) :
    WireInv ({ s with sendMutex := none }.setPc τ (.returned .done)) := by
  have hp : (s.pc τ).progress? = some (c, g) := by rw [hpc]; rfl
  refine h.change (.inr (h.mutex hp)) rfl (fun hn => absurd rfl hn) (by rintro _ _ ⟨⟩) h.framed
    h.unconnected (fun _ k hk => ?_) (by rintro _ _ ⟨⟩)
  have hh := h.held τ c g hp k hk
  unfold HeldOk at hh
  split at hh
  · rename_i hmid
    rcases hend with hs | he
    · exact .inr (.inr hs)
    · exact absurd he hmid.2.ne
  · exact hh.imp id fun hs => .inr hs.1

/-- The thread moves on behind the loop test, or back to it. -/
theorem WireInv.move (h : s.WireInv) (hp : (s.pc τ).progress? = some (c, g))
    (hl : (s.pc τ).atLoop = false) (hp' : pc.progress? = some (c, g)) :
    (s.setPc τ pc).WireInv := by
  have hg := h.progress τ c g hp
  refine h.change (.inr (h.mutex hp)) rfl (fun _ => h.mutex hp) ?_ h.framed h.unconnected h.free ?_
  · intro c' g' hx
    obtain ⟨rfl, rfl⟩ := Prod.mk.inj (Option.some.inj (hp'.symm.trans hx))
    exact ⟨hg.1, hg.2.1, fun _ => hg.2.2 hl⟩
  · intro c' g' hx k hk
    obtain ⟨rfl, rfl⟩ := Prod.mk.inj (Option.some.inj (hp'.symm.trans hx))
    unfold HeldOk
    rcases h.behindLoop hp hl hk with ⟨hmid, hs⟩ | ⟨hmid, hw⟩
    · rw [if_pos hmid]
      exact hs
    · rw [if_neg hmid]
      exact .inl hw

/-- An exception leaves the loop: the connection with a part of the message is abandoned. -/
theorem WireInv.throwIn (h : s.WireInv) (hp : (s.pc τ).progress? = some (c, g))
    (hl : (s.pc τ).atLoop = false) : (s.throwIn τ g).WireInv := by
  have hm := h.mutex hp
  unfold SocketClient.throwIn
  cases hg : g.conn with
  | none =>
    refine h.change (.inr hm) rfl (fun hn => absurd rfl hn) (by rintro _ _ ⟨⟩) h.framed
      h.unconnected (fun _ k hk => ?_) (by rintro _ _ ⟨⟩)
    rcases h.behindLoop hp hl hk with ⟨-, hs, -⟩ | ⟨-, hw⟩
    · rw [hg] at hs
      cases hs
    · exact .inl hw
  | some k =>
    have hacc := @conn_setConn_congr _ s k { s.conn k with abandoned := true } Conn.accepted rfl
    have hconn := @conn_setConn_congr _ s k { s.conn k with abandoned := true } Conn.connected rfl
    refine h.change (.inr hm) rfl (fun hn => absurd rfl hn) (by rintro _ _ ⟨⟩) (fun k' => ?_)
      (fun k' hk' => (hacc k').trans (h.unconnected k' ((hconn k').symm.trans hk')))
      (fun _ k' hk' => ?_) (by rintro _ _ ⟨⟩)
    · have := h.framed k'
      rw [← bytes_eq (hacc k')] at this
      exact this
    · have hlive : (s.setConn k { s.conn k with abandoned := true }).Live k' ↔ s.Live k' :=
        live_setConn rfl rfl
      have hk : s.Live k' := hlive.mp hk'
      rcases h.behindLoop hp hl hk with ⟨-, hs, -⟩ | ⟨-, hw⟩
      · obtain rfl := Option.some.inj (hg.symm.trans hs)
        refine .inr (.inl ?_)
        rw [setPc_conn, setConn_conn, Function.update_self]
      · refine .inl ?_
        rw [← bytes_eq (hacc k')] at hw
        exact hw

/-- `send()` accepts bytes. -/
theorem WireInv.accept (h : s.WireInv) (hF : s.FdInv) (hC : s.CallInv) {fd k n : ℕ}
    (hpc : s.pc τ = .send c (.call g fd)) (hfd : s.fds fd = some k)
    (hacc : (s.conn k).Accepts = true) (hn : 1 ≤ n) (hle : g.total + n ≤ c.msg.length) :
    (s.accept τ c g k n).WireInv := by
  have hp : (s.pc τ).progress? = some (c, g) := by rw [hpc]; rfl
  have hlive : s.Live k := ⟨⟨fd, hfd⟩, hacc⟩
  have hmem : c.msg ∈ s.messages := (hC.callOk τ c g.conn (by rw [hpc]; rfl)).msg_mem
  have hsent : SentUpTo s.messages c.msg g.total (s.conn k).bytes := by
    rcases h.behindLoop hp (by rw [hpc]; rfl) hlive with ⟨-, -, hs⟩ | ⟨hmid, hw⟩
    · exact hs
    · -- nothing was sent yet: behind the loop test the message is not complete
      have hlt := (h.progress τ c g hp).2.2 (by rw [hpc]; rfl)
      have h0 : g.total = 0 := by
        by_contra h0
        exact hmid ⟨Nat.pos_of_ne_zero h0, hlt⟩
      rw [h0]
      exact hw.sentUpTo c.msg
  have hnew : SentUpTo s.messages c.msg (g.total + n)
      ((s.conn k).bytes ++ (c.msg.drop g.total).take n) := hsent.append n
  have hbytes : ∀ k', ((s.accept τ c g k n).conn k').bytes =
      if k' = k then (s.conn k).bytes ++ (c.msg.drop g.total).take n else (s.conn k').bytes := by
    intro k'
    simp only [SocketClient.accept, setPc_conn, setConn_conn, Conn.bytes]
    by_cases he : k' = k
    · subst he
      simp [Function.update_self]
    · rw [Function.update_of_ne he, if_neg he]
  have hlive' : ∀ k', (s.accept τ c g k n).Live k' → k' = k := fun k' hk' => by
    have hl : (s.setConn k { s.conn k with
        accepted := (s.conn k).accepted ++ [(c.id, (c.msg.drop g.total).take n)] }).Live k' ↔
        s.Live k' := live_setConn rfl rfl
    exact hF.live_unique (hl.mp hk') hlive
  refine h.change (.inr (h.mutex hp)) rfl (fun _ => h.mutex hp) ?_ (fun k' => ?_) (fun k' hk' => ?_)
    (fun hn => ?_) ?_
  · rintro _ _ ⟨⟩
    refine ⟨hle, fun h0 => ?_, fun hl => by cases hl⟩
    change g.total + n = 0 at h0
    omega
  · rw [hbytes]
    split
    · rcases Nat.lt_or_ge (g.total + n) c.msg.length with hlt | hge
      · exact hnew.framed hmem hlt
      · exact (hnew.whole hmem hge).framed
    · exact h.framed k'
  · have he : k' ≠ k := by
      rintro rfl
      rw [SocketClient.accept, setPc_conn, setConn_conn, Function.update_self] at hk'
      rw [Conn.Accepts, show (s.conn k').connected = false from hk'] at hacc
      cases hacc
    simp only [SocketClient.accept, setPc_conn, setConn_conn, Function.update_of_ne he] at hk' ⊢
    exact h.unconnected k' hk'
  · rw [show (s.accept τ c g k n).sendMutex = some τ from h.mutex hp] at hn
    cases hn
  · rintro _ _ ⟨⟩ k' hk'
    obtain rfl := hlive' k' hk'
    unfold HeldOk
    rw [hbytes, if_pos rfl]
    split
    · exact ⟨rfl, hnew⟩
    · rename_i hmid
      refine .inl (hnew.whole hmem ?_)
      by_contra hlt
      exact hmid ⟨Nat.lt_of_lt_of_le (Nat.lt_of_lt_of_le Nat.zero_lt_one hn) (Nat.le_add_left _ _),
        Nat.lt_of_not_le hlt⟩

end Loop

/-! ## Runs -/

theorem closeSockfd_eq (s : SocketClient) : ∃ fds, s.closeSockfd = { s with fds := fds } := by
  unfold closeSockfd
  split <;> exact ⟨_, rfl⟩

theorem sameCalls_connectStep {p : Caller} {k : ConnectPc} {a : Act} (hpc : s.pc τ = .connect p k)
    (hs : s.connectStep τ p k a = some s') : SameCalls s s' := by
  have hstay : ∀ k', (Pc.connect p k').call? = (s.pc τ).call? := fun k' => by
    rw [hpc]
    cases p <;> rfl
  have hafter : (afterConnect p).call? = (s.pc τ).call? := by
    rw [hpc]
    cases p <;> rfl
  cases connectMove hs with
  | valid | leave | connected | giveUp => exact .setPc rfl rfl (.inl hafter)
  | close =>
    obtain ⟨fds, he⟩ := closeSockfd_eq s
    rw [he]
    exact .setPc rfl rfl (.inl (hstay _))
  | _ => exact .setPc rfl rfl (.inl (hstay _))

theorem sameCalls_closeStep {r : Outcome} {k : ClosePc} {a : Act}
    (hs : s.closeStep τ r k a = some s') : SameCalls s s' := by
  cases closeMove hs with
  | close =>
    obtain ⟨fds, he⟩ := closeSockfd_eq s
    rw [he]
    exact .setPc rfl rfl (.inr rfl)
  | _ => exact .setPc rfl rfl (.inr rfl)

theorem sameCalls_readStep {k : ReadPc} {a : Act} (hs : s.readStep τ k a = some s') :
    SameCalls s s' := by
  obtain rfl | ⟨pc, rfl, ⟨r, rfl⟩ | ⟨r, rfl⟩ | ⟨k, rfl⟩⟩ := readStep_eq hs
  · exact .refl s'
  all_goals exact .setPc rfl rfl (.inr rfl)

theorem sameCalls_stopStep {k : StopPc} {a : Act} (hs : s.stopStep τ k a = some s') :
    SameCalls s s' := by
  obtain ⟨stop, pc, rfl, -, hpc⟩ := stopStep_eq hs
  refine @SameCalls.setPc s { s with stopClient := stop } τ pc rfl rfl (.inr ?_)
  obtain ⟨r, rfl⟩ | ⟨k, rfl⟩ := hpc <;> rfl

/-- The three invariants. -/
structure Inv (s : SocketClient) : Prop where
  fd : s.FdInv
  call : s.CallInv
  wire : s.WireInv

theorem inv_init : init.Inv := ⟨fdInv_init, callInv_init, wireInv_init⟩

theorem Inv.calm (h : s.Inv) (hF : s'.FdInv) (hc : Calm s s') (hs : SameCalls s s') : s'.Inv :=
  ⟨hF, h.call.same hc.accepted hs, h.wire.calm hc⟩

theorem sameCalls_throwIn (s : SocketClient) (τ : ℕ) (g : Progress) :
    SameCalls s (s.throwIn τ g) := by
  unfold throwIn
  cases g.conn <;> exact .setPc rfl rfl (.inr rfl)

theorem Inv.throwIn (h : s.Inv) {c : SendCall} {g : Progress}
    (hp : (s.pc τ).progress? = some (c, g)) (hl : (s.pc τ).atLoop = false) :
    (s.throwIn τ g).Inv :=
  ⟨h.fd.same (.throwIn s τ g), h.call.same (accepted_throwIn s τ g) (sameCalls_throwIn s τ g),
    h.wire.throwIn hp hl⟩

/-- A step of `Send` after `Connect`. -/
theorem Inv.sendStep (h : s.Inv) {c : SendCall} {k : SendPc} {a : Act} (hpc : s.pc τ = .send c k)
    (ho : s.Orderly (.thread τ a)) (hs : s.sendStep τ c k a = some s') : s'.Inv := by
  have hF := h.fd.same (sameFds_sendStep hs)
  -- the thread stays in its call, or leaves it
  have hcall : ∀ pc : Pc, pc.call? = (Pc.send c k).call? ∨ pc.call? = none →
      (s.setPc τ pc).CallInv := fun pc hx =>
    h.call.same (fun _ => rfl) (.setPc rfl rfl (by rwa [hpc]))
  have hmove : ∀ g pc, (Pc.send c k).progress? = some (c, g) → (Pc.send c k).atLoop = false →
      pc.progress? = some (c, g) → pc.call? = (Pc.send c k).call? → (s.setPc τ pc).FdInv →
      (s.setPc τ pc).Inv := fun g pc hp hl hp' hx hf =>
    ⟨hf, hcall pc (.inl hx), h.wire.move (by rw [hpc]; exact hp) (by rw [hpc]; exact hl) hp'⟩
  have hthrow : ∀ g, (Pc.send c k).progress? = some (c, g) → (Pc.send c k).atLoop = false →
      (s.throwIn τ g).Inv := fun g hp hl =>
    h.throwIn (by rw [hpc]; exact hp) (by rw [hpc]; exact hl)
  cases sendMove hs with
  | valid | validAgain =>
    exact h.calm hF ((Calm.refl s).setPc rfl) (.setPc rfl rfl (.inl (by rw [hpc]; rfl)))
  | invalid | invalidAgain =>
    exact h.calm hF ((Calm.refl s).setPc rfl) (.setPc rfl rfl (.inr rfl))
  | lock hm =>
    exact ⟨hF, h.call.same (fun _ => rfl) (.setPc rfl rfl (.inl (by rw [hpc]; rfl))),
      h.wire.lock h.fd hm (ho (by rw [hpc]; rfl))⟩
  | leave ht =>
    exact ⟨hF, h.call.same (fun _ => rfl) (.setPc rfl rfl (.inr rfl)), h.wire.leave hpc ht⟩
  | loop hstop ht => exact ⟨hF, hcall _ (.inl rfl), h.wire.enter hpc hstop ht⟩
  | pollAgain => exact h
  | @pollValid g | @pollLoad g | @ready g | @load g | @sendAgain g | @wouldBlock g =>
    exact hmove g _ rfl rfl rfl rfl hF
  | @pollInvalid g | @notReady g | @closed g | @error g => exact hthrow g rfl rfl
  | @accepted g fd n k hk ha h1 hn =>
    have hp : (s.pc τ).progress? = some (c, g) := by rw [hpc]; rfl
    have hconn : g.conn = none ∨ g.conn = some k := by
      rcases h.wire.behindLoop hp (by rw [hpc]; rfl) ⟨⟨fd, hk⟩, ha⟩ with ⟨-, hs, -⟩ | ⟨hm, -⟩
      · exact .inr hs
      · refine .inl ((h.wire.progress τ c g hp).2.1 ?_)
        by_contra h0
        have hlt := (h.wire.progress τ c g hp).2.2 (by rw [hpc]; rfl)
        exact hm ⟨Nat.pos_of_ne_zero h0, hlt⟩
    exact ⟨hF, h.call.accept (by rw [hpc]; rfl) hconn, h.wire.accept h.fd h.call hpc hk ha h1 hn⟩

/-- **Every orderly step keeps the invariants.** -/
theorem Inv.step (h : s.Inv) {l : Label} (ho : s.Orderly l) (hs : s.step l = some s') : s'.Inv := by
  have hF := h.fd.step hs
  cases l with
  | hangUp k =>
    cases hs
    have hc : Calm s (s.setConn k { s.conn k with hungUp := true }) :=
      .setConn s.fdMutex rfl rfl id fun ha => by simp [Conn.Accepts] at ha
    exact h.calm hF hc ⟨rfl, fun _ => .inl rfl⟩
  | thread τ a =>
    simp only [SocketClient.step, threadStep] at hs
    split at hs
    · rename_i hpc
      split at hs
      · rename_i call
        cases hs
        have hc := calm_begin s τ call
        refine ⟨hF, ?_, h.wire.calm hc⟩
        cases call with
        | send msg =>
          by_cases hm : msg = []
          · rw [SocketClient.begin, if_pos hm]
            exact h.call.same (fun _ => rfl) (.setPc rfl rfl (.inr rfl))
          · rw [SocketClient.begin, if_neg hm]
            exact h.call.begin msg
        | connect | close | read | stop =>
          exact h.call.same (fun _ => rfl) (.setPc rfl rfl (.inr rfl))
      · cases hs
    · rename_i hpc
      exact h.calm hF (calm_connectStep h.fd h.wire hpc ho hs) (sameCalls_connectStep hpc hs)
    · rename_i hpc
      exact h.sendStep hpc ho hs
    · exact h.calm hF (calm_closeStep hs) (sameCalls_closeStep hs)
    · exact h.calm hF (calm_readStep hs) (sameCalls_readStep hs)
    · exact h.calm hF (calm_stopStep hs) (sameCalls_stopStep hs)

/-- On every connection ever opened the accepted bytes are complete messages, followed by at most
one proper prefix of a message; and no call of `Send` has bytes on two connections. -/
structure WholeMessages (s : SocketClient) : Prop where
  framed : ∀ k, Framed s.messages (s.conn k).bytes
  one_conn : ∀ k k' e e', e ∈ (s.conn k).accepted → e' ∈ (s.conn k').accepted → e.1 = e'.1 → k = k'

/-- The runs whose steps are all orderly. -/
abbrev Run : SocketClient → Prop := Reach step Orderly init

theorem inv_of_run (h : Run s) : s.Inv :=
  h.invariant inv_init fun _ _ _ hi ho hs => hi.step ho hs

/-- **Whole messages on every connection**, in every state of a run of orderly steps. -/
theorem sent_whole (h : Run s) : s.WholeMessages :=
  ⟨(inv_of_run h).wire.framed, (inv_of_run h).call.unique⟩

/-- A thread runs on. -/
def runs (τ n : ℕ) : List Label := List.replicate n (.thread τ .run)

/-- A call of `Send` connects: `connect()` succeeds on the descriptor 3. -/
def connecting (τ : ℕ) (msg : Bytes) : List Label :=
  .thread τ (.begin (.send msg)) :: runs τ 3 ++
    [.thread τ (.socket (some 3)), .thread τ (.connect true)]

/-- A turn of the loop that sends one byte. -/
def sendingOne (τ : ℕ) : List Label :=
  runs τ 3 ++ [.thread τ (.poll .ready), .thread τ .run, .thread τ (.send (.accepted 1))]

/-- A reader meets the end of the connection 0, whose peer has hung up. -/
def meetingEof (τ : ℕ) : List Label :=
  [.hangUp 0, .thread τ (.begin .read)] ++ runs τ 5 ++
    [.thread τ (.poll .ready), .thread τ (.read .eof)] ++ runs τ 3

/-- Two messages, on two connections. -/
theorem sent_whole_twice :
    ∃ s : SocketClient, ((s.conn 0).bytes = lit "ab" ∧ (s.conn 1).bytes = lit "c") ∧
      s.WholeMessages := by
  obtain ⟨s, hs, ht⟩ : ∃ s, Run s ∧
      decide ((s.conn 0).bytes = lit "ab" ∧ (s.conn 1).bytes = lit "c") = true :=
    @Reach.exists_of_exec _ _ step _ _ (fun s l => decide (s.Orderly l)) _
      (connecting 0 (lit "ab") ++ runs 0 3 ++ sendingOne 0 ++ sendingOne 0 ++ runs 0 1 ++
        meetingEof 2 ++ connecting 1 (lit "c") ++ runs 1 3 ++ sendingOne 1)
      (fun _ _ h => of_decide_eq_true h) (by decide) (by decide)
  exact ⟨s, of_decide_eq_true ht, sent_whole hs⟩

/-- A connection is made while a message is sent in part: it gets the tail. And a call sends on a
connection that another has left in mid-message. -/
theorem tail_sent_elsewhere :
    (∃ s, Reach step (fun _ _ => True) init s ∧
      ((s.conn 0).bytes = lit "a" ∧ (s.conn 1).bytes = lit "b" ∧ s.calls = [lit "ab", lit "c"]) ∧
      ¬ s.WholeMessages) ∧
    ∃ s, Reach step (fun _ _ => True) init s ∧
      ((s.conn 0).bytes = lit "ac" ∧ s.calls = [lit "ab", lit "c"]) ∧ ¬ s.WholeMessages := by
  have key : ∀ (s : SocketClient) k (x : Bytes), s.calls = [lit "ab", lit "c"] →
      (s.conn k).bytes = x → x = lit "b" ∨ x = lit "ac" → ¬ s.WholeMessages := by
    intro s k x hc hx hor hw
    have hM : ∀ m ∈ s.messages, m = lit "ab" ∨ m = lit "c" := fun m hm => by
      have hm' : m ∈ s.calls := hm
      rw [hc] at hm'
      simpa using hm'
    rcases (hw.framed k).cases with h0 | ⟨m, hm, hp⟩ | ⟨m, hm, hp⟩
    · rw [hx] at h0
      rcases hor with rfl | rfl <;> exact absurd h0 (by decide)
    · rw [hx] at hp
      rcases hor with rfl | rfl <;> rcases hM m hm with rfl | rfl <;> exact absurd hp (by decide)
    · rw [hx] at hp
      rcases hor with rfl | rfl <;> rcases hM m hm with rfl | rfl <;> exact absurd hp (by decide)
  constructor
  · obtain ⟨s, hs, ht⟩ : ∃ s, Reach step (fun _ _ => True) init s ∧
        decide ((s.conn 0).bytes = lit "a" ∧ (s.conn 1).bytes = lit "b" ∧
          s.calls = [lit "ab", lit "c"]) = true :=
      @Reach.exists_of_exec _ _ step _ _ (fun _ _ => true) _
        (connecting 0 (lit "ab") ++ runs 0 3 ++ sendingOne 0 ++ meetingEof 2 ++
          connecting 1 (lit "c") ++ sendingOne 0)
        (fun _ _ _ => trivial) (by decide) (by decide)
    have hd := of_decide_eq_true ht
    exact ⟨s, hs, hd, key s 1 _ hd.2.2 hd.2.1 (.inl rfl)⟩
  · obtain ⟨s, hs, ht⟩ : ∃ s, Reach step (fun _ _ => True) init s ∧
        decide ((s.conn 0).bytes = lit "ac" ∧ s.calls = [lit "ab", lit "c"]) = true :=
      @Reach.exists_of_exec _ _ step _ _ (fun _ _ => true) _
        (connecting 0 (lit "ab") ++ runs 0 3 ++ sendingOne 0 ++ runs 0 3 ++
          [.thread 0 (.poll .ready), .thread 0 .run, .thread 0 (.send (.error 105)),
            .thread 1 (.begin (.send (lit "c")))] ++ runs 1 4 ++ sendingOne 1)
        (fun _ _ _ => trivial) (by decide) (by decide)
    have hd := of_decide_eq_true ht
    exact ⟨s, hs, hd, key s 0 _ hd.2 hd.1 (.inr rfl)⟩

end SocketClient

end Outmdsd
