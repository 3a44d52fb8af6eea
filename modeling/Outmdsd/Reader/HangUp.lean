import Outmdsd.Foundations.Runs
import Outmdsd.Reader.Acks
import Outmdsd.Socket.SocketClient

/-!
# The end of a connection

A server writes ack lines and closes its end at any time. The reader turns around in `DoRead` and
`Read`, and nobody else closes the socket of the client. `PollSocket` tests the hang-up before the
readable bytes, and both are reported together when the server has closed: the bytes that are
unread then are thrown away, since `Read` closes the socket on an exception.

As long as no complete line is unread when `Read` ends with an exception, every complete line that
reached the client has been processed when the client closes (`processed_of_closed`). It is enough
that the server hangs up while no complete line is unread, and that no call fails
(`processed_of_patient`). A line that arrives just before the server closes is lost
(`line_lost_at_hangUp`).
-/

namespace Outmdsd

open SocketClient

/-- The bits `POLLIN` and `POLLHUP` of `revents`. -/
structure Revents where
  pollIn : Bool
  pollHup : Bool

/-- The answer that `PollSocket(POLLIN)` makes of them, with `errno` as it was. -/
def Revents.answer (r : Revents) (errnum : ℤ) : PollAnswer :=
  if r.pollHup then .hangUp errnum
  else if !r.pollIn then .unexpected errnum
  else .ready

namespace DataReader

/-- Where the reader is. -/
inductive ReaderPc
  /-- Before the first `InterruptPoint` of `DoRead`. -/
  | turn
  /-- In `Read`, up to the call of `read()`. -/
  | read (k : ReadPc)
  /-- Before `Close`, at the end of file or in the handler of `Read`. -/
  | close
  /-- Before the second `InterruptPoint` of `DoRead`. -/
  | process (c : Chunk)
  /-- `Run` has ended. -/
  | ended

/-- A connection, with the reader on it. -/
structure ReaderConn where
  /-- The bytes the server sends on the connection. -/
  stream : Bytes
  /-- The bytes that have reached the socket buffer of the client. -/
  arrived : Bytes
  unread : Bytes
  peerClosed : Bool
  /-- The client has closed the socket. -/
  closed : Bool
  /-- The bytes that `Read` has returned. -/
  returned : Bytes
  partialData : Bytes
  /-- The items processed. -/
  items : List Bytes
  pc : ReaderPc

/-- What happens on the connection: the reader's calls come with their answers. -/
inductive ConnLabel
  /-- The next `n` bytes of the server reach the client. -/
  | arrive (n : ℕ)
  | hangUp
  /-- `InterruptPoint`, with the flag `m_stopRead`. -/
  | interruptPoint (stop : Bool)
  /-- A test of `m_stopClient`. -/
  | test (stop : Bool)
  /-- `poll()` fails, or returns; `errno` after it. -/
  | poll (failed : Bool) (errnum : ℤ)
  | read (answer : ReadAnswer)
  | close

namespace ReaderConn

/-- A reader with the given partial data, on a new connection. -/
def init (partialData stream : Bytes) : ReaderConn where
  stream := stream
  arrived := []
  unread := []
  peerClosed := false
  closed := false
  returned := []
  partialData := partialData
  items := []
  pc := .turn

/-- What `poll()` reports when it returns. It blocks while there is nothing to read; after the
peer has closed, `POLLHUP` comes with `POLLIN`. -/
def revents (s : ReaderConn) : Option Revents :=
  if s.unread = [] ∧ s.peerClosed = false then none else some ⟨true, s.peerClosed⟩

/-- `poll()` and the tests of `PollSocket(POLLIN)`. -/
def pollStep (s : ReaderConn) (failed : Bool) (errnum : ℤ) : Option ReaderConn :=
  let answer := if failed then some (PollAnswer.error errnum)
    else s.revents.map fun r => r.answer errnum
  answer.map fun a => { s with
    pc := match pollSocket [a] with
      | none => .read .read
      | some _ => .close }

/-- `read()` of at most `sizeof(buf)-1` bytes. -/
def readStep (s : ReaderConn) : ReadAnswer → Option ReaderConn
  | .data n =>
    if h : 1 ≤ n ∧ n ≤ 511 ∧ n ≤ s.unread.length then some { s with
      unread := s.unread.drop n
      returned := s.returned ++ s.unread.take n
      pc := .process ⟨s.unread.take n, List.ne_nil_of_length_pos (by rw [List.length_take]; omega),
        by rw [List.length_take]; omega⟩ }
    else none
  | .eof => if s.unread = [] ∧ s.peerClosed = true then some { s with pc := .close } else none
  -- 0 is returned
  | .again => some { s with pc := .turn }
  | .error => some { s with pc := .close }

/-- A step of the reader. -/
def readerStep (s : ReaderConn) : ReaderPc → ConnLabel → Option ReaderConn
  | .turn, .interruptPoint stop => some { s with pc := if stop then .ended else .read .test }
  | .read .test, .test stop => some { s with pc := if stop then .ended else .read .wait }
  | .read .wait, .test stop =>
    -- without a socket the wait times out, and `DoRead` catches the exception
    some { s with pc := if stop || !s.closed then .read .testAgain else .turn }
  | .read .testAgain, .test stop =>
    -- nor does `PollSocket` return without a socket
    some { s with pc := if stop then .ended else if s.closed then .turn else .read .poll }
  | .read .poll, .poll failed errnum => s.pollStep failed errnum
  | .read .read, .read answer => s.readStep answer
  | .close, .close => some { s with closed := true, pc := .turn }
  | .process c, .interruptPoint stop =>
    some (match doRead s.partialData ⟨false, .data c, stop⟩ with
      | .continued items partialData => { s with
          items := s.items ++ items
          partialData := partialData
          pc := .turn }
      | _ => { s with pc := .ended })
  | _, _ => none

/-- The next `n` bytes of the server. -/
def next (s : ReaderConn) (n : ℕ) : Bytes := (s.stream.drop s.arrived.length).take n

/-- A step on the connection. -/
def step (s : ReaderConn) : ConnLabel → Option ReaderConn
  | .arrive n =>
    if s.peerClosed = false ∧ s.closed = false then
      some { s with arrived := s.arrived ++ s.next n, unread := s.unread ++ s.next n }
    else none
  | .hangUp => some { s with peerClosed := true }
  | l => s.readerStep s.pc l

/-- The condition on a step: no complete line is unread when `poll()` reports the hang-up of the
peer or fails, or `read()` fails, and none arrives between that and `Close`. -/
def NothingLeft (s : ReaderConn) : ConnLabel → Prop
  | .arrive n => s.pc = .close → newline ∉ s.next n
  | .poll failed _ => failed = true ∨ s.peerClosed = true → newline ∉ s.unread
  | .read .error => newline ∉ s.unread
  | _ => True

/-- When the client has closed the connection, every complete line that reached it has been
returned by `Read` and processed, the partial data `p` from before in front of the first one. -/
def LinesProcessed (p : Bytes) (s : ReaderConn) : Prop :=
  s.closed = true → lines s.returned = lines s.arrived ∧ s.items = lines (p ++ s.arrived)

/-! ## What the reader has done -/

/-- The bytes that were read and are not processed yet. -/
def pending : ReaderPc → Bytes
  | .process c => c.bytes
  | _ => []

/-- The reader is between the test of the socket in `Read` and its next turn. -/
def onSocket : ReaderPc → Bool
  | .read .poll | .read .read | .close | .process _ => true
  | _ => false

/-- The lines of `done` are processed, and `done` is what was returned and is not pending. -/
structure Processed (p : Bytes) (s : ReaderConn) (done : Bytes) : Prop where
  items : s.items = lines (p ++ done)
  partialData : s.partialData = unfinished (p ++ done)
  returned : s.closed = true ∨ s.pc ≠ .ended → s.returned = done ++ pending s.pc

/-- The account of the bytes that have reached the client. -/
structure Inv (p : Bytes) (s : ReaderConn) : Prop where
  zero_notMem : (0 : Byte) ∉ s.stream
  isPrefixOf : s.arrived <+: s.stream
  arrived : s.returned ++ s.unread = s.arrived
  isOpen : onSocket s.pc = true → s.closed = false
  left : s.closed = true ∨ s.pc = .close → newline ∉ s.unread
  processed : ∃ done, s.Processed p done

variable {s s' : ReaderConn} {p : Bytes}

theorem inv_init (hp : newline ∉ p) {stream : Bytes} (h0 : (0 : Byte) ∉ stream) :
    (init p stream).Inv p where
  zero_notMem := h0
  isPrefixOf := List.nil_prefix
  arrived := rfl
  isOpen := nofun
  left _ := List.not_mem_nil
  processed := by
    refine ⟨[], ?_, ?_, fun _ => rfl⟩
    · rw [List.append_nil, lines_of_notMem hp]
      rfl
    · rw [List.append_nil, unfinished_of_notMem hp]
      rfl

/-- An unread rest without a newline holds no complete line. -/
theorem Inv.linesProcessed (h : s.Inv p) : s.LinesProcessed p := by
  intro hc
  obtain ⟨done, hd⟩ := h.processed
  have hpc : pending s.pc = [] := by
    have := h.isOpen
    cases hq : s.pc <;> simp_all [pending, ReaderConn.onSocket]
  have hr := hd.returned (.inl hc)
  rw [hpc, List.append_nil] at hr
  have hu := h.left (.inl hc)
  have hn : ∀ x, newline ∉ unfinished x ++ s.unread := fun x => by
    simp [newline_notMem_unfinished, hu]
  rw [← h.arrived, hr]
  constructor
  · rw [lines_append, lines_of_notMem (hn done), List.append_nil]
  · rw [← List.append_assoc, lines_append, lines_of_notMem (hn _), List.append_nil, hd.items]

/-- A step that moves the reader and nothing else. -/
theorem Inv.move (h : s.Inv p) {pc : ReaderPc} (hpend : pending pc = pending s.pc)
    (hended : s.pc ≠ .ended) (hon : onSocket pc = true → s.closed = false)
    (hleft : pc = .close → newline ∉ s.unread) : Inv p { s with pc := pc } where
  zero_notMem := h.zero_notMem
  isPrefixOf := h.isPrefixOf
  arrived := h.arrived
  isOpen := hon
  left hc := hc.elim (fun hc => h.left (.inl hc)) hleft
  processed := by
    obtain ⟨done, hd⟩ := h.processed
    refine ⟨done, hd.items, hd.partialData, fun _ => ?_⟩
    change s.returned = done ++ pending pc
    rw [hpend]
    exact hd.returned (.inr hended)

/-- A move on the socket, with nothing to process before and after it. -/
theorem Inv.moveFrom (h : s.Inv p) (pc : ReaderPc) (hon : onSocket s.pc = true)
    (hpend : pending s.pc = []) (hp : pending pc = []) (hleft : pc = .close → newline ∉ s.unread) :
    Inv p { s with pc := pc } :=
  h.move (hp.trans hpend.symm) (fun he => by simp [he, onSocket] at hon) (fun _ => h.isOpen hon)
    hleft

/-- More bytes of the server reach the client. -/
theorem Inv.arrive (h : s.Inv p) {n : ℕ} (hok : s.NothingLeft (.arrive n))
    (hs : s.step (.arrive n) = some s') : s'.Inv p := by
  simp only [ReaderConn.step] at hs
  split at hs
  · rename_i hc
    cases hs
    obtain ⟨done, hd⟩ := h.processed
    refine ⟨h.zero_notMem, ?_, ?_, h.isOpen, fun hl => ?_, done, hd.items, hd.partialData,
      hd.returned⟩
    · obtain ⟨rest, hr⟩ := h.isPrefixOf
      change s.arrived ++ (s.stream.drop s.arrived.length).take n <+: s.stream
      conv_rhs => rw [← hr]
      rw [List.prefix_append_right_inj, ← hr, List.drop_left]
      exact List.take_prefix n rest
    · change s.returned ++ (s.unread ++ s.next n) = s.arrived ++ s.next n
      rw [← List.append_assoc, h.arrived]
    · rcases hl with hl | hl
      · exact absurd (hc.2.symm.trans hl) (by decide)
      · exact List.not_mem_append (h.left (.inr hl)) (hok hl)
  · cases hs

/-- `poll()`, whose exceptions leave no complete line unread. -/
theorem Inv.poll (h : s.Inv p) (hpc : s.pc = .read .poll) {failed : Bool} {errnum : ℤ}
    (hok : s.NothingLeft (.poll failed errnum)) (hs : s.pollStep failed errnum = some s') :
    s'.Inv p := by
  have hmove := fun pc => h.moveFrom pc (by rw [hpc]; rfl) (by rw [hpc]; rfl)
  cases failed with
  | true =>
    cases hs
    exact hmove .close rfl fun _ => hok (.inl rfl)
  | false =>
    obtain ⟨a, ha, rfl⟩ := Option.map_eq_some_iff.mp hs
    obtain ⟨r, hr, rfl⟩ := Option.map_eq_some_iff.mp ha
    simp only [revents] at hr
    split at hr <;> cases hr
    refine hmove _ ?_ fun hcl => hok (.inr ?_)
    · cases s.peerClosed <;> rfl
    · -- without the hang-up the tests pass
      cases hc : s.peerClosed with
      | true => rfl
      | false =>
        rw [hc] at hcl
        cases hcl

/-- `read()`, whose errors leave no complete line unread. -/
theorem Inv.read (h : s.Inv p) (hpc : s.pc = .read .read) {answer : ReadAnswer}
    (hok : s.NothingLeft (.read answer)) (hs : s.readStep answer = some s') : s'.Inv p := by
  have hopen : s.closed = false := h.isOpen (by rw [hpc]; rfl)
  have hmove := fun pc => h.moveFrom pc (by rw [hpc]; rfl) (by rw [hpc]; rfl)
  cases answer with
  | data n =>
    simp only [readStep] at hs
    split at hs
    · cases hs
      obtain ⟨done, hd⟩ := h.processed
      have hret := hd.returned (.inr (by simp [hpc]))
      refine ⟨h.zero_notMem, h.isPrefixOf, ?_, fun _ => hopen, fun hl => ?_, done, hd.items,
        hd.partialData, fun _ => ?_⟩
      · change s.returned ++ s.unread.take n ++ s.unread.drop n = s.arrived
        rw [List.append_assoc, List.take_append_drop, h.arrived]
      · rcases hl with hl | hl
        · exact absurd (hopen.symm.trans hl) (by decide)
        · cases hl
      · change s.returned ++ s.unread.take n = done ++ s.unread.take n
        rw [hret, hpc]
        simp [pending]
    · cases hs
  | eof =>
    simp only [readStep] at hs
    split at hs
    · rename_i hu
      cases hs
      exact hmove .close rfl fun _ => by simp [hu.1]
    · cases hs
  | again =>
    cases hs
    exact hmove .turn rfl nofun
  | error =>
    cases hs
    exact hmove .close rfl fun _ => hok

/-- The lines of the bytes read are processed, the partial data in front. -/
theorem Inv.process (h : s.Inv p) {c : Chunk} (hpc : s.pc = .process c) {stop : Bool}
    (hs : s.readerStep (.process c) (.interruptPoint stop) = some s') : s'.Inv p := by
  obtain ⟨done, hd⟩ := h.processed
  have hret : s.returned = done ++ c.bytes := by
    rw [hd.returned (.inr (by simp [hpc])), hpc]
    rfl
  have hopen : s.closed = false := h.isOpen (by rw [hpc]; rfl)
  have h0 : (0 : Byte) ∉ c.bytes := fun hm => by
    refine h.zero_notMem (h.isPrefixOf.subset ?_)
    rw [← h.arrived, hret]
    simp [hm]
  cases stop with
  | true =>
    -- the reader ends, and nobody closes the socket
    obtain rfl : { s with pc := .ended } = s' := Option.some.inj hs
    refine ⟨h.zero_notMem, h.isPrefixOf, h.arrived, nofun, fun hl => ?_, done, hd.items,
      hd.partialData, fun hl => ?_⟩
    · rcases hl with hl | hl
      · exact absurd (hopen.symm.trans hl) (by decide)
      · cases hl
    · rcases hl with hl | hl
      · exact absurd (hopen.symm.trans hl) (by decide)
      · exact absurd rfl hl
  | false =>
    have hread : doRead s.partialData ⟨false, .data c, false⟩ =
        .continued (lines (unfinished (p ++ done) ++ c.bytes))
          (unfinished (p ++ done ++ c.bytes)) := by
      have := @doRead_ofResult _ (newline_notMem_unfinished (p ++ done)) (.data c) nofun h0
      rw [ReadResult.bytes, ← unfinished_append] at this
      rw [hd.partialData]
      exact this
    simp only [readerStep, hread, Option.some.injEq] at hs
    subst hs
    refine ⟨h.zero_notMem, h.isPrefixOf, h.arrived, fun he => (by cases he), fun hl => ?_,
      done ++ c.bytes, ?_, ?_, fun _ => ?_⟩
    · rcases hl with hl | hl
      · exact absurd (hopen.symm.trans hl) (by decide)
      · cases hl
    · change s.items ++ lines (unfinished (p ++ done) ++ c.bytes) = _
      rw [hd.items, ← List.append_assoc p, lines_append (p ++ done)]
    · rw [← List.append_assoc p]
    · change s.returned = done ++ c.bytes ++ []
      rw [hret, List.append_nil]

/-- **Every step of the reader keeps the account.** -/
theorem Inv.readerStep (h : s.Inv p) {l : ConnLabel} (hok : s.NothingLeft l)
    (hs : s.readerStep s.pc l = some s') : s'.Inv p := by
  have hmove : s.pc ≠ .ended → pending s.pc = [] → ∀ pc, pending pc = [] →
      (onSocket pc = true → s.closed = false) → pc ≠ .close → Inv p { s with pc := pc } :=
    fun hended hpend pc hp hon hne =>
      h.move (hp.trans hpend.symm) hended hon fun he => absurd he hne
  generalize hpc : s.pc = pc at hs hmove
  unfold ReaderConn.readerStep at hs
  split at hs
  case h_1 stop =>
    cases hs
    cases stop <;> exact hmove nofun rfl _ rfl nofun nofun
  case h_2 stop =>
    cases hs
    cases stop <;> exact hmove nofun rfl _ rfl nofun nofun
  case h_3 stop =>
    cases hs
    refine hmove nofun rfl _ ?_ ?_ ?_ <;> split <;> first | rfl | nofun
  case h_4 stop =>
    cases hs
    cases stop with
    | true => exact hmove nofun rfl .ended rfl nofun nofun
    | false =>
      by_cases hc : s.closed = true
      · simp only [if_pos hc]
        exact hmove nofun rfl .turn rfl nofun nofun
      · simp only [if_neg hc]
        exact hmove nofun rfl (.read .poll) rfl (fun _ => Bool.eq_false_iff.mpr hc) nofun
  case h_5 => exact h.poll hpc hok hs
  case h_6 answer => exact h.read hpc hok hs
  case h_7 =>
    cases hs
    obtain ⟨done, hd⟩ := h.processed
    refine ⟨h.zero_notMem, h.isPrefixOf, h.arrived, nofun, fun _ => h.left (.inr hpc), done,
      hd.items, hd.partialData, fun _ => ?_⟩
    rw [hd.returned (.inr (by simp [hpc])), hpc]
    rfl
  case h_8 c stop => exact h.process hpc hs
  case h_9 => cases hs

theorem Inv.step (h : s.Inv p) {l : ConnLabel} (hok : s.NothingLeft l)
    (hs : s.step l = some s') : s'.Inv p := by
  cases l with
  | arrive n => exact h.arrive hok hs
  | hangUp =>
    cases hs
    obtain ⟨done, hd⟩ := h.processed
    exact ⟨h.zero_notMem, h.isPrefixOf, h.arrived, h.isOpen, h.left, done, hd.items,
      hd.partialData, hd.returned⟩
  | interruptPoint | test | poll | read | close => exact h.readerStep hok hs

end ReaderConn

/-- What the server writes. -/
def ackStream (sent : List AckLine) : Bytes := sent.flatMap fun l => l.text ++ [newline]

theorem zero_notMem_ackStream (sent : List AckLine) : (0 : Byte) ∉ ackStream sent := fun h => by
  obtain ⟨l, -, hl⟩ := List.mem_flatMap.mp h
  rcases List.mem_append.mp hl with h0 | h0
  · exact l.notMem_text.2 h0
  · exact absurd h0 (by decide)

namespace ReaderConn

variable {s s' : ReaderConn}

/-- **Acks before a hang-up.** The server writes ack lines and closes; earlier connections have
left the partial data of the bytes `q`. In every run in which no complete line is unread when `Read`
ends with an exception, the complete lines are processed when the client closes. -/
theorem processed_of_closed {q : Bytes} {sent : List AckLine}
    (h : Reach step NothingLeft (init (unfinished q) (ackStream sent)) s) :
    s.LinesProcessed (unfinished q) :=
  (h.invariant (inv_init (newline_notMem_unfinished q) (zero_notMem_ackStream sent))
    fun _ _ _ hi hok hs => hi.step hok hs).linesProcessed

/-! ## A patient server -/

/-- The condition on a step of a patient server: it hangs up while no complete line is unread, and
writes nothing to a reader that is about to close; neither `poll()` nor `read()` fails. -/
def Patient (s : ReaderConn) : ConnLabel → Prop
  | .hangUp => newline ∉ s.unread
  | .arrive _ => s.pc ≠ .close
  | .poll failed _ => failed = false
  | .read answer => answer ≠ .error
  | _ => True

/-- The reader puts nothing into the socket buffer, and the server hangs up on its own. -/
theorem unread_readerStep {pc : ReaderPc} {l : ConnLabel} (hs : s.readerStep pc l = some s') :
    s'.peerClosed = s.peerClosed ∧ s'.unread ⊆ s.unread := by
  unfold ReaderConn.readerStep at hs
  split at hs
  case h_5 failed errnum =>
    obtain ⟨a, -, rfl⟩ := Option.map_eq_some_iff.mp hs
    exact ⟨rfl, List.Subset.refl _⟩
  case h_6 answer =>
    unfold readStep at hs
    split at hs
    · split at hs
      · cases hs
        exact ⟨rfl, List.drop_subset _ _⟩
      · cases hs
    · split at hs
      · cases hs
        exact ⟨rfl, List.Subset.refl _⟩
      · cases hs
    all_goals
      cases hs
      exact ⟨rfl, List.Subset.refl _⟩
  case h_8 c stop =>
    obtain rfl := Option.some.inj hs
    split <;> exact ⟨rfl, List.Subset.refl _⟩
  case h_9 => cases hs
  all_goals
    cases hs
    exact ⟨rfl, List.Subset.refl _⟩

/-- After a patient server has hung up, no complete line is unread. -/
theorem Patient.step (h : s.peerClosed = true → newline ∉ s.unread) {l : ConnLabel}
    (hl : s.Patient l) (hs : s.step l = some s') : s'.peerClosed = true → newline ∉ s'.unread := by
  cases l with
  | arrive n =>
    simp only [ReaderConn.step] at hs
    split at hs
    · rename_i hc
      cases hs
      intro hp
      exact absurd (hc.1.symm.trans hp) (by decide)
    · cases hs
  | hangUp =>
    cases hs
    exact fun _ => hl
  | interruptPoint | test | poll | read | close =>
    obtain ⟨hp, hu⟩ := unread_readerStep hs
    exact fun hc hm => h (hp ▸ hc) (hu hm)

theorem Patient.nothingLeft (h : s.peerClosed = true → newline ∉ s.unread) {l : ConnLabel}
    (hl : s.Patient l) : s.NothingLeft l := by
  cases l with
  | arrive n => exact fun hpc => absurd hpc hl
  | poll failed errnum =>
    have hl : failed = false := hl
    exact fun hf => h (hf.resolve_left (by simp [hl]))
  | read answer =>
    cases answer with
    | error => exact absurd rfl hl
    | data | eof | again => trivial
  | hangUp | interruptPoint | test | close => trivial

/-- **A patient server loses no line.** -/
theorem processed_of_patient {q : Bytes} {sent : List AckLine}
    (h : Reach step Patient (init (unfinished q) (ackStream sent)) s) :
    s.LinesProcessed (unfinished q) := by
  have hinv : s.Inv (unfinished q) :=
    ((h.strengthen (I := fun t => t.peerClosed = true → newline ∉ t.unread) nofun
      fun _ _ _ ht hl hs => hl.step ht hs).mono fun _ _ hl => hl.1.nothingLeft hl.2).invariant
        (inv_init (newline_notMem_unfinished q) (zero_notMem_ackStream sent))
        fun _ _ _ hi hok hs => hi.step hok hs
  exact hinv.linesProcessed

/-! ## Runs -/

/-- `DoRead` up to `poll()`. -/
def polling : List ConnLabel :=
  [.interruptPoint false, .test false, .test false, .test false, .poll false 0]

/-- `NothingLeft`, for the steps without errors. -/
def nothingLeft (s : ReaderConn) : ConnLabel → Bool
  | .arrive n => newline ∉ s.next n ∨ ¬ onSocket s.pc
  | .poll false _ => newline ∉ s.unread ∨ s.peerClosed = false
  | .poll true _ => newline ∉ s.unread
  | .read .error => newline ∉ s.unread
  | _ => true

theorem nothingLeft_of (l : ConnLabel) (h : s.nothingLeft l = true) : s.NothingLeft l := by
  cases l with
  | arrive n =>
    intro hpc
    simpa [nothingLeft, hpc, onSocket] using h
  | poll failed errnum =>
    intro he
    cases failed with
    | false => simpa [nothingLeft, show s.peerClosed = true by simpa using he] using h
    | true => simpa [nothingLeft] using h
  | read answer =>
    cases answer with
    | error => simpa [nothingLeft, NothingLeft] using h
    | data | eof | again => trivial
  | hangUp | interruptPoint | test | close => trivial

/-- The server writes `12`, and closes inside the next line, when `12` has been processed. -/
theorem processed_of_closed_inside :
    ∃ s : ReaderConn, (s.closed = true ∧ s.arrived = lit "12\n3") ∧
      s.LinesProcessed (unfinished []) := by
  obtain ⟨s, hs, ht⟩ : ∃ s, Reach step NothingLeft
      (init (unfinished []) (ackStream [.ofTag 12, .ofTag 3])) s ∧
        decide (s.closed = true ∧ s.arrived = lit "12\n3") = true :=
    @Reach.exists_of_exec _ _ step _ _ nothingLeft _
      ([.arrive 3] ++ polling ++ [.read (.data 3), .interruptPoint false, .arrive 1, .hangUp] ++
        polling ++ [.close])
      (fun _ l h => nothingLeft_of l h) (by decide) (by decide)
  exact ⟨s, of_decide_eq_true ht, processed_of_closed hs⟩

/-- The server writes `1` and closes before the reader polls. -/
theorem line_lost_at_hangUp :
    ∃ s, Reach step (fun _ _ => True) (init [] (ackStream [.ofTag 1])) s ∧
      (s.closed = true ∧ s.arrived = lit "1\n" ∧ s.items = []) ∧ ¬ s.LinesProcessed [] := by
  obtain ⟨s, hs, ht⟩ : ∃ s, Reach step (fun _ _ => True) (init [] (ackStream [.ofTag 1])) s ∧
      decide (s.closed = true ∧ s.arrived = lit "1\n" ∧ s.items = []) = true :=
    @Reach.exists_of_exec _ _ step _ _ (fun _ _ => true) _
      ([.arrive 2, .hangUp] ++ polling ++ [.close]) (fun _ _ _ => trivial) (by decide) (by decide)
  have hd := of_decide_eq_true ht
  refine ⟨s, hs, hd, fun hl => ?_⟩
  have := (hl hd.1).2
  rw [hd.2.1, hd.2.2, List.nil_append, show lit "1\n" = lit "1" ++ newline :: [] by decide,
    lines_append_newline (by decide)] at this
  cases this

end ReaderConn

end DataReader

end Outmdsd
