import Outmdsd.Socket.Send

/-!
# The counters of a partial send

`SendData` counts the bytes that were sent in `total` and those that are left in `bytesleft`, and
`Send` closes the socket when a `SocketException` leaves it. The counters stay complementary, and
`total` is the length of what the socket accepted (`Counters.Ok`), so the loop does what `sendLoop`
does with the rest of the buffer (`sendTurns_eq`). A call whose `send()`s take enough bytes in
all returns with the whole buffer accepted (`sendCall_of_taken`).
-/

namespace Outmdsd

namespace SocketClient

/-- The counters of `SendData`, and what `send()` accepted so far. -/
structure Counters where
  total : ℕ
  bytesleft : ℕ
  accepted : Bytes
  deriving DecidableEq

/-- `send()` takes `rtn` bytes from `buf + total`. -/
def Counters.add (c : Counters) (buf : Bytes) (rtn : ℕ) : Counters where
  total := c.total + rtn
  bytesleft := c.bytesleft - rtn
  accepted := c.accepted ++ (buf.drop c.total).take rtn

/-- The loop of `SendData`. -/
def sendTurns (buf : Bytes) (c : Counters) : List Turn → Counters × End
  | [] => (c, if c.bytesleft = 0 then .returned else .running)
  | t :: ts =>
    if t.stop ∨ c.bytesleft = 0 then (c, .returned)
    else match pollSocket t.polls with
      | some ending => (c, ending)
      | none =>
        match sendAnswer t.sends with
        | none => (c, .running)
        | some .eintr => (c, .running)
        | some .again => sendTurns buf c ts
        | some (.error errnum) => (c, .threw (.socketException errnum (lit "socket send()")))
        -- `send()` is asked for `bytesleft` bytes
        | some (.accepted n) => sendTurns buf (c.add buf (min n c.bytesleft)) ts

/-- `SendData(buf, len)`, for a buffer of `len` bytes. -/
def sendData (sockfd : Option ℕ) (buf : Bytes) (turns : List Turn) : Counters × End :=
  if sockfd = none then
    (⟨0, buf.length, []⟩,
      .threw (.socketException 0 (lit "SocketClient SendData(): invalid sockfd -1")))
  else if buf = [] then (⟨0, buf.length, []⟩, .returned)
  else sendTurns buf ⟨0, buf.length, []⟩ turns

/-- What a call of `Send` did; `sockfd` is the socket it leaves. -/
structure CallResult where
  accepted : Bytes
  ending : End
  sockfd : Option ℕ
  /-- The descriptors it shut down and closed. -/
  closed : List ℕ
  deriving DecidableEq

/-- The handler of `Send`: a `SocketException` closes the socket and goes on. -/
def closeOnThrow (sockfd : Option ℕ) (accepted : Bytes) : End → CallResult
  | .threw (.socketException errnum msg) =>
    ⟨accepted, .threw (.socketException errnum msg), none, sockfd.toList⟩
  | ending => ⟨accepted, ending, sockfd, []⟩

/-- `Send(buf, len)`; `sockfd` is the socket `Connect` leaves. -/
def sendCall (buf : Bytes) (sockfd : Option ℕ) (turns : List Turn) : CallResult :=
  if buf = [] then ⟨[], .returned, sockfd, []⟩
  else if sockfd = none then closeOnThrow sockfd []
    (.threw (.socketException 0 (lit "SocketClient Send(): invalid sockfd -1")))
  else
    let r := sendData sockfd buf turns
    closeOnThrow sockfd r.1.accepted r.2

/-! ## The counters -/

/-- The counters are complementary, and the first `total` bytes were accepted. -/
structure Counters.Ok (c : Counters) (buf : Bytes) : Prop where
  length_eq : c.total + c.bytesleft = buf.length
  accepted_eq : c.accepted = buf.take c.total

variable {buf : Bytes} {c : Counters}

theorem Counters.ok_start (buf : Bytes) : Counters.Ok ⟨0, buf.length, []⟩ buf :=
  ⟨Nat.zero_add _, rfl⟩

theorem Counters.Ok.add (h : c.Ok buf) {rtn : ℕ} (hr : rtn ≤ c.bytesleft) :
    (c.add buf rtn).Ok buf where
  length_eq := by
    have := h.length_eq
    simp only [Counters.add]
    omega
  accepted_eq := by
    simp only [Counters.add]
    rw [h.accepted_eq, ← List.take_add]

theorem Counters.Ok.drop_eq_nil_iff (h : c.Ok buf) : buf.drop c.total = [] ↔ c.bytesleft = 0 := by
  have := h.length_eq
  rw [List.drop_eq_nil_iff]
  omega

/-- **The loop keeps the counters**, and does to them what `sendLoop` does with the rest of the
buffer. -/
theorem sendTurns_eq (h : c.Ok buf) (turns : List Turn) :
    (sendTurns buf c turns).1.Ok buf ∧
    (sendTurns buf c turns).1.accepted =
      c.accepted ++ (sendLoop (buf.drop c.total) turns).accepted ∧
    (sendTurns buf c turns).2 = (sendLoop (buf.drop c.total) turns).ending := by
  induction turns generalizing c with
  | nil =>
    refine ⟨h, by simp [sendTurns, sendLoop], ?_⟩
    simp only [sendTurns, sendLoop, h.drop_eq_nil_iff]
  | cons t ts ih =>
    have hl := h.length_eq
    simp only [sendTurns, sendLoop, h.drop_eq_nil_iff]
    split
    · exact ⟨h, by simp, rfl⟩
    · cases hp : pollSocket t.polls with
      | some ending => exact ⟨h, by simp, rfl⟩
      | none =>
        cases hs : sendAnswer t.sends with
        | none => exact ⟨h, by simp, rfl⟩
        | some answer =>
          cases answer with
          | eintr | error => exact ⟨h, by simp, rfl⟩
          | again => exact ih h
          | accepted n =>
            obtain ⟨hok, ha, he⟩ := ih (h.add (Nat.min_le_right n c.bytesleft))
            have hlen : (buf.drop c.total).length = c.bytesleft := by
              rw [List.length_drop]
              omega
            -- what is left of the buffer is left of its rest
            have hd : buf.drop (c.add buf (min n c.bytesleft)).total =
                (buf.drop c.total).drop n := by
              simp only [Counters.add, ← hlen, ← List.drop_drop]
              rcases Nat.le_total n (buf.drop c.total).length with hn | hn
              · rw [Nat.min_eq_left hn]
              · rw [Nat.min_eq_right hn, List.drop_length, List.drop_of_length_le hn]
            have ht : (buf.drop c.total).take (min n c.bytesleft) = (buf.drop c.total).take n := by
              rw [← hlen]
              exact List.take_eq_take_min.symm
            rw [hd] at ha he
            refine ⟨hok, ha.trans ?_, he⟩
            simp only [Counters.add, ht, List.append_assoc]

theorem accepted_closeOnThrow (sockfd : Option ℕ) (accepted : Bytes) (ending : End) :
    (closeOnThrow sockfd accepted ending).accepted = accepted := by
  unfold closeOnThrow
  split <;> rfl

theorem ending_closeOnThrow (sockfd : Option ℕ) (accepted : Bytes) (ending : End) :
    (closeOnThrow sockfd accepted ending).ending = ending := by
  unfold closeOnThrow
  split <;> rfl

/-- `Send` with its counters does what `send` does, and closes the socket when an exception leaves
it. -/
theorem sendCall_eq (buf : Bytes) (sockfd : Option ℕ) (turns : List Turn) :
    let s := send buf ⟨sockfd.isSome, turns⟩
    sendCall buf sockfd turns =
      if buf = [] then ⟨[], .returned, sockfd, []⟩
      else closeOnThrow sockfd s.accepted s.ending := by
  by_cases hb : buf = []
  · simp [sendCall, hb]
  cases sockfd with
  | none => simp [sendCall, send, hb]
  | some fd =>
    obtain ⟨-, ha, he⟩ := sendTurns_eq (Counters.ok_start buf) turns
    simp only [List.nil_append, List.drop_zero] at ha he
    simp [sendCall, send, sendData, hb, ha, he]

/-- **Partial sends lose and repeat nothing.** The accepted bytes are a beginning of the buffer:
the whole buffer if the call returns and the client was not stopped, and less if an exception leaves
the call. The exception is a `SocketException`, and then the socket is closed. -/
theorem sendCall_partial (buf : Bytes) (sockfd : Option ℕ) (turns : List Turn) :
    let r := sendCall buf sockfd turns
    r.accepted <+: buf ∧
    (r.ending = .returned → (∀ t ∈ turns, t.stop = false) → r.accepted = buf) ∧
    ∀ e, r.ending = .threw e → (∃ errnum msg, e = .socketException errnum msg) ∧
      r.accepted ≠ buf ∧ r.sockfd = none ∧ r.closed = sockfd.toList := by
  by_cases hb : buf = []
  · simp [sendCall, hb]
  have hr := sendCall_eq buf sockfd turns
  simp only [hb, if_false] at hr
  simp only [hr, accepted_closeOnThrow, ending_closeOnThrow]
  refine ⟨accepted_send_isPrefixOf buf _, fun h hs => accepted_send hs h, fun e he => ?_⟩
  obtain ⟨errnum, msg, rfl⟩ : ∃ errnum msg, e = .socketException errnum msg := by
    unfold send at he
    rw [if_neg hb] at he
    split at he
    · exact socketException_of_sendLoop he
    · cases he
      exact ⟨_, _, rfl⟩
  refine ⟨⟨errnum, msg, rfl⟩, accepted_ne_of_send_threw he, ?_⟩
  rw [he]
  exact ⟨rfl, rfl⟩

/-- `EINTR`, `EAGAIN` and a partial `send()`; then the peer hangs up. -/
example : sendCall (lit "abcd") (some 5)
    [⟨false, [.eintr, .ready], [.eintr, .accepted 1]⟩, ⟨false, [.ready], [.again]⟩,
      ⟨false, [.ready], [.accepted 2]⟩, ⟨false, [.hangUp 11], []⟩] =
    ⟨lit "abc", .threw (.socketException 11
      (lit "poll() returned hang-up. Socket was closed.")), none, [5]⟩ := by decide

/-! ## A call that returns -/

/-- The bytes that a turn can take, if the client is not stopped, the socket is ready, and `send()`
does not fail. -/
def Turn.taken (t : Turn) : Option ℕ :=
  if t.stop = false ∧ pollSocket t.polls = none then
    match sendAnswer t.sends with
    | some .again => some 0
    | some (.accepted n) => some n
    | _ => none
  else none

theorem Turn.taken_eq_some {t : Turn} {n : ℕ} (h : t.taken = some n) :
    t.stop = false ∧ pollSocket t.polls = none ∧
      (sendAnswer t.sends = some .again ∧ n = 0 ∨ sendAnswer t.sends = some (.accepted n)) := by
  unfold taken at h
  split at h
  · rename_i ht
    refine ⟨ht.1, ht.2, ?_⟩
    split at h
    · cases h
      exact .inl ⟨‹_›, rfl⟩
    · cases h
      exact .inr ‹_›
    · cases h
  · cases h

/-- The bytes that some turns can take in all. -/
def takenBy : List Turn → Option ℕ
  | [] => some 0
  | t :: ts => t.taken.bind fun n => (takenBy ts).map (n + ·)

/-- The loop sends the rest of the buffer, if its turns take enough bytes in all. -/
theorem sendLoop_of_taken {rest : Bytes} {turns : List Turn} {count : ℕ}
    (ht : takenBy turns = some count) (hlen : rest.length ≤ count) :
    sendLoop rest turns = ⟨rest, .returned⟩ := by
  induction turns generalizing rest count with
  | nil =>
    obtain rfl : 0 = count := Option.some.inj ht
    obtain rfl : rest = [] := by simpa using hlen
    rfl
  | cons t ts ih =>
    obtain ⟨n, hn, hmap⟩ := Option.bind_eq_some_iff.mp ht
    obtain ⟨count, hts, rfl⟩ := Option.map_eq_some_iff.mp hmap
    obtain ⟨hstop, hpoll, hsend⟩ := Turn.taken_eq_some hn
    by_cases h0 : rest = []
    · simp [sendLoop, h0]
    rw [sendLoop_cons hstop h0, hpoll]
    rcases hsend with ⟨hsend, rfl⟩ | hsend
    · rw [hsend]
      exact ih hts (by simpa using hlen)
    · have hrest : (rest.drop n).length ≤ count := by
        rw [List.length_drop]
        omega
      rw [hsend]
      simp only [ih hts hrest, List.take_append_drop]

/-- **A call whose `send()`s take enough bytes returns**, with the whole buffer accepted and the
socket open. -/
theorem sendCall_of_taken {buf : Bytes} {turns : List Turn} {count : ℕ} (fd : ℕ)
    (ht : takenBy turns = some count) (hlen : buf.length ≤ count) :
    sendCall buf (some fd) turns = ⟨buf, .returned, some fd, []⟩ := by
  rw [sendCall_eq]
  by_cases hb : buf = []
  · rw [if_pos hb, hb]
  · rw [if_neg hb, send, if_neg hb]
    simp only [Option.isSome_some, if_true, sendLoop_of_taken ht hlen]
    rfl

end SocketClient

end Outmdsd
