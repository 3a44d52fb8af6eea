import Outmdsd.Foundations.Exceptions

/-!
# Sending on one connection

`SocketClient::SendData` polls and sends until every byte of its buffer is accepted, the client is
stopped, or a call fails. Here a single thread sends on a connection that nobody else touches, and
the answers of the operating system are given turn by turn. The accepted bytes are always a
beginning of the buffer (`sendLoop_isPrefixOf`), and all of it when the loop returns and the client
was not stopped (`sendLoop_returned`).

The overload for `const char*` takes the length of its argument with `strlen`: it sends the bytes
before the first NUL (`accepted_sendText`).
-/

namespace Outmdsd

namespace SocketClient

/-- An answer of `poll()`. -/
inductive PollAnswer
  /-- `-1` with `EINTR`: asked again. -/
  | eintr
  | ready
  | error (errnum : ℤ)
  /-- `poll()` has not failed: `errno` is what the last call that failed has left. -/
  | hangUp (errnum : ℤ)
  | unexpected (errnum : ℤ)
  deriving DecidableEq

/-- An answer of `send()`. -/
inductive SendAnswer
  /-- `-1` with `EINTR`: asked again. -/
  | eintr
  /-- `-1` with `EAGAIN` or `EWOULDBLOCK`. -/
  | again
  /-- At most as many bytes as were left. -/
  | accepted (n : ℕ)
  | error (errnum : ℤ)
  deriving DecidableEq

/-- One turn of the loop: the flag `m_stopClient` at its test, and the answers to its calls. -/
structure Turn where
  stop : Bool
  polls : List PollAnswer
  sends : List SendAnswer

/-- How a call ends; `running` when the answers are used up. -/
inductive End
  | returned
  | threw (e : Exn)
  | running
  deriving DecidableEq

/-- `PollSocket`, on a valid socket; `none` when it returns. -/
def pollSocket (polls : List PollAnswer) : Option End :=
  match polls.find? (· ≠ .eintr) with
  | none => some .running
  | some (.error errnum) => some (.threw (.socketException errnum (lit "poll()")))
  | some (.hangUp errnum) =>
    some (.threw (.socketException errnum (lit "poll() returned hang-up. Socket was closed.")))
  | some (.unexpected errnum) =>
    some (.threw (.socketException errnum (lit "poll() returned unexpected event.")))
  | some .ready => none
  | some .eintr => some .running

/-- The answer `send()` is left with when it is repeated on `EINTR`. -/
def sendAnswer (sends : List SendAnswer) : Option SendAnswer := sends.find? (· ≠ .eintr)

/-- What a call put on the wire, and how it ended. -/
structure Sent where
  accepted : Bytes
  ending : End
  deriving DecidableEq

/-- The loop of `SendData`; `rest` are the `bytesleft` bytes behind `buf + total`. -/
def sendLoop (rest : Bytes) : List Turn → Sent
  | [] => ⟨[], if rest = [] then .returned else .running⟩
  | t :: ts =>
    if t.stop ∨ rest = [] then ⟨[], .returned⟩
    else match pollSocket t.polls with
      | some ending => ⟨[], ending⟩
      | none =>
        match sendAnswer t.sends with
        | none => ⟨[], .running⟩
        | some .eintr => ⟨[], .running⟩
        | some .again => sendLoop rest ts
        | some (.error errnum) => ⟨[], .threw (.socketException errnum (lit "socket send()"))⟩
        | some (.accepted n) =>
          let r := sendLoop (rest.drop n) ts
          ⟨rest.take n ++ r.accepted, r.ending⟩

/-- The environment of one call of `Send`: whether the socket is valid after `Connect`, and the
turns of the loop. -/
structure Calls where
  connected : Bool
  turns : List Turn

/-- `Send(buf, len)`, for a buffer of `len` bytes. -/
def send (buf : Bytes) (calls : Calls) : Sent :=
  if buf = [] then ⟨[], .returned⟩
  else if calls.connected then sendLoop buf calls.turns
  else ⟨[], .threw (.socketException 0 (lit "SocketClient Send(): invalid sockfd -1"))⟩

/-- `Send(data)`, for a pointer to the bytes of a string: `strlen` of them are sent. -/
def sendText (data : Bytes) (calls : Calls) : Sent := send (data.take (strlen data)) calls

/-- The client is stopped during none of the turns. -/
def Calls.Unstopped (calls : Calls) : Prop := ∀ t ∈ calls.turns, t.stop = false

/-- A turn in which the loop test passes. -/
theorem sendLoop_cons {rest : Bytes} {t : Turn} (ht : t.stop = false) (h0 : rest ≠ [])
    (ts : List Turn) : sendLoop rest (t :: ts) =
      match pollSocket t.polls with
      | some ending => ⟨[], ending⟩
      | none =>
        match sendAnswer t.sends with
        | none => ⟨[], .running⟩
        | some .eintr => ⟨[], .running⟩
        | some .again => sendLoop rest ts
        | some (.error errnum) => ⟨[], .threw (.socketException errnum (lit "socket send()"))⟩
        | some (.accepted n) =>
          ⟨rest.take n ++ (sendLoop (rest.drop n) ts).accepted,
            (sendLoop (rest.drop n) ts).ending⟩ :=
  if_neg (by simp [ht, h0])

/-- The accepted bytes are a beginning of the buffer. -/
theorem sendLoop_isPrefixOf (rest : Bytes) (turns : List Turn) :
    (sendLoop rest turns).accepted <+: rest := by
  induction turns generalizing rest with
  | nil => exact List.nil_prefix
  | cons t ts ih =>
    rw [sendLoop]
    split
    · exact List.nil_prefix
    · split
      · exact List.nil_prefix
      · split
        · exact List.nil_prefix
        · exact List.nil_prefix
        · exact ih rest
        · exact List.nil_prefix
        · rename_i n _
          have h := (List.prefix_append_right_inj (rest.take n)).mpr (ih (rest.drop n))
          rwa [List.take_append_drop] at h

theorem pollSocket_ne_returned (polls : List PollAnswer) : pollSocket polls ≠ some .returned := by
  unfold pollSocket
  split <;> simp

theorem socketException_of_pollSocket {polls : List PollAnswer} {e : Exn}
    (h : pollSocket polls = some (.threw e)) : ∃ errnum msg, e = .socketException errnum msg := by
  unfold pollSocket at h
  split at h <;> cases h <;> exact ⟨_, _, rfl⟩

/-- The exceptions of the loop are socket exceptions. -/
theorem socketException_of_sendLoop {rest : Bytes} {turns : List Turn} {e : Exn}
    (h : (sendLoop rest turns).ending = .threw e) :
    ∃ errnum msg, e = .socketException errnum msg := by
  induction turns generalizing rest with
  | nil =>
    rw [sendLoop] at h
    split at h <;> cases h
  | cons t ts ih =>
    rw [sendLoop] at h
    split at h
    · cases h
    · split at h
      · rename_i ending hp
        exact socketException_of_pollSocket (hp.trans (congrArg some h))
      · split at h
        · cases h
        · cases h
        · exact ih h
        · cases h
          exact ⟨_, _, rfl⟩
        · exact ih h

/-- A loop that returns without a stop has sent its whole buffer. -/
theorem sendLoop_returned {rest : Bytes} {turns : List Turn} (hs : ∀ t ∈ turns, t.stop = false)
    (h : (sendLoop rest turns).ending = .returned) : (sendLoop rest turns).accepted = rest := by
  induction turns generalizing rest with
  | nil =>
    by_cases h0 : rest = []
    · rw [h0]
      rfl
    · simp [sendLoop, h0] at h
  | cons t ts ih =>
    have ht : t.stop = false := hs t (by simp)
    have hts := fun t' (h' : t' ∈ ts) => hs t' (by simp [h'])
    by_cases h0 : rest = []
    · simp [sendLoop, h0]
    simp only [sendLoop, ht, Bool.false_eq_true, h0, or_self, if_false] at h ⊢
    cases hp : pollSocket t.polls with
    | some ending =>
      simp only [hp] at h
      exact absurd (hp.trans (congrArg some h)) (pollSocket_ne_returned t.polls)
    | none =>
      simp only [hp] at h ⊢
      cases hf : sendAnswer t.sends with
      | none =>
        simp only [hf] at h
        cases h
      | some answer =>
        simp only [hf] at h ⊢
        cases answer with
        | eintr | error => cases h
        | again => exact ih hts h
        | accepted n =>
          change rest.take n ++ (sendLoop (rest.drop n) ts).accepted = rest
          rw [ih hts h, List.take_append_drop]

/-- A loop that an exception ends has not sent its whole buffer. -/
theorem accepted_ne_of_sendLoop_threw {rest : Bytes} {turns : List Turn} {e : Exn}
    (h : (sendLoop rest turns).ending = .threw e) : (sendLoop rest turns).accepted ≠ rest := by
  induction turns generalizing rest with
  | nil =>
    rw [sendLoop] at h
    split at h <;> cases h
  | cons t ts ih =>
    rw [sendLoop] at h ⊢
    split at h
    · cases h
    · rename_i hgo
      have h0 : ([] : Bytes) ≠ rest := fun he => hgo (.inr he.symm)
      rw [if_neg hgo]
      split at h
      · exact h0
      · split at h
        · exact h0
        · exact h0
        · exact ih h
        · exact h0
        · rename_i n _
          intro he
          refine ih h (List.append_cancel_left (he.trans ?_))
          exact (List.take_append_drop n rest).symm

theorem accepted_send_isPrefixOf (buf : Bytes) (calls : Calls) :
    (send buf calls).accepted <+: buf := by
  unfold send
  split
  · exact List.nil_prefix
  · split
    · exact sendLoop_isPrefixOf buf calls.turns
    · exact List.nil_prefix

/-- A `Send` that an exception ends has not sent its whole buffer. -/
theorem accepted_ne_of_send_threw {buf : Bytes} {calls : Calls} {e : Exn}
    (h : (send buf calls).ending = .threw e) : (send buf calls).accepted ≠ buf := by
  unfold send at h ⊢
  split at h
  · cases h
  · rename_i h0
    rw [if_neg h0]
    split at h
    · rename_i hc
      rw [if_pos hc]
      exact accepted_ne_of_sendLoop_threw h
    · rename_i hc
      rw [if_neg hc]
      exact fun he => h0 he.symm

/-- A `Send` of a string that an exception ends has not sent the string. -/
theorem accepted_ne_of_threw {data : Bytes} {calls : Calls} {e : Exn}
    (h : (sendText data calls).ending = .threw e) : (sendText data calls).accepted ≠ data := by
  intro he
  refine accepted_ne_of_send_threw h (he.trans (List.take_of_length_le ?_).symm)
  have hle : (sendText data calls).accepted.length ≤ (data.take (strlen data)).length :=
    (accepted_send_isPrefixOf _ calls).length_le
  rw [he, List.length_take] at hle
  omega

/-- A `Send` that returns without a stop has sent its whole buffer. -/
theorem accepted_send {buf : Bytes} {calls : Calls} (hs : calls.Unstopped)
    (h : (send buf calls).ending = .returned) : (send buf calls).accepted = buf := by
  unfold send at h ⊢
  split
  · rename_i h0
    exact h0.symm
  · rename_i h0
    rw [if_neg h0] at h
    split
    · rename_i hc
      rw [if_pos hc] at h
      exact sendLoop_returned hs h
    · rename_i hc
      rw [if_neg hc] at h
      cases h

/-- A `Send` of a string that returns without a stop has sent the bytes before its first NUL. -/
theorem accepted_sendText {data : Bytes} {calls : Calls} (hs : calls.Unstopped)
    (h : (sendText data calls).ending = .returned) :
    (sendText data calls).accepted = cStr data := by
  rw [← take_strlen]
  exact accepted_send hs h

/-- A socket that accepts the whole buffer at once. -/
def acceptingAll (n : ℕ) : Calls := ⟨true, [⟨false, [.ready], [.accepted n]⟩]⟩

theorem unstopped_acceptingAll (n : ℕ) : (acceptingAll n).Unstopped := by
  simp [Calls.Unstopped, acceptingAll]

theorem sendText_acceptingAll (data : Bytes) :
    sendText data (acceptingAll data.length) = ⟨cStr data, .returned⟩ := by
  have hl : (cStr data).length ≤ data.length := (cStr_isPrefixOf data).length_le
  rw [sendText, take_strlen, send]
  split
  · rename_i h0
    rw [h0]
  · rename_i h0
    simp [acceptingAll, sendLoop, h0, pollSocket, sendAnswer, List.drop_of_length_le hl,
      List.take_of_length_le hl]

end SocketClient

end Outmdsd
