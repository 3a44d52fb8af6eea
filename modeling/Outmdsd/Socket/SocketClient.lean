import Mathlib.Tactic.Simps.Basic
import Outmdsd.Foundations.Runs
import Outmdsd.Socket.Send

/-!
# The socket client and its threads

Any number of threads call `Send`, `Read`, `Connect`, `Close` and `Stop` on one client. A step is
what a thread does between two points at which another can see or change something: the atomics
`m_sockfd` and `m_stopClient`, the two mutexes, the descriptors of the process and the connections
behind them. `m_sockfd` changes under `m_fdMutex` only, so what its holder reads there is one step.

A descriptor is a number of the kernel, which it may use again after `close`. Every `socket()` opens
a new connection; each records the bytes accepted on it, with the calls of `Send` they came from.
The peer may hang up at any moment.
-/

namespace Outmdsd

/-- A call of `Send`, for a message that is not empty. -/
structure SendCall where
  id : ℕ
  msg : Bytes
  deriving DecidableEq

/-- Who called `Connect`. -/
inductive Caller
  | api
  | send (c : SendCall)
  deriving DecidableEq

/-- How a call ended; `stopped` is the return value -1 of `Read`. -/
inductive Outcome
  | done
  | read (n : ℕ)
  | stopped
  | threw
  deriving DecidableEq

/-- Where a thread is in `Connect` and `SetupSocketConnect`. -/
inductive ConnectPc
  /-- Before the early test of `m_sockfd`. -/
  | test
  | lock
  /-- Before the loop test, with `m_fdMutex` from here on. -/
  | loop
  | socket
  | connect
  /-- `connect()` failed: before `close(m_sockfd)`. -/
  | close
  | clear
  /-- In the handler of the exception. -/
  | retry
  deriving DecidableEq

/-- How far the loop of `SendData` is: the bytes sent, and the connection that got the first. -/
structure Progress where
  total : ℕ
  conn : Option ℕ
  deriving DecidableEq

/-- Where a thread is in `Send` and `SendData`, after `Connect`. -/
inductive SendPc
  /-- Before the test of `m_sockfd` in `Send`. -/
  | test
  /-- Before the test of `m_sockfd` in `SendData`. -/
  | testAgain
  | lock
  /-- Before the loop test, with `m_sendMutex` from here on. -/
  | loop (g : Progress)
  /-- Before the test of `m_sockfd` in `PollSocket`. -/
  | poll (g : Progress)
  /-- Before `m_sockfd` is read for `poll()`. -/
  | pollLoad (g : Progress)
  /-- In `poll()`; the descriptor is `none` if `m_sockfd` has become invalid after the test. -/
  | polling (g : Progress) (fd : Option ℕ)
  /-- Before `m_sockfd` is read for `send()`. -/
  | load (g : Progress)
  | call (g : Progress) (fd : ℕ)
  deriving DecidableEq

/-- Where a thread is in `Close`. -/
inductive ClosePc
  | lock
  | close
  | clear
  deriving DecidableEq

/-- Where a thread is in `Read`. -/
inductive ReadPc
  | test
  /-- In `WaitForSocketToBeReady`. -/
  | wait
  | testAgain
  /-- Before the test of `m_sockfd` in `PollSocket`. -/
  | poll
  /-- Before `m_sockfd` is read for `poll()`. -/
  | pollLoad
  | polling (fd : Option ℕ)
  | read
  deriving DecidableEq

/-- Where a thread is in `Stop`. -/
inductive StopPc
  | test
  | set
  /-- Before `m_fdMutex` is locked for `notify_all`. -/
  | notify
  deriving DecidableEq

/-- Where a thread is; a call of `Close` carries the outcome of the call it is part of. -/
inductive Pc
  | returned (r : Outcome)
  | connect (p : Caller) (k : ConnectPc)
  | send (c : SendCall) (k : SendPc)
  | close (r : Outcome) (k : ClosePc)
  | read (k : ReadPc)
  | stop (k : StopPc)
  deriving DecidableEq

/-- A connection. -/
structure Conn where
  connected : Bool
  hungUp : Bool
  /-- The bytes accepted, with the ids of the calls of `Send`. -/
  accepted : List (ℕ × Bytes)
  /-- A `Send` threw in the middle of its message. -/
  abandoned : Bool

/-- The bytes accepted on a connection. -/
def Conn.bytes (k : Conn) : Bytes := k.accepted.flatMap Prod.snd

/-- `send()` can accept bytes on the connection. -/
def Conn.Accepts (k : Conn) : Bool := k.connected && !k.hungUp

/-- A client, its threads, and the descriptors and connections it uses. -/
structure SocketClient where
  sockfd : Option ℕ
  stopClient : Bool
  fdMutex : Option ℕ
  sendMutex : Option ℕ
  /-- The connection behind an open descriptor. -/
  fds : ℕ → Option ℕ
  numConns : ℕ
  conn : ℕ → Conn
  /-- The messages of the calls of `Send`. -/
  calls : List Bytes
  pc : ℕ → Pc

/-- An answer of `read()`, not counting `EINTR`. -/
inductive ReadAnswer
  | data (n : ℕ)
  | eof
  | again
  | error

/-- A call a thread begins. -/
inductive ApiCall
  | send (msg : Bytes)
  | connect
  | close
  | read
  | stop

/-- What a thread does: a call to the operating system comes with its answer. -/
inductive Act
  | begin (call : ApiCall)
  | run
  | socket (fd : Option ℕ)
  | connect (ok : Bool)
  /-- Another attempt, or the retry timeout. -/
  | retry (again : Bool)
  | poll (answer : SocketClient.PollAnswer)
  | send (answer : SocketClient.SendAnswer)
  | read (answer : ReadAnswer)

namespace SocketClient

/-- A step of the system: of a thread, or a peer hangs up. -/
inductive Label
  | thread (τ : ℕ) (a : Act)
  | hangUp (k : ℕ)

def init : SocketClient where
  sockfd := none
  stopClient := false
  fdMutex := none
  sendMutex := none
  fds _ := none
  numConns := 0
  conn _ := ⟨false, false, [], false⟩
  calls := []
  pc _ := .returned .done

@[simps] def setPc (s : SocketClient) (τ : ℕ) (pc : Pc) : SocketClient :=
  { s with pc := Function.update s.pc τ pc }

@[simps] def setConn (s : SocketClient) (k : ℕ) (c : Conn) : SocketClient :=
  { s with conn := Function.update s.conn k c }

/-- The connection behind `m_sockfd`. -/
def current (s : SocketClient) : Option ℕ := s.sockfd.bind s.fds

/-- `close(m_sockfd)` -/
def closeSockfd (s : SocketClient) : SocketClient :=
  match s.sockfd with
  | none => s
  | some fd => { s with fds := Function.update s.fds fd none }

/-- Where a thread goes on after `Connect`. -/
def afterConnect : Caller → Pc
  | .api => .returned .done
  | .send c => .send c .test

/-! ## Steps -/

/-- A thread begins a call. `Send` of an empty buffer returns at once. -/
def begin (s : SocketClient) (τ : ℕ) : ApiCall → SocketClient
  | .send msg =>
    if msg = [] then s.setPc τ (.returned .done)
    else { s with calls := s.calls ++ [msg] }.setPc τ (.connect (.send ⟨s.calls.length, msg⟩) .test)
  | .connect => s.setPc τ (.connect .api .test)
  | .close => s.setPc τ (.close .done .lock)
  | .read => s.setPc τ (.read .test)
  | .stop => s.setPc τ (.stop .test)

/-- A step of `Connect`. -/
def connectStep (s : SocketClient) (τ : ℕ) (p : Caller) : ConnectPc → Act → Option SocketClient
  | .test, .run => some (s.setPc τ (if s.sockfd.isSome then afterConnect p else .connect p .lock))
  | .lock, .run =>
    if s.fdMutex = none then some ({ s with fdMutex := some τ }.setPc τ (.connect p .loop))
    else none
  | .loop, .run =>
    -- `SetupSocketConnect` returns at once for a valid socket
    some (if s.stopClient || s.sockfd.isSome then
        { s with fdMutex := none }.setPc τ (afterConnect p)
      else s.setPc τ (.connect p .socket))
  | .socket, .socket none => some (s.setPc τ (.connect p .retry))
  | .socket, .socket (some fd) =>
    if s.fds fd = none then
      some ({ s with
        sockfd := some fd
        fds := Function.update s.fds fd (some s.numConns)
        numConns := s.numConns + 1 }.setPc τ (.connect p .connect))
    else none
  | .connect, .connect true =>
    match s.current with
    | none => none
    | some k =>
      some (({ s with fdMutex := none }.setConn k { s.conn k with connected := true }).setPc τ
        (afterConnect p))
  | .connect, .connect false => some (s.setPc τ (.connect p .close))
  | .close, .run => some (s.closeSockfd.setPc τ (.connect p .clear))
  | .clear, .run => some ({ s with sockfd := none }.setPc τ (.connect p .retry))
  | .retry, .retry again =>
    some (if again then s.setPc τ (.connect p .loop)
      else { s with fdMutex := none }.setPc τ (afterConnect p))
  | _, _ => none

/-- An exception leaves `SendData`, which unlocks `m_sendMutex`, and is caught in `Send`. -/
def throwIn (s : SocketClient) (τ : ℕ) (g : Progress) : SocketClient :=
  (match g.conn with
    | none => { s with sendMutex := none }
    | some k => { s with sendMutex := none }.setConn k { s.conn k with abandoned := true }).setPc τ
      (.close .threw .lock)

/-- `send()` accepts `n` bytes behind the first `g.total`. -/
def accept (s : SocketClient) (τ : ℕ) (c : SendCall) (g : Progress) (k n : ℕ) : SocketClient :=
  (s.setConn k { s.conn k with
    accepted := (s.conn k).accepted ++ [(c.id, (c.msg.drop g.total).take n)] }).setPc τ
      (.send c (.loop ⟨g.total + n, some k⟩))

/-- A step of `Send` after `Connect`. -/
def sendStep (s : SocketClient) (τ : ℕ) (c : SendCall) : SendPc → Act → Option SocketClient
  | .test, .run =>
    some (s.setPc τ (if s.sockfd.isSome then .send c .testAgain else .close .threw .lock))
  | .testAgain, .run =>
    some (s.setPc τ (if s.sockfd.isSome then .send c .lock else .close .threw .lock))
  | .lock, .run =>
    if s.sendMutex = none then
      some ({ s with sendMutex := some τ }.setPc τ (.send c (.loop ⟨0, none⟩)))
    else none
  | .loop g, .run =>
    some (if s.stopClient || g.total = c.msg.length then
        { s with sendMutex := none }.setPc τ (.returned .done)
      else s.setPc τ (.send c (.poll g)))
  | .poll g, .run =>
    some (if s.sockfd.isSome then s.setPc τ (.send c (.pollLoad g)) else s.throwIn τ g)
  | .pollLoad g, .run => some (s.setPc τ (.send c (.polling g s.sockfd)))
  | .polling _ _, .poll .eintr => some s
  -- `poll()` ignores a negative descriptor, and waits for ever
  | .polling g (some _), .poll answer =>
    some (if answer = .ready then s.setPc τ (.send c (.load g)) else s.throwIn τ g)
  | .load g, .run =>
    match s.sockfd with
    | none => some (s.throwIn τ g)
    | some fd => some (s.setPc τ (.send c (.call g fd)))
  | .call g fd, .send answer =>
    match answer with
    | .eintr => some (s.setPc τ (.send c (.load g)))
    | .again => some (s.setPc τ (.send c (.loop g)))
    | .error _ => some (s.throwIn τ g)
    | .accepted n =>
      match s.fds fd with
      | none => none
      | some k =>
        if (s.conn k).Accepts ∧ 1 ≤ n ∧ g.total + n ≤ c.msg.length then some (s.accept τ c g k n)
        else none
  | _, _ => none

/-- A step of `Close`. -/
def closeStep (s : SocketClient) (τ : ℕ) (r : Outcome) : ClosePc → Act → Option SocketClient
  | .lock, .run =>
    if s.fdMutex = none then
      some (if s.sockfd.isSome then { s with fdMutex := some τ }.setPc τ (.close r .close)
        else s.setPc τ (.returned r))
    else none
  | .close, .run => some (s.closeSockfd.setPc τ (.close r .clear))
  | .clear, .run => some ({ s with sockfd := none, fdMutex := none }.setPc τ (.returned r))
  | _, _ => none

/-- A step of `Read`. -/
def readStep (s : SocketClient) (τ : ℕ) : ReadPc → Act → Option SocketClient
  | .test, .run => some (s.setPc τ (if s.stopClient then .returned .stopped else .read .wait))
  | .wait, .run =>
    -- the end of the wait, at which `m_fdMutex` is held; its exception is not caught in `Read`
    if s.fdMutex = none then
      some (s.setPc τ
        (if s.stopClient || s.sockfd.isSome then .read .testAgain else .returned .threw))
    else none
  | .testAgain, .run => some (s.setPc τ (if s.stopClient then .returned .stopped else .read .poll))
  | .poll, .run =>
    some (s.setPc τ (if s.sockfd.isSome then .read .pollLoad else .close .threw .lock))
  | .pollLoad, .run => some (s.setPc τ (.read (.polling s.sockfd)))
  | .polling _, .poll .eintr => some s
  | .polling (some _), .poll answer =>
    some (s.setPc τ (if answer = .ready then .read .read else .close .threw .lock))
  | .read, .read (.data n) => some (s.setPc τ (.returned (.read n)))
  | .read, .read .again => some (s.setPc τ (.returned (.read 0)))
  | .read, .read .eof => some (s.setPc τ (.close (.read 0) .lock))
  | .read, .read .error => some (s.setPc τ (.close .threw .lock))
  | _, _ => none

/-- A step of `Stop`. -/
def stopStep (s : SocketClient) (τ : ℕ) : StopPc → Act → Option SocketClient
  | .test, .run => some (s.setPc τ (if s.stopClient then .close .done .lock else .stop .set))
  | .set, .run => some ({ s with stopClient := true }.setPc τ (.stop .notify))
  | .notify, .run => if s.fdMutex = none then some (s.setPc τ (.close .done .lock)) else none
  | _, _ => none

/-- A step of a thread. -/
def threadStep (s : SocketClient) (τ : ℕ) (a : Act) : Option SocketClient :=
  match s.pc τ with
  | .returned _ =>
    match a with
    | .begin call => some (s.begin τ call)
    | _ => none
  | .connect p k => s.connectStep τ p k a
  | .send c k => s.sendStep τ c k a
  | .close r k => s.closeStep τ r k a
  | .read k => s.readStep τ k a
  | .stop k => s.stopStep τ k a

/-- A step of the system. -/
def step (s : SocketClient) : Label → Option SocketClient
  | .thread τ a => s.threadStep τ a
  | .hangUp k => some (s.setConn k { s.conn k with hungUp := true })

/-! ### What a step does -/

variable {s s' : SocketClient} {τ : ℕ} {a : Act}

/-- The steps of `Connect`, by what they do. -/
inductive ConnectMove (s : SocketClient) (τ : ℕ) (p : Caller) :
    ConnectPc → Act → SocketClient → Prop
  | valid (hs : s.sockfd.isSome) :
    ConnectMove s τ p .test .run (s.setPc τ (afterConnect p))
  | test (hs : s.sockfd = none) : ConnectMove s τ p .test .run (s.setPc τ (.connect p .lock))
  | lock (hm : s.fdMutex = none) :
    ConnectMove s τ p .lock .run ({ s with fdMutex := some τ }.setPc τ (.connect p .loop))
  | leave (h : s.stopClient = true ∨ s.sockfd.isSome) :
    ConnectMove s τ p .loop .run ({ s with fdMutex := none }.setPc τ (afterConnect p))
  | loop (hstop : s.stopClient = false) (hs : s.sockfd = none) :
    ConnectMove s τ p .loop .run (s.setPc τ (.connect p .socket))
  | noSocket : ConnectMove s τ p .socket (.socket none) (s.setPc τ (.connect p .retry))
  | socket {fd : ℕ} (hfd : s.fds fd = none) :
    ConnectMove s τ p .socket (.socket (some fd)) ({ s with
      sockfd := some fd
      fds := Function.update s.fds fd (some s.numConns)
      numConns := s.numConns + 1 }.setPc τ (.connect p .connect))
  | connected {k : ℕ} (hk : s.current = some k) :
    ConnectMove s τ p .connect (.connect true)
      (({ s with fdMutex := none }.setConn k { s.conn k with connected := true }).setPc τ
        (afterConnect p))
  | notConnected :
    ConnectMove s τ p .connect (.connect false) (s.setPc τ (.connect p .close))
  | close : ConnectMove s τ p .close .run (s.closeSockfd.setPc τ (.connect p .clear))
  | clear :
    ConnectMove s τ p .clear .run ({ s with sockfd := none }.setPc τ (.connect p .retry))
  | again : ConnectMove s τ p .retry (.retry true) (s.setPc τ (.connect p .loop))
  | giveUp :
    ConnectMove s τ p .retry (.retry false) ({ s with fdMutex := none }.setPc τ (afterConnect p))

theorem connectMove {p : Caller} {k : ConnectPc} (h : s.connectStep τ p k a = some s') :
    ConnectMove s τ p k a s' := by
  unfold connectStep at h
  split at h
  case h_1 =>
    cases h
    split
    · exact .valid ‹_›
    · exact .test (Option.not_isSome_iff_eq_none.mp ‹_›)
  case h_2 =>
    split at h
    · cases h
      exact .lock ‹_›
    · cases h
  case h_3 =>
    cases h
    split
    · rename_i hl
      exact .leave (by simpa using hl)
    · rename_i hn
      simp only [Bool.or_eq_true, not_or, Bool.not_eq_true, Option.isSome_eq_false_iff,
        Option.isNone_iff_eq_none] at hn
      exact .loop hn.1 hn.2
  case h_5 =>
    split at h
    · cases h
      exact .socket ‹_›
    · cases h
  case h_6 =>
    split at h
    · cases h
    · cases h
      exact .connected ‹_›
  case h_10 again =>
    cases h
    cases again with
    | true => exact .again
    | false => exact .giveUp
  case h_11 => cases h
  all_goals
    cases h
    constructor

/-- The steps of `Send` after `Connect`, by what they do. -/
inductive SendMove (s : SocketClient) (τ : ℕ) (c : SendCall) : SendPc → Act → SocketClient → Prop
  | valid (hs : s.sockfd.isSome) : SendMove s τ c .test .run (s.setPc τ (.send c .testAgain))
  | invalid (hs : s.sockfd = none) : SendMove s τ c .test .run (s.setPc τ (.close .threw .lock))
  | validAgain (hs : s.sockfd.isSome) : SendMove s τ c .testAgain .run (s.setPc τ (.send c .lock))
  | invalidAgain (hs : s.sockfd = none) :
    SendMove s τ c .testAgain .run (s.setPc τ (.close .threw .lock))
  | lock (hm : s.sendMutex = none) :
    SendMove s τ c .lock .run ({ s with sendMutex := some τ }.setPc τ (.send c (.loop ⟨0, none⟩)))
  | leave {g : Progress} (h : s.stopClient = true ∨ g.total = c.msg.length) :
    SendMove s τ c (.loop g) .run ({ s with sendMutex := none }.setPc τ (.returned .done))
  | loop {g : Progress} (hstop : s.stopClient = false) (ht : g.total ≠ c.msg.length) :
    SendMove s τ c (.loop g) .run (s.setPc τ (.send c (.poll g)))
  | pollValid {g : Progress} (hs : s.sockfd.isSome) :
    SendMove s τ c (.poll g) .run (s.setPc τ (.send c (.pollLoad g)))
  | pollInvalid {g : Progress} (hs : s.sockfd = none) :
    SendMove s τ c (.poll g) .run (s.throwIn τ g)
  | pollLoad {g : Progress} :
    SendMove s τ c (.pollLoad g) .run (s.setPc τ (.send c (.polling g s.sockfd)))
  | pollAgain {g : Progress} {fd : Option ℕ} : SendMove s τ c (.polling g fd) (.poll .eintr) s
  | ready {g : Progress} {fd : ℕ} :
    SendMove s τ c (.polling g (some fd)) (.poll .ready) (s.setPc τ (.send c (.load g)))
  | notReady {g : Progress} {fd : ℕ} {answer : PollAnswer} (he : answer ≠ .eintr)
      (h : answer ≠ .ready) :
    SendMove s τ c (.polling g (some fd)) (.poll answer) (s.throwIn τ g)
  | load {g : Progress} {fd : ℕ} (hs : s.sockfd = some fd) :
    SendMove s τ c (.load g) .run (s.setPc τ (.send c (.call g fd)))
  | closed {g : Progress} (hs : s.sockfd = none) :
    SendMove s τ c (.load g) .run (s.throwIn τ g)
  | sendAgain {g : Progress} {fd : ℕ} :
    SendMove s τ c (.call g fd) (.send .eintr) (s.setPc τ (.send c (.load g)))
  | wouldBlock {g : Progress} {fd : ℕ} :
    SendMove s τ c (.call g fd) (.send .again) (s.setPc τ (.send c (.loop g)))
  | error {g : Progress} {fd : ℕ} {errnum : ℤ} :
    SendMove s τ c (.call g fd) (.send (.error errnum)) (s.throwIn τ g)
  | accepted {g : Progress} {fd n k : ℕ} (hk : s.fds fd = some k) (ha : (s.conn k).Accepts)
      (h1 : 1 ≤ n) (hn : g.total + n ≤ c.msg.length) :
    SendMove s τ c (.call g fd) (.send (.accepted n)) (s.accept τ c g k n)

theorem sendMove {c : SendCall} {k : SendPc} (h : s.sendStep τ c k a = some s') :
    SendMove s τ c k a s' := by
  unfold sendStep at h
  split at h
  case h_1 =>
    cases h
    split
    · exact .valid ‹_›
    · exact .invalid (Option.not_isSome_iff_eq_none.mp ‹_›)
  case h_2 =>
    cases h
    split
    · exact .validAgain ‹_›
    · exact .invalidAgain (Option.not_isSome_iff_eq_none.mp ‹_›)
  case h_3 =>
    split at h
    · cases h
      exact .lock ‹_›
    · cases h
  case h_4 =>
    cases h
    split
    · rename_i hl
      exact .leave (by simpa using hl)
    · rename_i hn
      simp only [Bool.or_eq_true, decide_eq_true_eq, not_or, Bool.not_eq_true] at hn
      exact .loop hn.1 hn.2
  case h_5 =>
    cases h
    split
    · exact .pollValid ‹_›
    · exact .pollInvalid (Option.not_isSome_iff_eq_none.mp ‹_›)
  case h_6 =>
    cases h
    exact .pollLoad
  case h_7 =>
    cases h
    exact .pollAgain
  case h_8 he =>
    cases h
    split
    · rename_i hr
      subst hr
      exact .ready
    · exact .notReady (fun h => he h) ‹_›
  case h_9 =>
    split at h
    · cases h
      exact .closed ‹_›
    · cases h
      exact .load ‹_›
  case h_10 =>
    split at h
    · cases h
      exact .sendAgain
    · cases h
      exact .wouldBlock
    · cases h
      exact .error
    · split at h
      · cases h
      · rename_i hk
        split at h
        · rename_i ha
          cases h
          exact .accepted hk ha.1 ha.2.1 ha.2.2
        · cases h
  case h_11 => cases h

/-- The steps of `Close`, by what they do. -/
inductive CloseMove (s : SocketClient) (τ : ℕ) (r : Outcome) : ClosePc → Act → SocketClient → Prop
  | lock (hm : s.fdMutex = none) (hs : s.sockfd.isSome) :
    CloseMove s τ r .lock .run ({ s with fdMutex := some τ }.setPc τ (.close r .close))
  | closed (hm : s.fdMutex = none) (hs : s.sockfd = none) :
    CloseMove s τ r .lock .run (s.setPc τ (.returned r))
  | close : CloseMove s τ r .close .run (s.closeSockfd.setPc τ (.close r .clear))
  | clear :
    CloseMove s τ r .clear .run ({ s with sockfd := none, fdMutex := none }.setPc τ (.returned r))

theorem closeMove {r : Outcome} {k : ClosePc} (h : s.closeStep τ r k a = some s') :
    CloseMove s τ r k a s' := by
  unfold closeStep at h
  split at h
  · split at h
    · rename_i hm
      cases h
      split
      · exact .lock hm ‹_›
      · exact .closed hm (Option.not_isSome_iff_eq_none.mp ‹_›)
    · cases h
  · cases h
    exact .close
  · cases h
    exact .clear
  · cases h

/-! ## Connections and mutexes -/

/-- What a change of one connection keeps of it, it keeps of all. -/
theorem conn_setConn_congr {α : Type*} {s : SocketClient} {k : ℕ} {c : Conn} (f : Conn → α)
    (h : f c = f (s.conn k)) : ∀ k', f ((s.setConn k c).conn k') = f (s.conn k') :=
  (Function.forall_update_iff s.conn fun k' c' => f c' = f (s.conn k')).mpr ⟨h, fun _ _ => rfl⟩

/-- A mutex that is free or held by one thread is not held by another. -/
theorem holder_unique {mutex : Option ℕ} {τ τ' : ℕ} (hm : mutex = none ∨ mutex = some τ)
    (h : mutex = some τ') : τ' = τ := by
  rcases hm with hn | hs
  · rw [hn] at h
    cases h
  · exact Option.some.inj (h.symm.trans hs)

theorem bytes_eq {k k' : Conn} (h : k'.accepted = k.accepted) : k'.bytes = k.bytes := by
  rw [Conn.bytes, Conn.bytes, h]

/-- An exception leaves the bytes of every connection alone. -/
theorem accepted_throwIn (s : SocketClient) (τ : ℕ) (g : Progress) (k : ℕ) :
    ((s.throwIn τ g).conn k).accepted = (s.conn k).accepted := by
  unfold throwIn
  cases g.conn with
  | none => rfl
  | some k' =>
    exact @conn_setConn_congr _ { s with sendMutex := none } k'
      { s.conn k' with abandoned := true } Conn.accepted rfl k

end SocketClient

end Outmdsd
