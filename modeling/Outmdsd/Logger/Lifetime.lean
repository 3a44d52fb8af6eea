import Outmdsd.Logger.BufferedLogger
import Outmdsd.Socket.Interrupted

/-!
# The lifetime of a buffered logger

A `BufferedLogger` with its three workers, each at its own place in its loop and in its calls of
the socket client, and the thread that destroys it. The destructor stops the client, tells the
queue, the sender, the resender and the reader to stop, and then waits for the three tasks.

When it returns, no worker is left, no call of the client is in progress and no descriptor is open
(`destroyed_quiet`), whatever the workers were doing when it began.
-/

namespace Outmdsd

/-- The message of an item; an item with nothing but fields is composed under this schema. -/
def LogItem.message (l : LogItem) (schema : ℕ × Bytes) : Bytes :=
  if l.item.djsonData ≠ [] then l.item.djsonData
  else if l.item.schemaAndData ≠ [] then l.item.composeFullData.djsonData
  else (l.item.composeWith schema).djsonData

/-- Where `DataResender::Run` is. -/
inductive RunPc
  /-- Before the loop test. -/
  | test
  /-- In `WaitForNextResend`, before `m_timerMutex` is locked. -/
  | wait
  /-- In the wait, without the mutex. -/
  | asleep
  /-- Before the mutex is locked again. -/
  | woken (timedOut : Bool)
  /-- Before the second test of the flag. -/
  | testAgain
  /-- In `ResendOnce`. -/
  | round
  | ended
  deriving DecidableEq

/-- Where `DataReader::Run` is. -/
inductive ReadLoopPc
  /-- Before the first `InterruptPoint` of `DoRead`. -/
  | turn
  /-- In its call of `Read`. -/
  | read
  /-- `Read` has returned `n` bytes: before the second `InterruptPoint`. -/
  | got (n : ℕ)
  /-- In `ProcessData`, with at most `n` lines left. -/
  | process (n : ℕ)
  | ended
  deriving DecidableEq

/-- Where the thread that destroys the logger is. -/
inductive MainPc
  /-- The destructor has not begun. -/
  | inUse
  /-- In `m_sockClient->Stop()`. -/
  | stopClient
  | stopOnceEmpty
  | stopSender
  /-- In `m_dataResender->Stop()`, before `m_timerMutex` is locked. -/
  | lockTimer
  | setStopMe
  | notify
  | unlockTimer
  | stopRead
  /-- In `m_senderTask.get()`. -/
  | getSender
  | getResender
  | getReader
  | destroyed
  deriving DecidableEq

/-- How far the destructor is. -/
def MainPc.num : MainPc → ℕ
  | .inUse => 0
  | .stopClient => 1
  | .stopOnceEmpty => 2
  | .stopSender => 3
  | .lockTimer => 4
  | .setStopMe => 5
  | .notify => 6
  | .unlockTimer => 7
  | .stopRead => 8
  | .getSender => 9
  | .getResender => 10
  | .getReader => 11
  | .destroyed => 12

/-- The destructor holds `m_timerMutex`. -/
def MainPc.holdsTimer (pc : MainPc) : Bool := 5 ≤ pc.num && pc.num ≤ 7

/-- A step of the resender. -/
inductive ResenderAct
  | run
  /-- The wait ends at its timeout. -/
  | timeout
  /-- The wait ends for no reason. -/
  | spurious
  /-- A step of `ResendOnce` outside `Send`. -/
  | round (r : ResenderStep)
  /-- `SendItem` calls `Send` for an entry, composed under this schema if need be. -/
  | call (i : ℕ) (schema : ℕ × Bytes)
  /-- `Send` returns or throws: whether the server gets the message. -/
  | return (delivered : Bool)

/-- A step of the reader. -/
inductive ReaderAct
  | run
  /-- `ProcessData` goes on by a line. -/
  | line (e : DataReader.LineEvent)

/-- A logger, its client, and the threads at their places. Thread 0 of the client is the one that
destroys the logger, 1 the sender, 2 the resender and 3 the reader. -/
structure Lifetime where
  logger : BufferedLogger
  client : SocketClient
  /-- The entry for which the resender is in its call of `Send`. -/
  resending : Option ℕ
  stopMe : Bool
  stopRead : Bool
  run : RunPc
  reader : ReadLoopPc
  main : MainPc

namespace Lifetime

open BufferedLogger

/-- A step of the system. -/
inductive Label
  | caller (c : ℕ) (a : CallerStep)
  | main
  | sender (a : SenderStep)
  | resender (a : ResenderAct)
  | reader (a : ReaderAct)
  /-- A step of a call of the client. -/
  | client (τ : ℕ) (a : Act)
  | hangUp (k : ℕ)
  | tick (ns : ℕ)
  | otherSchema (svlist : List ItemInfo)

/-- A new logger. -/
def init (ackTimeoutMS bufferLimit : ℕ) (ids : IdMgr) : Lifetime where
  logger := .init ackTimeoutMS bufferLimit ids
  client := .init
  resending := none
  stopMe := false
  stopRead := false
  run := .test
  reader := .turn
  main := .inUse

/-- `m_dataResender` is not NULL. -/
def hasResender (s : Lifetime) : Bool := s.logger.sender.caching

/-- A step of `DataSender::Run`; its call of `Send` is made of steps of the client. -/
def senderStep (s : Lifetime) (a : SenderStep) : Option Lifetime :=
  match s.logger.sender.pc, a with
  | .send l, .run =>
    (s.logger.step (.sender .run)).map fun g =>
      { s with logger := g, client := s.client.begin 1 (.send (cStr l.item.djsonData)) }
  | .sending _, .send ok delivered =>
    match s.client.pc 1 with
    | .returned r =>
      if ok = decide (r = .done) then
        (s.logger.step (.sender (.send ok delivered))).map fun g => { s with logger := g }
      else none
    | _ => none
  | .send _, _ => none
  | .sending _, _ => none
  | _, a => (s.logger.step (.sender a)).map fun g => { s with logger := g }

/-- `m_timerMutex` is locked, and the wait tests the flag. -/
def timerTest (s : Lifetime) (timedOut : Bool) : Option Lifetime :=
  if s.main.holdsTimer then none
  else some { s with run := if s.stopMe || timedOut then .testAgain else .asleep }

/-- A step of `DataResender::Run` outside `ResendOnce`, or into it or out of it. -/
def runStep (s : Lifetime) : Option Lifetime :=
  match s.run with
  | .test => some { s with run := if s.stopMe then .ended else .wait }
  | .wait => s.timerTest false
  | .woken timedOut => s.timerTest timedOut
  | .testAgain =>
    if s.stopMe then some { s with run := .ended }
    else (s.logger.step (.backup (.resender .wake))).map fun g =>
      { s with logger := g, run := .round }
  | .round =>
    match s.logger.sender.backup.resender with
    | .wait => some { s with run := .test }
    | _ => none
  | .asleep | .ended => none

/-- A step of `ResendOnce` that is no call of `Send`. A `SendItem` without one is for a NULL
pointer, or `GetData` throws. -/
def inRound : ResenderStep → Bool
  | .wake => false
  | .send _ ok delivered => !ok && !delivered
  | _ => true

/-- A step of the resender. -/
def resenderStep (s : Lifetime) (a : ResenderAct) : Option Lifetime :=
  match a with
  | .run => s.runStep
  | .timeout => if s.run = .asleep then some { s with run := .woken true } else none
  | .spurious => if s.run = .asleep then some { s with run := .woken false } else none
  | .round r =>
    if s.run = .round ∧ s.resending = none ∧ inRound r then
      (s.logger.step (.backup (.resender r))).map fun g => { s with logger := g }
    else none
  | .call i schema =>
    match s.logger.sender.backup.resender with
    | .send cacheCopy =>
      match cacheCopy[i]? with
      | some (_, some l) =>
        if s.run = .round ∧ s.resending = none then
          some { s with
            client := s.client.begin 2 (.send (cStr (l.message schema)))
            resending := some i }
        else none
      | _ => none
    | _ => none
  | .return delivered =>
    match s.resending, s.client.pc 2 with
    | some i, .returned r =>
      (s.logger.step (.backup (.resender (.send i (decide (r = .done)) delivered)))).map fun g =>
        { s with logger := g, resending := none }
    | _, _ => none

/-- A step of `DataReader::Run`. -/
def readerStep (s : Lifetime) (a : ReaderAct) : Option Lifetime :=
  match s.reader, a with
  | .turn, .run =>
    some (if s.stopRead then { s with reader := .ended }
      else { s with client := s.client.begin 3 .read, reader := .read })
  | .read, .run =>
    match s.client.pc 3 with
    | .returned .stopped => some { s with reader := .ended }
    | .returned (.read (n + 1)) => some { s with reader := .got (n + 1) }
    | .returned _ => some { s with reader := .turn }
    | _ => none
  | .got n, .run => some { s with reader := if s.stopRead then .ended else .process n }
  | .process (n + 1), .line e =>
    (s.logger.step (.backup (.reader e))).map fun g => { s with logger := g, reader := .process n }
  | .process _, .run => some { s with reader := .turn }
  | _, _ => none

/-- A step of the destructor; a task that was not started is not waited for. -/
def mainStep (s : Lifetime) : Option Lifetime :=
  match s.main with
  | .inUse => some { s with client := s.client.begin 0 .stop, main := .stopClient }
  | .stopClient =>
    match s.client.pc 0 with
    | .returned _ => some { s with main := .stopOnceEmpty }
    | _ => none
  | .stopOnceEmpty =>
    some { s with
      logger := { s.logger with sender := { s.logger.sender with
        incomingQueue := s.logger.sender.incomingQueue.stop } }
      main := .stopSender }
  | .stopSender =>
    some { s with
      logger := { s.logger with sender := { s.logger.sender with stopSender := true } }
      main := if s.hasResender then .lockTimer else .stopRead }
  | .lockTimer => some { s with main := .setStopMe }
  | .setStopMe => some { s with stopMe := true, main := .notify }
  | .notify =>
    some { s with
      run := if s.run = .asleep then .woken false else s.run
      main := .unlockTimer }
  | .unlockTimer => some { s with main := .stopRead }
  | .stopRead => some { s with stopRead := true, main := .getSender }
  | .getSender =>
    if s.logger.started → s.logger.sender.pc.ready then some { s with main := .getResender }
    else none
  | .getResender =>
    if s.logger.started ∧ s.hasResender → s.run = .ended then some { s with main := .getReader }
    else none
  | .getReader =>
    if s.logger.started → s.reader = .ended then some { s with main := .destroyed } else none
  | .destroyed => none

/-- A step of the system. Nobody calls the logger once its destructor has begun. -/
def step (s : Lifetime) : Label → Option Lifetime
  | .caller c a =>
    if s.main = .inUse then (s.logger.step (.caller c a)).map fun g => { s with logger := g }
    else none
  | .main => s.mainStep
  | .sender a => if s.logger.started then s.senderStep a else none
  | .resender a => if s.logger.started && s.hasResender then s.resenderStep a else none
  | .reader a => if s.logger.started then s.readerStep a else none
  | .client τ a =>
    match a with
    | .begin _ => none
    | a => (s.client.step (.thread τ a)).map fun k => { s with client := k }
  | .hangUp k => (s.client.step (.hangUp k)).map fun k => { s with client := k }
  | .tick ns => (s.logger.step (.backup (.tick ns))).map fun g => { s with logger := g }
  | .otherSchema svlist => (s.logger.step (.otherSchema svlist)).map fun g => { s with logger := g }

variable {s s' : Lifetime} {l : Label}

/-! ## What a step does -/

/-- The steps of the system, by what they do. -/
inductive Move (s : Lifetime) : Label → Lifetime → Prop
  | caller {c : ℕ} {a : CallerStep} {g : BufferedLogger} (hm : s.main = .inUse)
      (hg : s.logger.step (.caller c a) = some g) : Move s (.caller c a) { s with logger := g }
  | destroy (hm : s.main = .inUse) :
    Move s .main { s with client := s.client.begin 0 .stop, main := .stopClient }
  | clientStopped {r : Outcome} (hm : s.main = .stopClient) (hr : s.client.pc 0 = .returned r) :
    Move s .main { s with main := .stopOnceEmpty }
  | stopOnceEmpty (hm : s.main = .stopOnceEmpty) :
    Move s .main { s with
      logger := { s.logger with sender := { s.logger.sender with
        incomingQueue := s.logger.sender.incomingQueue.stop } }
      main := .stopSender }
  | stopSender (hm : s.main = .stopSender) :
    Move s .main { s with
      logger := { s.logger with sender := { s.logger.sender with stopSender := true } }
      main := if s.hasResender then .lockTimer else .stopRead }
  | lockTimer (hm : s.main = .lockTimer) : Move s .main { s with main := .setStopMe }
  | setStopMe (hm : s.main = .setStopMe) :
    Move s .main { s with stopMe := true, main := .notify }
  | notify (hm : s.main = .notify) :
    Move s .main { s with
      run := if s.run = .asleep then .woken false else s.run
      main := .unlockTimer }
  | unlockTimer (hm : s.main = .unlockTimer) : Move s .main { s with main := .stopRead }
  | stopRead (hm : s.main = .stopRead) :
    Move s .main { s with stopRead := true, main := .getSender }
  | getSender (hm : s.main = .getSender) (h : s.logger.started → s.logger.sender.pc.ready) :
    Move s .main { s with main := .getResender }
  | getResender (hm : s.main = .getResender)
      (h : s.logger.started ∧ s.hasResender → s.run = .ended) :
    Move s .main { s with main := .getReader }
  | getReader (hm : s.main = .getReader) (h : s.logger.started → s.reader = .ended) :
    Move s .main { s with main := .destroyed }
  | sender {a : SenderStep} {g : BufferedLogger} (hpc : ∀ l, s.logger.sender.pc ≠ .send l)
      (hpc' : ∀ l, s.logger.sender.pc ≠ .sending l)
      (hg : s.logger.step (.sender a) = some g) : Move s (.sender a) { s with logger := g }
  | beginSend {l : LogItem} {g : BufferedLogger} (hpc : s.logger.sender.pc = .send l)
      (hg : s.logger.step (.sender .run) = some g) :
    Move s (.sender .run)
      { s with logger := g, client := s.client.begin 1 (.send (cStr l.item.djsonData)) }
  | endSend {l : LogItem} {r : Outcome} {delivered : Bool} {g : BufferedLogger}
      (hpc : s.logger.sender.pc = .sending l) (hr : s.client.pc 1 = .returned r)
      (hg : s.logger.step (.sender (.send (decide (r = .done)) delivered)) = some g) :
    Move s (.sender (.send (decide (r = .done)) delivered)) { s with logger := g }
  | runTest (hw : (s.logger.started && s.hasResender) = true) (hr : s.run = .test) :
    Move s (.resender .run) { s with run := if s.stopMe then .ended else .wait }
  | runWait {timedOut : Bool} (hw : (s.logger.started && s.hasResender) = true)
      (hr : s.run = .wait ∧ timedOut = false ∨ s.run = .woken timedOut)
      (hm : s.main.holdsTimer = false) :
    Move s (.resender .run)
      { s with run := if s.stopMe || timedOut then .testAgain else .asleep }
  | runStopped (hw : (s.logger.started && s.hasResender) = true) (hr : s.run = .testAgain)
      (hn : s.stopMe = true) : Move s (.resender .run) { s with run := .ended }
  | roundBegin {g : BufferedLogger} (hw : (s.logger.started && s.hasResender) = true)
      (hr : s.run = .testAgain) (hn : s.stopMe = false)
      (hg : s.logger.step (.backup (.resender .wake)) = some g) :
    Move s (.resender .run) { s with logger := g, run := .round }
  | roundEnd (hw : (s.logger.started && s.hasResender) = true) (hr : s.run = .round)
      (hb : s.logger.sender.backup.resender = .wait) :
    Move s (.resender .run) { s with run := .test }
  | awake {a : ResenderAct} (timedOut : Bool) (hw : (s.logger.started && s.hasResender) = true)
      (hr : s.run = .asleep) : Move s (.resender a) { s with run := .woken timedOut }
  | round {r : ResenderStep} {g : BufferedLogger}
      (hw : (s.logger.started && s.hasResender) = true) (hr : s.run = .round)
      (hn : s.resending = none) (hin : inRound r = true)
      (hg : s.logger.step (.backup (.resender r)) = some g) :
    Move s (.resender (.round r)) { s with logger := g }
  | beginResend {i : ℕ} {schema : ℕ × Bytes} {cacheCopy : List (Bytes × LogItemPtr)} {k : Bytes}
      {l : LogItem} (hw : (s.logger.started && s.hasResender) = true) (hr : s.run = .round)
      (hn : s.resending = none) (hb : s.logger.sender.backup.resender = .send cacheCopy)
      (hi : cacheCopy[i]? = some (k, some l)) :
    Move s (.resender (.call i schema)) { s with
      client := s.client.begin 2 (.send (cStr (l.message schema)))
      resending := some i }
  | endResend {i : ℕ} {r : Outcome} {delivered : Bool} {g : BufferedLogger}
      (hw : (s.logger.started && s.hasResender) = true) (hn : s.resending = some i)
      (hr : s.client.pc 2 = .returned r)
      (hg : s.logger.step (.backup (.resender (.send i (decide (r = .done)) delivered))) =
        some g) :
    Move s (.resender (.return delivered)) { s with logger := g, resending := none }
  | readStopped (hw : s.logger.started = true) (hr : s.reader = .turn) (hn : s.stopRead = true) :
    Move s (.reader .run) { s with reader := .ended }
  | beginRead (hw : s.logger.started = true) (hr : s.reader = .turn) (hn : s.stopRead = false) :
    Move s (.reader .run) { s with client := s.client.begin 3 .read, reader := .read }
  | endRead {r : Outcome} {pc : ReadLoopPc} (hw : s.logger.started = true) (hr : s.reader = .read)
      (hc : s.client.pc 3 = .returned r) (hp : pc = .turn ∨ pc = .ended ∨ ∃ n, pc = .got n) :
    Move s (.reader .run) { s with reader := pc }
  | got {n : ℕ} (hw : s.logger.started = true) (hr : s.reader = .got n) :
    Move s (.reader .run) { s with reader := if s.stopRead then .ended else .process n }
  | line {n : ℕ} {e : DataReader.LineEvent} {g : BufferedLogger} (hr : s.reader = .process (n + 1))
      (hg : s.logger.step (.backup (.reader e)) = some g) :
    Move s (.reader (.line e)) { s with logger := g, reader := .process n }
  | processed {n : ℕ} (hw : s.logger.started = true) (hr : s.reader = .process n) :
    Move s (.reader .run) { s with reader := .turn }
  | client {τ : ℕ} {a : Act} {k : SocketClient} (hb : SocketClient.Label.goesOn (.thread τ a))
      (hk : s.client.step (.thread τ a) = some k) : Move s (.client τ a) { s with client := k }
  | hangUp {n : ℕ} {k : SocketClient} (hk : s.client.step (.hangUp n) = some k) :
    Move s (.hangUp n) { s with client := k }
  | tick {ns : ℕ} {g : BufferedLogger} (hg : s.logger.step (.backup (.tick ns)) = some g) :
    Move s (.tick ns) { s with logger := g }
  | otherSchema {svlist : List ItemInfo} {g : BufferedLogger}
      (hg : s.logger.step (.otherSchema svlist) = some g) :
    Move s (.otherSchema svlist) { s with logger := g }

theorem mainMove (hs : s.mainStep = some s') : Move s .main s' := by
  unfold mainStep at hs
  split at hs
  case h_2 =>
    split at hs
    · cases hs
      exact .clientStopped ‹_› ‹_›
    · cases hs
  case h_10 =>
    split at hs
    · cases hs
      exact .getSender ‹_› ‹_›
    · cases hs
  case h_11 =>
    split at hs
    · cases hs
      exact .getResender ‹_› ‹_›
    · cases hs
  case h_12 =>
    split at hs
    · cases hs
      exact .getReader ‹_› ‹_›
    · cases hs
  case h_13 => cases hs
  all_goals
    cases hs
    constructor
    assumption

theorem senderMove {a : SenderStep} (hs : s.senderStep a = some s') : Move s (.sender a) s' := by
  unfold senderStep at hs
  split at hs
  · obtain ⟨g, hg, rfl⟩ := Option.map_eq_some_iff.mp hs
    exact .beginSend ‹_› hg
  · split at hs
    · rename_i hr
      split at hs
      · rename_i hok
        subst hok
        obtain ⟨g, hg, rfl⟩ := Option.map_eq_some_iff.mp hs
        exact .endSend ‹_› hr hg
      · cases hs
    · cases hs
  · cases hs
  · cases hs
  · rename_i h h' _ _
    obtain ⟨g, hg, rfl⟩ := Option.map_eq_some_iff.mp hs
    exact .sender h h' hg

theorem timerMove {timedOut : Bool} (hw : (s.logger.started && s.hasResender) = true)
    (hr : s.run = .wait ∧ timedOut = false ∨ s.run = .woken timedOut)
    (hs : s.timerTest timedOut = some s') : Move s (.resender .run) s' := by
  unfold timerTest at hs
  split at hs
  · cases hs
  · cases hs
    exact .runWait hw hr (Bool.eq_false_iff.mpr ‹_›)

theorem resenderMove {a : ResenderAct} (hw : (s.logger.started && s.hasResender) = true)
    (hs : s.resenderStep a = some s') : Move s (.resender a) s' := by
  unfold resenderStep at hs
  split at hs
  · unfold runStep at hs
    split at hs
    · cases hs
      exact .runTest hw ‹_›
    · exact timerMove hw (.inl ⟨‹_›, rfl⟩) hs
    · exact timerMove hw (.inr ‹_›) hs
    · split at hs
      · cases hs
        exact .runStopped hw ‹_› ‹_›
      · obtain ⟨g, hg, rfl⟩ := Option.map_eq_some_iff.mp hs
        exact .roundBegin hw ‹_› (Bool.eq_false_iff.mpr ‹_›) hg
    · split at hs
      · cases hs
        exact .roundEnd hw ‹_› ‹_›
      · cases hs
    · cases hs
    · cases hs
  · split at hs
    · cases hs
      exact .awake true hw ‹_›
    · cases hs
  · split at hs
    · cases hs
      exact .awake false hw ‹_›
    · cases hs
  · split at hs
    · rename_i h
      obtain ⟨g, hg, rfl⟩ := Option.map_eq_some_iff.mp hs
      exact .round hw h.1 h.2.1 h.2.2 hg
    · cases hs
  · split at hs
    · split at hs
      · split at hs
        · rename_i h
          cases hs
          exact .beginResend hw h.1 h.2 ‹_› ‹_›
        · cases hs
      · cases hs
    · cases hs
  · split at hs
    · obtain ⟨g, hg, rfl⟩ := Option.map_eq_some_iff.mp hs
      exact .endResend hw ‹_› ‹_› hg
    · cases hs

theorem readerMove {a : ReaderAct} (hw : s.logger.started = true) (hs : s.readerStep a = some s') :
    Move s (.reader a) s' := by
  unfold readerStep at hs
  split at hs
  · cases hs
    split
    · exact .readStopped hw ‹_› ‹_›
    · exact .beginRead hw ‹_› (Bool.eq_false_iff.mpr ‹_›)
  · split at hs
    · cases hs
      exact .endRead hw ‹_› ‹_› (.inr (.inl rfl))
    · cases hs
      exact .endRead hw ‹_› ‹_› (.inr (.inr ⟨_, rfl⟩))
    · cases hs
      exact .endRead hw ‹_› ‹_› (.inl rfl)
    · cases hs
  · cases hs
    exact .got hw ‹_›
  · obtain ⟨g, hg, rfl⟩ := Option.map_eq_some_iff.mp hs
    exact .line ‹_› hg
  · cases hs
    exact .processed hw ‹_›
  · cases hs

theorem move (hs : s.step l = some s') : Move s l s' := by
  unfold step at hs
  split at hs
  · split at hs
    · obtain ⟨g, hg, rfl⟩ := Option.map_eq_some_iff.mp hs
      exact .caller ‹_› hg
    · cases hs
  · exact mainMove hs
  · split at hs
    · exact senderMove hs
    · cases hs
  · split at hs
    · exact resenderMove ‹_› hs
    · cases hs
  · split at hs
    · exact readerMove ‹_› hs
    · cases hs
  · split at hs
    · cases hs
    · rename_i a hb
      obtain ⟨k, hk, rfl⟩ := Option.map_eq_some_iff.mp hs
      exact .client (SocketClient.Label.goesOn_thread hb) hk
  · obtain ⟨k, hk, rfl⟩ := Option.map_eq_some_iff.mp hs
    exact .hangUp hk
  · obtain ⟨g, hg, rfl⟩ := Option.map_eq_some_iff.mp hs
    exact .tick hg
  · obtain ⟨g, hg, rfl⟩ := Option.map_eq_some_iff.mp hs
    exact .otherSchema hg

/-! ## The sender and the callers -/

/-- The sender is in its call of `Send`. -/
def inSend : SenderPc → Bool
  | .sending _ => true
  | _ => false

/-- What a step of the sender leaves alone, and when it finds the queue drained. -/
structure SenderFrame (d d' : DataSender) : Prop where
  resender : d'.backup.resender = d.backup.resender
  caching : d'.caching = d.caching
  stopSender : d'.stopSender = d.stopSender
  stopOnceEmpty : d'.incomingQueue.stopOnceEmpty = d.incomingQueue.stopOnceEmpty
  drained : d'.pc = .drained →
    d'.incomingQueue.stopOnceEmpty = true ∧ d'.incomingQueue.dataQueue = []
  aborted : d'.pc = .aborted → d.pc = .drained ∧ d.incomingQueue.dataQueue ≠ []
  inSend : inSend d'.pc = true → ∃ l, d.pc = .send l
  cached : (∀ k, d.backup.dataCache.lookup k ≠ some none) →
    ∀ k, d'.backup.dataCache.lookup k ≠ some none

variable {d d' : DataSender}

theorem SenderFrame.setIds {pc : SenderPc} (hd : pc ≠ .drained) (ha : pc ≠ .aborted)
    (hs : Lifetime.inSend pc = false) (ids : IdMgr) :
    SenderFrame d ({ d with ids := ids }.setPc pc) :=
  ⟨rfl, rfl, rfl, rfl, fun h => absurd h hd, fun h => absurd h ha,
    fun h => absurd (hs.symm.trans h) (by decide), id⟩

theorem SenderFrame.setPc {pc : SenderPc} (hd : pc ≠ .drained) (ha : pc ≠ .aborted)
    (hs : Lifetime.inSend pc = false) : SenderFrame d (d.setPc pc) :=
  .setIds hd ha hs d.ids

theorem SenderFrame.interruptPoint {pc : SenderPc} (hd : pc ≠ .drained) (ha : pc ≠ .aborted)
    (hs : Lifetime.inSend pc = false) : SenderFrame d (d.interruptPoint pc) := by
  unfold DataSender.interruptPoint
  split
  · exact .setPc nofun nofun rfl
  · exact .setPc hd ha hs

/-- Where `GetData` leads. -/
theorem getDataStep_eq_setPc (d : DataSender) (l : LogItem) :
    ∃ pc, d.getDataStep l = d.setPc pc ∧
      (pc = .missed l ∨ (∃ l', pc = .send l') ∨ ∃ e, pc = .left e) := by
  unfold DataSender.getDataStep
  split
  · split
    · split
      · exact ⟨_, rfl, .inr (.inr ⟨_, rfl⟩)⟩
      · exact ⟨_, rfl, .inr (.inl ⟨_, rfl⟩)⟩
      · exact ⟨_, rfl, .inl rfl⟩
    · exact ⟨_, rfl, .inr (.inl ⟨_, rfl⟩)⟩
  · exact ⟨_, rfl, .inr (.inl ⟨_, rfl⟩)⟩

theorem insertStep_eq_setPc (d : DataSender) (l : LogItem) :
    ∃ ids pc, d.insertStep l = { d with ids := ids }.setPc pc ∧
      ((∃ l', pc = .send l') ∨ ∃ e, pc = .left e) := by
  unfold DataSender.insertStep
  split
  · exact ⟨d.ids, _, rfl, .inr ⟨_, rfl⟩⟩
  · exact ⟨_, _, rfl, .inl ⟨_, rfl⟩⟩

theorem senderFrame {a : SenderStep} (hd : d.senderStep a = some d') : SenderFrame d d' := by
  cases DataSender.runMove hd with
  | loop hpc => split <;> exact .setPc (by simp) (by simp) rfl
  | popEnd hpc hq =>
    obtain ⟨hq, hs, -⟩ := ConcurrentQueue.waitAndPop_eq_none hq
    exact ⟨rfl, rfl, rfl, rfl, fun _ => ⟨hs, hq⟩, (fun h => by cases h), (fun h => by cases h), id⟩
  | @pop x q hpc hq =>
    refine ⟨rfl, rfl, rfl, ?_, (fun h => by cases h), (fun h => by cases h),
      (fun h => by cases h), id⟩
    unfold ConcurrentQueue.waitAndPop at hq
    split at hq
    · cases hq
      rfl
    · split at hq <;> cases hq
  | drained hpc =>
    refine ⟨rfl, rfl, rfl, rfl, fun h => ?_, fun h => ⟨hpc, fun hq => ?_⟩, fun h => ?_, id⟩
    · dsimp [DataSender.setPc] at h
      split at h <;> cases h
    · simp [DataSender.setPc, hq] at h
    · dsimp [DataSender.setPc] at h
      split at h <;> cases h
  | popped | got | sent => exact .interruptPoint (by simp) (by simp) rfl
  | taken => split <;> exact .setPc (by simp) (by simp) rfl
  | add hpc ht =>
    refine ⟨rfl, rfl, rfl, rfl, (fun h => by cases h), (fun h => by cases h),
      (fun h => by cases h), fun h k hk => ?_⟩
    rcases lookup_insert_cases hk with ⟨-, he⟩ | ⟨-, hl⟩
    · cases he
    · exact h k hl
  | data =>
    obtain ⟨pc, he, rfl | ⟨l', rfl⟩ | ⟨e, rfl⟩⟩ := getDataStep_eq_setPc d ‹_› <;> rw [he]
    all_goals exact .setPc (by simp) (by simp) rfl
  | missed =>
    obtain ⟨ids, pc, he, ⟨l', rfl⟩ | ⟨e, rfl⟩⟩ := insertStep_eq_setPc d ‹_› <;> rw [he]
    all_goals exact .setIds (by simp) (by simp) rfl ids
  | send hpc =>
    exact ⟨rfl, rfl, rfl, rfl, (fun h => by cases h), (fun h => by cases h), fun _ => ⟨_, hpc⟩, id⟩
  | @sending l ok delivered hpc =>
    cases delivered <;>
      exact ⟨rfl, rfl, rfl, rfl, (fun h => by cases h), (fun h => by cases h),
        (fun h => by cases h), id⟩
  | addThrew | addedThrew | addedGone | added | getAgainThrew | getAgain | composed =>
    exact .setPc (by simp) (by simp) rfl

theorem started_of_sender {g g' : BufferedLogger} {a : SenderStep}
    (hg : g.step (.sender a) = some g') : g.started = true := by
  simp only [BufferedLogger.step] at hg
  split at hg
  · assumption
  · cases hg

theorem pc_of_backup {g g' : BufferedLogger} {bs : BackupStep}
    (hg : g.step (.backup bs) = some g') : g'.sender.pc = g.sender.pc := by
  obtain ⟨b, -, rfl⟩ := of_step_backup hg
  rfl

/-- What a caller leaves alone. -/
theorem caller_frame {g g' : BufferedLogger} {c : ℕ} {a : CallerStep}
    (hg : g.step (.caller c a) = some g') :
    g'.sender.pc = g.sender.pc ∧ g'.sender.backup = g.sender.backup ∧
      g'.sender.caching = g.sender.caching ∧ (g.started = true → g'.started = true) ∧
      (a ≠ .push → g'.sender.incomingQueue.dataQueue = g.sender.incomingQueue.dataQueue ∧
        (g.sender.incomingQueue.stopOnceEmpty = true →
          g'.sender.incomingQueue.stopOnceEmpty = true)) := by
  simp only [BufferedLogger.step, callerStep] at hg
  split at hg
  case h_8 => cases hg
  all_goals
    cases hg
    simp [BufferedLogger.setPc, BufferedLogger.push, ConcurrentQueue.stop]

/-! ## The client -/

/-- The thread is in a call of the client. -/
def inCall (s : Lifetime) : ℕ → Bool
  | 0 => s.main = .stopClient
  | 1 => inSend s.logger.sender.pc
  | 2 => s.resending.isSome
  | 3 => s.reader = .read
  | _ => false

/-- What the destructor has done to the client. -/
def StopDone (client : SocketClient) : MainPc → Prop
  | .inUse => True
  | .stopClient => client.StopOk (client.pc 0)
  | _ => client.Final

/-- The threads outside their calls have returned from them, and the client is stopped as far as the
destructor is. -/
structure ClientOk (s : Lifetime) : Prop where
  fds : s.client.FdInv
  held : s.client.Held
  sendHeld : s.client.SendHeld
  idle : ∀ τ, s.inCall τ = false → ∃ r, s.client.pc τ = .returned r
  stop : StopDone s.client s.main

theorem clientOk_init (ackTimeoutMS bufferLimit : ℕ) (ids : IdMgr) :
    (init ackTimeoutMS bufferLimit ids).ClientOk where
  fds := SocketClient.fdInv_init
  held := SocketClient.held_init
  sendHeld := SocketClient.sendHeld_init
  idle _ _ := ⟨.done, rfl⟩
  stop := trivial

/-- The four threads, and the others. -/
theorem forall_thread {P : ℕ → Prop} (h0 : P 0) (h1 : P 1) (h2 : P 2) (h3 : P 3)
    (h : ∀ n, P (n + 4)) : ∀ τ, P τ
  | 0 => h0
  | 1 => h1
  | 2 => h2
  | 3 => h3
  | n + 4 => h n

theorem begin_eq_step {k : SocketClient} {τ : ℕ} {r : Outcome} (h : k.pc τ = .returned r)
    (call : ApiCall) : k.step (.thread τ (.begin call)) = some (k.begin τ call) := by
  simp [SocketClient.step, SocketClient.threadStep, h]

/-- A thread that has returned stays there until it begins a call. -/
theorem returned_step {k k' : SocketClient} {cl : SocketClient.Label} {τ : ℕ} {r : Outcome}
    (h : k.pc τ = .returned r) (hb : cl.begins τ = false) (hk : k.step cl = some k') :
    k'.pc τ = .returned r := by
  cases cl with
  | hangUp n =>
    cases hk
    exact h
  | thread τ' a =>
    by_cases hne : τ = τ'
    · subst hne
      cases a with
      | begin call => simp [SocketClient.Label.begins] at hb
      | _ => simp [SocketClient.step, SocketClient.threadStep, h] at hk
    · exact ((SocketClient.stepOf_step hk).pc τ hne).trans h

theorem StopDone.step {k k' : SocketClient} {cl : SocketClient.Label} {pc : MainPc}
    (h : StopDone k pc) (hF : k.FdInv) (hH : k.Held) (hb : cl.begins 0 = false)
    (hk : k.step cl = some k') : StopDone k' pc := by
  cases pc with
  | inUse => trivial
  | stopClient => exact SocketClient.StopOk.step h hF hH hb hk
  | _ => exact SocketClient.Final.step h hk

/-- A step of the client, which begins no call of a thread outside one. -/
theorem ClientOk.clientStep (h : s.ClientOk) {cl : SocketClient.Label}
    (hk : s.client.step cl = some s'.client) (hb : cl.begins 0 = false) (hm : s'.main = s.main)
    (hidle : ∀ τ, s'.inCall τ = false → s.inCall τ = false ∧ cl.begins τ = false) :
    s'.ClientOk where
  fds := h.fds.step hk
  held := h.held.step hk
  sendHeld := h.sendHeld.step hk
  idle τ hτ := by
    obtain ⟨hi, hb⟩ := hidle τ hτ
    obtain ⟨r, hr⟩ := h.idle τ hi
    exact ⟨r, returned_step hr hb hk⟩
  stop := hm ▸ h.stop.step h.fds h.held hb hk

theorem ClientOk.final (h : s.ClientOk) (hm : 2 ≤ s.main.num) : s.client.Final := by
  have hs := h.stop
  cases hpc : s.main with
  | inUse | stopClient => simp [hpc, MainPc.num] at hm
  | _ =>
    rw [hpc] at hs
    exact hs

theorem ClientOk.returned_main (h : s.ClientOk) (hm : s.main ≠ .stopClient) :
    ∃ r, s.client.pc 0 = .returned r :=
  h.idle 0 (by simpa [inCall] using hm)

/-- The destructor goes on. -/
theorem ClientOk.setMain (h : s.ClientOk) (hf : s.client.Final)
    (hr : ∃ r, s.client.pc 0 = .returned r) {g : BufferedLogger}
    (hg : g.sender.pc = s.logger.sender.pc) {stopMe stopRead : Bool} {run : RunPc} {pc : MainPc}
    (hpc : 2 ≤ pc.num) :
    ClientOk { s with
      logger := g, stopMe := stopMe, stopRead := stopRead, run := run, main := pc } where
  fds := h.fds
  held := h.held
  sendHeld := h.sendHeld
  idle := forall_thread (fun _ => hr) (fun hi => h.idle 1 ((congrArg inSend hg).symm.trans hi))
    (h.idle 2) (h.idle 3) fun n => h.idle (n + 4)
  stop := by
    cases pc with
    | inUse | stopClient => simp [MainPc.num] at hpc
    | _ => exact hf

/-- The reader goes on outside the client. -/
theorem ClientOk.setReader (h : s.ClientOk) (hr : ∃ r, s.client.pc 3 = .returned r)
    (pc : ReadLoopPc) : ClientOk { s with reader := pc } where
  fds := h.fds
  held := h.held
  sendHeld := h.sendHeld
  idle := forall_thread (h.idle 0) (h.idle 1) (h.idle 2) (fun _ => hr) fun n => h.idle (n + 4)
  stop := h.stop

theorem ClientOk.returned_reader (h : s.ClientOk) (hr : s.reader ≠ .read) :
    ∃ r, s.client.pc 3 = .returned r :=
  h.idle 3 (by simpa [inCall] using hr)

/-- The parts of the state that have nothing to do with the client. -/
theorem ClientOk.other (h : s.ClientOk) {g : BufferedLogger}
    (hg : inSend g.sender.pc = inSend s.logger.sender.pc) (stopMe stopRead : Bool) (run : RunPc) :
    ClientOk { s with logger := g, stopMe := stopMe, stopRead := stopRead, run := run } :=
  ⟨h.fds, h.held, h.sendHeld, forall_thread (h.idle 0) (fun hi => h.idle 1 (hg.symm.trans hi))
    (h.idle 2) (h.idle 3) fun n => h.idle (n + 4), h.stop⟩

/-- The sender is not in its call before, nor after a step that does not begin one. -/
theorem inSend_of_sender {a : SenderStep} {g : BufferedLogger}
    (hpc : ∀ l, s.logger.sender.pc ≠ .send l) (hg : s.logger.step (.sender a) = some g) :
    inSend g.sender.pc = false := by
  obtain ⟨d, hd, rfl⟩ := of_step_sender hg
  by_contra hn
  obtain ⟨l, hl⟩ := (senderFrame hd).inSend (Bool.eq_true_of_not_eq_false hn)
  exact hpc l hl

theorem inSend_eq_false {pc : SenderPc} (h : ∀ l, pc ≠ .sending l) : inSend pc = false := by
  cases pc with
  | sending l => exact absurd rfl (h l)
  | _ => rfl

theorem ClientOk.step (h : s.ClientOk) (hs : s.step l = some s') : s'.ClientOk := by
  have hmain : 2 ≤ s.main.num → s.client.Final ∧ ∃ r, s.client.pc 0 = .returned r := fun hm =>
    ⟨h.final hm, h.returned_main fun he => by simp [he, MainPc.num] at hm⟩
  cases move hs with
  | caller hm hg =>
    exact h.other (congrArg inSend (caller_frame hg).1) s.stopMe s.stopRead s.run
  | destroy hm =>
    obtain ⟨r, hr⟩ := h.returned_main (by simp [hm])
    have hk := begin_eq_step hr .stop
    have hstay : ∀ {τ}, τ ≠ 0 → (s.inCall τ = false → ∃ r, s.client.pc τ = .returned r) →
        s.inCall τ = false → ∃ r, (s.client.begin 0 .stop).pc τ = .returned r := fun hτ hi hc => by
      obtain ⟨r', hr'⟩ := hi hc
      exact ⟨r', returned_step hr' (by simpa [SocketClient.Label.begins] using hτ.symm) hk⟩
    refine ⟨h.fds.step hk, h.held.step hk, h.sendHeld.step hk, ?_, ?_⟩
    · exact forall_thread (by simp [inCall]) (hstay (by decide) (h.idle 1))
        (hstay (by decide) (h.idle 2)) (hstay (by decide) (h.idle 3))
        fun n => hstay (by omega) (h.idle (n + 4))
    · simp [StopDone, SocketClient.begin, SocketClient.StopOk]
  | clientStopped hm hr =>
    refine h.setMain ?_ ⟨_, hr⟩ (by rfl) (by decide)
    have hs := h.stop
    rw [hm] at hs
    simpa [StopDone, hr, SocketClient.StopOk] using hs
  | stopSender hm =>
    obtain ⟨hf, hr⟩ := hmain (by rw [hm]; decide)
    refine h.setMain hf hr (by rfl) ?_
    split <;> decide
  | stopOnceEmpty hm | lockTimer hm | setStopMe hm | notify hm | unlockTimer hm | stopRead hm
  | getSender hm | getResender hm | getReader hm =>
    obtain ⟨hf, hr⟩ := hmain (by rw [hm]; decide)
    exact h.setMain hf hr (by rfl) (by decide)
  | sender hpc hpc' hg =>
    refine h.other ?_ s.stopMe s.stopRead s.run
    rw [inSend_of_sender hpc hg, inSend_eq_false hpc']
  | round hw hr hn hin hg | tick hg =>
    exact h.other (congrArg inSend (pc_of_backup hg)) s.stopMe s.stopRead s.run
  | otherSchema hg =>
    obtain ⟨ids, -, rfl⟩ := of_step_otherSchema hg
    exact h.other (by rfl) s.stopMe s.stopRead s.run
  | runTest hw hr | runWait hw hr hm | runStopped hw hr hn | roundEnd hw hr hb
  | awake timedOut hw hr =>
    exact h.other (by rfl) s.stopMe s.stopRead _
  | roundBegin hw hr hn hg =>
    exact h.other (congrArg inSend (pc_of_backup hg)) s.stopMe s.stopRead _
  | @beginSend l g hpc hg =>
    obtain ⟨r, hr⟩ := h.idle 1 (by simp [inCall, inSend, hpc])
    have hk := begin_eq_step hr (.send (cStr l.item.djsonData))
    have hin : inSend g.sender.pc = true := by
      obtain ⟨d, hd, rfl⟩ := of_step_sender hg
      rw [DataSender.senderStep_send hpc hd]
      rfl
    refine h.clientStep hk rfl rfl ?_
    exact forall_thread (fun hi => ⟨hi, rfl⟩) (fun hi => absurd (hin.symm.trans hi) (by decide))
      (fun hi => ⟨hi, rfl⟩) (fun hi => ⟨hi, rfl⟩)
      fun n hi => ⟨hi, by simp [SocketClient.Label.begins]⟩
  | @beginResend i schema cacheCopy k l hw hr hn hb hi =>
    obtain ⟨r, hr⟩ := h.idle 2 (by simp [inCall, hn])
    have hk := begin_eq_step hr (.send (cStr (l.message schema)))
    refine h.clientStep hk rfl rfl ?_
    exact forall_thread (fun hi => ⟨hi, rfl⟩) (fun hi => ⟨hi, rfl⟩) (fun hi => by cases hi)
      (fun hi => ⟨hi, rfl⟩) fun n hi => ⟨hi, by simp [SocketClient.Label.begins]⟩
  | beginRead hw hr hn =>
    obtain ⟨r, hr⟩ := h.returned_reader (by simp [hr])
    have hk := begin_eq_step hr .read
    refine h.clientStep hk rfl rfl ?_
    exact forall_thread (fun hi => ⟨hi, rfl⟩) (fun hi => ⟨hi, rfl⟩) (fun hi => ⟨hi, rfl⟩)
      (by simp [inCall]) fun n hi => ⟨hi, by simp [SocketClient.Label.begins]⟩
  | endSend hpc hr hg =>
    exact ⟨h.fds, h.held, h.sendHeld, forall_thread (h.idle 0) (fun _ => ⟨_, hr⟩) (h.idle 2)
      (h.idle 3) fun n => h.idle (n + 4), h.stop⟩
  | endResend hw hn hr hg =>
    obtain ⟨b, hb, rfl⟩ := of_step_backup hg
    exact ⟨h.fds, h.held, h.sendHeld, forall_thread (h.idle 0) (h.idle 1) (fun _ => ⟨_, hr⟩)
      (h.idle 3) fun n => h.idle (n + 4), h.stop⟩
  | endRead hw hr hc hp => exact h.setReader ⟨_, hc⟩ _
  | readStopped hw hr hn | got hw hr | processed hw hr =>
    exact h.setReader (h.returned_reader (by simp [hr])) _
  | line hr hg =>
    have ho := h.other (congrArg inSend (pc_of_backup hg)) s.stopMe s.stopRead s.run
    exact ho.setReader (h.returned_reader (by simp [hr])) _
  | client hb hk => exact h.clientStep hk (hb.begins 0) rfl fun τ hi => ⟨hi, hb.begins τ⟩
  | hangUp hk => exact h.clientStep hk rfl rfl fun τ hi => ⟨hi, rfl⟩

/-! ## The workers -/

/-- Where the workers are fits together. -/
structure WorkersOk (s : Lifetime) : Prop where
  resending : ∀ i, s.resending = some i → s.run = .round ∧ ∃ cacheCopy k l,
    s.logger.sender.backup.resender = .send cacheCopy ∧ cacheCopy[i]? = some (k, some l)
  outside : s.run ≠ .round → s.logger.sender.backup.resender = .wait
  noResender : (s.logger.started && s.hasResender) = false → s.run = .test
  notStarted : s.logger.started = false → inSend s.logger.sender.pc = false ∧ s.reader = .turn
  cached : ∀ k, s.logger.sender.backup.dataCache.lookup k ≠ some none

theorem workersOk_init (ackTimeoutMS bufferLimit : ℕ) (ids : IdMgr) :
    (init ackTimeoutMS bufferLimit ids).WorkersOk where
  resending := nofun
  outside _ := rfl
  noResender _ := rfl
  notStarted _ := ⟨rfl, rfl⟩
  cached k := by simp [init, BufferedLogger.init, DataSender.init, Backup.init]

/-- A cached pointer is not NULL. -/
theorem cached_backup {b b' : Backup} {bs : BackupStep} (h : ∀ k, b.dataCache.lookup k ≠ some none)
    (hb : b.step bs = some b') (k : Bytes) : b'.dataCache.lookup k ≠ some none := by
  rw [Backup.lookup_step hb]
  split
  · exact nofun
  · exact h k

/-- A step of the reader or of the clock leaves the resender alone. -/
theorem resender_backup {b b' : Backup} {bs : BackupStep} (hb : b.step bs = some b')
    (hr : ∀ r, bs ≠ .resender r) : b'.resender = b.resender := by
  cases bs with
  | resender r => exact absurd rfl (hr r)
  | reader e =>
    cases hb
    cases e <;> rfl
  | tick ns =>
    cases hb
    rfl

/-- The resender goes on outside `ResendOnce`. -/
theorem WorkersOk.setRun (h : s.WorkersOk) (pc : RunPc)
    (hb : s.logger.sender.backup.resender = .wait)
    (hw : (s.logger.started && s.hasResender) = false → pc = .test) :
    WorkersOk { s with run := pc } := by
  refine ⟨fun i hi => ?_, fun _ => hb, hw, h.notStarted, h.cached⟩
  obtain ⟨-, _, _, _, he, -⟩ := h.resending i hi
  rw [hb] at he
  cases he

/-- The backup cache and its resender have made a step. -/
theorem WorkersOk.backup (h : s.WorkersOk) {bs : BackupStep} {g : BufferedLogger}
    (hg : s.logger.step (.backup bs) = some g)
    (hr : s.run ≠ .round → g.sender.backup.resender = .wait)
    (hi : ∀ i, s.resending = some i →
      g.sender.backup.resender = s.logger.sender.backup.resender) :
    WorkersOk { s with logger := g } := by
  obtain ⟨b, hb, rfl⟩ := of_step_backup hg
  refine ⟨fun i he => ?_, hr, h.noResender, h.notStarted, cached_backup h.cached hb⟩
  obtain ⟨hrun, cacheCopy, k, l, hc, hl⟩ := h.resending i he
  exact ⟨hrun, cacheCopy, k, l, (hi i he).trans hc, hl⟩

theorem WorkersOk.readerBackup (h : s.WorkersOk) {bs : BackupStep} {g : BufferedLogger}
    (hg : s.logger.step (.backup bs) = some g) (hr : ∀ r, bs ≠ .resender r) :
    WorkersOk { s with logger := g } := by
  have hres : g.sender.backup.resender = s.logger.sender.backup.resender := by
    obtain ⟨b, hb, rfl⟩ := of_step_backup hg
    exact resender_backup hb hr
  exact h.backup hg (fun hrun => hres.trans (h.outside hrun)) fun _ _ => hres

theorem WorkersOk.setReader (h : s.WorkersOk) (hw : s.logger.started = true) (pc : ReadLoopPc) :
    WorkersOk { s with reader := pc } :=
  ⟨h.resending, h.outside, h.noResender, fun hn => absurd (hw.symm.trans hn) (by decide), h.cached⟩

/-- The sender has made a step. -/
theorem WorkersOk.sender (h : s.WorkersOk) {a : SenderStep} {g : BufferedLogger}
    (hg : s.logger.step (.sender a) = some g) : WorkersOk { s with logger := g } := by
  have hstarted := started_of_sender hg
  obtain ⟨d, hd, rfl⟩ := of_step_sender hg
  have hf := senderFrame hd
  refine ⟨fun i hi => hf.resender.symm ▸ h.resending i hi,
    fun hr => hf.resender.trans (h.outside hr), fun hw => h.noResender ?_,
    fun hs => absurd (hstarted.symm.trans hs) (by decide), hf.cached h.cached⟩
  have hc : s.hasResender = d.caching := hf.caching.symm
  rw [hc]
  exact hw

theorem WorkersOk.started (h : s.WorkersOk) (hr : s.reader ≠ .turn) : s.logger.started = true := by
  cases hs : s.logger.started with
  | true => rfl
  | false => exact absurd (h.notStarted hs).2 hr

theorem WorkersOk.step (h : s.WorkersOk) (hs : s.step l = some s') : s'.WorkersOk := by
  cases move hs with
  | @caller c a g hm hg =>
    obtain ⟨hpc, hb, hc, hst, -⟩ := caller_frame hg
    have hn : g.started = false → s.logger.started = false := fun hn => by
      cases hs : s.logger.started with
      | false => rfl
      | true => exact absurd ((hst hs).symm.trans hn) (by decide)
    refine ⟨fun i hi => ?_, fun hr => ?_, fun hw => h.noResender ?_,
      fun hw => hpc ▸ h.notStarted (hn hw), fun k => ?_⟩
    · exact hb ▸ h.resending i hi
    · exact hb ▸ h.outside hr
    · rcases Bool.and_eq_false_iff.mp hw with hw | hw
      · simp [hn hw]
      · have : s.hasResender = false := hc.symm.trans hw
        simp [this]
    · exact hb ▸ h.cached k
  | destroy | clientStopped | lockTimer | setStopMe | unlockTimer | stopRead | getSender
  | getResender | getReader | client | hangUp | stopSender | stopOnceEmpty =>
    exact ⟨h.resending, h.outside, h.noResender, h.notStarted, h.cached⟩
  | notify hm =>
    by_cases ha : s.run = .asleep
    · have hw := h.setRun (.woken false) (h.outside (by simp [ha])) fun hw =>
        absurd ((h.noResender hw).symm.trans ha) (by decide)
      rw [if_pos ha]
      exact ⟨hw.resending, hw.outside, hw.noResender, hw.notStarted, hw.cached⟩
    · rw [if_neg ha]
      exact ⟨h.resending, h.outside, h.noResender, h.notStarted, h.cached⟩
  | sender hpc hpc' hg => exact h.sender hg
  | endSend hpc hr hg => exact h.sender hg
  | beginSend hpc hg =>
    have hw := h.sender hg
    exact ⟨hw.resending, hw.outside, hw.noResender, hw.notStarted, hw.cached⟩
  | runTest hw hr | runStopped hw hr =>
    refine h.setRun _ (h.outside (by simp [hr])) fun hn => ?_
    rw [hw] at hn
    cases hn
  | runWait hw hr =>
    refine h.setRun _ (h.outside ?_) fun hn => absurd (hw.symm.trans hn) (by decide)
    rcases hr with ⟨hr, -⟩ | hr <;> simp [hr]
  | roundBegin hw hr hn hg =>
    obtain ⟨b, hb, rfl⟩ := of_step_backup hg
    refine ⟨fun i hi => ?_, fun hne => absurd rfl hne,
      fun hn => absurd (hw.symm.trans hn) (by decide), h.notStarted, cached_backup h.cached hb⟩
    obtain ⟨hrun, -⟩ := h.resending i hi
    rw [hr] at hrun
    cases hrun
  | roundEnd hw hr hb => exact h.setRun _ hb fun _ => rfl
  | awake timedOut hw hr =>
    exact h.setRun _ (h.outside (by simp [hr])) fun hn => absurd (hw.symm.trans hn) (by decide)
  | round hw hr hn hin hg =>
    exact h.backup hg (fun hne => absurd hr hne) fun i hi => by
      rw [hn] at hi
      cases hi
  | beginResend hw hr hn hb hi =>
    exact ⟨fun j hj => by cases hj; exact ⟨hr, _, _, _, hb, hi⟩, h.outside, h.noResender,
      h.notStarted, h.cached⟩
  | @endResend i r delivered g hw hn hr hg =>
    obtain ⟨hrun, -⟩ := h.resending i hn
    obtain ⟨b, hb, rfl⟩ := of_step_backup hg
    exact ⟨nofun, fun hne => absurd hrun hne, h.noResender, h.notStarted,
      cached_backup h.cached hb⟩
  | readStopped hw | endRead hw | got hw | processed hw => exact h.setReader hw _
  | beginRead hw =>
    have hr := h.setReader hw .read
    exact ⟨hr.resending, hr.outside, hr.noResender, hr.notStarted, hr.cached⟩
  | @line n e g hr hg =>
    have hw : g.started = true := by
      obtain ⟨b, hb, rfl⟩ := of_step_backup hg
      exact h.started (by simp [hr])
    exact (h.readerBackup hg nofun).setReader hw _
  | tick hg => exact h.readerBackup hg nofun
  | otherSchema hg =>
    obtain ⟨ids, -, rfl⟩ := of_step_otherSchema hg
    exact ⟨h.resending, h.outside, h.noResender, h.notStarted, h.cached⟩

/-! ## What the workers were told -/

/-- What holds once the destructor has got to its `n`th place. -/
def ToldAt (s : Lifetime) : ℕ → Prop
  | 3 => s.logger.sender.incomingQueue.stopOnceEmpty = true
  | 4 => s.logger.sender.stopSender = true
  | 6 => s.hasResender = true → s.stopMe = true
  -- nobody sleeps through the notification
  | 7 => s.run ≠ .asleep
  | 9 => s.stopRead = true
  | 10 => s.logger.started = true → s.logger.sender.pc.ready = true
  | 11 => (s.logger.started && s.hasResender) = true → s.run = .ended
  | 12 => s.logger.started = true → s.reader = .ended
  | _ => True

/-- The workers have been told to stop, as far as the destructor is. -/
def Told (s : Lifetime) : Prop := ∀ n ≤ s.main.num, s.ToldAt n

/-- A step that takes none of it back. -/
structure Keeps (s s' : Lifetime) : Prop where
  started : s'.logger.started = s.logger.started
  hasResender : s'.hasResender = s.hasResender
  stopOnceEmpty : s.logger.sender.incomingQueue.stopOnceEmpty = true →
    s'.logger.sender.incomingQueue.stopOnceEmpty = true
  stopSender : s.logger.sender.stopSender = true → s'.logger.sender.stopSender = true
  stopMe : s.stopMe = true → s'.stopMe = true
  stopRead : s.stopRead = true → s'.stopRead = true
  asleep : 7 ≤ s.main.num → s.run ≠ .asleep → s'.run ≠ .asleep
  ready : s.logger.sender.pc.ready = true → s'.logger.sender.pc.ready = true
  ended : s.run = .ended → s'.run = .ended
  reader : s.reader = .ended → s'.reader = .ended

theorem Keeps.toldAt (hk : s.Keeps s') {n : ℕ} (hn : n ≤ s.main.num) (ht : s.ToldAt n) :
    s'.ToldAt n := by
  unfold ToldAt at ht ⊢
  split at ht
  · exact hk.stopOnceEmpty ht
  · exact hk.stopSender ht
  · rw [hk.hasResender]
    exact fun hr => hk.stopMe (ht hr)
  · exact hk.asleep hn ht
  · exact hk.stopRead ht
  · exact fun hs => hk.ready (ht (hk.started ▸ hs))
  · rw [hk.started, hk.hasResender]
    exact fun hs => hk.ended (ht hs)
  · exact fun hs => hk.reader (ht (hk.started ▸ hs))
  · trivial

/-- A step of another thread. -/
theorem Told.keeps (h : s.Told) (hk : s.Keeps s') (hm : s'.main = s.main) : s'.Told :=
  fun n hn => hk.toldAt (hm ▸ hn) (h n (hm ▸ hn))

/-- The destructor goes on. -/
theorem Told.next (h : s.Told) (hk : s.Keeps s')
    (hnew : ∀ n, s.main.num < n → n ≤ s'.main.num → s'.ToldAt n) : s'.Told := fun n hn => by
  rcases Nat.lt_or_ge s.main.num n with hlt | hle
  · exact hnew n hlt hn
  · exact hk.toldAt hle (h n hle)

/-- The destructor goes on by one place. -/
theorem Told.succ (h : s.Told) (hk : s.Keeps s') {n : ℕ} (hn : s.main.num = n)
    (hn' : s'.main.num = n + 1) (hnew : s'.ToldAt (n + 1)) : s'.Told :=
  h.next hk fun m hlt hle => by
    obtain rfl : m = n + 1 := by omega
    exact hnew

/-- A sender that has left its loop makes no step. -/
theorem not_ready_of_step {a : SenderStep} (hd : d.senderStep a = some d') :
    d.pc.ready = false := by
  cases hpc : d.pc with
  | left e => simp [DataSender.senderStep, hpc] at hd
  | _ => rfl

theorem keeps_sender {a : SenderStep} {g : BufferedLogger} (hg : s.logger.step (.sender a) = some g)
    (client : SocketClient) : s.Keeps { s with logger := g, client := client } := by
  obtain ⟨d, hd, rfl⟩ := of_step_sender hg
  have hf := senderFrame hd
  exact ⟨rfl, hf.caching, hf.stopOnceEmpty.trans, hf.stopSender.trans, id, id, fun _ => id,
    fun hr => absurd (hr.symm.trans (not_ready_of_step hd)) (by decide), id, id⟩

theorem keeps_backup {bs : BackupStep} {g : BufferedLogger}
    (hg : s.logger.step (.backup bs) = some g) (resending : Option ℕ) :
    s.Keeps { s with logger := g, resending := resending } := by
  obtain ⟨b, hb, rfl⟩ := of_step_backup hg
  exact ⟨rfl, rfl, id, id, id, id, fun _ => id, id, id, id⟩

theorem keeps_client (s : Lifetime) (client : SocketClient) (resending : Option ℕ) (main : MainPc) :
    s.Keeps { s with client := client, resending := resending, main := main } :=
  ⟨rfl, rfl, id, id, id, id, fun _ => id, id, id, id⟩

theorem keeps_run (s : Lifetime) {pc : RunPc} (hr : s.run ≠ .ended)
    (ha : 7 ≤ s.main.num → pc ≠ .asleep) : s.Keeps { s with run := pc } :=
  ⟨rfl, rfl, id, id, id, id, fun hn _ => ha hn, id, fun he => absurd he hr, id⟩

theorem keeps_reader (s : Lifetime) (client : SocketClient) {pc : ReadLoopPc}
    (hr : s.reader ≠ .ended) : s.Keeps { s with client := client, reader := pc } :=
  ⟨rfl, rfl, id, id, id, id, fun _ => id, id, id, fun he => absurd he hr⟩

theorem Told.step (h : s.Told) (hw : s.WorkersOk) (hs : s.step l = some s') : s'.Told := by
  have hmain : ∀ {n} (pc : MainPc), s.main.num = n → pc.num = n + 1 →
      ToldAt { s with main := pc } (n + 1) → Told { s with main := pc } := fun pc hn hn' ht =>
    h.succ (keeps_client s s.client s.resending pc) hn hn' ht
  cases move hs with
  | @caller c a g hm hg =>
    intro n hn
    obtain rfl : n = 0 := by simpa [hm, MainPc.num] using hn
    trivial
  | destroy hm =>
    exact h.succ (keeps_client s _ s.resending _) (by rw [hm]; rfl) rfl trivial
  | clientStopped hm | lockTimer hm | unlockTimer hm =>
    exact hmain _ (by rw [hm]; rfl) rfl trivial
  | stopOnceEmpty hm =>
    exact h.succ ⟨rfl, rfl, fun _ => rfl, id, id, id, fun _ => id, id, id, id⟩ (by rw [hm]; rfl) rfl
      rfl
  | stopSender hm =>
    have hk : s.Keeps { s with
        logger := { s.logger with sender := { s.logger.sender with stopSender := true } }
        main := if s.hasResender then .lockTimer else .stopRead } :=
      ⟨rfl, rfl, id, fun _ => rfl, id, id, fun _ => id, id, id, id⟩
    refine h.next hk fun n hlt hle => ?_
    rw [hm] at hlt
    cases hres : s.hasResender with
    | true =>
      obtain rfl : n = 4 := by
        simp only [hres, if_true, MainPc.num] at hlt hle
        omega
      rfl
    | false =>
      -- there is no resender to tell, and none that sleeps
      have hrun : s.run ≠ .asleep := by
        rw [hw.noResender (by simp [hres])]
        exact nofun
      have hle8 : n ≤ 8 := by simpa [hres, MainPc.num] using hle
      have hno : ∀ b : Prop, s.hasResender = true → b := fun b hr =>
        absurd (hr.symm.trans hres) (by decide)
      obtain rfl | rfl | rfl | rfl | rfl : n = 4 ∨ n = 5 ∨ n = 6 ∨ n = 7 ∨ n = 8 := by
        simp only [MainPc.num] at hlt
        omega
      · rfl
      · trivial
      · exact hno _
      · exact hrun
      · trivial
  | setStopMe hm =>
    exact h.succ ⟨rfl, rfl, id, id, fun _ => rfl, id, fun _ => id, id, id, id⟩ (by rw [hm]; rfl) rfl
      fun _ => rfl
  | notify hm =>
    have hrun : (if s.run = .asleep then .woken false else s.run) ≠ RunPc.asleep := by
      split
      · exact nofun
      · assumption
    exact h.succ ⟨rfl, rfl, id, id, id, id, fun _ _ => hrun, id, fun he => by simp [he], id⟩
      (by rw [hm]; rfl) rfl hrun
  | stopRead hm =>
    exact h.succ ⟨rfl, rfl, id, id, id, fun _ => rfl, fun _ => id, id, id, id⟩ (by rw [hm]; rfl) rfl
      rfl
  | getSender hm hr => exact hmain _ (by rw [hm]; rfl) rfl hr
  | getResender hm hr =>
    exact hmain _ (by rw [hm]; rfl) rfl fun hs => hr (Bool.and_eq_true_iff.mp hs)
  | getReader hm hr => exact hmain _ (by rw [hm]; rfl) rfl hr
  | sender hpc hpc' hg => exact h.keeps (keeps_sender hg s.client) rfl
  | beginSend hpc hg => exact h.keeps (keeps_sender hg _) rfl
  | endSend hpc hr hg => exact h.keeps (keeps_sender hg s.client) rfl
  | beginResend | client | hangUp => exact h.keeps (keeps_client s _ _ s.main) rfl
  | round hw hr hn hin hg | tick hg => exact h.keeps (keeps_backup hg s.resending) rfl
  | endResend hw hn hr hg => exact h.keeps (keeps_backup hg none) rfl
  | runTest hw hr =>
    refine h.keeps (keeps_run s (by simp [hr]) fun _ => ?_) rfl
    split <;> exact nofun
  | runStopped hw hr | roundEnd hw hr | awake timedOut hw hr =>
    exact h.keeps (keeps_run s (by simp [hr]) fun _ => nofun) rfl
  | runWait hw hr hm =>
    refine h.keeps (keeps_run s ?_ fun hn => ?_) rfl
    · rcases hr with ⟨hr, -⟩ | hr <;> simp [hr]
    · -- the flag was set before the notification
      have hstop : s.stopMe = true := h 6 (by omega) (Bool.and_eq_true_iff.mp hw).2
      simp [hstop]
  | roundBegin hw hr hn hg =>
    obtain ⟨b, hb, rfl⟩ := of_step_backup hg
    exact h.keeps ⟨rfl, rfl, id, id, id, id, fun _ _ => nofun, id,
      fun he => absurd (hr.symm.trans he) (by decide), id⟩ rfl
  | readStopped hw hr | beginRead hw hr | endRead hw hr | got hw hr | processed hw hr =>
    exact h.keeps (keeps_reader s _ (by simp [hr])) rfl
  | line hr hg =>
    obtain ⟨b, hb, rfl⟩ := of_step_backup hg
    exact h.keeps ⟨rfl, rfl, id, id, id, id, fun _ => id, id, id, fun he => by simp [hr] at he⟩ rfl
  | otherSchema hg =>
    obtain ⟨ids, -, rfl⟩ := of_step_otherSchema hg
    exact h.keeps ⟨rfl, rfl, id, id, id, id, fun _ => id, id, id, id⟩ rfl

/-! ## After the destructor -/

/-- What holds in every reachable state. -/
structure Inv (s : Lifetime) : Prop where
  client : s.ClientOk
  workers : s.WorkersOk
  told : s.Told

theorem inv_of_reach {ackTimeoutMS bufferLimit : ℕ} {ids : IdMgr}
    (h : Reach step (fun _ _ => True) (init ackTimeoutMS bufferLimit ids) s) : s.Inv := by
  have h₀ : (init ackTimeoutMS bufferLimit ids).Told := fun n hn => by
    obtain rfl : n = 0 := Nat.le_zero.mp hn
    trivial
  exact h.invariant ⟨clientOk_init _ _ _, workersOk_init _ _ _, h₀⟩ fun t l t' ht _ hs =>
    ⟨ht.client.step hs, ht.workers.step hs, ht.told.step ht.workers hs⟩

theorem inSend_of_ready {pc : SenderPc} (h : pc.ready = true) : inSend pc = false :=
  inSend_eq_false fun l he => by
    rw [he] at h
    cases h

/-- When all are told and have ended, nobody is in a call. -/
theorem Inv.inCall_eq_false (h : s.Inv) (hm : s.main = .destroyed) :
    ∀ τ, s.inCall τ = false := by
  have htold : ∀ n ≤ 12, s.ToldAt n := fun n hn => h.told n (by rw [hm]; exact hn)
  have hw := h.workers
  refine forall_thread (by simp [inCall, hm]) ?_ ?_ ?_ fun n => rfl
  · -- the sender
    cases hst : s.logger.started with
    | true => exact inSend_of_ready (htold 10 (by decide) hst)
    | false => exact (hw.notStarted hst).1
  · -- the resender
    cases hr : s.resending with
    | none => simp [inCall, hr]
    | some i =>
      obtain ⟨hrun, -⟩ := hw.resending i hr
      cases hst : s.logger.started && s.hasResender with
      | true => exact absurd (hrun.symm.trans (htold 11 (by decide) hst)) (by decide)
      | false => exact absurd (hrun.symm.trans (hw.noResender hst)) (by decide)
  · -- the reader
    cases hst : s.logger.started with
    | true =>
      have hr : s.reader = .ended := htold 12 (by decide) hst
      simp [inCall, hr]
    | false => simp [inCall, (hw.notStarted hst).2]

/-- A step of a thread of the logger. -/
def Label.ofThread : Label → Bool
  | .main | .sender _ | .resender _ | .reader _ | .client _ _ | .caller _ _ => true
  | .hangUp _ | .tick _ | .otherSchema _ => false

/-- **Nothing outlives the logger.** When the destructor has returned, the workers that were
started have ended, no call of the client is in progress, no descriptor is open, and no thread of
the logger can make another step. -/
theorem destroyed_quiet {ackTimeoutMS bufferLimit : ℕ} {ids : IdMgr}
    (h : Reach step (fun _ _ => True) (init ackTimeoutMS bufferLimit ids) s)
    (hd : s.main = .destroyed) :
    (s.logger.started = true → s.logger.sender.pc.ready = true ∧ s.reader = .ended) ∧
      ((s.logger.started && s.hasResender) = true → s.run = .ended) ∧
      (∀ τ, ∃ r, s.client.pc τ = .returned r) ∧ (∀ fd, s.client.fds fd = none) ∧
      ∀ l, l.ofThread = true → s.step l = none := by
  have hinv := inv_of_reach h
  have hin := hinv.inCall_eq_false hd
  have htold : ∀ n ≤ 12, s.ToldAt n := fun n hn => hinv.told n (by rw [hd]; exact hn)
  have hsender : s.logger.started = true → s.logger.sender.pc.ready = true := htold 10 (by decide)
  have hresender : (s.logger.started && s.hasResender) = true → s.run = .ended :=
    htold 11 (by decide)
  have hreader : s.logger.started = true → s.reader = .ended := htold 12 (by decide)
  have hreturned : ∀ τ, ∃ r, s.client.pc τ = .returned r := fun τ => hinv.client.idle τ (hin τ)
  refine ⟨fun hs => ⟨hsender hs, hreader hs⟩, hresender, hreturned, fun fd => ?_, fun l hl => ?_⟩
  · have hf := hinv.client.final (by rw [hd]; decide)
    cases hfd : s.client.fds fd with
    | none => rfl
    | some k =>
      have := (hf.fds.isOpen fd k hfd).1
      rw [hf.closed] at this
      cases this
  · cases hs : s.step l with
    | none => rfl
    | some s' =>
      exfalso
      cases move hs with
      | caller hm | destroy hm | clientStopped hm | stopOnceEmpty hm | stopSender hm | lockTimer hm
      | setStopMe hm | notify hm | unlockTimer hm | stopRead hm | getSender hm | getResender hm
      | getReader hm =>
        rw [hd] at hm
        cases hm
      | sender _ _ hg | beginSend _ hg | endSend _ _ hg =>
        obtain ⟨d, hd', -⟩ := of_step_sender hg
        have hready := hsender (started_of_sender hg)
        exact absurd (hready.symm.trans (not_ready_of_step hd')) (by decide)
      | runTest hw hr | runStopped hw hr | roundBegin hw hr | roundEnd hw hr | awake _ hw hr
      | round hw hr | beginResend hw hr =>
        have he := hresender hw
        rw [hr] at he
        cases he
      | runWait hw hr =>
        have he := hresender hw
        rcases hr with ⟨hr, -⟩ | hr <;> simp [he] at hr
      | endResend hw hn => simpa [inCall, hn] using hin 2
      | readStopped hw hr | beginRead hw hr | endRead hw hr | got hw hr | processed hw hr =>
        have he := hreader hw
        rw [hr] at he
        cases he
      | line hr =>
        have he := hreader (hinv.workers.started (by simp [hr]))
        rw [hr] at he
        cases he
      | @client τ a k hb hk =>
        obtain ⟨r, hr⟩ := hreturned τ
        cases a with
        | begin call => exact hb
        | _ => simp [SocketClient.step, SocketClient.threadStep, hr] at hk
      | hangUp | tick | otherSchema => cases hl

/-- Steps of a call of the client. -/
def clientRuns (τ n : ℕ) : List Label := List.replicate n (.client τ .run)

/-- The sender polls in the middle of its call of `Send`, the resender sleeps and the reader waits
for a connection, when the destructor stops the client and tells them all. -/
def stoppingAll : List Label :=
  [.caller 0 (.addData (some (DataSender.textItem 1))), .caller 0 .startWorkers, .caller 0 .push,
    .resender .run, .resender .run, .reader .run, .client 3 .run] ++
    List.replicate 10 (.sender .run) ++ clientRuns 1 3 ++
    [.client 1 (.socket (some 3)), .client 1 (.connect true)] ++ clientRuns 1 6 ++ [.main] ++
    clientRuns 0 6 ++ List.replicate 8 .main

/-- The workers go on to their ends, and the destructor with them. -/
def endingAll : List Label :=
  [.client 1 (.poll (.hangUp 0)), .client 1 .run, .sender (.send false false), .sender .run,
    .resender .run, .resender .run] ++ clientRuns 3 2 ++ [.reader .run] ++ List.replicate 3 .main

/-- The three workers were started, and the destructor has returned. -/
theorem destroyed_quiet_started :
    ∃ s : Lifetime, (s.logger.started = true ∧ s.hasResender = true ∧ s.main = .destroyed) ∧
      ((s.logger.started = true → s.logger.sender.pc.ready = true ∧ s.reader = .ended) ∧
        ((s.logger.started && s.hasResender) = true → s.run = .ended) ∧
        (∀ τ, ∃ r, s.client.pc τ = .returned r) ∧ (∀ fd, s.client.fds fd = none) ∧
        ∀ l, l.ofThread = true → s.step l = none) := by
  obtain ⟨s, hs, ht⟩ : ∃ s, Reach step (fun _ _ => True) (init 1000 0 .empty) s ∧
      decide (s.logger.started = true ∧ s.hasResender = true ∧ s.main = .destroyed) = true :=
    @Reach.exists_of_exec _ _ step _ _ (fun _ _ => true) _ (stoppingAll ++ endingAll)
      (fun _ _ _ => trivial) (by decide) (by decide)
  have hd := of_decide_eq_true ht
  exact ⟨s, hd, destroyed_quiet hs hd.2.2⟩

end Lifetime

end Outmdsd
