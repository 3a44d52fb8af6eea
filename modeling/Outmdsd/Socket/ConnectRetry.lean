import Outmdsd.Socket.Send

/-!
# The retry loop of `Connect`

The attempts of one call of `Connect`, with the readings of the steady clock and the answers of the
operating system given in order. The elapsed time is narrowed to an `unsigned int`, so a check sees
it modulo `2 ^ 32` ms: it never sees the timeout too early (`timeout_le_elapsed`), and it sees it
as long as nothing is cut off (`timeout_le_runtime`). Where the threads of the client interleave,
this loop decides whether a failed attempt is made again.
-/

namespace Outmdsd

namespace SocketClient

/-- What `SetupSocketConnect` meets. -/
inductive SetupAnswer
  /-- Another thread has made a valid socket. -/
  | valid (fd : ℕ)
  | socketError (errnum : ℤ)
  | connectError (errnum : ℤ)
  | connected (fd : ℕ)
  deriving DecidableEq

/-- One turn of the loop: the flag `m_stopClient` at its test, and the attempt. -/
structure ConnectTurn where
  stop : Bool
  setup : SetupAnswer
  deriving DecidableEq

/-- What a call of `Connect` does. -/
inductive ConnectEvent
  /-- `m_numConnect++`, and `socket()`. -/
  | attempt
  /-- The elapsed time is compared with the timeout, at this reading of the clock. -/
  | check (now : ℤ)
  /-- `WaitBeforeReConnect(maxWaitMS)`, after `runtimeMS` of the timeout. -/
  | wait (runtimeMS maxWaitMS : UInt32)
  deriving DecidableEq

/-- How a call of `Connect` ends; `running` when the turns are used up. -/
inductive ConnectEnd
  | valid
  | stopped
  | timedOut
  | running
  deriving DecidableEq

/-- What a call of `Connect` leaves. -/
structure ConnectResult where
  ending : ConnectEnd
  sockfd : Option ℕ
  trace : List ConnectEvent
  deriving DecidableEq

/-- `GetRuntimeInMS`; the clock counts nanoseconds. -/
def getRuntimeInMS (startTime now : ℤ) : UInt32 :=
  UInt32.ofInt ((now - startTime).tdiv 1000000)

/-- `IsRetryTimeout` -/
def isRetryTimeout (connRetryTimeoutMS : UInt32) (startTime now : ℤ) : Bool :=
  connRetryTimeoutMS ≤ getRuntimeInMS startTime now

/-- `SetupSocketConnect`: the socket it leaves, or its exception. -/
def setupSocketConnect : SetupAnswer → List ConnectEvent × Except Exn ℕ
  | .valid fd => ([], .ok fd)
  | .socketError errnum =>
    ([.attempt], .error (.socketException errnum (lit "SocketClient socket()")))
  -- the new socket is closed again
  | .connectError errnum =>
    ([.attempt], .error (.socketException errnum (lit "SocketClient connect()")))
  | .connected fd => ([.attempt], .ok fd)

/-- The handler of the exception, from reading `n` of the clock on: whether the loop goes on. -/
def retry (connRetryTimeoutMS : UInt32) (clock : ℕ → ℤ) (n : ℕ) : List ConnectEvent × Bool :=
  let runtimeMS := getRuntimeInMS (clock 0) (clock n)
  if connRetryTimeoutMS ≤ runtimeMS then ([.check (clock n)], false)
  else
    ([.check (clock n), .wait runtimeMS (connRetryTimeoutMS - runtimeMS), .check (clock (n + 1))],
      !isRetryTimeout connRetryTimeoutMS (clock 0) (clock (n + 1)))

/-- The loop of `Connect`, from reading `n` of the clock on. -/
def connectLoop (connRetryTimeoutMS : UInt32) (clock : ℕ → ℤ) (n : ℕ) :
    List ConnectTurn → ConnectResult
  | [] => ⟨.running, none, []⟩
  | t :: ts =>
    if t.stop then ⟨.stopped, none, []⟩
    else match setupSocketConnect t.setup with
      | (es, .ok fd) => ⟨.valid, some fd, es⟩
      | (es, .error _) =>
        let h := retry connRetryTimeoutMS clock n
        if h.2 then
          let r := connectLoop connRetryTimeoutMS clock (n + 2) ts
          ⟨r.ending, r.sockfd, es ++ h.1 ++ r.trace⟩
        else ⟨.timedOut, none, es ++ h.1⟩

/-- `Connect`; `startTime` is the first reading of the clock. -/
def connect (connRetryTimeoutMS : UInt32) (clock : ℕ → ℤ) (sockfd : Option ℕ)
    (turns : List ConnectTurn) : ConnectResult :=
  if sockfd.isSome then ⟨.valid, sockfd, []⟩ else connectLoop connRetryTimeoutMS clock 1 turns

/-! ## The narrowed time -/

variable {connRetryTimeoutMS : UInt32} {startTime now : ℤ}

theorem toNat_getRuntimeInMS (h : startTime ≤ now) :
    ((getRuntimeInMS startTime now).toNat : ℤ) = (now - startTime) / 1000000 % 4294967296 := by
  have hd : (now - startTime).tdiv 1000000 = (now - startTime) / 1000000 :=
    Int.tdiv_eq_ediv_of_nonneg (by omega)
  have hm := Int.emod_nonneg ((now - startTime) / 1000000) (b := 4294967296) (by decide)
  rw [getRuntimeInMS, hd, UInt32.ofInt, UInt32.toNat_ofNat']
  simp only [Int.reducePow, Nat.reducePow]
  omega

/-- A check that stops the loop is not too early. -/
theorem timeout_le_elapsed (h : startTime ≤ now)
    (ht : connRetryTimeoutMS ≤ getRuntimeInMS startTime now) :
    connRetryTimeoutMS.toNat * 1000000 ≤ now - startTime := by
  have hr := toNat_getRuntimeInMS h
  have hle : connRetryTimeoutMS.toNat ≤ (getRuntimeInMS startTime now).toNat := ht
  omega

/-- A check sees the timeout while the elapsed time fits into an `unsigned int`. -/
theorem timeout_le_runtime (h : startTime ≤ now) (hlt : now - startTime < 4294967296 * 1000000)
    (ht : connRetryTimeoutMS.toNat * 1000000 ≤ now - startTime) :
    connRetryTimeoutMS ≤ getRuntimeInMS startTime now := by
  have hr := toNat_getRuntimeInMS h
  have hle : connRetryTimeoutMS.toNat ≤ (getRuntimeInMS startTime now).toNat := by omega
  exact hle

/-! ## The loop -/

/-- The readings of the clock do not decrease. -/
def NonDecreasing (clock : ℕ → ℤ) : Prop := ∀ m n, m ≤ n → clock m ≤ clock n

/-- A check that can see the timeout. -/
def Late (connRetryTimeoutMS : UInt32) (startTime now : ℤ) : Prop :=
  connRetryTimeoutMS.toNat * 1000000 ≤ now - startTime ∧ now - startTime < 4294967296 * 1000000

/-- The remaining wait is what it is meant to be. -/
def WaitOk (connRetryTimeoutMS : UInt32) : ConnectEvent → Prop
  | .wait runtimeMS maxWaitMS => runtimeMS < connRetryTimeoutMS ∧
      runtimeMS.toNat + maxWaitMS.toNat = connRetryTimeoutMS.toNat
  | _ => True

variable {clock : ℕ → ℤ} {n : ℕ}

theorem not_late (hclock : NonDecreasing clock)
    (h : ¬ connRetryTimeoutMS ≤ getRuntimeInMS (clock 0) (clock n)) :
    ¬ Late connRetryTimeoutMS (clock 0) (clock n) := fun hl =>
  h (timeout_le_runtime (hclock 0 n (Nat.zero_le n)) hl.2 hl.1)

/-- The exits of the handler. -/
theorem retry_cases (connRetryTimeoutMS : UInt32) (clock : ℕ → ℤ) (n : ℕ) :
    connRetryTimeoutMS ≤ getRuntimeInMS (clock 0) (clock n) ∧
      retry connRetryTimeoutMS clock n = ([.check (clock n)], false) ∨
    getRuntimeInMS (clock 0) (clock n) < connRetryTimeoutMS ∧
      retry connRetryTimeoutMS clock n =
        ([.check (clock n), .wait (getRuntimeInMS (clock 0) (clock n))
            (connRetryTimeoutMS - getRuntimeInMS (clock 0) (clock n)), .check (clock (n + 1))],
          !isRetryTimeout connRetryTimeoutMS (clock 0) (clock (n + 1))) := by
  by_cases h : connRetryTimeoutMS ≤ getRuntimeInMS (clock 0) (clock n)
  · exact .inl ⟨h, if_pos h⟩
  · exact .inr ⟨UInt32.not_le.mp h, if_neg h⟩

theorem waitOk_retry {e : ConnectEvent} (he : e ∈ (retry connRetryTimeoutMS clock n).1) :
    WaitOk connRetryTimeoutMS e ∧ e ≠ .attempt := by
  obtain ⟨-, h⟩ | ⟨hlt, h⟩ := retry_cases connRetryTimeoutMS clock n
  · rw [h] at he
    rw [List.mem_singleton.mp he]
    exact ⟨trivial, by simp⟩
  · rw [h] at he
    simp only [List.mem_cons, List.not_mem_nil, or_false] at he
    rcases he with rfl | rfl | rfl
    · exact ⟨trivial, by simp⟩
    · refine ⟨⟨hlt, ?_⟩, by simp⟩
      rw [UInt32.toNat_sub_of_le _ _ (UInt32.le_of_lt hlt)]
      exact Nat.add_sub_of_le (UInt32.le_iff_toNat_le.mp (UInt32.le_of_lt hlt))
    · exact ⟨trivial, by simp⟩

/-- The loop goes on after checks that did not see the timeout. -/
theorem not_late_of_retry (hclock : NonDecreasing clock)
    (hr : (retry connRetryTimeoutMS clock n).2 = true) {now : ℤ}
    (hn : .check now ∈ (retry connRetryTimeoutMS clock n).1) :
    ¬ Late connRetryTimeoutMS (clock 0) now := by
  obtain ⟨-, h⟩ | ⟨hlt, h⟩ := retry_cases connRetryTimeoutMS clock n
  · rw [h] at hr
    cases hr
  · rw [h] at hr hn
    simp only [List.mem_cons, ConnectEvent.check.injEq, List.not_mem_nil, or_false, reduceCtorEq,
      false_or] at hn
    simp only [isRetryTimeout, Bool.not_eq_true', decide_eq_false_iff_not] at hr
    rcases hn with rfl | rfl
    · exact not_late hclock (UInt32.not_le.mpr hlt)
    · exact not_late hclock hr

/-- The readings of the clock that the checks of a call are made at. -/
def readings (trace : List ConnectEvent) : List ℤ :=
  trace.filterMap fun
    | .check now => some now
    | _ => none

@[simp] theorem readings_append (l l' : List ConnectEvent) :
    readings (l ++ l') = readings l ++ readings l' :=
  List.filterMap_append

/-- A handler that goes on has made two checks, at the next two readings. -/
theorem readings_retry (hr : (retry connRetryTimeoutMS clock n).2 = true) :
    readings (retry connRetryTimeoutMS clock n).1 = (List.range' n 2).map clock := by
  obtain ⟨-, h⟩ | ⟨-, h⟩ := retry_cases connRetryTimeoutMS clock n
  · rw [h] at hr
    cases hr
  · rw [h]
    rfl

/-- The loop gives up at a check after the timeout, the last of the readings made. -/
theorem elapsed_of_retry (hclock : NonDecreasing clock)
    (hr : (retry connRetryTimeoutMS clock n).2 = false) :
    ∃ k, readings (retry connRetryTimeoutMS clock n).1 = (List.range' n (k + 1)).map clock ∧
      (retry connRetryTimeoutMS clock n).1.getLast? = some (.check (clock (n + k))) ∧
      connRetryTimeoutMS.toNat * 1000000 ≤ clock (n + k) - clock 0 := by
  obtain ⟨hle, h⟩ | ⟨hlt, h⟩ := retry_cases connRetryTimeoutMS clock n
  · exact ⟨0, by rw [h]; rfl, by rw [h]; rfl, timeout_le_elapsed (hclock 0 n (Nat.zero_le n)) hle⟩
  · rw [h] at hr
    simp only [isRetryTimeout, Bool.not_eq_false', decide_eq_true_eq] at hr
    exact ⟨1, by rw [h]; rfl, by rw [h]; rfl, timeout_le_elapsed (hclock 0 _ (Nat.zero_le _)) hr⟩

theorem eq_attempt_of_setup {o : SetupAnswer} {e : ConnectEvent}
    (he : e ∈ (setupSocketConnect o).1) : e = .attempt := by
  cases o with
  | valid fd => cases he
  | socketError | connectError | connected => exact List.mem_singleton.mp he

/-- A failed `SetupSocketConnect` has made its one attempt. -/
theorem setup_eq_attempt {o : SetupAnswer} {es : List ConnectEvent} {e : Exn}
    (h : setupSocketConnect o = (es, .error e)) : es = [.attempt] := by
  cases o <;> cases h <;> rfl

/-- An event `e'` that may come after `e`: no attempt after a check that can see the timeout. -/
def MayFollow (connRetryTimeoutMS : UInt32) (startTime : ℤ) (e e' : ConnectEvent) : Prop :=
  ∀ now, e = .check now → Late connRetryTimeoutMS startTime now → e' ≠ .attempt

/-- What a call of `Connect` keeps to, from reading `n` of the clock on. Each turn that is gone
through makes one attempt. -/
structure Budget (connRetryTimeoutMS : UInt32) (clock : ℕ → ℤ) (n : ℕ) (turns : List ConnectTurn)
    (r : ConnectResult) : Prop where
  valid : r.ending = .valid → r.sockfd.isSome
  stopped : r.ending = .stopped → ∃ t, turns[r.trace.count .attempt]? = some t ∧ t.stop = true
  timedOut : r.ending = .timedOut → ∃ k, readings r.trace = (List.range' n (k + 1)).map clock ∧
    r.trace.getLast? = some (.check (clock (n + k))) ∧
    connRetryTimeoutMS.toNat * 1000000 ≤ clock (n + k) - clock 0
  mayFollow : r.trace.Pairwise (MayFollow connRetryTimeoutMS (clock 0))
  wait : ∀ e ∈ r.trace, WaitOk connRetryTimeoutMS e

/-- Events without a late check can stand before any others. -/
theorem pairwise_append {l l' : List ConnectEvent}
    (h : ∀ now, .check now ∈ l → ¬ Late connRetryTimeoutMS startTime now)
    (h' : l'.Pairwise (MayFollow connRetryTimeoutMS startTime)) :
    (l ++ l').Pairwise (MayFollow connRetryTimeoutMS startTime) := by
  have hl : ∀ e ∈ l, ∀ e', MayFollow connRetryTimeoutMS startTime e e' :=
    fun e he e' now hc hlate => absurd hlate (h now (hc ▸ he))
  exact List.pairwise_append.mpr
    ⟨List.pairwise_of_forall_mem_list fun e he e' _ => hl e he e', h', fun e he e' _ => hl e he e'⟩

/-- **The loop keeps to its budget.** -/
theorem budget_connectLoop (hclock : NonDecreasing clock) (turns : List ConnectTurn) (n : ℕ) :
    Budget connRetryTimeoutMS clock n turns (connectLoop connRetryTimeoutMS clock n turns) := by
  induction turns generalizing n with
  | nil => constructor <;> simp [connectLoop]
  | cons t ts ih =>
    rw [connectLoop]
    split
    · rename_i hstop
      constructor <;> simp [hstop]
    have hes : ∀ e ∈ (setupSocketConnect t.setup).1, e = .attempt := fun e => eq_attempt_of_setup
    have hw : ∀ e ∈ (setupSocketConnect t.setup).1, WaitOk connRetryTimeoutMS e := fun e he =>
      hes e he ▸ trivial
    have hc : ∀ now, .check now ∈ (setupSocketConnect t.setup).1 →
        ¬ Late connRetryTimeoutMS (clock 0) now := fun now hm => by cases hes _ hm
    rcases hse : setupSocketConnect t.setup with ⟨es, _ | fd⟩
    · obtain rfl := setup_eq_attempt hse
      rw [hse] at hw hc
      simp only at hw hc ⊢
      split
      · -- the checks did not see the timeout
        rename_i hr
        have h := ih (n + 2)
        have hc' : ∀ now, .check now ∈ [.attempt] ++ (retry connRetryTimeoutMS clock n).1 →
            ¬ Late connRetryTimeoutMS (clock 0) now := fun now hm =>
          (List.mem_append.mp hm).elim (hc now) (not_late_of_retry hclock hr)
        refine ⟨h.valid, fun hs => ?_, fun ht => ?_, pairwise_append hc' h.mayFollow,
          fun e he => ?_⟩
        · obtain ⟨t', ht', hs'⟩ := h.stopped hs
          have hcount : (retry connRetryTimeoutMS clock n).1.count .attempt = 0 :=
            List.count_eq_zero.mpr fun he => (waitOk_retry he).2 rfl
          exact ⟨t', by simpa [hcount, Nat.add_comm 1] using ht', hs'⟩
        · obtain ⟨k, hk, hn, hle⟩ := h.timedOut ht
          have hnk : n + 2 + k = n + (2 + k) := Nat.add_assoc n 2 k
          rw [hnk] at hn hle
          refine ⟨2 + k, ?_, by rw [List.getLast?_append, hn, Option.some_or], hle⟩
          have hrange : List.range' n (2 + (k + 1)) =
              List.range' n 2 ++ List.range' (n + 2) (k + 1) :=
            List.range'_append_1.symm
          rw [readings_append, readings_append, readings_retry hr, hk, Nat.add_assoc 2, hrange,
            List.map_append]
          rfl
        · rcases List.mem_append.mp he with he | he
          · exact (List.mem_append.mp he).elim (hw e) fun he => (waitOk_retry he).1
          · exact h.wait e he
      · rename_i hr
        obtain ⟨k, hk, hn, hle⟩ := elapsed_of_retry hclock (by simpa using hr)
        refine ⟨by simp, by simp, fun _ => ⟨k, by simpa [readings] using hk, ?_, hle⟩,
          pairwise_append hc ?_, fun e he => ?_⟩
        · rw [List.getLast?_append, hn, Option.some_or]
        · exact List.pairwise_of_forall_mem_list fun e _ e' he' _ _ _ => (waitOk_retry he').2
        · exact (List.mem_append.mp he).elim (hw e) fun he => (waitOk_retry he).1
    · rw [hse] at hw hc
      exact ⟨fun _ => rfl, by simp, by simp, by simpa using pairwise_append hc .nil, hw⟩

theorem budget_connect (hclock : NonDecreasing clock) (connRetryTimeoutMS : UInt32)
    (sockfd : Option ℕ) (turns : List ConnectTurn) :
    Budget connRetryTimeoutMS clock 1 turns (connect connRetryTimeoutMS clock sockfd turns) := by
  unfold connect
  split
  · rename_i h
    exact ⟨fun _ => h, by simp, by simp, .nil, by simp⟩
  · exact budget_connectLoop hclock turns 1

/-- **The budget of `Connect`.** A call that returns without a valid socket was stopped at the turn
after its attempts, or ends with a check, at the last reading of the clock it made, at least
`connRetryTimeoutMS` after its start. No attempt comes after a check that reads an elapsed time from
the timeout on and below `2 ^ 32` ms. The remaining wait is the timeout less the elapsed time, which
is smaller. -/
theorem connect_budget (hclock : NonDecreasing clock) (connRetryTimeoutMS : UInt32)
    (sockfd : Option ℕ) (turns : List ConnectTurn) :
    let r := connect connRetryTimeoutMS clock sockfd turns
    (r.ending ≠ .running → r.sockfd = none →
      (∃ t, turns[r.trace.count .attempt]? = some t ∧ t.stop = true) ∨
      ∃ k, readings r.trace = (List.range' 1 k).map clock ∧
        r.trace.getLast? = some (.check (clock k)) ∧
        connRetryTimeoutMS.toNat * 1000000 ≤ clock k - clock 0) ∧
    (r.trace.Pairwise fun e e' => ∀ now, e = .check now →
      connRetryTimeoutMS.toNat * 1000000 ≤ now - clock 0 →
      now - clock 0 < 4294967296 * 1000000 → e' ≠ .attempt) ∧
    ∀ runtimeMS maxWaitMS, .wait runtimeMS maxWaitMS ∈ r.trace →
      runtimeMS < connRetryTimeoutMS ∧
        runtimeMS.toNat + maxWaitMS.toNat = connRetryTimeoutMS.toNat := by
  have hb := budget_connect hclock connRetryTimeoutMS sockfd turns
  refine ⟨fun hr hn => ?_, hb.mayFollow.imp fun h now he ht hlt => h now he ⟨ht, hlt⟩,
    fun runtimeMS maxWaitMS he => hb.wait _ he⟩
  cases he : (connect connRetryTimeoutMS clock sockfd turns).ending with
  | running => exact absurd he hr
  | valid => exact absurd (hb.valid he) (by simp [hn])
  | stopped => exact .inl (hb.stopped he)
  | timedOut =>
    obtain ⟨k, hk, hl, hle⟩ := hb.timedOut he
    rw [Nat.add_comm 1] at hl hle
    exact .inr ⟨k + 1, hk, hl, hle⟩

theorem connect_budget_timedOut :
    let clock : ℕ → ℤ := fun n => 4000000 * n
    let r := connect 10 clock none [⟨false, .socketError 97⟩, ⟨false, .connectError 2⟩]
    NonDecreasing clock ∧ r.ending = .timedOut ∧ ∃ k,
      readings r.trace = (List.range' 1 k).map clock ∧
      r.trace.getLast? = some (.check (clock k)) ∧
      (10 : UInt32).toNat * 1000000 ≤ clock k - clock 0 := by
  have hclock : NonDecreasing fun n : ℕ => 4000000 * (n : ℤ) := fun m n h => by
    simp only
    omega
  have h := (connect_budget hclock 10 none
    [⟨false, .socketError 97⟩, ⟨false, .connectError 2⟩]).1 (by decide) (by decide)
  exact ⟨hclock, by decide, h.resolve_left (by decide)⟩

end SocketClient

end Outmdsd
