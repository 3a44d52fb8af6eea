import Mathlib.Data.List.Perm.Basic
import Mathlib.Tactic.Simps.Basic
import Outmdsd.Cache.QueueHistory

/-!
# Wake-ups of the queue

The mutex and the condition variable of a `ConcurrentQueue`, and the threads that call it. A
consumer that waits releases the mutex; `notify_one` marks one waiting consumer, `notify_all` marks
all, and a consumer may also wake up for no reason. While somebody waits unmarked, the marked
consumers are enough for the elements, and nobody has called `stop_once_empty` (`no_lost_wakeup`);
after a call of `stop_once_empty` has returned, nobody waits unmarked (`stopped_of_returned`).
-/

namespace Outmdsd

namespace ConcurrentQueue

variable {α : Type*}

/-- The drop of the oldest element of a full queue, before a push. -/
def dropIfFull (q : ConcurrentQueue α) : ConcurrentQueue α :=
  if q.isFull then { q with dataQueue := q.dataQueue.tail } else q

/-- `data_queue.emplace` -/
def emplace (q : ConcurrentQueue α) (x : α) : ConcurrentQueue α :=
  { q with dataQueue := q.dataQueue ++ [x] }

theorem emplace_dropIfFull (q : ConcurrentQueue α) (x : α) : q.dropIfFull.emplace x = q.push x := by
  unfold dropIfFull emplace push
  split <;> rfl

namespace Monitor

/-- Where a thread is in `push`. -/
inductive PushPc
  | lock
  | drop
  | emplace
  | notify
  | unlock
  deriving DecidableEq

/-- Where a thread is in `wait_and_pop`. -/
inductive PopPc
  | lock
  /-- Before the test of the wait. -/
  | test
  /-- In the wait, without the mutex. -/
  | wait
  | take
  | unlock
  deriving DecidableEq

/-- Where a thread is in `try_pop`. -/
inductive TryPc
  | lock
  | take
  | unlock
  deriving DecidableEq

/-- Where a thread is in `stop_once_empty`. -/
inductive StopPc
  | lock
  | set
  | notify
  | unlock
  deriving DecidableEq

/-- Where a thread is. -/
inductive Pc (α : Type*)
  | idle
  | push (x : α) (k : PushPc)
  | pop (k : PopPc)
  | tryPop (k : TryPc)
  | stop (k : StopPc)

/-- The thread holds the mutex. -/
def Pc.holds : Pc α → Bool
  | .idle => false
  | .push _ k => k ≠ .lock
  | .pop k => k ≠ .lock && k ≠ .wait
  | .tryPop k => k ≠ .lock
  | .stop k => k ≠ .lock

/-- Where a call begins. -/
def entry : Call α → Pc α
  | .push x => .push x .lock
  | .waitAndPop | .waitAndPopInto _ => .pop .lock
  | .tryPop => .tryPop .lock
  | .stop => .stop .lock

end Monitor

open Monitor

/-- A queue with its mutex, the consumers that wait on its condition variable, those that were
notified and have not resumed, and its threads. -/
structure Monitor (α : Type*) where
  queue : ConcurrentQueue α
  mutex : Option ℕ
  waiting : List ℕ
  notified : List ℕ
  pc : ℕ → Pc α

namespace Monitor

/-- A step of the system. -/
inductive Label (α : Type*)
  | call (τ : ℕ) (c : Call α)
  | run (τ : ℕ)
  /-- `notify_one` of a producer marks a waiting consumer. -/
  | notifyOne (τ w : ℕ)
  /-- A waiting consumer wakes up for no reason. -/
  | spurious (w : ℕ)

def start (m : ℕ) : Monitor α := ⟨.new m, none, [], [], fun _ => .idle⟩

@[simps] def setPc (s : Monitor α) (τ : ℕ) (pc : Pc α) : Monitor α :=
  { s with pc := Function.update s.pc τ pc }

/-- A thread takes the mutex, if it is free. -/
def lock (s : Monitor α) (τ : ℕ) (pc : Pc α) : Option (Monitor α) :=
  if s.mutex = none then some ({ s with mutex := some τ }.setPc τ pc) else none

/-- A thread leaves with the mutex free. -/
def unlock (s : Monitor α) (τ : ℕ) : Monitor α := { s with mutex := none }.setPc τ .idle

/-- A step of `push`. -/
def pushStep (s : Monitor α) (τ : ℕ) (x : α) : PushPc → Option (Monitor α)
  | .lock => s.lock τ (.push x .drop)
  | .drop => some ({ s with queue := s.queue.dropIfFull }.setPc τ (.push x .emplace))
  | .emplace => some ({ s with queue := s.queue.emplace x }.setPc τ (.push x .notify))
  -- nobody waits
  | .notify => if s.waiting = [] then some (s.setPc τ (.push x .unlock)) else none
  | .unlock => some (s.unlock τ)

/-- A step of `wait_and_pop`. -/
def popStep (s : Monitor α) (τ : ℕ) : PopPc → Option (Monitor α)
  | .lock => s.lock τ (.pop .test)
  | .test =>
    some (if s.queue.dataQueue ≠ [] ∨ s.queue.stopOnceEmpty = true then s.setPc τ (.pop .take)
      else { s with mutex := none, waiting := s.waiting ++ [τ] }.setPc τ (.pop .wait))
  | .wait =>
    -- a notified consumer gets the mutex back
    if τ ∈ s.notified then { s with notified := s.notified.erase τ }.lock τ (.pop .test) else none
  | .take => some ({ s with queue := s.queue.tryPop.2 }.setPc τ (.pop .unlock))
  | .unlock => some (s.unlock τ)

/-- A step of `try_pop`. -/
def tryStep (s : Monitor α) (τ : ℕ) : TryPc → Option (Monitor α)
  | .lock => s.lock τ (.tryPop .take)
  | .take => some ({ s with queue := s.queue.tryPop.2 }.setPc τ (.tryPop .unlock))
  | .unlock => some (s.unlock τ)

/-- A step of `stop_once_empty`. -/
def stopStep (s : Monitor α) (τ : ℕ) : StopPc → Option (Monitor α)
  | .lock => s.lock τ (.stop .set)
  | .set => some ({ s with queue := s.queue.stop }.setPc τ (.stop .notify))
  | .notify =>
    some ({ s with waiting := [], notified := s.notified ++ s.waiting }.setPc τ (.stop .unlock))
  | .unlock => some (s.unlock τ)

/-- A step of a thread. -/
def runStep (s : Monitor α) (τ : ℕ) : Option (Monitor α) :=
  match s.pc τ with
  | .idle => none
  | .push x k => s.pushStep τ x k
  | .pop k => s.popStep τ k
  | .tryPop k => s.tryStep τ k
  | .stop k => s.stopStep τ k

/-- A step of the system. -/
def step (s : Monitor α) : Label α → Option (Monitor α)
  | .call τ c =>
    match s.pc τ with
    | .idle => some (s.setPc τ (entry c))
    | _ => none
  | .run τ => s.runStep τ
  | .notifyOne τ w =>
    match s.pc τ with
    | .push x .notify =>
      if w ∈ s.waiting then
        some ({ s with waiting := s.waiting.erase w, notified := s.notified ++ [w] }.setPc τ
          (.push x .unlock))
      else none
    | _ => none
  | .spurious w =>
    if w ∈ s.waiting then
      some ({ s with waiting := s.waiting.erase w }.setPc w (.pop .lock))
    else none

/-! ## The consumers that wait -/

variable {s s' : Monitor α} {τ w : ℕ} {pc : Pc α} {l : Label α} {n m : ℕ}

/-- The two lists hold the consumers in the wait, each once. -/
structure Sleepers (s : Monitor α) : Prop where
  nodup : (s.waiting ++ s.notified).Nodup
  mem : ∀ τ, τ ∈ s.waiting ++ s.notified ↔ s.pc τ = .pop .wait

/-- A step between two places outside the wait. -/
theorem Sleepers.move (h : s.Sleepers) (hw : s'.waiting = s.waiting)
    (hn : s'.notified = s.notified) (hpc : s'.pc = Function.update s.pc τ pc)
    (hold : s.pc τ ≠ .pop .wait) (hnew : pc ≠ .pop .wait) : s'.Sleepers := by
  refine ⟨by rw [hw, hn]; exact h.nodup, ?_⟩
  rw [hw, hn, hpc]
  refine (Function.forall_update_iff s.pc
    fun τ' pc => τ' ∈ s.waiting ++ s.notified ↔ pc = .pop .wait).mpr ⟨?_, fun τ' _ => h.mem τ'⟩
  exact iff_of_false (fun hm => hold ((h.mem τ).mp hm)) hnew

/-- A step that reorders the lists, of a thread outside the wait. -/
theorem Sleepers.perm (h : s.Sleepers)
    (hp : (s'.waiting ++ s'.notified).Perm (s.waiting ++ s.notified))
    (hpc : s'.pc = Function.update s.pc τ pc) (hold : s.pc τ ≠ .pop .wait)
    (hnew : pc ≠ .pop .wait) : s'.Sleepers := by
  obtain ⟨hnd, hmem⟩ : (s.setPc τ pc).Sleepers := h.move rfl rfl rfl hold hnew
  refine ⟨hp.nodup_iff.mpr hnd, fun τ' => ?_⟩
  rw [hp.mem_iff, hpc]
  exact hmem τ'

/-- A consumer begins to wait. -/
theorem Sleepers.wait (h : s.Sleepers)
    (hp : (s'.waiting ++ s'.notified).Perm (τ :: (s.waiting ++ s.notified)))
    (hpc : s'.pc = Function.update s.pc τ (.pop .wait)) (hold : s.pc τ ≠ .pop .wait) :
    s'.Sleepers := by
  have hnot : τ ∉ s.waiting ++ s.notified := fun hm => hold ((h.mem τ).mp hm)
  refine ⟨hp.nodup_iff.mpr (List.nodup_cons.mpr ⟨hnot, h.nodup⟩), ?_⟩
  rw [hpc]
  refine (Function.forall_update_iff s.pc
    fun τ' pc => τ' ∈ s'.waiting ++ s'.notified ↔ pc = .pop .wait).mpr
      ⟨by simp [hp.mem_iff], fun τ' hne => ?_⟩
  rw [hp.mem_iff, List.mem_cons, ← h.mem τ', or_iff_right hne]

/-- A consumer stops waiting. -/
theorem Sleepers.wake (h : s.Sleepers)
    (hp : (s.waiting ++ s.notified).Perm (τ :: (s'.waiting ++ s'.notified)))
    (hpc : s'.pc = Function.update s.pc τ pc) (hnew : pc ≠ .pop .wait) : s'.Sleepers := by
  obtain ⟨hnot, hnd⟩ := List.nodup_cons.mp (hp.nodup_iff.mp h.nodup)
  refine ⟨hnd, ?_⟩
  rw [hpc]
  refine (Function.forall_update_iff s.pc
    fun τ' pc => τ' ∈ s'.waiting ++ s'.notified ↔ pc = .pop .wait).mpr
      ⟨iff_of_false hnot hnew, fun τ' hne => ?_⟩
  rw [← h.mem τ', hp.mem_iff, List.mem_cons, or_iff_right hne]

theorem lock_eq_some (h : s.lock τ pc = some s') :
    s.mutex = none ∧ s' = { s with mutex := some τ }.setPc τ pc := by
  unfold lock at h
  split at h
  · cases h
    exact ⟨‹_›, rfl⟩
  · cases h

theorem sleepers_start (m : ℕ) : (start m : Monitor α).Sleepers :=
  ⟨by simp [start], by simp [start]⟩

theorem Sleepers.runStep (h : s.Sleepers) (hs : s.runStep τ = some s') : s'.Sleepers := by
  unfold Monitor.runStep at hs
  split at hs
  · cases hs
  · -- `push`
    rename_i x k hpc
    have hold : s.pc τ ≠ .pop .wait := by simp [hpc]
    cases k with
    | lock =>
      obtain ⟨-, rfl⟩ := lock_eq_some hs
      exact h.move rfl rfl rfl hold nofun
    | notify =>
      simp only [pushStep] at hs
      split at hs
      · cases hs
        exact h.move rfl rfl rfl hold nofun
      · cases hs
    | drop | emplace | unlock =>
      cases hs
      exact h.move rfl rfl rfl hold nofun
  · -- `wait_and_pop`
    rename_i k hpc
    cases k with
    | lock =>
      obtain ⟨-, rfl⟩ := lock_eq_some hs
      exact h.move rfl rfl rfl (by simp [hpc]) nofun
    | test =>
      cases hs
      split
      · exact h.move rfl rfl rfl (by simp [hpc]) nofun
      · refine h.wait ?_ rfl (by simp [hpc])
        simp only [setPc_waiting, setPc_notified, List.append_assoc, List.singleton_append]
        exact List.perm_middle
    | wait =>
      simp only [popStep] at hs
      split at hs
      · rename_i hm
        obtain ⟨-, rfl⟩ := lock_eq_some hs
        refine h.wake ?_ rfl nofun
        exact ((List.perm_cons_erase hm).append_left s.waiting).trans List.perm_middle
      · cases hs
    | take | unlock =>
      cases hs
      exact h.move rfl rfl rfl (by simp [hpc]) nofun
  · -- `try_pop`
    rename_i k hpc
    have hold : s.pc τ ≠ .pop .wait := by simp [hpc]
    cases k with
    | lock =>
      obtain ⟨-, rfl⟩ := lock_eq_some hs
      exact h.move rfl rfl rfl hold nofun
    | take | unlock =>
      cases hs
      exact h.move rfl rfl rfl hold nofun
  · -- `stop_once_empty`
    rename_i k hpc
    have hold : s.pc τ ≠ .pop .wait := by simp [hpc]
    cases k with
    | lock =>
      obtain ⟨-, rfl⟩ := lock_eq_some hs
      exact h.move rfl rfl rfl hold nofun
    | notify =>
      cases hs
      refine h.perm ?_ rfl hold nofun
      rw [setPc_waiting, setPc_notified, List.nil_append]
      exact List.perm_append_comm
    | set | unlock =>
      cases hs
      exact h.move rfl rfl rfl hold nofun

theorem entry_ne_wait (c : Call α) : entry c ≠ .pop .wait := by
  cases c <;> exact nofun

theorem Sleepers.step (h : s.Sleepers) (hs : s.step l = some s') : s'.Sleepers := by
  cases l with
  | call τ c =>
    simp only [Monitor.step] at hs
    split at hs
    · rename_i hpc
      cases hs
      exact h.move rfl rfl rfl (by simp [hpc]) (entry_ne_wait c)
    · cases hs
  | run τ => exact h.runStep hs
  | notifyOne τ w =>
    simp only [Monitor.step] at hs
    split at hs
    · rename_i x hpc
      split at hs
      · rename_i hm
        cases hs
        refine h.perm ?_ rfl (by simp [hpc]) nofun
        have hmark : (s.waiting.erase w ++ (s.notified ++ [w])).Perm
            (w :: (s.waiting.erase w ++ s.notified)) := by
          rw [← List.append_assoc]
          exact List.perm_append_comm
        exact hmark.trans ((List.perm_cons_erase hm).symm.append_right s.notified)
      · cases hs
    · cases hs
  | spurious w =>
    simp only [Monitor.step] at hs
    split at hs
    · rename_i hm
      cases hs
      refine h.wake ?_ rfl nofun
      exact (List.perm_cons_erase hm).append_right s.notified
    · cases hs

/-! ## The elements and the notified consumers -/

/-- While somebody waits, the notified consumers and `n` more are enough for the elements, and the
queue was not told to stop. -/
def Served (s : Monitor α) (n : ℕ) : Prop :=
  s.waiting ≠ [] →
    s.queue.dataQueue.length ≤ s.notified.length + n ∧ s.queue.stopOnceEmpty = false

/-- What the holder of the mutex relies on, or still owes. -/
def HolderOk (s : Monitor α) : Pc α → Prop
  -- an element for which nobody was notified yet
  | .push _ .notify => s.Served 1
  -- a consumer that was notified, and has not taken its element
  | .pop .test | .pop .take => s.Served 1
  -- told to stop, before the notification
  | .stop .notify => True
  | _ => s.Served 0

/-- The holder of the mutex is the only thread past its lock; a free mutex leaves nothing owed. -/
structure Inv (s : Monitor α) : Prop where
  owner : ∀ τ, (s.pc τ).holds = true → s.mutex = some τ
  holder : ∀ τ, (s.pc τ).holds = true → s.HolderOk (s.pc τ)
  free : s.mutex = none → s.Served 0

theorem Served.mono (h : s.Served n) (hnm : n ≤ m) : s.Served m := fun hw =>
  ⟨(h hw).1.trans (Nat.add_le_add_left hnm _), (h hw).2⟩

theorem served_of_nil (h : s.waiting = []) : s.Served n := fun hw => absurd h hw

theorem inv_start (m : ℕ) : (start m : Monitor α).Inv where
  owner := by simp [start, Pc.holds]
  holder := by simp [start, Pc.holds]
  free _ := served_of_nil rfl

theorem Inv.not_holds (h : s.Inv) (hm : s.mutex = none ∨ s.mutex = some τ) {τ' : ℕ}
    (hne : τ' ≠ τ) : (s.pc τ').holds = false := by
  by_contra hh
  rw [Bool.not_eq_false] at hh
  have he := h.owner τ' hh
  rcases hm with hn | hs
  · rw [hn] at he
    cases he
  · exact hne (Option.some.inj (he.symm.trans hs))

/-- The thread past its lock has the mutex, and what it relies on. -/
theorem Inv.own (h : s.Inv) (hpc : s.pc τ = pc) (hh : pc.holds = true) :
    s.mutex = some τ ∧ s.HolderOk pc := by
  subst hpc
  exact ⟨h.owner τ hh, h.holder τ hh⟩

/-- A step of the thread that has the mutex or takes it while it is free. -/
theorem Inv.change (h : s.Inv) (hm : s.mutex = none ∨ s.mutex = some τ)
    (hpc : s'.pc = Function.update s.pc τ pc) (hown : pc.holds = true → s'.mutex = some τ)
    (hok : pc.holds = true → s'.HolderOk pc) (hfree : s'.mutex = none → s'.Served 0) :
    s'.Inv := by
  refine ⟨?_, ?_, hfree⟩ <;> rw [hpc]
  · refine (Function.forall_update_iff s.pc
      fun τ' pc => pc.holds = true → s'.mutex = some τ').mpr ⟨hown, fun τ' hτ hh => ?_⟩
    rw [h.not_holds hm hτ] at hh
    cases hh
  · refine (Function.forall_update_iff s.pc
      fun _ pc => pc.holds = true → s'.HolderOk pc).mpr ⟨hok, fun τ' hτ hh => ?_⟩
    rw [h.not_holds hm hτ] at hh
    cases hh

/-- A step of a thread that does not have the mutex, which may take a consumer out of the wait. -/
theorem Inv.outside (h : s.Inv) (hm : s'.mutex = s.mutex)
    (hpc : s'.pc = Function.update s.pc τ pc) (hnew : pc.holds = false)
    (hq : s'.queue = s.queue) (hn : s'.notified = s.notified)
    (hw : s'.waiting ≠ [] → s.waiting ≠ []) : s'.Inv := by
  have hserved : ∀ n, s.Served n → s'.Served n := fun n hs hne => by
    rw [hq, hn]
    exact hs (hw hne)
  have hok : ∀ pc : Pc α, s.HolderOk pc → s'.HolderOk pc := fun pc hs => by
    unfold HolderOk at hs ⊢
    split <;> simp only [] at hs <;> first | exact hserved _ hs | trivial
  refine ⟨?_, ?_, fun hf => hserved 0 (h.free (hm.symm.trans hf))⟩ <;> rw [hpc]
  · refine (Function.forall_update_iff s.pc
      fun τ' pc => pc.holds = true → s'.mutex = some τ').mpr ⟨fun hh => ?_, fun τ' _ hh => ?_⟩
    · rw [hnew] at hh
      cases hh
    · exact hm.trans (h.owner τ' hh)
  · refine (Function.forall_update_iff s.pc
      fun _ pc => pc.holds = true → s'.HolderOk pc).mpr ⟨fun hh => ?_, fun τ' _ hh => ?_⟩
    · rw [hnew] at hh
      cases hh
    · exact hok _ (h.holder τ' hh)

/-- The thread goes on with the mutex. -/
theorem Inv.go (h : s.Inv) (hmx : s.mutex = some τ) (hm : s'.mutex = s.mutex)
    (hpc : s'.pc = Function.update s.pc τ pc) (hok : s'.HolderOk pc) : s'.Inv := by
  refine h.change (.inr hmx) hpc (fun _ => hm.trans hmx) (fun _ => hok) fun hn => ?_
  rw [hm, hmx] at hn
  cases hn

/-- The thread takes the mutex. -/
theorem Inv.lock (h : s.Inv) (hs : s.lock τ pc = some s')
    (hok : s.Served 0 → ({ s with mutex := some τ }.setPc τ pc).HolderOk pc) : s'.Inv := by
  obtain ⟨hm, rfl⟩ := lock_eq_some hs
  exact h.change (.inl hm) rfl (fun _ => rfl) (fun _ => hok (h.free hm)) nofun

/-- The thread frees the mutex. -/
theorem Inv.unlock (h : s.Inv) (hmx : s.mutex = some τ) (hok : s.Served 0) :
    (s.unlock τ).Inv :=
  h.change (.inr hmx) rfl nofun nofun fun _ => hok

theorem length_dropIfFull_le (q : ConcurrentQueue α) :
    q.dropIfFull.dataQueue.length ≤ q.dataQueue.length := by
  unfold dropIfFull
  split
  · simp
  · exact le_rfl

theorem stopOnceEmpty_dropIfFull (q : ConcurrentQueue α) :
    q.dropIfFull.stopOnceEmpty = q.stopOnceEmpty := by
  unfold dropIfFull
  split <;> rfl

/-- Taking an element leaves one less, if there was one. -/
theorem length_tryPop (q : ConcurrentQueue α) :
    q.tryPop.2.dataQueue.length = q.dataQueue.length - 1 := by
  unfold tryPop
  split
  · rename_i x xs hq
    simp [hq]
  · rename_i hq
    simp [hq]

theorem stopOnceEmpty_tryPop (q : ConcurrentQueue α) :
    q.tryPop.2.stopOnceEmpty = q.stopOnceEmpty := by
  unfold tryPop
  split <;> rfl

theorem Inv.pushStep (h : s.Inv) {x : α} {k : PushPc} (hpc : s.pc τ = .push x k)
    (hs : s.pushStep τ x k = some s') : s'.Inv := by
  cases k with
  | lock => exact h.lock hs fun hf => hf
  | drop =>
    obtain ⟨hmx, hok⟩ := h.own hpc rfl
    cases hs
    refine h.go hmx rfl rfl fun hw => ?_
    obtain ⟨hl, hstop⟩ := hok hw
    exact ⟨(length_dropIfFull_le s.queue).trans hl, (stopOnceEmpty_dropIfFull s.queue).trans hstop⟩
  | emplace =>
    obtain ⟨hmx, hok⟩ := h.own hpc rfl
    cases hs
    refine h.go hmx rfl rfl fun hw => ?_
    obtain ⟨hl, hstop⟩ := hok hw
    refine ⟨?_, hstop⟩
    simpa [ConcurrentQueue.emplace] using hl
  | notify =>
    obtain ⟨hmx, -⟩ := h.own hpc rfl
    simp only [Monitor.pushStep] at hs
    split at hs
    · rename_i hw
      cases hs
      exact h.go hmx rfl rfl (served_of_nil hw)
    · cases hs
  | unlock =>
    obtain ⟨hmx, hok⟩ := h.own hpc rfl
    cases hs
    exact h.unlock hmx hok

/-- A consumer takes an element, or there is none. -/
theorem Served.tryPop (h : s.Served 1) :
    ({ s with queue := s.queue.tryPop.2 } : Monitor α).Served 0 := fun hw => by
  obtain ⟨hl, hstop⟩ := h hw
  refine ⟨?_, (stopOnceEmpty_tryPop s.queue).trans hstop⟩
  have := length_tryPop s.queue
  change s.queue.tryPop.2.dataQueue.length ≤ s.notified.length + 0
  omega

theorem Inv.popStep (h : s.Inv) {k : PopPc} (hpc : s.pc τ = .pop k)
    (hs : s.popStep τ k = some s') : s'.Inv := by
  cases k with
  | lock => exact h.lock hs fun hf => hf.mono (Nat.zero_le 1)
  | test =>
    obtain ⟨hmx, hok⟩ := h.own hpc rfl
    cases hs
    split
    · exact h.go hmx rfl rfl hok
    · -- it finds the queue empty, and not told to stop
      rename_i ht
      rw [not_or, not_not, Bool.not_eq_true] at ht
      refine h.change (.inr hmx) rfl nofun nofun fun _ _ => ⟨?_, ht.2⟩
      rw [setPc_queue, ht.1]
      exact Nat.zero_le _
  | wait =>
    simp only [Monitor.popStep] at hs
    split at hs
    · rename_i hm
      obtain ⟨hmx, rfl⟩ := lock_eq_some hs
      refine h.change (.inl hmx) rfl (fun _ => rfl) (fun _ hw => ?_) nofun
      obtain ⟨hl, hstop⟩ := h.free hmx hw
      refine ⟨?_, hstop⟩
      have := List.length_erase_add_one hm
      change s.queue.dataQueue.length ≤ (s.notified.erase τ).length + 1
      omega
    · cases hs
  | take =>
    obtain ⟨hmx, hok⟩ := h.own hpc rfl
    cases hs
    exact h.go hmx rfl rfl (Served.tryPop hok)
  | unlock =>
    obtain ⟨hmx, hok⟩ := h.own hpc rfl
    cases hs
    exact h.unlock hmx hok

theorem Inv.tryStep (h : s.Inv) {k : TryPc} (hpc : s.pc τ = .tryPop k)
    (hs : s.tryStep τ k = some s') : s'.Inv := by
  cases k with
  | lock => exact h.lock hs fun hf => hf
  | take =>
    obtain ⟨hmx, hok⟩ := h.own hpc rfl
    cases hs
    have hserved : s.Served 0 := hok
    exact h.go hmx rfl rfl (hserved.mono (Nat.zero_le 1)).tryPop
  | unlock =>
    obtain ⟨hmx, hok⟩ := h.own hpc rfl
    cases hs
    exact h.unlock hmx hok

theorem Inv.stopStep (h : s.Inv) {k : StopPc} (hpc : s.pc τ = .stop k)
    (hs : s.stopStep τ k = some s') : s'.Inv := by
  cases k with
  | lock => exact h.lock hs fun hf => hf
  | set =>
    obtain ⟨hmx, -⟩ := h.own hpc rfl
    cases hs
    exact h.go hmx rfl rfl trivial
  | notify =>
    obtain ⟨hmx, -⟩ := h.own hpc rfl
    cases hs
    exact h.go hmx rfl rfl (served_of_nil rfl)
  | unlock =>
    obtain ⟨hmx, hok⟩ := h.own hpc rfl
    cases hs
    exact h.unlock hmx hok

theorem holds_entry (c : Call α) : (entry c).holds = false := by
  cases c <;> rfl

/-- **Every step keeps the account.** -/
theorem Inv.step (h : s.Inv) (hs : s.step l = some s') : s'.Inv := by
  cases l with
  | call τ c =>
    simp only [Monitor.step] at hs
    split at hs
    · cases hs
      exact h.outside rfl rfl (holds_entry c) rfl rfl id
    · cases hs
  | run τ =>
    simp only [Monitor.step, runStep] at hs
    split at hs
    · cases hs
    · exact h.pushStep ‹_› hs
    · exact h.popStep ‹_› hs
    · exact h.tryStep ‹_› hs
    · exact h.stopStep ‹_› hs
  | notifyOne τ w =>
    simp only [Monitor.step] at hs
    split at hs
    · rename_i x hpc
      split at hs
      · rename_i hm
        obtain ⟨hmx, hok⟩ := h.own hpc rfl
        cases hs
        refine h.go hmx rfl rfl fun _ => ?_
        obtain ⟨hl, hstop⟩ := hok (List.ne_nil_of_mem hm)
        refine ⟨?_, hstop⟩
        simpa using hl
      · cases hs
    · cases hs
  | spurious w =>
    simp only [Monitor.step] at hs
    split at hs
    · rename_i hm
      cases hs
      exact h.outside rfl rfl rfl rfl rfl fun _ => List.ne_nil_of_mem hm
    · cases hs

/-- **No wake-up is lost.** While the mutex is free and a consumer waits that was not notified, the
notified consumers are enough for the elements, and the queue was not told to stop. The two lists
are the consumers in the wait, each once. -/
theorem no_lost_wakeup (hr : Reach step (fun _ _ => True) (start m : Monitor α) s)
    (hfree : s.mutex = none) (hw : τ ∈ s.waiting) :
    s.queue.dataQueue.length ≤ s.notified.length ∧ s.queue.stopOnceEmpty = false ∧
      (s.waiting ++ s.notified).Nodup ∧
      ∀ τ', τ' ∈ s.waiting ++ s.notified ↔ s.pc τ' = .pop .wait := by
  have hI : s.Inv := hr.invariant (inv_start m) fun _ _ _ hI _ hs => hI.step hs
  have hS : s.Sleepers := hr.invariant (sleepers_start m) fun _ _ _ hS _ hs => hS.step hs
  obtain ⟨hl, hstop⟩ := hI.free hfree (List.ne_nil_of_mem hw)
  exact ⟨hl, hstop, hS.nodup, hS.mem⟩

/-- Two consumers wait, and an element is pushed: one of them is notified. -/
theorem no_lost_wakeup_two_consumers :
    ∃ s : Monitor ℕ, (s.waiting = [1] ∧ s.notified = [0]) ∧ s.queue.dataQueue.length = 1 ∧
      s.queue.dataQueue.length ≤ s.notified.length := by
  obtain ⟨s, hr, ht⟩ : ∃ s, Reach step (fun _ _ => True) (start 0 : Monitor ℕ) s ∧
      decide ((s.waiting = [1] ∧ s.notified = [0]) ∧ s.queue.dataQueue.length = 1 ∧
        s.mutex = none) = true :=
    @Reach.exists_of_exec _ _ step _ _ (fun _ _ => true) _
      [.call 0 .waitAndPop, .run 0, .run 0, .call 1 .waitAndPop, .run 1, .run 1, .call 2 (.push 7),
        .run 2, .run 2, .run 2, .notifyOne 2 0, .run 2]
      (fun _ _ _ => trivial) (by decide) (by decide)
  obtain ⟨hw, hlen, hfree⟩ := of_decide_eq_true ht
  exact ⟨s, hw, hlen, (no_lost_wakeup hr hfree (by simp [hw.1] : 1 ∈ s.waiting)).1⟩

/-! ## After the queue was told to stop -/

/-- The step of a thread moves no other thread, and takes back no stop. -/
theorem runStep_frame (hs : s.runStep τ = some s') :
    (∀ τ', τ' ≠ τ → s'.pc τ' = s.pc τ') ∧
      (s.queue.stopOnceEmpty = true → s'.queue.stopOnceEmpty = true) := by
  have hpc : ∀ {pc : Pc α} {τ'}, τ' ≠ τ → Function.update s.pc τ pc τ' = s.pc τ' :=
    fun hne => Function.update_of_ne hne _ _
  unfold Monitor.runStep at hs
  split at hs
  · cases hs
  · rename_i x k _
    cases k with
    | lock =>
      obtain ⟨-, rfl⟩ := lock_eq_some hs
      exact ⟨fun _ => hpc, id⟩
    | drop =>
      cases hs
      exact ⟨fun _ => hpc, (stopOnceEmpty_dropIfFull s.queue).trans⟩
    | notify =>
      simp only [pushStep] at hs
      split at hs
      · cases hs
        exact ⟨fun _ => hpc, id⟩
      · cases hs
    | emplace | unlock =>
      cases hs
      exact ⟨fun _ => hpc, id⟩
  · rename_i k _
    cases k with
    | lock =>
      obtain ⟨-, rfl⟩ := lock_eq_some hs
      exact ⟨fun _ => hpc, id⟩
    | test =>
      cases hs
      split <;> exact ⟨fun _ => hpc, id⟩
    | wait =>
      simp only [popStep] at hs
      split at hs
      · obtain ⟨-, rfl⟩ := lock_eq_some hs
        exact ⟨fun _ => hpc, id⟩
      · cases hs
    | take =>
      cases hs
      exact ⟨fun _ => hpc, (stopOnceEmpty_tryPop s.queue).trans⟩
    | unlock =>
      cases hs
      exact ⟨fun _ => hpc, id⟩
  · rename_i k _
    cases k with
    | lock =>
      obtain ⟨-, rfl⟩ := lock_eq_some hs
      exact ⟨fun _ => hpc, id⟩
    | take =>
      cases hs
      exact ⟨fun _ => hpc, (stopOnceEmpty_tryPop s.queue).trans⟩
    | unlock =>
      cases hs
      exact ⟨fun _ => hpc, id⟩
  · rename_i k _
    cases k with
    | lock =>
      obtain ⟨-, rfl⟩ := lock_eq_some hs
      exact ⟨fun _ => hpc, id⟩
    | set =>
      cases hs
      exact ⟨fun _ => hpc, fun _ => rfl⟩
    | notify | unlock =>
      cases hs
      exact ⟨fun _ => hpc, id⟩

/-- The queue was told to stop, or the call of the thread is about to tell it. -/
def Stops (s : Monitor α) (τ : ℕ) : Prop :=
  s.queue.stopOnceEmpty = true ∨ s.pc τ = .stop .lock ∨ s.pc τ = .stop .set

theorem Stops.runStep (h : s.Stops τ) {τ' : ℕ} (hs : s.runStep τ' = some s') : s'.Stops τ := by
  obtain ⟨hpc, hstop⟩ := runStep_frame hs
  rcases h with h | h
  · exact .inl (hstop h)
  · by_cases hτ : τ = τ'
    · subst hτ
      rcases h with h | h
      · simp only [Monitor.runStep, h] at hs
        obtain ⟨-, rfl⟩ := lock_eq_some hs
        exact .inr (.inr (by simp))
      · simp only [Monitor.runStep, h] at hs
        cases hs
        exact .inl rfl
    · exact .inr (hpc τ hτ ▸ h)

/-- No step of the system takes the call of the thread back. -/
theorem Stops.step (hS : s.Sleepers) (h : s.Stops τ) (hs : s.step l = some s') :
    s'.Stops τ := by
  -- a step of another thread, outside the queue
  have hother : ∀ {τ' : ℕ} {pc : Pc α} {t : Monitor α}, t.queue = s.queue → t.pc = s.pc →
      (s.pc τ' ≠ .stop .lock ∧ s.pc τ' ≠ .stop .set) → (t.setPc τ' pc).Stops τ := by
    intro τ' pc t hq hp hne
    rcases h with h | h
    · exact .inl ((congrArg stopOnceEmpty hq).trans h)
    · have hτ : τ ≠ τ' := by
        rintro rfl
        exact h.elim hne.1 hne.2
      refine .inr ?_
      rw [setPc_pc, Function.update_of_ne hτ, hp]
      exact h
  cases l with
  | call τ' c =>
    simp only [Monitor.step] at hs
    split at hs
    · rename_i hpc
      cases hs
      exact hother rfl rfl (by simp [hpc])
    · cases hs
  | run τ' => exact h.runStep hs
  | notifyOne τ' w =>
    simp only [Monitor.step] at hs
    split at hs
    · rename_i x hpc
      split at hs
      · cases hs
        exact hother rfl rfl (by simp [hpc])
      · cases hs
    · cases hs
  | spurious w =>
    simp only [Monitor.step] at hs
    split at hs
    · rename_i hm
      cases hs
      have hpc : s.pc w = .pop .wait := (hS.mem w).mp (List.mem_append_left _ hm)
      exact hother rfl rfl (by simp [hpc])
    · cases hs

/-- **A queue stays stopped.** Once a call of `stop_once_empty` has returned, the flag is set, and
while the mutex is free no consumer waits that was not notified. -/
theorem stopped_of_returned (hr : Reach step (fun _ _ => True) (start m : Monitor α) s)
    (hcall : s.pc τ = .stop .lock) (h : Reach step (fun _ _ => True) s s')
    (hreturned : s'.pc τ = .idle) :
    s'.queue.stopOnceEmpty = true ∧ (s'.mutex = none → s'.waiting = []) := by
  have hS : s.Sleepers := hr.invariant (sleepers_start m) fun _ _ _ hS _ hs => hS.step hs
  obtain ⟨-, hstops⟩ := h.invariant (I := fun t => t.Sleepers ∧ t.Stops τ)
    ⟨hS, .inr (.inl hcall)⟩ fun _ _ _ ht _ hs => ⟨ht.1.step hs, ht.2.step ht.1 hs⟩
  have hflag : s'.queue.stopOnceEmpty = true := by
    rcases hstops with hflag | hpc | hpc
    · exact hflag
    · exact absurd (hreturned.symm.trans hpc) nofun
    · exact absurd (hreturned.symm.trans hpc) nofun
  refine ⟨hflag, fun hfree => ?_⟩
  have hI : s'.Inv := (hr.trans h).invariant (inv_start m) fun _ _ _ hI _ hs => hI.step hs
  by_contra hw
  exact absurd (hflag.symm.trans (hI.free hfree hw).2) nofun

end Monitor

end ConcurrentQueue

end Outmdsd
