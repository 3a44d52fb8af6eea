import Mathlib.Data.List.Nodup
import Mathlib.Data.List.Range
import Outmdsd.Cache.ConcurrentQueue
import Outmdsd.Foundations.Runs

/-!
# Histories of the queue

The calls of any number of threads on one queue, in the order in which they get its mutex. An
element travels with the number of its push, so that equal values stay apart; `values_exec` says
that the numbers are carried along and change nothing. What was popped and what is in the queue is
what was pushed without what was dropped, in its order (`dropOldest_of_history`).
-/

namespace Outmdsd

namespace ConcurrentQueue

variable {α β : Type*}

/-- `wait_and_pop(value)`: `none` while it waits, otherwise what `value` is afterwards. -/
def waitAndPopInto (q : ConcurrentQueue α) (value : α) : Option (α × ConcurrentQueue α) :=
  match q.dataQueue with
  | x :: xs => some (x, { q with dataQueue := xs })
  | [] => if q.stopOnceEmpty then some (value, q) else none

/-- `try_pop()` -/
def tryPop (q : ConcurrentQueue α) : Option α × ConcurrentQueue α :=
  match q.dataQueue with
  | x :: xs => (some x, { q with dataQueue := xs })
  | [] => (none, q)

/-- A call on the queue. -/
inductive Call (α : Type*)
  | push (x : α)
  | waitAndPop
  | waitAndPopInto (value : α)
  | tryPop
  | stop

/-- The call may wait. -/
def Call.waits : Call α → Bool
  | .waitAndPop | .waitAndPopInto _ => true
  | _ => false

/-- What a call does, when it need not wait. -/
def call (q : ConcurrentQueue α) : Call α → Option (ConcurrentQueue α)
  | .push x => some (q.push x)
  | .waitAndPop => q.waitAndPop.map Prod.snd
  | .waitAndPopInto value => (q.waitAndPopInto value).map Prod.snd
  | .tryPop => some q.tryPop.2
  | .stop => some q.stop

/-! ## Histories -/

/-- An element with the number of its push. -/
abbrev Numbered (α : Type*) := ℕ × α

/-- The queue, what was pushed, what a push has lost, what the callers got, and how often
`stop_once_empty` was called. -/
structure History (α : Type*) where
  queue : ConcurrentQueue (Numbered α)
  pushed : List (Numbered α)
  dropped : List (Numbered α)
  popped : List (Numbered α)
  stops : ℕ

namespace History

/-- A new queue. -/
def start (m : ℕ) : History α := ⟨.new m, [], [], [], 0⟩

/-- The numbers of elements. -/
def numbers (l : List (Numbered α)) : List ℕ := l.map Prod.fst

/-- What is in `before` and not in `after`. -/
def lost (before after : List (Numbered α)) : List (Numbered α) :=
  before.filter fun e => e.1 ∉ numbers after

/-- A call gets the mutex. -/
def step (h : History α) : Call α → Option (History α)
  | .push x =>
    let e := (h.pushed.length, x)
    let q := h.queue.push e
    some { h with
      queue := q
      pushed := h.pushed ++ [e]
      dropped := h.dropped ++ lost h.queue.dataQueue q.dataQueue }
  | .waitAndPop => h.queue.waitAndPop.map fun r =>
    { h with queue := r.2, popped := h.popped ++ r.1.toList }
  | .waitAndPopInto value => (h.queue.waitAndPopInto (h.pushed.length, value)).map fun r =>
    -- an untouched `value` is nothing popped
    { h with queue := r.2, popped := h.popped ++ if h.queue.dataQueue = [] then [] else [r.1] }
  | .tryPop =>
    some { h with queue := h.queue.tryPop.2, popped := h.popped ++ h.queue.tryPop.1.toList }
  | .stop => some { h with queue := h.queue.stop, stops := h.stops + 1 }

/-- The bookkeeping of a drop-oldest queue. -/
structure Inv (m : ℕ) (h : History α) : Prop where
  maxSize : h.queue.maxSize = m
  bound : 0 < m → h.queue.dataQueue.length ≤ m
  numbered : numbers h.pushed = List.range h.pushed.length
  sub : h.dropped ⊆ h.pushed
  order : h.popped ++ h.queue.dataQueue = h.pushed.filter fun e => e.1 ∉ numbers h.dropped
  stopped : h.queue.stopOnceEmpty = true → 0 < h.stops

variable {m : ℕ} {h h' : History α} {c : Call α} {e : Numbered α} {l l' : List (Numbered α)}

@[simp] theorem numbers_append (l l' : List (Numbered α)) :
    numbers (l ++ l') = numbers l ++ numbers l' := List.map_append

theorem inv_start (m : ℕ) : (start m : History α).Inv m where
  maxSize := rfl
  bound _ := Nat.zero_le m
  numbered := rfl
  sub := by simp [start]
  order := rfl
  stopped := by simp [start, ConcurrentQueue.new]

/-- The numbers in the queue increase, and were given to pushes. -/
theorem Inv.sorted (hI : h.Inv m) :
    (numbers (h.popped ++ h.queue.dataQueue)).Pairwise (· < ·) ∧
      ∀ n ∈ numbers (h.popped ++ h.queue.dataQueue), n < h.pushed.length := by
  have hsub : (numbers (h.popped ++ h.queue.dataQueue)).Sublist (List.range h.pushed.length) := by
    rw [hI.order, ← hI.numbered]
    exact List.filter_sublist.map Prod.fst
  exact ⟨List.pairwise_lt_range.sublist hsub, fun n hn => List.mem_range.mp (hsub.subset hn)⟩

theorem Inv.nodup (hI : h.Inv m) : (numbers (h.popped ++ h.queue.dataQueue)).Nodup :=
  hI.sorted.1.imp Nat.ne_of_lt

theorem Inv.number_lt (hI : h.Inv m) (he : e ∈ h.pushed) : e.1 < h.pushed.length := by
  have hm : e.1 ∈ numbers h.pushed := List.mem_map_of_mem he
  rw [hI.numbered] at hm
  exact List.mem_range.mp hm

/-- Nothing is lost when everything is kept. -/
theorem lost_append (l l' : List (Numbered α)) : lost l (l ++ l') = [] := by
  refine List.filter_eq_nil_iff.mpr fun e he => ?_
  have hm : e.1 ∈ numbers (l ++ l') := List.mem_map_of_mem (List.mem_append_left _ he)
  exact fun hd => of_decide_eq_true hd hm

/-- The head is lost when it goes. -/
theorem lost_tail (hn : (numbers (e :: l)).Nodup) {e' : Numbered α} (he : e.1 ≠ e'.1) :
    lost (e :: l) (l ++ [e']) = [e] := by
  have hnot : e.1 ∉ numbers l := (List.nodup_cons.mp hn).1
  have hgone : e.1 ∉ numbers (l ++ [e']) := by
    rw [numbers_append, List.mem_append, not_or]
    exact ⟨hnot, by simpa [numbers] using he⟩
  have hkeep : (l.filter fun y => y.1 ∉ numbers (l ++ [e'])) = [] := lost_append l [e']
  rw [lost, List.filter_cons_of_pos (by simpa using hgone), hkeep]

/-- What a push does: it appends, and drops nothing or the oldest element of a full queue. -/
theorem Inv.step_push (hI : h.Inv m) {x : α} (hs : h.step (.push x) = some h') :
    h'.pushed = h.pushed ++ [(h.pushed.length, x)] ∧ h'.popped = h.popped ∧
      h'.queue.maxSize = h.queue.maxSize ∧ h'.queue.stopOnceEmpty = h.queue.stopOnceEmpty ∧
      h'.stops = h.stops ∧
      ((h'.queue.dataQueue = h.queue.dataQueue ++ [(h.pushed.length, x)] ∧
          h'.dropped = h.dropped ∧ (0 < m → h.queue.dataQueue.length < m)) ∨
        ∃ e rest, h.queue.dataQueue = e :: rest ∧ h.queue.dataQueue.length = m ∧ 0 < m ∧
          h'.queue.dataQueue = rest ++ [(h.pushed.length, x)] ∧ h'.dropped = h.dropped ++ [e]) := by
  cases hs
  refine ⟨rfl, rfl, rfl, rfl, rfl, ?_⟩
  have hfull : h.queue.isFull = true ↔ 0 < m ∧ h.queue.dataQueue.length = m := by
    simp [isFull, hI.maxSize]
  by_cases hf : h.queue.isFull = true
  · obtain ⟨hm, hlen⟩ := hfull.mp hf
    obtain ⟨e, rest, hb⟩ := List.exists_cons_of_length_pos (l := h.queue.dataQueue) (by omega)
    have hq : (h.queue.push (h.pushed.length, x)).dataQueue = rest ++ [(h.pushed.length, x)] := by
      simp [ConcurrentQueue.push, hf, hb]
    have hn := hI.nodup
    rw [numbers_append] at hn
    have hlt : e.1 < h.pushed.length := by
      refine hI.sorted.2 e.1 ?_
      simp [hb, numbers]
    refine .inr ⟨e, rest, hb, hlen, hm, hq, ?_⟩
    change h.dropped ++ lost h.queue.dataQueue (h.queue.push (h.pushed.length, x)).dataQueue = _
    rw [hq, hb, lost_tail (hb ▸ hn.of_append_right) (Nat.ne_of_lt hlt)]
  · have hq : (h.queue.push (h.pushed.length, x)).dataQueue =
        h.queue.dataQueue ++ [(h.pushed.length, x)] := by
      simp [ConcurrentQueue.push, hf]
    refine .inl ⟨hq, ?_, fun hm => ?_⟩
    · change h.dropped ++ lost h.queue.dataQueue (h.queue.push (h.pushed.length, x)).dataQueue = _
      rw [hq, lost_append, List.append_nil]
    · exact lt_of_le_of_ne (hI.bound hm) fun he => hf (hfull.mpr ⟨hm, he⟩)

/-- Without its oldest element the queue follows what was pushed without it. -/
theorem filter_dropped (hn : (numbers (l ++ e :: l')).Nodup) {dropped pushed : List (Numbered α)}
    (h : l ++ e :: l' = pushed.filter fun y => y.1 ∉ numbers dropped) :
    l ++ l' = pushed.filter fun y => y.1 ∉ numbers (dropped ++ [e]) := by
  have hother : ∀ y ∈ l ++ l', y.1 ≠ e.1 := fun y hy he => by
    have hp : (numbers (l ++ e :: l')).Perm (numbers (e :: (l ++ l'))) :=
      List.perm_middle.map Prod.fst
    have hnot := (List.nodup_cons.mp (hp.nodup_iff.mp hn)).1
    exact hnot (he ▸ List.mem_map_of_mem hy)
  calc l ++ l' = (l ++ e :: l').filter fun y => y.1 ≠ e.1 := by
        simp only [List.filter_append, ne_eq, not_true_eq_false, decide_false, Bool.false_eq_true,
          not_false_eq_true, List.filter_cons_of_neg]
        rw [← List.filter_append, List.filter_eq_self.mpr]
        simpa using hother
    _ = pushed.filter fun y => y.1 ∉ numbers (dropped ++ [e]) := by
        rw [h, List.filter_filter]
        refine List.filter_congr fun y _ => ?_
        rw [Bool.eq_iff_iff]
        simp only [ne_eq, Bool.and_eq_true, decide_eq_true_eq]
        rw [numbers_append, List.mem_append, not_or, and_comm]
        simp [numbers]

theorem Inv.push (hI : h.Inv m) {x : α} (hs : h.step (.push x) = some h') : h'.Inv m := by
  obtain ⟨hpushed, hpopped, hmax, hstop, hstops, hq⟩ := hI.step_push hs
  have hnum : numbers h'.pushed = List.range h'.pushed.length := by
    rw [hpushed, numbers_append, hI.numbered, List.length_append, List.length_singleton,
      List.range_succ]
    rfl
  have hlt : ∀ n ∈ numbers h.dropped, n < h.pushed.length := fun n hn => by
    obtain ⟨y, hy, rfl⟩ := List.mem_map.mp hn
    exact hI.number_lt (hI.sub hy)
  -- the new element is not among the dropped ones
  have hnew : ∀ dropped : List (Numbered α), (∀ n ∈ numbers dropped, n < h.pushed.length) →
      ((h'.pushed).filter fun y => y.1 ∉ numbers dropped) =
        (h.pushed.filter fun y => y.1 ∉ numbers dropped) ++ [(h.pushed.length, x)] :=
    fun dropped hd => by
      rw [hpushed, List.filter_append, List.filter_singleton]
      have hnot : h.pushed.length ∉ numbers dropped := fun hm => absurd (hd _ hm) (lt_irrefl _)
      simp [hnot]
  have hsub : h.dropped ⊆ h'.pushed := by
    rw [hpushed]
    exact List.subset_append_of_subset_left _ hI.sub
  obtain ⟨hq, hd, hroom⟩ | ⟨e, rest, hb, hlen, -, hq, hd⟩ := hq
  · refine ⟨hmax.trans hI.maxSize, fun hm => ?_, hnum, hd ▸ hsub, ?_, fun hst => ?_⟩
    · have := hroom hm
      rw [hq, List.length_append, List.length_singleton]
      omega
    · rw [hd, hnew _ hlt, hpopped, hq, ← List.append_assoc, hI.order]
    · rw [hstops]
      exact hI.stopped (hstop ▸ hst)
  · have hnodup := hI.nodup
    have horder := hI.order
    rw [hb] at horder hnodup
    have hmem : e ∈ h.pushed := by
      have hm : e ∈ h.popped ++ e :: rest := by simp
      rw [horder] at hm
      exact (List.mem_filter.mp hm).1
    refine ⟨hmax.trans hI.maxSize, fun _ => ?_, hnum, ?_, ?_, fun hst => ?_⟩
    · rw [hb, List.length_cons] at hlen
      rw [hq, List.length_append, List.length_singleton]
      exact hlen.le
    · rw [hd]
      refine List.append_subset.mpr ⟨hsub, ?_⟩
      rw [hpushed]
      simpa using .inl hmem
    · rw [hd, hnew, hpopped, hq, ← List.append_assoc, filter_dropped hnodup horder]
      intro n hn
      rw [numbers_append, List.mem_append] at hn
      obtain hn | hn := hn
      · exact hlt n hn
      · obtain rfl : n = e.1 := by simpa [numbers] using hn
        exact hI.number_lt hmem
    · rw [hstops]
      exact hI.stopped (hstop ▸ hst)

/-- The call takes an element from the queue, if there is one. -/
def Pops : Call α → Prop
  | .waitAndPop | .waitAndPopInto _ | .tryPop => True
  | _ => False

/-- What a call that pops does: it takes the oldest element, or the queue is empty. -/
theorem step_pop (hc : Pops c) (hs : h.step c = some h') :
    (∃ x xs, h.queue.dataQueue = x :: xs ∧
      h' = { h with queue := { h.queue with dataQueue := xs }, popped := h.popped ++ [x] }) ∨
    h.queue.dataQueue = [] ∧ h' = h ∧ (c.waits = true → h.queue.stopOnceEmpty = true) := by
  cases hq : h.queue.dataQueue with
  | cons x xs =>
    refine .inl ⟨x, xs, rfl, Option.some.inj (hs.symm.trans ?_)⟩
    cases c with
    | push | stop => cases hc
    | waitAndPop => simp [step, waitAndPop, hq]
    | waitAndPopInto value => simp [step, waitAndPopInto, hq]
    | tryPop => simp [step, ConcurrentQueue.tryPop, hq]
  | nil =>
    refine .inr ⟨rfl, ?_⟩
    cases c with
    | push | stop => cases hc
    | waitAndPop | waitAndPopInto =>
      simp only [step, waitAndPop, waitAndPopInto, hq, Option.map_eq_some_iff] at hs
      obtain ⟨r, hr, rfl⟩ := hs
      obtain ⟨hstop, he⟩ := Option.ite_none_right_eq_some.mp hr
      obtain rfl := Option.some.inj he
      exact ⟨by simp, fun _ => hstop⟩
    | tryPop =>
      cases hs
      exact ⟨by simp [ConcurrentQueue.tryPop, hq], nofun⟩

theorem Inv.pop (hI : h.Inv m) (hc : Pops c) (hs : h.step c = some h') : h'.Inv m := by
  obtain ⟨x, xs, hq, rfl⟩ | ⟨-, rfl, -⟩ := step_pop hc hs
  · refine ⟨hI.maxSize, fun hm => ?_, hI.numbered, hI.sub, ?_, hI.stopped⟩
    · have := hI.bound hm
      rw [hq, List.length_cons] at this
      exact Nat.le_of_succ_le this
    · have horder := hI.order
      rw [hq] at horder
      rw [← horder]
      simp
  · exact hI

/-- **Every call keeps the bookkeeping.** -/
theorem Inv.step (hI : h.Inv m) (hs : h.step c = some h') : h'.Inv m := by
  cases c with
  | push x => exact hI.push hs
  | waitAndPop | waitAndPopInto | tryPop => exact hI.pop (by trivial) hs
  | stop =>
    cases hs
    exact ⟨hI.maxSize, hI.bound, hI.numbered, hI.sub, hI.order, fun _ => Nat.succ_pos _⟩

/-! ## The numbers change nothing -/

/-- The queue without the numbers. -/
def values (h : History α) : ConcurrentQueue α :=
  ⟨h.queue.dataQueue.map Prod.snd, h.queue.stopOnceEmpty, h.queue.maxSize⟩

theorem values_step (h : History α) (c : Call α) :
    (h.step c).map values = h.values.call c := by
  cases c with
  | push x =>
    have hf : h.values.isFull = h.queue.isFull := by
      unfold isFull values
      rw [List.length_map]
    have hd : (h.values.push x).dataQueue =
        (h.queue.push (h.pushed.length, x)).dataQueue.map Prod.snd := by
      simp only [ConcurrentQueue.push, hf, List.map_append, List.map_cons, List.map_nil]
      split
      · rw [List.map_tail]
        rfl
      · rfl
    exact congrArg (fun l : List α =>
      some (ConcurrentQueue.mk l h.queue.stopOnceEmpty h.queue.maxSize)) hd.symm
  | waitAndPop =>
    cases hq : h.queue.dataQueue with
    | nil => cases hs : h.queue.stopOnceEmpty <;> simp [step, call, waitAndPop, values, hq, hs]
    | cons e rest => simp [step, call, waitAndPop, values, hq]
  | waitAndPopInto value =>
    cases hq : h.queue.dataQueue with
    | nil => cases hs : h.queue.stopOnceEmpty <;> simp [step, call, waitAndPopInto, values, hq, hs]
    | cons e rest => simp [step, call, waitAndPopInto, values, hq]
  | tryPop =>
    cases hq : h.queue.dataQueue with
    | nil => simp [step, call, tryPop, values, hq]
    | cons e rest => simp [step, call, tryPop, values, hq]
  | stop => rfl

/-- The calls do to the numbered queue what they do to the queue of the values. -/
theorem values_exec (h : History α) (cs : List (Call α)) :
    (exec step h cs).map values = exec call h.values cs := by
  induction cs generalizing h with
  | nil => rfl
  | cons c cs ih =>
    have hc := h.values_step c
    cases hs : h.step c with
    | none =>
      rw [hs, Option.map_none] at hc
      rw [exec, exec, hs, ← hc]
      rfl
    | some h' =>
      rw [hs, Option.map_some] at hc
      rw [exec, exec, hs, ← hc]
      exact ih h'

/-! ## The drop-oldest queue -/

/-- A bounded queue that drops its oldest element: what was popped and what is in the queue is what
was pushed without what was dropped, in its order and each push once. -/
structure DropOldest (m : ℕ) (h : History α) : Prop where
  bound : 0 < m → h.queue.dataQueue.length ≤ m
  numbered : numbers h.pushed = List.range h.pushed.length
  sub : h.dropped ⊆ h.pushed
  order : h.popped ++ h.queue.dataQueue = h.pushed.filter fun e => e.1 ∉ numbers h.dropped
  nodup : (numbers (h.popped ++ h.queue.dataQueue)).Nodup

/-- A call drops an element only as a push into a full queue, and then the oldest one. -/
def DropsOldestOnly (m : ℕ) (h : History α) (c : Call α) (h' : History α) : Prop :=
  h'.dropped = h.dropped ∨
    ∃ x e, c = .push x ∧ 0 < m ∧ h.queue.dataQueue.length = m ∧ h'.dropped = h.dropped ++ [e] ∧
      e ∈ h.queue.dataQueue ∧ ∀ e' ∈ h.queue.dataQueue, e.1 ≤ e'.1

theorem Inv.dropsOldestOnly (hI : h.Inv m) (hs : h.step c = some h') :
    DropsOldestOnly m h c h' := by
  have hpop : Pops c → DropsOldestOnly m h c h' := fun hc => by
    obtain ⟨x, xs, -, rfl⟩ | ⟨-, rfl, -⟩ := step_pop hc hs <;> exact .inl rfl
  cases c with
  | push x =>
    obtain ⟨-, -, -, -, -, ⟨-, hd, -⟩ | ⟨e, rest, hb, hlen, hm, -, hd⟩⟩ := hI.step_push hs
    · exact .inl hd
    · refine .inr ⟨x, e, rfl, hm, hlen, hd, by simp [hb], fun e' he' => ?_⟩
      have hsorted := hI.sorted.1
      rw [numbers_append, hb] at hsorted
      have hle := (List.pairwise_cons.mp (List.pairwise_append.mp hsorted).2.1).1
      rw [hb] at he'
      rcases List.mem_cons.mp he' with rfl | hr
      · exact le_rfl
      · exact (hle e'.1 (List.mem_map_of_mem hr)).le
  | waitAndPop | waitAndPopInto | tryPop => exact hpop trivial
  | stop =>
    cases hs
    exact .inl rfl

/-- **The queue is a bounded drop-oldest queue**, after every history; its calls drop the oldest
element of a full queue only, and return empty-handed from a wait only when the queue is empty and
`stop_once_empty` has been called. -/
theorem dropOldest_of_history (hr : Reach step (fun _ _ => True) (start m : History α) h) :
    h.DropOldest m ∧ ∀ c h', h.step c = some h' → DropsOldestOnly m h c h' ∧
      (c.waits = true → h'.popped = h.popped → h.queue.dataQueue = [] ∧ 0 < h.stops) := by
  have hI : h.Inv m := hr.invariant (inv_start m) fun _ _ _ hI _ hs => hI.step hs
  refine ⟨⟨hI.bound, hI.numbered, hI.sub, hI.order, hI.nodup⟩, fun c h' hs => ?_⟩
  refine ⟨hI.dropsOldestOnly hs, fun hw hp => ?_⟩
  have hc : Pops c := by
    cases c with
    | waitAndPop | waitAndPopInto => trivial
    | push | tryPop | stop => cases hw
  obtain ⟨x, xs, -, rfl⟩ | ⟨hq, rfl, hstop⟩ := step_pop hc hs
  · simp at hp
  · exact ⟨hq, hI.stopped (hstop hw)⟩

/-- Three pushes into a queue of size two, and a pop. -/
theorem dropOldest_of_three_pushes :
    ∃ h : History ℕ, (h.dropped = [(0, 7)] ∧ h.popped = [(1, 7)]) ∧ h.DropOldest 2 := by
  obtain ⟨h, hr, ht⟩ : ∃ h, Reach step (fun _ _ => True) (start 2 : History ℕ) h ∧
      decide (h.dropped = [(0, 7)] ∧ h.popped = [(1, 7)]) = true :=
    @Reach.exists_of_exec _ _ step _ _ (fun _ _ => true) _
      [.push 7, .push 7, .push 8, .waitAndPop] (fun _ _ _ => trivial) (by decide) (by decide)
  exact ⟨h, of_decide_eq_true ht, (dropOldest_of_history hr).1⟩

end History

end ConcurrentQueue

end Outmdsd
