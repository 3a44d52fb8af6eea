import Mathlib.Algebra.Order.Group.Nat

/-!
# Asking again

A machine that answers questions and remembers its answers: asked a question again, now or later, it
gives the same answer and does not change (`Remembers`). When it has answered a part of a list of
questions and is then asked the list from the start, it answers as if it had not been asked before
(`answers_take`). So a caller that fails in the middle of a list may start over.
-/

namespace Outmdsd

variable {σ α β : Type*}

/-- The answers to a list of questions, and the state they leave. -/
def answers (f : σ → α → β × σ) (s : σ) : List α → List β × σ
  | [] => ([], s)
  | a :: l =>
    let r := answers f (f s a).2 l
    ((f s a).1 :: r.1, r.2)

/-- A question that does not change the state has the same answer after every other one, and a
question that was just answered is such a question. -/
structure Remembers (f : σ → α → β × σ) : Prop where
  again : ∀ s a, f (f s a).2 a = f s a
  keeps : ∀ s a b, (f s a).2 = s → f (f s b).2 a = ((f s a).1, (f s b).2)

variable {f : σ → α → β × σ} {s : σ}

theorem answers_append (l l' : List α) :
    answers f s (l ++ l') =
      ((answers f s l).1 ++ (answers f (answers f s l).2 l').1,
        (answers f (answers f s l).2 l').2) := by
  induction l generalizing s with
  | nil => rfl
  | cons a l ih => simp only [List.cons_append, answers, ih]

theorem length_answers (l : List α) : (answers f s l).1.length = l.length := by
  induction l generalizing s with
  | nil => rfl
  | cons a l ih => simp only [answers, List.length_cons, ih]

/-- The questions have these answers, and none changes the state. -/
def Settled (f : σ → α → β × σ) (s : σ) (l : List α) (bs : List β) : Prop :=
  l.map (f s) = bs.map fun b => (b, s)

theorem Settled.answers {l : List α} {bs : List β} (h : Settled f s l bs) :
    answers f s l = (bs, s) := by
  induction l generalizing bs with
  | nil =>
    obtain rfl : bs = [] := by simpa [Settled] using h.symm
    rfl
  | cons a l ih =>
    cases bs with
    | nil => simp [Settled] at h
    | cons b bs =>
      obtain ⟨ha, hl⟩ := List.cons.inj h
      simp only [Outmdsd.answers, ha, ih hl]

namespace Remembers

/-- What was answered is answered the same way after other questions. -/
theorem keeps_answers (h : Remembers f) {a : α} {b : β} (ha : f s a = (b, s)) (l : List α) :
    f (answers f s l).2 a = (b, (answers f s l).2) := by
  induction l generalizing s with
  | nil => exact ha
  | cons c l ih =>
    refine ih ?_
    rw [h.keeps s a c (by rw [ha]), ha]

theorem settled_answers (h : Remembers f) (l : List α) :
    Settled f (answers f s l).2 l (answers f s l).1 := by
  induction l generalizing s with
  | nil => rfl
  | cons a l ih =>
    exact List.cons_eq_cons.mpr ⟨h.keeps_answers (h.again s a) l, ih⟩

theorem settled_keeps (h : Remembers f) {l : List α} {bs : List β} (hs : Settled f s l bs)
    (l' : List α) : Settled f (answers f s l').2 l bs := by
  induction l generalizing bs with
  | nil =>
    obtain rfl : bs = [] := by simpa [Settled] using hs.symm
    rfl
  | cons a l ih =>
    cases bs with
    | nil => simp [Settled] at hs
    | cons b bs =>
      obtain ⟨ha, hl⟩ := List.cons.inj hs
      exact List.cons_eq_cons.mpr ⟨h.keeps_answers ha l', ih hl⟩

/-- **Starting over.** After one part of a list, another part is answered as from the start, and the
state is the one that the longer part leaves. -/
theorem answers_take (h : Remembers f) (l : List α) (k m : ℕ) :
    answers f (answers f s (l.take k)).2 (l.take m) =
      ((answers f s (l.take m)).1, (answers f s (l.take (max k m))).2) := by
  rcases le_total k m with hkm | hmk
  · -- the second part repeats the first one and goes on where it ended
    obtain ⟨l', hl⟩ := List.take_prefix_take_left hkm (l := l)
    rw [max_eq_right hkm, ← hl, answers_append, (h.settled_answers (l.take k)).answers,
      answers_append]
  · -- the second part is all known
    obtain ⟨l', hl⟩ := List.take_prefix_take_left hmk (l := l)
    rw [max_eq_left hmk, ← hl, answers_append]
    exact (h.settled_keeps (h.settled_answers (l.take m)) l').answers

end Remembers

end Outmdsd
