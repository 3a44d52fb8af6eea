import Mathlib.Data.List.Basic
import Mathlib.Data.Set.Basic

/-!
# Streams of messages

A stream is *whole* when it is a concatenation of complete messages, and *framed* when at most one
proper prefix of a message follows them. A stream that was whole before a message and has its first
`n` elements since (`SentUpTo`) is framed all the time, and whole again after the last element.
-/

namespace Outmdsd

namespace Frames

variable {α : Type*} {M M' : Set (List α)} {x m : List α} {n : ℕ}

/-- A concatenation of complete messages. -/
def Whole (M : Set (List α)) (x : List α) : Prop :=
  ∃ done : List (List α), (∀ d ∈ done, d ∈ M) ∧ x = done.flatten

/-- Complete messages, and the first `n` elements of `m`. -/
def SentUpTo (M : Set (List α)) (m : List α) (n : ℕ) (x : List α) : Prop :=
  ∃ done : List (List α), (∀ d ∈ done, d ∈ M) ∧ x = done.flatten ++ m.take n

/-- Complete messages, and at most one proper prefix of a message. -/
def Framed (M : Set (List α)) (x : List α) : Prop :=
  ∃ (done : List (List α)) (p : List α), (∀ d ∈ done, d ∈ M) ∧ x = done.flatten ++ p ∧
    (p = [] ∨ ∃ m ∈ M, p <+: m ∧ p ≠ m)

theorem whole_nil : Whole M ([] : List α) := ⟨[], by simp, rfl⟩

theorem Whole.mono (h : Whole M x) (hM : M ⊆ M') : Whole M' x := by
  obtain ⟨done, hd, hx⟩ := h
  exact ⟨done, fun d hm => hM (hd d hm), hx⟩

theorem SentUpTo.mono (h : SentUpTo M m n x) (hM : M ⊆ M') : SentUpTo M' m n x := by
  obtain ⟨done, hd, hx⟩ := h
  exact ⟨done, fun d hm => hM (hd d hm), hx⟩

theorem Framed.mono (h : Framed M x) (hM : M ⊆ M') : Framed M' x := by
  obtain ⟨done, p, hd, hx, hp⟩ := h
  exact ⟨done, p, fun d hm => hM (hd d hm), hx, hp.imp_right fun ⟨m, hm, h⟩ => ⟨m, hM hm, h⟩⟩

theorem Whole.framed (h : Whole M x) : Framed M x := by
  obtain ⟨done, hd, hx⟩ := h
  exact ⟨done, [], hd, by simpa using hx, .inl rfl⟩

theorem Whole.sentUpTo (h : Whole M x) (m : List α) : SentUpTo M m 0 x := by
  obtain ⟨done, hd, hx⟩ := h
  exact ⟨done, hd, by simpa using hx⟩

/-- The next elements of the message. -/
theorem SentUpTo.append (h : SentUpTo M m n x) (j : ℕ) :
    SentUpTo M m (n + j) (x ++ (m.drop n).take j) := by
  obtain ⟨done, hd, rfl⟩ := h
  exact ⟨done, hd, by rw [List.take_add, List.append_assoc]⟩

/-- After the last element of the message the stream is whole. -/
theorem SentUpTo.whole (h : SentUpTo M m n x) (hm : m ∈ M) (hn : m.length ≤ n) : Whole M x := by
  obtain ⟨done, hd, rfl⟩ := h
  refine ⟨done ++ [m], fun d hd' => ?_, by simp [List.take_of_length_le hn]⟩
  rcases List.mem_append.mp hd' with h | h
  · exact hd d h
  · exact List.mem_singleton.mp h ▸ hm

/-- Before the last element of the message the stream is framed. -/
theorem SentUpTo.framed (h : SentUpTo M m n x) (hm : m ∈ M) (hn : n < m.length) : Framed M x := by
  obtain ⟨done, hd, rfl⟩ := h
  refine ⟨done, m.take n, hd, rfl, .inr ⟨m, hm, List.take_prefix _ _, fun he => ?_⟩⟩
  have := congrArg List.length he
  rw [List.length_take] at this
  omega

/-- A framed stream is a proper prefix of a message, or begins with a message. -/
theorem Framed.cases (h : Framed M x) :
    x = [] ∨ (∃ m ∈ M, x <+: m ∧ x ≠ m) ∨ ∃ m ∈ M, m <+: x := by
  obtain ⟨done, p, hd, rfl, hp⟩ := h
  cases done with
  | nil => exact hp.imp id .inl
  | cons d ds =>
    refine .inr (.inr ⟨d, hd d (by simp), ?_⟩)
    rw [List.flatten_cons, List.append_assoc]
    exact List.prefix_append _ _

end Frames

end Outmdsd
