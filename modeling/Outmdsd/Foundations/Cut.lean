import Mathlib.Data.List.Basic
import Mathlib.Data.List.Infix

/-!
# Cutting a text at its terminators

A text over any alphabet is cut at every occurrence of a terminator, from left to right: the
result is the list of pieces, each with the terminator that closed it, and the rest after the
last one. The terminators of a `Terminators` share a marker that stands at their first position
and nowhere else, and none is a prefix of another, so that two occurrences never overlap.

* `cut_append`: cutting a text in two chunks, the rest of the first fed in front of the second,
  is cutting it at once;
* `join_cut`: the pieces and the rest rebuild the text;
* `join_eq_join_iff`: two lists of terminated words spell the same text if and only if they have
  the same pieces.
-/

namespace Outmdsd

/-- A finite family of terminator words. -/
structure Terminators (α τ : Type*) where
  /-- The word of a terminator. -/
  word : τ → List α
  /-- All terminators. -/
  all : List τ
  mem_all : ∀ t, t ∈ all
  /-- The symbol every terminator starts with. -/
  marker : α
  word_eq : ∀ t, ∃ w, word t = marker :: w ∧ marker ∉ w
  prefixFree : ∀ {t u}, word t <+: word u → t = u

namespace Terminators

variable {α τ : Type*} [DecidableEq α] (T : Terminators α τ)

/-- The terminator at the head of a text, if any. -/
def find? (s : List α) : Option τ := T.all.find? fun t => decide (T.word t <+: s)

theorem word_prefix_of_find? {s : List α} {t : τ} (h : T.find? s = some t) :
    T.word t <+: s := by
  have := List.find?_some h
  simpa using this

omit [DecidableEq α] in
/-- Two terminators at the head of one text are the same. -/
theorem eq_of_both_heads {s : List α} {t u : τ} (ht : T.word t <+: s)
    (hu : T.word u <+: s) : t = u := by
  rcases List.prefix_or_prefix_of_prefix ht hu with h | h
  · exact T.prefixFree h
  · exact (T.prefixFree h).symm

theorem find?_eq_some_iff {s : List α} {t : τ} : T.find? s = some t ↔ T.word t <+: s := by
  refine ⟨T.word_prefix_of_find?, fun h => ?_⟩
  rcases hf : T.find? s with _ | u
  · have := List.find?_eq_none.mp hf t (T.mem_all t)
    simp only [decide_eq_true_eq] at this
    exact absurd h this
  · rw [T.eq_of_both_heads h (T.word_prefix_of_find? hf)]

theorem find?_eq_none_iff {s : List α} : T.find? s = none ↔ ∀ t, ¬ T.word t <+: s := by
  rw [Option.eq_none_iff_forall_ne_some]
  exact forall_congr' fun t => not_congr T.find?_eq_some_iff

@[simp] theorem find?_nil : T.find? ([] : List α) = none := by
  rw [find?_eq_none_iff]
  intro t h
  obtain ⟨w, hw, -⟩ := T.word_eq t
  simp [hw] at h

/-- Put a symbol in front of the first piece, or of the rest when there is no piece. -/
def push (a : α) : List (List α × τ) × List α → List (List α × τ) × List α
  | ([], r) => ([], a :: r)
  | ((p, t) :: ps, r) => ((a :: p, t) :: ps, r)

/-- Cut a text at its terminators: the terminated pieces and the rest. -/
def cut (s : List α) : List (List α × τ) × List α :=
  match s with
  | [] => ([], [])
  | a :: s =>
    match T.find? (a :: s) with
    | some t =>
      let r := cut (s.drop ((T.word t).length - 1))
      (([], t) :: r.1, r.2)
    | none => push a (cut s)
termination_by s.length
decreasing_by
  · simp only [List.length_drop, List.length_cons]; omega
  · simp

/-- The terminated pieces of a text. -/
def pieces (s : List α) : List (List α × τ) := (T.cut s).1

/-- The text after the last terminator. -/
def rest (s : List α) : List α := (T.cut s).2

/-- The text of a list of terminated words. -/
def join (l : List (List α × τ)) : List α := l.flatMap fun p => p.1 ++ T.word p.2

@[simp] theorem cut_nil : T.cut ([] : List α) = ([], []) := by simp [cut]

theorem cut_cons_none {a : α} {s : List α} (h : T.find? (a :: s) = none) :
    T.cut (a :: s) = push a (T.cut s) := by
  rw [cut, h]

theorem cut_word_append (t : τ) (s : List α) :
    T.cut (T.word t ++ s) = (([], t) :: T.pieces s, T.rest s) := by
  have hf : T.find? (T.word t ++ s) = some t :=
    T.find?_eq_some_iff.mpr (List.prefix_append _ _)
  obtain ⟨w, hw, -⟩ := T.word_eq t
  rw [hw, List.cons_append] at hf ⊢
  rw [cut, hf]
  simp [hw, pieces, rest]

/-- A text at whose beginning a terminator is found. -/
theorem word_append_drop {a : α} {s : List α} {t : τ} (h : T.find? (a :: s) = some t) :
    T.word t ++ s.drop ((T.word t).length - 1) = a :: s := by
  obtain ⟨w, hw, -⟩ := T.word_eq t
  obtain ⟨s', hs'⟩ := T.word_prefix_of_find? h
  rw [hw, List.cons_append, List.cons.injEq] at hs'
  simp [hw, ← hs'.1, ← hs'.2]

/-- Every cut is at a symbol equal to the marker. -/
theorem marker_mem_of_pieces_ne_nil {s : List α} (h : T.pieces s ≠ []) : T.marker ∈ s := by
  induction s with
  | nil => simp [pieces] at h
  | cons a s ih =>
    rcases hf : T.find? (a :: s) with _ | t
    · have hs : T.pieces s ≠ [] := by
        intro h0
        apply h
        rw [pieces, T.cut_cons_none hf, show T.cut s = ([], T.rest s) from Prod.ext h0 rfl]
        rfl
      exact List.mem_cons_of_mem _ (ih hs)
    · obtain ⟨w, hw, -⟩ := T.word_eq t
      have hp := T.word_prefix_of_find? hf
      rw [hw, List.cons_prefix_cons] at hp
      simp [hp.1]

omit [DecidableEq α] in
theorem join_append (l l' : List (List α × τ)) : T.join (l ++ l') = T.join l ++ T.join l' := by
  simp [join]

/-- The pieces and the rest rebuild the text. -/
theorem join_cut (s : List α) : T.join (T.pieces s) ++ T.rest s = s := by
  induction s using cut.induct T with
  | case1 => simp [pieces, rest, join]
  | case2 a s t hf ih =>
    have hw := T.word_append_drop hf
    generalize s.drop ((T.word t).length - 1) = s' at hw ih
    rw [← hw, pieces, rest, T.cut_word_append]
    simpa [join] using ih
  | case3 a s hf ih =>
    rw [pieces, rest, T.cut_cons_none hf]
    rcases hc : T.cut s with ⟨_ | ⟨⟨p, t⟩, ps⟩, r⟩
    · simp only [pieces, rest, hc] at ih
      simpa [push, join] using ih
    · simp only [pieces, rest, hc] at ih
      simpa [push, join] using ih

/-- A text without pieces is its own rest. -/
theorem rest_eq_self {s : List α} (h : T.pieces s = []) : T.rest s = s := by
  have := T.join_cut s
  rwa [h, join, List.flatMap_nil, List.nil_append] at this

/-- A terminator that only appears once a text is continued starts in a text without pieces. -/
theorem pieces_eq_nil_of_straddle {a : α} {s y : List α} {t : τ} (hs : T.find? (a :: s) = none)
    (ht : T.find? (a :: s ++ y) = some t) : T.pieces (a :: s) = [] := by
  have hp := T.word_prefix_of_find? ht
  have hx : a :: s <+: T.word t := by
    rcases List.prefix_or_prefix_of_prefix hp (List.prefix_append (a :: s) y) with h | h
    · exact absurd h (T.find?_eq_none_iff.mp hs t)
    · exact h
  obtain ⟨w, hw, hm⟩ := T.word_eq t
  rw [hw, List.cons_prefix_cons] at hx
  have hs0 : T.pieces s = [] := by
    by_contra h
    exact hm (hx.2.subset (T.marker_mem_of_pieces_ne_nil h))
  rw [pieces, T.cut_cons_none hs, show T.cut s = ([], T.rest s) from Prod.ext hs0 rfl]
  rfl

/-- **Cutting in chunks.** The rest of a text is fed in front of what follows it. -/
theorem cut_append (x y : List α) :
    T.cut (x ++ y) = (T.pieces x ++ T.pieces (T.rest x ++ y), T.rest (T.rest x ++ y)) := by
  induction x using cut.induct T with
  | case1 => simp [pieces, rest]
  | case2 a s t hf ih =>
    have hw := T.word_append_drop hf
    generalize s.drop ((T.word t).length - 1) = s' at hw ih
    have h1 : T.pieces (a :: s) = ([], t) :: T.pieces s' := by
      rw [← hw, pieces, T.cut_word_append]
    have h2 : T.rest (a :: s) = T.rest s' := by
      rw [← hw, rest, T.cut_word_append]
    rw [h1, h2, ← hw, List.append_assoc, T.cut_word_append, pieces, rest, ih]
    rfl
  | case3 a s hf ih =>
    rcases hy : T.find? (a :: s ++ y) with _ | t
    · rcases hps : T.pieces s with _ | ⟨⟨p, t⟩, ps⟩
      · -- no terminator in the first chunk: it is fed back whole
        have h0 : T.pieces (a :: s) = [] := by
          rw [pieces, T.cut_cons_none hf, show T.cut s = ([], T.rest s) from Prod.ext hps rfl]
          rfl
        rw [h0, T.rest_eq_self h0]
        rfl
      · have hc : T.cut s = ((p, t) :: ps, T.rest s) := Prod.ext hps rfl
        have h1 : T.pieces (a :: s) = (a :: p, t) :: ps := by
          rw [pieces, T.cut_cons_none hf, hc]; rfl
        have h2 : T.rest (a :: s) = T.rest s := by
          rw [rest, T.cut_cons_none hf, hc]; rfl
        rw [List.cons_append] at hy
        rw [h1, h2, List.cons_append, T.cut_cons_none hy, ih, hps]
        rfl
    · have h0 := T.pieces_eq_nil_of_straddle hf hy
      rw [h0, T.rest_eq_self h0]
      rfl

theorem pieces_append (x y : List α) :
    T.pieces (x ++ y) = T.pieces x ++ T.pieces (T.rest x ++ y) := by
  rw [pieces, T.cut_append]

theorem rest_append (x y : List α) : T.rest (x ++ y) = T.rest (T.rest x ++ y) := by
  rw [rest, T.cut_append]

/-- The rest holds no terminator. -/
theorem pieces_rest (s : List α) : T.pieces (T.rest s) = [] := by
  have h := T.pieces_append s []
  rw [List.append_nil, List.append_nil] at h
  exact List.self_eq_append_right.mp h

theorem pieces_append_word {r : List α} (hr : T.pieces r = []) (t : τ) :
    T.cut (r ++ T.word t) = ([(r, t)], []) := by
  induction r with
  | nil => simpa [pieces, rest] using T.cut_word_append t []
  | cons a r ih =>
    have hf : T.find? (a :: r) = none := by
      rcases hf : T.find? (a :: r) with _ | u
      · rfl
      · obtain ⟨s', hs'⟩ := T.word_prefix_of_find? hf
        rw [← hs', pieces, T.cut_word_append] at hr
        simp at hr
    have hr' : T.pieces r = [] := by
      rw [pieces, T.cut_cons_none hf] at hr
      rcases hc : T.cut r with ⟨_ | ⟨⟨p, t⟩, ps⟩, r'⟩
      · rw [pieces, hc]
      · simp [hc, push] at hr
    have hy : T.find? (a :: r ++ T.word t) = none := by
      rw [find?_eq_none_iff]
      intro u hu
      -- the word would hold the marker of `t` after its first symbol
      have hx : a :: r <+: T.word u := by
        have hp := List.prefix_append (a :: r) (T.word t)
        rcases List.prefix_or_prefix_of_prefix hu hp with h | h
        · exact absurd h (T.find?_eq_none_iff.mp hf u)
        · exact h
      have hlen : (a :: r).length < (T.word u).length := by
        rcases lt_or_ge (a :: r).length (T.word u).length with h | h
        · exact h
        · exact absurd (hx.eq_of_length_le h ▸ List.prefix_rfl) (T.find?_eq_none_iff.mp hf u)
      obtain ⟨z, hz⟩ := hx
      obtain ⟨w, hw, hm⟩ := T.word_eq u
      obtain ⟨v, hv, -⟩ := T.word_eq t
      rw [← hz, List.prefix_append_right_inj, hv] at hu
      rcases z with _ | ⟨b, z⟩
      · simp [← hz] at hlen
      · rw [List.cons_prefix_cons] at hu
        rw [← hz, List.cons_append, List.cons.injEq] at hw
        exact hm (by rw [← hw.2, hu.1]; simp)
    rw [List.cons_append] at hy ⊢
    rw [T.cut_cons_none hy, ih hr']
    rfl

theorem rest_append_word (n : List α) (t : τ) : T.rest (n ++ T.word t) = [] := by
  rw [T.rest_append, rest, T.pieces_append_word (T.pieces_rest n)]

@[simp] theorem rest_join (l : List (List α × τ)) : T.rest (T.join l) = [] := by
  induction l with
  | nil => simp [join, rest]
  | cons p l ih =>
    rw [← List.singleton_append, T.join_append, T.rest_append,
      show T.join [p] = p.1 ++ T.word p.2 by simp [join], T.rest_append_word]
    exact ih

/-- Terminated words are cut one by one. -/
theorem pieces_join (l : List (List α × τ)) :
    T.pieces (T.join l) = l.flatMap fun p => T.pieces (p.1 ++ T.word p.2) := by
  induction l with
  | nil => simp [join, pieces]
  | cons p l ih =>
    rw [← List.singleton_append, T.join_append, T.pieces_append, T.rest_join, List.nil_append, ih]
    simp [join]

/-- **Unique decoding up to cuts**: two lists of terminated words spell the same text if and only
if they have the same pieces. -/
theorem join_eq_join_iff (l l' : List (List α × τ)) :
    T.join l = T.join l' ↔ (l.flatMap fun p => T.pieces (p.1 ++ T.word p.2)) =
      l'.flatMap fun p => T.pieces (p.1 ++ T.word p.2) := by
  rw [← T.pieces_join, ← T.pieces_join]
  refine ⟨fun h => by rw [h], fun h => ?_⟩
  have h1 := T.join_cut (T.join l)
  have h2 := T.join_cut (T.join l')
  rw [T.rest_join, List.append_nil] at h1 h2
  rw [← h1, h, h2]

/-- A word that holds no terminator is one piece. -/
theorem pieces_word_of_not_infix {n : List α} (hn : ∀ t, ¬ T.word t <:+: n) (t : τ) :
    T.pieces (n ++ T.word t) = [(n, t)] := by
  have h0 : T.pieces n = [] := by
    rcases hp : T.pieces n with _ | ⟨⟨p, u⟩, ps⟩
    · rfl
    · have := T.join_cut n
      rw [hp] at this
      exact absurd ⟨p, T.join ps ++ T.rest n, by simpa [join] using this⟩ (hn u)
  rw [pieces, T.pieces_append_word h0]

/-! ## One-symbol terminators -/

omit [DecidableEq α] in
/-- A single symbol as the only terminator. -/
def single (a : α) : Terminators α Unit where
  word _ := [a]
  all := [()]
  mem_all _ := by simp
  marker := a
  word_eq _ := ⟨[], rfl, by simp⟩
  prefixFree _ := rfl

theorem pieces_single_of_notMem {a : α} {s : List α} (h : a ∉ s) : (single a).pieces s = [] := by
  by_contra hp
  exact h ((single a).marker_mem_of_pieces_ne_nil hp)

theorem rest_single_of_notMem {a : α} {s : List α} (h : a ∉ s) : (single a).rest s = s :=
  (single a).rest_eq_self (pieces_single_of_notMem h)

/-- The first piece ends at the first terminating symbol. -/
theorem cut_single_append {a : α} {l : List α} (h : a ∉ l) (s : List α) :
    (single a).cut (l ++ a :: s) = ((l, ()) :: (single a).pieces s, (single a).rest s) := by
  have hl := (single a).pieces_append_word (pieces_single_of_notMem h) ()
  have he : l ++ a :: s = (l ++ (single a).word ()) ++ s := by simp [single]
  rw [he, cut_append, pieces, rest, hl]
  rfl

theorem pieces_single_terminated {a : α} {l : List α} (h : a ∉ l) :
    (single a).pieces (l ++ [a]) = [(l, ())] := by
  rw [pieces, cut_single_append h]
  simp [pieces]

/-- The rest does not hold the terminating symbol. -/
theorem notMem_rest_single (a : α) (s : List α) : a ∉ (single a).rest s := by
  intro h
  obtain ⟨l, s', he, hl⟩ := List.eq_append_cons_of_mem h
  have hp := (single a).pieces_rest s
  rw [he, pieces, cut_single_append hl] at hp
  exact absurd hp (by simp)

end Terminators

end Outmdsd
