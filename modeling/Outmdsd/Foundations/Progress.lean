import Mathlib.Algebra.Order.Group.Nat
import Outmdsd.Foundations.Runs

/-!
# Bounded work

A *measure* of a system bounds the steps of one kind in every run: each of them lowers it, and no
other step raises it (`Lowers.run`). If some run lowers the measure as long as the system is not
where it should be, then some run leads there (`exists_run`); the run is put together from those
pieces.
-/

namespace Outmdsd

variable {σ ℓ : Type*} {step : σ → ℓ → Option σ} {s s₁ s' : σ} {ls ls' : List ℓ} {l : ℓ}

@[simp] theorem exec_nil (step : σ → ℓ → Option σ) (s : σ) : exec step s [] = some s := rfl

theorem exec_cons (h : step s l = some s₁) : exec step s (l :: ls) = exec step s₁ ls := by
  rw [exec, h, Option.bind_some]

theorem exec_append (h : exec step s ls = some s₁) :
    exec step s (ls ++ ls') = exec step s₁ ls' := by
  induction ls generalizing s with
  | nil =>
    obtain rfl : s = s₁ := Option.some.inj h
    rfl
  | cons l ls ih =>
    obtain ⟨t, ht, h⟩ := Option.bind_eq_some_iff.mp h
    rw [List.cons_append, exec_cons ht]
    exact ih h

/-- What the steps keep, a run keeps. -/
theorem exec_invariant {ok : ℓ → Prop} {I : σ → Prop}
    (hstep : ∀ s l s', I s → ok l → step s l = some s' → I s') (hI : I s) (hok : ∀ l ∈ ls, ok l)
    (h : exec step s ls = some s') : I s' := by
  induction ls generalizing s with
  | nil =>
    obtain rfl : s = s' := Option.some.inj h
    exact hI
  | cons l ls ih =>
    obtain ⟨s₁, hs₁, h⟩ := Option.bind_eq_some_iff.mp h
    exact ih (hstep _ _ _ hI (hok l (by simp)) hs₁) (fun l hl => hok l (by simp [hl])) h

/-- Under the invariant `I`, an `ok` step that counts lowers `μ`, and no `ok` step raises it. -/
structure Lowers (step : σ → ℓ → Option σ) (ok : ℓ → Prop) (counts : ℓ → Bool) (I : σ → Prop)
    (μ : σ → ℕ) : Prop where
  keeps : ∀ s l s', I s → ok l → step s l = some s' → I s'
  lower : ∀ s l s', I s → ok l → step s l = some s' → μ s' + (if counts l then 1 else 0) ≤ μ s

/-- **The steps that count are paid for by the measure.** -/
theorem Lowers.run {ok : ℓ → Prop} {counts : ℓ → Bool} {I : σ → Prop} {μ : σ → ℕ}
    (h : Lowers step ok counts I μ) (hI : I s) (hok : ∀ l ∈ ls, ok l)
    (hs : exec step s ls = some s') : I s' ∧ μ s' + ls.countP counts ≤ μ s := by
  induction ls generalizing s with
  | nil =>
    obtain rfl : s = s' := Option.some.inj hs
    exact ⟨hI, le_rfl⟩
  | cons l ls ih =>
    obtain ⟨s₁, hs₁, hs⟩ := Option.bind_eq_some_iff.mp hs
    have hl := hok l (by simp)
    have hlower := h.lower _ _ _ hI hl hs₁
    obtain ⟨hI', hrest⟩ := ih (h.keeps _ _ _ hI hl hs₁) (fun l hl => hok l (by simp [hl])) hs
    refine ⟨hI', ?_⟩
    rw [List.countP_cons]
    omega

/-- Some run of steps in `P` leads from `s` to a state with `Q`. -/
def CanReach (step : σ → ℓ → Option σ) (P : ℓ → Prop) (s : σ) (Q : σ → Prop) : Prop :=
  ∃ ls s', (∀ l ∈ ls, P l) ∧ exec step s ls = some s' ∧ Q s'

namespace CanReach

variable {P : ℓ → Prop} {Q Q' : σ → Prop}

theorem here (h : Q s) : CanReach step P s Q := ⟨[], s, by simp, rfl, h⟩

theorem mono {P' : ℓ → Prop} (h : CanReach step P s Q) (hP : ∀ l, P l → P' l)
    (hQ : ∀ s, Q s → Q' s) : CanReach step P' s Q' := by
  obtain ⟨ls, s', hls, hs, hq⟩ := h
  exact ⟨ls, s', fun l hl => hP l (hls l hl), hs, hQ s' hq⟩

theorem trans (h : CanReach step P s Q) (h' : ∀ s, Q s → CanReach step P s Q') :
    CanReach step P s Q' := by
  obtain ⟨ls, s₁, hls, hs, hq⟩ := h
  obtain ⟨ls', s', hls', hs', hq'⟩ := h' s₁ hq
  exact ⟨ls ++ ls', s', List.forall_mem_append.mpr ⟨hls, hls'⟩, (exec_append hs).trans hs', hq'⟩

/-- What the steps keep holds at the end, too. -/
theorem keeps {I : σ → Prop} (h : CanReach step P s Q) (hI : I s)
    (hstep : ∀ s l s', I s → P l → step s l = some s' → I s') :
    CanReach step P s fun t => I t ∧ Q t := by
  obtain ⟨ls, s', hls, hs, hq⟩ := h
  exact ⟨ls, s', hls, hs, exec_invariant hstep hI hls hs, hq⟩

/-- One step more in front. -/
theorem head (hl : P l) (hs : step s l = some s₁) (h : CanReach step P s₁ Q) :
    CanReach step P s Q := by
  obtain ⟨ls, s', hls, hs', hq⟩ := h
  exact ⟨l :: ls, s', List.forall_mem_cons.mpr ⟨hl, hls⟩, (exec_cons hs).trans hs', hq⟩

theorem single (hl : P l) (hs : step s l = some s') (h : Q s') : CanReach step P s Q :=
  head hl hs (here h)

end CanReach

/-- **Progress.** If from every state of `I` some run either gets to `Q` or lowers the measure and
stays in `I`, then some run gets to `Q`. -/
theorem exists_run {P : ℓ → Prop} {I Q : σ → Prop} {μ : σ → ℕ}
    (hstep : ∀ s, I s → CanReach step P s fun t => Q t ∨ I t ∧ μ t < μ s) (hI : I s) :
    CanReach step P s Q := by
  induction hn : μ s using Nat.strong_induction_on generalizing s with
  | h n ih =>
    refine (hstep s hI).trans fun t ht => ?_
    rcases ht with hq | ⟨ht, hlt⟩
    · exact .here hq
    · exact ih (μ t) (hn ▸ hlt) ht rfl

end Outmdsd
