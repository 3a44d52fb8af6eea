import Mathlib.Data.Option.Basic

/-!
# Runs of a labelled step function

A system is a partial step function `step : σ → ℓ → Option σ`: the label says which party moves
and what its environment answers, and `none` means that the party cannot make this step. A *run*
is a list of labels, `exec` executes it, and `Reach step ok s₀ s` says that some run leads from
`s₀` to `s` in which every step satisfies `ok` at the state it is taken in (`Reach.of_exec` gives
such a run by evaluation).

Safety is proved once for all systems: an invariant that holds initially and that every `ok` step
preserves holds in every reached state (`Reach.invariant`).
-/

namespace Outmdsd

variable {σ ℓ : Type*}

/-- The states reached from `s₀` by steps that satisfy `ok`. -/
inductive Reach (step : σ → ℓ → Option σ) (ok : σ → ℓ → Prop) (s₀ : σ) : σ → Prop
  | init : Reach step ok s₀ s₀
  | step {s s' : σ} {l : ℓ} :
      Reach step ok s₀ s → ok s l → step s l = some s' → Reach step ok s₀ s'

/-- Execute a list of labels. -/
def exec (step : σ → ℓ → Option σ) : σ → List ℓ → Option σ
  | s, [] => some s
  | s, l :: ls => (step s l).bind fun s' => exec step s' ls

/-- Every step of the run satisfies `ok`. -/
def okRun (step : σ → ℓ → Option σ) (ok : σ → ℓ → Bool) : σ → List ℓ → Bool
  | _, [] => true
  | s, l :: ls => ok s l && match step s l with
    | some s' => okRun step ok s' ls
    | none => true

variable {step : σ → ℓ → Option σ} {ok ok' : σ → ℓ → Prop} {s₀ s s' : σ}

namespace Reach

theorem mono (h : Reach step ok s₀ s) (himp : ∀ s l, ok s l → ok' s l) :
    Reach step ok' s₀ s := by
  induction h with
  | init => exact .init
  | step _ hok hs ih => exact .step ih (himp _ _ hok) hs

theorem trans (h : Reach step ok s₀ s) (h' : Reach step ok s s') : Reach step ok s₀ s' := by
  induction h' with
  | init => exact h
  | step _ hok hs ih => exact .step ih hok hs

/-- **Invariance.** What holds initially and is preserved by every `ok` step holds in every
reached state. -/
theorem invariant {I : σ → Prop} (h : Reach step ok s₀ s) (h₀ : I s₀)
    (hstep : ∀ s l s', I s → ok s l → step s l = some s' → I s') : I s := by
  induction h with
  | init => exact h₀
  | step _ hok hs ih => exact hstep _ _ _ ih hok hs

/-- The steps of a run may use what the run preserves. -/
theorem strengthen {I : σ → Prop} (h : Reach step ok s₀ s) (h₀ : I s₀)
    (hstep : ∀ s l s', I s → ok s l → step s l = some s' → I s') :
    Reach step (fun s l => ok s l ∧ I s) s₀ s := by
  induction h with
  | init => exact .init
  | step hr hok hs ih => exact .step ih ⟨hok, hr.invariant h₀ hstep⟩ hs

/-- A list of labels that executes with every step `ok` is a run. -/
theorem of_exec {okb : σ → ℓ → Bool} (hok : ∀ s l, okb s l = true → ok s l) :
    ∀ {ls : List ℓ} {s₀ s : σ}, okRun step okb s₀ ls = true → exec step s₀ ls = some s →
      Reach step ok s₀ s
  | [], s₀, s, _, h => by
    obtain rfl : s₀ = s := by simpa [exec] using h
    exact .init
  | l :: ls, s₀, s, ho, h => by
    rcases hl : step s₀ l with _ | s₁
    · simp [exec, hl] at h
    · simp only [exec, hl, Option.bind_some] at h
      simp only [okRun, hl, Bool.and_eq_true] at ho
      exact (Reach.init.step (hok _ _ ho.1) hl).trans (of_exec hok ho.2 h)

/-- A run whose last state passes a test, by evaluation. -/
theorem exists_of_exec {okb : σ → ℓ → Bool} {test : σ → Bool} {ls : List ℓ}
    (hok : ∀ s l, okb s l = true → ok s l) (ho : okRun step okb s₀ ls = true)
    (h : (exec step s₀ ls).map test = some true) :
    ∃ s, Reach step ok s₀ s ∧ test s = true := by
  rcases he : exec step s₀ ls with _ | s
  · simp [he] at h
  · simp only [he, Option.map_some, Option.some.injEq] at h
    exact ⟨s, of_exec hok ho he, h⟩

end Reach

end Outmdsd
