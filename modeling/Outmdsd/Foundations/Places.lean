import Mathlib.Algebra.BigOperators.Group.Finset.Basic
import Mathlib.Algebra.Order.BigOperators.Group.Finset
import Mathlib.Data.Fintype.Basic
import Mathlib.Data.List.Count

/-!
# Tokens and places

A system takes in tokens and moves them between finitely many places. The tokens are *conserved*
when each is at the places, taken together, as often as it was taken in. Taking in tokens
(`Conserved.accept`) and moving tokens from one place to another (`Conserved.move`) keep this; a
token that was taken in once is then in exactly one place (`Conserved.existsUnique`).
-/

namespace Outmdsd

namespace Places

variable {P τ : Type*} [Fintype P] [DecidableEq τ]
variable {accepted : List τ} {place place' : P → List τ} {p q : P} {m : List τ}

/-- Every token is at the places as often as it was taken in. -/
def Conserved (accepted : List τ) (place : P → List τ) : Prop :=
  ∀ t, ∑ p, (place p).count t = accepted.count t

theorem conserved_nil (h : ∀ p, place p = []) : Conserved [] place := fun t => by
  simp [h]

/-- A token that was taken in is at some place. -/
theorem Conserved.exists_mem (h : Conserved accepted place) {t : τ} (ht : t ∈ accepted) :
    ∃ p, t ∈ place p := by
  have hpos : ∑ p, (place p).count t ≠ 0 := by
    rw [h t]
    exact (List.count_pos_iff.mpr ht).ne'
  obtain ⟨p, -, hp⟩ := Finset.exists_ne_zero_of_sum_ne_zero hpos
  exact ⟨p, List.count_pos_iff.mp (Nat.pos_of_ne_zero hp)⟩

variable [DecidableEq P]

/-- Two places, and the others. -/
theorem sum_eq_add_add (hpq : p ≠ q) (f : P → ℕ) :
    ∑ r, f r = f p + (f q + ∑ r ∈ (Finset.univ.erase p).erase q, f r) := by
  rw [Finset.add_sum_erase _ f (Finset.mem_erase.mpr ⟨hpq.symm, Finset.mem_univ q⟩),
    Finset.add_sum_erase _ f (Finset.mem_univ p)]

/-- Tokens are taken in at a place. -/
theorem Conserved.accept (h : Conserved accepted place) (hp : (place' p).Perm (place p ++ m))
    (hr : ∀ r, r ≠ p → place' r = place r) : Conserved (accepted ++ m) place' := by
  intro t
  have hsum : ∑ r ∈ Finset.univ.erase p, (place' r).count t =
      ∑ r ∈ Finset.univ.erase p, (place r).count t :=
    Finset.sum_congr rfl fun r hm => by rw [hr r (Finset.ne_of_mem_erase hm)]
  have hold := h t
  rw [← Finset.add_sum_erase _ _ (Finset.mem_univ p)] at hold ⊢
  rw [hsum, hp.count_eq, List.count_append, List.count_append]
  omega

/-- Tokens move from one place to another. -/
theorem Conserved.move (h : Conserved accepted place) (hpq : p ≠ q)
    (hp : (place p).Perm (m ++ place' p)) (hq : (place' q).Perm (place q ++ m))
    (hr : ∀ r, r ≠ p → r ≠ q → place' r = place r) : Conserved accepted place' := by
  intro t
  have hsum : ∑ r ∈ (Finset.univ.erase p).erase q, (place' r).count t =
      ∑ r ∈ (Finset.univ.erase p).erase q, (place r).count t :=
    Finset.sum_congr rfl fun r hm => by
      obtain ⟨hne, hm⟩ := Finset.mem_erase.mp hm
      rw [hr r (Finset.ne_of_mem_erase hm) hne]
  have hold := h t
  rw [sum_eq_add_add hpq, hp.count_eq, List.count_append] at hold
  rw [sum_eq_add_add hpq, hsum, hq.count_eq, List.count_append]
  omega

/-- Tokens are taken in at a place, from which others move on. -/
theorem Conserved.accept_move (h : Conserved accepted place) {m' : List τ} (hpq : p ≠ q)
    (hp : (place p ++ m).Perm (m' ++ place' p)) (hq : (place' q).Perm (place q ++ m'))
    (hr : ∀ r, r ≠ p → r ≠ q → place' r = place r) : Conserved (accepted ++ m) place' := by
  have hin : Conserved (accepted ++ m) (Function.update place p (place p ++ m)) :=
    h.accept (p := p) (by rw [Function.update_self]) fun r hr => Function.update_of_ne hr _ _
  refine hin.move (m := m') hpq ?_ ?_ fun r hrp hrq => ?_
  · rw [Function.update_self]
    exact hp
  · rw [Function.update_of_ne hpq.symm]
    exact hq
  · rw [Function.update_of_ne hrp]
    exact hr r hrp hrq

/-- Tokens that are taken in once are not at two places. -/
theorem Conserved.eq_of_mem (h : Conserved accepted place) (hn : accepted.Nodup) {t : τ}
    (hp : t ∈ place p) (hq : t ∈ place q) : p = q := by
  by_contra hpq
  have hone := List.nodup_iff_count_le_one.mp hn t
  have hcp := List.count_pos_iff.mpr hp
  have hcq := List.count_pos_iff.mpr hq
  rw [← h t, sum_eq_add_add hpq] at hone
  omega

/-- **A token that was taken in once is in exactly one place.** -/
theorem Conserved.existsUnique (h : Conserved accepted place) (hn : accepted.Nodup) {t : τ}
    (ht : t ∈ accepted) : ∃! p, t ∈ place p := by
  obtain ⟨p, hp⟩ := h.exists_mem ht
  exact ⟨p, hp, fun q hq => h.eq_of_mem hn hq hp⟩

end Places

end Outmdsd
