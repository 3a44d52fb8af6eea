import Mathlib.Data.List.Basic

/-!
# Ledgers

A ledger records the keys that were added to a store and the keys that were removed from it, each
with the reason. A key is live when it was added and not removed. In a store to which no key is
added twice and from which no key is removed before it is added, the live keys are those present:
adding makes the new key live (`live_add`), removing ends the life of a key for good
(`live_removeAll`).
-/

namespace Outmdsd

/-- The additions to a store and the removals from it. -/
structure Ledger (κ ρ : Type*) where
  added : List κ
  removed : List (κ × ρ)

namespace Ledger

variable {κ ρ : Type*} {L : Ledger κ ρ} {k k' : κ} {r : ρ}

def empty : Ledger κ ρ := ⟨[], []⟩

def add (L : Ledger κ ρ) (k : κ) : Ledger κ ρ := { L with added := L.added ++ [k] }

/-- Removals of a list of keys with their reasons. -/
def removeAll (L : Ledger κ ρ) (l : List (κ × ρ)) : Ledger κ ρ :=
  { L with removed := L.removed ++ l }

/-- Added and not removed. -/
def Live (L : Ledger κ ρ) (k : κ) : Prop := k ∈ L.added ∧ ∀ r, (k, r) ∉ L.removed

/-- Only added keys are removed. -/
def Sound (L : Ledger κ ρ) : Prop := ∀ k r, (k, r) ∈ L.removed → k ∈ L.added

@[simp] theorem added_add : (L.add k).added = L.added ++ [k] := rfl

@[simp] theorem removed_add : (L.add k).removed = L.removed := rfl

@[simp] theorem added_removeAll {l : List (κ × ρ)} : (L.removeAll l).added = L.added := rfl

@[simp] theorem removed_removeAll {l : List (κ × ρ)} :
    (L.removeAll l).removed = L.removed ++ l := rfl

theorem not_live_of_removed (h : (k, r) ∈ L.removed) : ¬ L.Live k := fun hl => hl.2 r h

theorem Sound.add (h : L.Sound) (k : κ) : (L.add k).Sound := fun k' r hr =>
  List.mem_append_left _ (h k' r hr)

theorem Sound.removeAll (h : L.Sound) {l : List (κ × ρ)} (hl : ∀ e ∈ l, e.1 ∈ L.added) :
    (L.removeAll l).Sound := fun k r hr => by
  rcases List.mem_append.mp hr with hr | hr
  · exact h k r hr
  · exact hl _ hr

/-- Adding a new key makes it live and changes no other. -/
theorem live_add (h : L.Sound) (hk : k ∉ L.added) : (L.add k).Live k' ↔ k' = k ∨ L.Live k' := by
  simp only [Live, added_add, removed_add, List.mem_append, List.mem_singleton]
  constructor
  · rintro ⟨hm | rfl, hr⟩
    · exact .inr ⟨hm, hr⟩
    · exact .inl rfl
  · rintro (rfl | ⟨hm, hr⟩)
    · exact ⟨.inr rfl, fun r hr => hk (h _ r hr)⟩
    · exact ⟨.inl hm, hr⟩

/-- Removing keys ends their life and changes no other. -/
theorem live_removeAll {l : List (κ × ρ)} :
    (L.removeAll l).Live k' ↔ L.Live k' ∧ k' ∉ l.map Prod.fst := by
  simp only [Live, added_removeAll, removed_removeAll, List.mem_append, List.mem_map, not_or,
    Prod.exists, exists_and_right, exists_eq_right, not_exists, forall_and, and_assoc]

end Ledger

end Outmdsd
