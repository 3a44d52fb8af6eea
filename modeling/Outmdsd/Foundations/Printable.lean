import Outmdsd.Foundations.Spelling

/-!
# The elements of JSON texts

A JSON text holds no control characters but white space between its tokens: in a string they are
written as escapes (`printable_of_parse`). So a text that is read as a value holds no NUL.
-/

namespace Outmdsd.Json

open Alphabet

variable {α : Type*} [Alphabet α]

/-- No control character, or white space. -/
def Printable (c : α) : Prop := 32 ≤ code c ∨ isSpace c = true

/-- What a reader has read of a text is printable. -/
def Consumes (t r : List α) : Prop := ∃ p, t = p ++ r ∧ ∀ c ∈ p, Printable c

namespace Consumes

variable {t r s : List α} {c : α}

theorem refl (t : List α) : Consumes t t := ⟨[], rfl, by simp⟩

theorem trans (h : Consumes t r) (h' : Consumes r s) : Consumes t s := by
  obtain ⟨p, rfl, hp⟩ := h
  obtain ⟨q, rfl, hq⟩ := h'
  refine ⟨p ++ q, (List.append_assoc p q s).symm, fun c hc => ?_⟩
  exact (List.mem_append.mp hc).elim (hp c) (hq c)

theorem cons (hc : 32 ≤ code c) (h : Consumes t r) : Consumes (c :: t) r := by
  obtain ⟨p, rfl, hp⟩ := h
  exact ⟨c :: p, rfl, List.forall_mem_cons.mpr ⟨.inl hc, hp⟩⟩

/-- One element behind a text. -/
theorem snoc (h : Consumes t (c :: r)) (hc : 32 ≤ code c) : Consumes t r :=
  h.trans ((refl r).cons hc)

theorem forall_mem (h : Consumes t r) (hr : ∀ c ∈ r, Printable c) : ∀ c ∈ t, Printable c := by
  obtain ⟨p, rfl, hp⟩ := h
  exact fun c hc => (List.mem_append.mp hc).elim (hp c) (hr c)

end Consumes

theorem consumes_skip (t : List α) : Consumes t (skip t) :=
  ⟨t.takeWhile isSpace, (List.takeWhile_append_dropWhile).symm, fun _ hc =>
    .inr (List.mem_takeWhile_imp hc)⟩

/-- White space, and an element that is none. -/
theorem consumes_of_skip {t r : List α} {c : α} (h : skip t = c :: r) (hc : 32 ≤ code c) :
    Consumes t r := by
  have ht := consumes_skip t
  rw [h] at ht
  exact ht.snoc hc

theorem consumes_strip {ks : List ℕ} (h : ∀ k ∈ ks, 32 ≤ k) {t r : List α}
    (ht : strip ks t = some r) : Consumes t r := by
  induction ks generalizing t with
  | nil =>
    cases ht
    exact .refl _
  | cons k ks ih =>
    cases t with
    | nil => cases ht
    | cons c t =>
      rw [strip] at ht
      split at ht
      · rename_i hc
        have hk := h k (by simp)
        exact (ih (fun k' hk' => h k' (by simp [hk'])) ht).cons (by omega)
      · cases ht

theorem NumberElem.le_code {c : α} (h : NumberElem c) : 32 ≤ code c := by
  unfold NumberElem at h
  simp only [isDigit, Bool.and_eq_true, decide_eq_true_eq] at h
  omega

/-! ## Strings -/

theorem le_of_hexDigit {c : α} {v : ℕ} (h : hexDigit c = some v) : 32 ≤ code c := by
  unfold hexDigit at h
  split at h
  · omega
  · split at h
    · omega
    · split at h
      · omega
      · cases h

theorem le_of_hex4 {ds : List α} {n : ℕ} (h : hex4 ds = some (n, [])) : ∀ c ∈ ds, 32 ≤ code c := by
  match ds, h with
  | a :: b :: c :: d :: t, h =>
    rw [hex4] at h
    split at h
    · rename_i ha hb hc hd
      obtain ⟨-, rfl⟩ := Prod.mk.inj (Option.some.inj h)
      simp only [List.forall_mem_cons, le_of_hexDigit ha, le_of_hexDigit hb, le_of_hexDigit hc,
        le_of_hexDigit hd, true_and]
      simp
    · cases h

theorem le_of_simpleEscape {e k : ℕ} (h : simpleEscape e = some k) : 32 ≤ e := by
  unfold simpleEscape at h
  split at h
  any_goals decide
  cases h

theorem StringUnit.le_code {p u : List α} (h : StringUnit p u) : ∀ c ∈ p, 32 ≤ code c := by
  cases h with
  | plain hc => simpa using hc.1
  | simple hb he =>
    have := le_of_simpleEscape he
    simp only [List.forall_mem_cons]
    exact ⟨by omega, this, by simp⟩
  | unicode hb hu hd hn =>
    simp only [List.forall_mem_cons]
    exact ⟨by omega, by omega, le_of_hex4 hd⟩
  | pair hb hu hd hh hb' hu' hd' hl =>
    simp only [List.forall_mem_cons, List.forall_mem_append]
    exact ⟨by omega, by omega, le_of_hex4 hd, by omega, by omega, le_of_hex4 hd'⟩

theorem StringBody.le_code {s d : List α} (h : StringBody s d) : ∀ c ∈ s, 32 ≤ code c := by
  induction h with
  | nil => simp
  | unit hp _ ih => exact List.forall_mem_append.mpr ⟨hp.le_code, ih⟩

theorem consumes_string {t s r : List α} (h : string t = some (s, r)) : Consumes t r := by
  unfold string at h
  split at h
  · cases h
  · rename_i hr
    split at h
    · cases h
      obtain ⟨s', q, hs, hq, rfl⟩ := rawString_eq_some_iff.mp hr
      exact Consumes.snoc ⟨s', rfl, fun c hc => .inl (hs.le_code c hc)⟩ (by omega)
    · cases h

/-! ## Values -/

theorem consumes_number {t r : List α} {q : ℚ} (h : number t = some (q, r)) : Consumes t r := by
  obtain ⟨p, rfl, hp⟩ := elems_number h
  exact ⟨p, rfl, fun c hc => .inl (hp c hc).le_code⟩

theorem consumes_scalar {t r : List α} {v : Json α} (h : scalar t = some (v, r)) :
    Consumes t r := by
  have ht : ∀ k ∈ "true".toList.map Char.toNat, 32 ≤ k := by decide
  have hf : ∀ k ∈ "false".toList.map Char.toNat, 32 ≤ k := by decide
  have hn : ∀ k ∈ "null".toList.map Char.toNat, 32 ≤ k := by decide
  unfold scalar at h
  split at h
  · rename_i hs
    cases h
    exact consumes_strip ht hs
  · rename_i hs
    cases h
    exact consumes_strip hf hs
  · rename_i hs
    cases h
    exact consumes_strip hn hs
  · obtain ⟨⟨q, r'⟩, hq, he⟩ := Option.map_eq_some_iff.mp h
    cases he
    exact consumes_number hq

/-- What the readers read with a fuel is printable. -/
structure ReadsPrintable (α : Type*) [Alphabet α] (fuel : ℕ) : Prop where
  value : ∀ {t r : List α} {v : Json α}, value fuel t = some (v, r) → Consumes t r
  elements : ∀ {t r : List α} {vs : List (Json α)}, elements fuel t = some (vs, r) → Consumes t r
  members : ∀ {t r : List α} {ms : List (List α × Json α)}, members fuel t = some (ms, r) →
    Consumes t r

variable {fuel : ℕ}

theorem ReadsPrintable.value_succ (h : ReadsPrintable α fuel) {t r : List α} {v : Json α}
    (hv : Json.value (fuel + 1) t = some (v, r)) : Consumes t r := by
  cases t with
  | nil => cases hv
  | cons c t =>
    rw [Json.value] at hv
    split at hv
    · rename_i hc
      obtain ⟨⟨u, r'⟩, hu, he⟩ := Option.map_eq_some_iff.mp hv
      cases he
      exact (consumes_string hu).cons (by omega)
    · split at hv
      · rename_i hc
        refine Consumes.cons (by omega) ?_
        split at hv
        · cases hv
        · rename_i d t' hs
          split at hv
          · cases hv
            exact consumes_of_skip hs (by omega)
          · obtain ⟨⟨vs, r'⟩, hvs, he⟩ := Option.map_eq_some_iff.mp hv
            cases he
            exact (hs ▸ consumes_skip t).trans (h.elements hvs)
      · split at hv
        · rename_i hc
          refine Consumes.cons (by omega) ?_
          split at hv
          · cases hv
          · rename_i d t' hs
            split at hv
            · cases hv
              exact consumes_of_skip hs (by omega)
            · obtain ⟨⟨ms, r'⟩, hms, he⟩ := Option.map_eq_some_iff.mp hv
              cases he
              exact (hs ▸ consumes_skip t).trans (h.members hms)
        · exact consumes_scalar hv

theorem ReadsPrintable.elements_succ (h : ReadsPrintable α fuel) {t r : List α} {vs : List (Json α)}
    (hv : Json.elements (fuel + 1) t = some (vs, r)) : Consumes t r := by
  rw [Json.elements] at hv
  split at hv
  · cases hv
  · rename_i v t' ht
    refine (h.value ht).trans ?_
    split at hv
    · cases hv
    · rename_i c t'' hs
      split at hv
      · obtain ⟨⟨vs', r'⟩, hvs, he⟩ := Option.map_eq_some_iff.mp hv
        cases he
        exact ((consumes_of_skip hs (by omega)).trans (consumes_skip t'')).trans (h.elements hvs)
      · split at hv
        · cases hv
          exact consumes_of_skip hs (by omega)
        · cases hv

theorem ReadsPrintable.members_succ (h : ReadsPrintable α fuel) {t r : List α}
    {ms : List (List α × Json α)} (hv : Json.members (fuel + 1) t = some (ms, r)) :
    Consumes t r := by
  cases t with
  | nil => cases hv
  | cons q t =>
    rw [Json.members] at hv
    split at hv
    · refine Consumes.cons (by omega) ?_
      split at hv
      · cases hv
      · rename_i k t₁ hk
        refine (consumes_string hk).trans ?_
        split at hv
        · cases hv
        · rename_i c t₂ hs
          split at hv
          · refine ((consumes_of_skip hs (by omega)).trans (consumes_skip t₂)).trans ?_
            split at hv
            · cases hv
            · rename_i v t₃ hval
              refine (h.value hval).trans ?_
              split at hv
              · cases hv
              · rename_i c' t₄ hs'
                split at hv
                · obtain ⟨⟨ms', r'⟩, hms, he⟩ := Option.map_eq_some_iff.mp hv
                  cases he
                  exact ((consumes_of_skip hs' (by omega)).trans (consumes_skip t₄)).trans
                    (h.members hms)
                · split at hv
                  · cases hv
                    exact consumes_of_skip hs' (by omega)
                  · cases hv
          · cases hv
    · cases hv

/-- By induction on the fuel: each reader calls the readers with less. -/
theorem readsPrintable (fuel : ℕ) : ReadsPrintable α fuel := by
  induction fuel with
  | zero =>
    constructor
    · intro t r v hv
      cases hv
    · intro t r vs hv
      cases hv
    · intro t r ms hv
      cases hv
  | succ fuel ih => exact ⟨ih.value_succ, ih.elements_succ, ih.members_succ⟩

/-- **The elements of a JSON text.** A text that is read as a value holds no control character but
white space. -/
theorem printable_of_parse {t : List α} {v : Json α} (h : parse t = some v) :
    ∀ c ∈ t, Printable c := by
  unfold parse at h
  split at h
  · rename_i w r hv
    split at h
    · rename_i hr
      have hc := (consumes_skip t).trans (((readsPrintable _).value hv).trans (consumes_skip r))
      rw [hr] at hc
      exact hc.forall_mem (by simp)
    · cases h
  · cases h

end Outmdsd.Json
