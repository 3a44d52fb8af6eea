import Mathlib.Data.List.Basic
import Mathlib.Logic.Function.Basic
import Mathlib.Data.Nat.Basic
import Mathlib.Order.Basic

/-!
# Interning

An interner hands out numbers for keys: the first request for a key stores its value under a new
number, and every later request for that key gets the stored number and value back. When the key
and the value of a request are computed from a *shape*, the answers identify the shapes of a run,
and give each its own value, exactly when no two different shapes of the run share a key
(`identifies_iff`).

Lookups and requests may also come in any order. The log of their answers (`Answered`) holds what
the table holds, and the numbers in it are those from 1 to the last one.
-/

namespace Outmdsd

/-- A table from keys to numbered values. -/
structure Interner (κ ν : Type*) where
  table : κ → Option (ℕ × ν)
  /-- The last number handed out. -/
  last : ℕ

namespace Interner

variable {σ κ ν : Type*} [DecidableEq κ]

/-- The interner without entries. -/
def empty : Interner κ ν := ⟨fun _ => none, 0⟩

/-- Answer one request. -/
def request (t : Interner κ ν) (k : κ) (v : ν) : (ℕ × ν) × Interner κ ν :=
  match t.table k with
  | some r => (r, t)
  | none => ((t.last + 1, v), ⟨Function.update t.table k (some (t.last + 1, v)), t.last + 1⟩)

/-- Answer the requests of a list of shapes in order. -/
def run (key : σ → κ) (val : σ → ν) (t : Interner κ ν) : List σ → List (ℕ × ν) × Interner κ ν
  | [] => ([], t)
  | s :: l =>
    let r := t.request (key s) (val s)
    let r' := run key val r.2 l
    (r.1 :: r'.1, r'.2)

/-- Different keys have different numbers, all of them handed out. -/
structure Sound (t : Interner κ ν) : Prop where
  le_last : ∀ {k r}, t.table k = some r → r.1 ≤ t.last
  inj : ∀ {k k' r r'}, t.table k = some r → t.table k' = some r' → r.1 = r'.1 → k = k'

omit [DecidableEq κ] in
theorem sound_empty : Sound (empty : Interner κ ν) := ⟨by simp [empty], by simp [empty]⟩

variable {t : Interner κ ν} {k : κ} {v : ν} {r : ℕ × ν}

/-- A request is answered from the table it leaves. -/
theorem table_request (t : Interner κ ν) (k : κ) (v : ν) :
    (t.request k v).2.table k = some (t.request k v).1 := by
  unfold request
  split
  · assumption
  · simp

/-- Entries never change. -/
theorem request_keeps {k' : κ} (h : t.table k' = some r) :
    (t.request k v).2.table k' = some r := by
  unfold request
  split
  · exact h
  · rename_i hk
    have hne : k' ≠ k := by rintro rfl; simp [h] at hk
    simpa [hne] using h

/-- An entry after a request was there before it, or is the new one. -/
theorem table_request_cases {k' : κ} (h : (t.request k v).2.table k' = some r) :
    (t.table k' = some r ∧ t.last ≤ (t.request k v).2.last) ∨
      (k' = k ∧ r.1 = t.last + 1 ∧ (t.request k v).2.last = t.last + 1) := by
  unfold request at h ⊢
  split at h
  · exact .inl ⟨h, le_rfl⟩
  · rcases eq_or_ne k' k with rfl | hne
    · simp only [Function.update_self, Option.some.injEq] at h
      exact .inr ⟨rfl, by rw [← h], rfl⟩
    · simp only [Function.update_of_ne hne] at h
      exact .inl ⟨h, Nat.le_succ _⟩

theorem Sound.request (ht : t.Sound) (k : κ) (v : ν) : (t.request k v).2.Sound := by
  constructor
  · intro k' r h
    rcases table_request_cases h with ⟨h, hl⟩ | ⟨-, hr, hl⟩
    · exact (ht.le_last h).trans hl
    · exact (hr.trans hl.symm).le
  · intro k₁ k₂ r₁ r₂ h₁ h₂ he
    rcases table_request_cases h₁ with ⟨h₁, -⟩ | ⟨hk₁, hr₁, -⟩ <;>
      rcases table_request_cases h₂ with ⟨h₂, -⟩ | ⟨hk₂, hr₂, -⟩
    · exact ht.inj h₁ h₂ he
    · have := ht.le_last h₁
      omega
    · have := ht.le_last h₂
      omega
    · rw [hk₁, hk₂]

variable (key : σ → κ) (val : σ → ν)

theorem Sound.run (ht : t.Sound) (l : List σ) : (t.run key val l).2.Sound := by
  induction l generalizing t with
  | nil => exact ht
  | cons s l ih => exact ih (ht.request (key s) (val s))

theorem run_keeps {k : κ} (l : List σ) (h : t.table k = some r) :
    (t.run key val l).2.table k = some r := by
  induction l generalizing t with
  | nil => exact h
  | cons s l ih => exact ih (request_keeps h)

@[simp] theorem length_run (t : Interner κ ν) (l : List σ) :
    (t.run key val l).1.length = l.length := by
  induction l generalizing t with
  | nil => rfl
  | cons s l ih => simp [run, ih]

/-- Every answer of a run is the entry of its key in the last table. -/
theorem table_of_mem_zip (t : Interner κ ν) (l : List σ) {s : σ}
    (h : (s, r) ∈ l.zip (t.run key val l).1) :
    (t.run key val l).2.table (key s) = some r := by
  induction l generalizing t with
  | nil => simp at h
  | cons s' l ih =>
    simp only [run, List.zip_cons_cons, List.mem_cons, Prod.mk.injEq] at h ⊢
    rcases h with ⟨rfl, rfl⟩ | h
    · exact run_keeps key val l (table_request ..)
    · exact ih _ h

/-- A key that is not yet in the table gets the value of its first request. -/
theorem snd_table_run (t : Interner κ ν) (l : List σ) {k : κ} (hk : t.table k = none) :
    ((t.run key val l).2.table k).map Prod.snd =
      (l.find? fun s => decide (key s = k)).map val := by
  induction l generalizing t with
  | nil => simp [run, hk]
  | cons s l ih =>
    rcases eq_or_ne (key s) k with rfl | hne
    · have h := table_request t (key s) (val s)
      have hv : (t.request (key s) (val s)).1.2 = val s := by simp [request, hk]
      simp [run, run_keeps key val l h, hv]
    · have hk' : (t.request (key s) (val s)).2.table k = none := by
        unfold request
        split
        · exact hk
        · simpa [hne.symm] using hk
      simpa [run, hne] using ih _ hk'

/-- Every answer carries the value of the first request of the run for its key. -/
theorem snd_of_mem_zip (l : List σ) {s : σ}
    (h : (s, r) ∈ l.zip ((empty : Interner κ ν).run key val l).1) :
    ∃ s₀ ∈ l, key s₀ = key s ∧ l.find? (fun s' => decide (key s' = key s)) = some s₀ ∧
      r.2 = val s₀ := by
  have ht := table_of_mem_zip key val empty l h
  have hs := snd_table_run key val (empty : Interner κ ν) l (k := key s) rfl
  rw [ht, Option.map_some] at hs
  rcases hf : l.find? (fun s' => decide (key s' = key s)) with _ | s₀
  · simp [hf] at hs
  · rw [hf, Option.map_some, Option.some.injEq] at hs
    exact ⟨s₀, List.mem_of_find?_eq_some hf, by simpa using List.find?_some hf, rfl, hs⟩

theorem snd_run_append_singleton (t : Interner κ ν) (l : List σ) (s : σ) :
    (t.run key val (l ++ [s])).2 = ((t.run key val l).2.request (key s) (val s)).2 := by
  induction l generalizing t with
  | nil => rfl
  | cons s' l ih => exact ih _

/-- A request after a run is answered with the value of the first request for its key. -/
theorem snd_request_run (l : List σ) (s : σ) :
    ∃ s₀, (l ++ [s]).find? (fun s' => decide (key s' = key s)) = some s₀ ∧
      (((empty : Interner κ ν).run key val l).2.request (key s) (val s)).1.2 = val s₀ := by
  have ht := table_request ((empty : Interner κ ν).run key val l).2 (key s) (val s)
  rw [← snd_run_append_singleton] at ht
  have hs := snd_table_run key val (empty : Interner κ ν) (l ++ [s]) (k := key s) rfl
  rw [ht, Option.map_some] at hs
  cases hf : (l ++ [s]).find? (fun s' => decide (key s' = key s)) with
  | none => simp [hf] at hs
  | some s₀ =>
    rw [hf, Option.map_some, Option.some.injEq] at hs
    exact ⟨s₀, rfl, hs⟩

/-- Two answers of a run have the same number if and only if their requests have the same key. -/
theorem fst_eq_iff (l : List σ) {s s' : σ} {r r' : ℕ × ν}
    (h : (s, r) ∈ l.zip ((empty : Interner κ ν).run key val l).1)
    (h' : (s', r') ∈ l.zip ((empty : Interner κ ν).run key val l).1) :
    r.1 = r'.1 ↔ key s = key s' := by
  have ht := table_of_mem_zip key val empty l h
  have ht' := table_of_mem_zip key val empty l h'
  refine ⟨(sound_empty.run key val l).inj ht ht', fun he => ?_⟩
  rw [he, ht', Option.some.injEq] at ht
  rw [ht]

theorem exists_mem_zip (l : List σ) {s : σ} (hs : s ∈ l) :
    ∃ r, (s, r) ∈ l.zip (t.run key val l).1 := by
  obtain ⟨i, hi, rfl⟩ := List.mem_iff_getElem.mp hs
  have hi' : i < (t.run key val l).1.length := by simpa using hi
  exact ⟨_, List.mem_iff_getElem.mpr ⟨i, by simpa using hi, List.getElem_zip⟩⟩

/-- The answers give every shape its own value and separate the shapes of the run if and only if
the key does. -/
theorem separates_iff (l : List σ) :
    ((∀ p ∈ l.zip ((empty : Interner κ ν).run key val l).1, p.2.2 = val p.1) ∧
      ∀ p ∈ l.zip ((empty : Interner κ ν).run key val l).1,
        ∀ q ∈ l.zip ((empty : Interner κ ν).run key val l).1, p.2.1 = q.2.1 → p.1 = q.1) ↔
      ∀ s ∈ l, ∀ s' ∈ l, key s = key s' → s = s' := by
  constructor
  · rintro ⟨-, hid⟩ s hs s' hs' he
    obtain ⟨r, hr⟩ := exists_mem_zip key val l hs
    obtain ⟨r', hr'⟩ := exists_mem_zip key val l hs'
    exact hid _ hr _ hr' ((fst_eq_iff key val l hr hr').mpr he)
  · intro hinj
    refine ⟨fun p hp => ?_, fun p hp q hq h => ?_⟩
    · obtain ⟨s₀, hs₀, he, -, hv⟩ := snd_of_mem_zip key val l hp
      rw [hv, hinj s₀ hs₀ p.1 (List.of_mem_zip hp).1 he]
    · exact hinj _ (List.of_mem_zip hp).1 _ (List.of_mem_zip hq).1
        ((fst_eq_iff key val l hp hq).mp h)

/-- **What interning identifies.** The answers give every shape its own value, and the same number
to equal shapes only, if and only if the key tells the shapes of the run apart. -/
theorem identifies_iff (l : List σ) :
    ((∀ p ∈ l.zip ((empty : Interner κ ν).run key val l).1, p.2.2 = val p.1) ∧
      ∀ p ∈ l.zip ((empty : Interner κ ν).run key val l).1,
        ∀ q ∈ l.zip ((empty : Interner κ ν).run key val l).1, p.2.1 = q.2.1 ↔ p.1 = q.1) ↔
      ∀ s ∈ l, ∀ s' ∈ l, key s = key s' → s = s' := by
  rw [← separates_iff key val]
  refine and_congr_right fun _ => forall₄_congr fun p hp q hq => ?_
  exact ⟨Iff.mp, fun h => ⟨h, fun e => (fst_eq_iff key val l hp hq).mpr (congrArg key e)⟩⟩

/-! ## Answers in any order -/

/-- The answers given so far, under their keys: they are the entries of the table, and their numbers
are those from 1 to the last one. -/
structure Answered (t : Interner κ ν) (log : List (κ × ℕ × ν)) : Prop where
  sound : t.Sound
  mem_iff : ∀ k r, (k, r) ∈ log ↔ t.table k = some r
  numbers : ∀ n, n ∈ log.map (fun a => a.2.1) ↔ 1 ≤ n ∧ n ≤ t.last

omit [DecidableEq κ] in
theorem answered_empty : Answered (empty : Interner κ ν) [] :=
  ⟨sound_empty, by simp [empty], fun n => by simp [empty]; omega⟩

omit [DecidableEq κ] in
/-- An answer given once more. -/
theorem Answered.again {log : List (κ × ℕ × ν)} (h : t.Answered log) (hk : t.table k = some r) :
    t.Answered (log ++ [(k, r)]) := by
  have hm : (k, r) ∈ log := (h.mem_iff k r).mpr hk
  refine ⟨h.sound, fun k' r' => ?_, fun n => ?_⟩
  · rw [← h.mem_iff, List.mem_append, List.mem_singleton]
    exact ⟨fun hl => hl.elim id fun he => he ▸ hm, .inl⟩
  · rw [← h.numbers, List.map_append, List.mem_append, List.map_singleton, List.mem_singleton]
    exact ⟨fun hl => hl.elim id fun he => he ▸ List.mem_map_of_mem hm, .inl⟩

/-- The answer to a request. -/
theorem Answered.request {log : List (κ × ℕ × ν)} (h : t.Answered log) (k : κ) (v : ν) :
    (t.request k v).2.Answered (log ++ [(k, (t.request k v).1)]) := by
  cases hk : t.table k with
  | some r =>
    have hr : t.request k v = (r, t) := by simp only [Interner.request, hk]
    rw [hr]
    exact h.again hk
  | none =>
    have hr : t.request k v =
        ((t.last + 1, v), ⟨Function.update t.table k (some (t.last + 1, v)), t.last + 1⟩) := by
      simp only [Interner.request, hk]
    refine ⟨h.sound.request k v, fun k' r' => ?_, fun n => ?_⟩
    · rw [hr, List.mem_append, List.mem_singleton, h.mem_iff]
      rcases eq_or_ne k' k with rfl | hne
      · simp [hk, eq_comm]
      · simp [hne]
    · rw [hr, List.map_append, List.mem_append, h.numbers, List.map_singleton, List.mem_singleton]
      simp only
      omega

omit [DecidableEq κ] in
/-- Two answers have the same number if and only if they have the same key. -/
theorem Answered.number_iff {log : List (κ × ℕ × ν)} (h : t.Answered log) {a b : κ × ℕ × ν}
    (ha : a ∈ log) (hb : b ∈ log) : a.2.1 = b.2.1 ↔ a.1 = b.1 := by
  have hta := (h.mem_iff a.1 a.2).mp ha
  have htb := (h.mem_iff b.1 b.2).mp hb
  refine ⟨h.sound.inj hta htb, fun he => ?_⟩
  rw [he, htb, Option.some.injEq] at hta
  rw [hta]

omit [DecidableEq κ] in
/-- Answers under the same key are the same. -/
theorem Answered.eq_of_key {log : List (κ × ℕ × ν)} (h : t.Answered log) {a b : κ × ℕ × ν}
    (ha : a ∈ log) (hb : b ∈ log) (he : a.1 = b.1) : a = b := by
  have hta := (h.mem_iff a.1 a.2).mp ha
  rw [he, (h.mem_iff b.1 b.2).mp hb, Option.some.injEq] at hta
  exact Prod.ext he hta.symm

end Interner

end Outmdsd
