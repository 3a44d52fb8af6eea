import Outmdsd.Foundations.Spelling

/-!
# JSON texts in another alphabet

A `Transcoding` writes the elements of one alphabet in another: ASCII elements keep their codes, and
the others become elements outside ASCII, as characters do in UTF-8 (`Transcoding.utf8`). The
grammar of JSON tells elements outside ASCII apart in no place, so a text that is read as a value
is, transcoded, read as the transcoded value (`Transcoding.parse_text`).
-/

namespace Outmdsd.Json

open Alphabet

/-- A way to write the elements of an alphabet in another. -/
structure Transcoding (α β : Type*) [Alphabet α] [Alphabet β] where
  coded : α → List β
  coded_ne_nil : ∀ c, coded c ≠ []
  coded_of_lt : ∀ c, code c < 128 → coded c = [ascii (code c)]
  le_code : ∀ c, 128 ≤ code c → ∀ d ∈ coded c, 128 ≤ code d
  flatMap_encode : ∀ n, (encode n).flatMap coded = encode n
  isText_flatMap : ∀ s, isText s = true → isText (s.flatMap coded) = true

namespace Transcoding

variable {α β : Type*} [Alphabet α] [Alphabet β] (T : Transcoding α β)

/-- A transcoded text. -/
def text (s : List α) : List β := s.flatMap T.coded

@[simp] theorem text_nil : T.text [] = [] := rfl

@[simp] theorem text_append (s t : List α) : T.text (s ++ t) = T.text s ++ T.text t :=
  List.flatMap_append

theorem text_cons (c : α) (t : List α) : T.text (c :: t) = T.coded c ++ T.text t :=
  List.flatMap_cons

theorem text_cons_of_lt {c : α} (h : code c < 128) (t : List α) :
    T.text (c :: t) = ascii (code c) :: T.text t := by
  rw [text_cons, T.coded_of_lt c h, List.singleton_append]

/-- A transcoded text opens with the same ASCII element, or with one outside ASCII. -/
theorem exists_text_cons (c : α) (t : List α) :
    ∃ d r, T.text (c :: t) = d :: r ∧ (code c < 128 → code d = code c ∧ r = T.text t) ∧
      (128 ≤ code c → 128 ≤ code d) := by
  obtain ⟨d, ds, hd⟩ := List.exists_cons_of_ne_nil (T.coded_ne_nil c)
  refine ⟨d, ds ++ T.text t, by rw [text_cons, hd, List.cons_append], fun h => ?_, fun h => ?_⟩
  · have he := hd.symm.trans (T.coded_of_lt c h)
    obtain ⟨rfl, rfl⟩ := List.cons_eq_cons.mp he
    exact ⟨code_ascii _ h, rfl⟩
  · exact T.le_code c h d (by rw [hd]; exact List.mem_cons_self)

theorem length_le_length_text (s : List α) : s.length ≤ (T.text s).length := by
  induction s with
  | nil => simp
  | cons c s ih =>
    have hc := List.length_pos_iff.mpr (T.coded_ne_nil c)
    rw [text_cons, List.length_append, List.length_cons]
    omega

/-! ## Strings -/

theorem code_coded {c : α} {d : β} (h : d ∈ T.coded c) :
    (code c < 128 ∧ code d = code c) ∨ (128 ≤ code c ∧ 128 ≤ code d) := by
  rcases Nat.lt_or_ge (code c) 128 with hc | hc
  · rw [T.coded_of_lt c hc, List.mem_singleton] at h
    rw [h, code_ascii _ hc]
    exact .inl ⟨hc, rfl⟩
  · exact .inr ⟨hc, T.le_code c hc d h⟩

theorem plain_coded {c : α} (hc : Plain c) {d : β} (h : d ∈ T.coded c) : Plain d := by
  obtain ⟨h₁, h₂, h₃⟩ := hc
  rcases T.code_coded h with ⟨-, e⟩ | ⟨-, hd⟩
  · exact ⟨by omega, by omega, by omega⟩
  · exact ⟨by omega, by omega, by omega⟩

theorem hexDigit_lt {c : α} {v : ℕ} (h : hexDigit c = some v) : code c < 128 := by
  unfold hexDigit at h
  split at h
  · omega
  · split at h
    · omega
    · split at h
      · omega
      · cases h

theorem hexDigit_ascii {c : α} (h : code c < 128) : hexDigit (ascii (code c) : β) = hexDigit c := by
  simp only [hexDigit, code_ascii _ h]

theorem hex4_text {ds : List α} {n : ℕ} (h : hex4 ds = some (n, [])) :
    hex4 (T.text ds) = some (n, []) := by
  match ds, h with
  | a :: b :: c :: d :: t, h =>
    rw [hex4] at h
    split at h
    · rename_i w x y z ha hb hc hd
      obtain ⟨rfl, rfl⟩ := Prod.mk.inj (Option.some.inj h)
      have la := hexDigit_lt ha
      have lb := hexDigit_lt hb
      have lc := hexDigit_lt hc
      have ld := hexDigit_lt hd
      rw [T.text_cons_of_lt la, T.text_cons_of_lt lb, T.text_cons_of_lt lc, T.text_cons_of_lt ld,
        text_nil]
      simp only [hex4, hexDigit_ascii la, hexDigit_ascii lb, hexDigit_ascii lc, hexDigit_ascii ld,
        ha, hb, hc, hd]
    · cases h

theorem stringBody_append {s t d e : List β} (hs : StringBody s d) (ht : StringBody t e) :
    StringBody (s ++ t) (d ++ e) := by
  induction hs with
  | nil => exact ht
  | unit hp _ ih =>
    rw [List.append_assoc, List.append_assoc]
    exact .unit hp ih

theorem simpleEscape_lt {e k : ℕ} (h : simpleEscape e = some k) : e < 128 ∧ k < 128 := by
  unfold simpleEscape at h
  split at h <;> cases h <;> decide

/-- An element or escape, transcoded, is some elements that stand for themselves, or the same
escape. -/
theorem stringBody_text_unit {p u : List α} (h : StringUnit p u) :
    StringBody (T.text p) (T.text u) := by
  have one : ∀ {p u : List β}, StringUnit p u → StringBody p u := fun {p u} hp => by
    simpa using StringBody.unit hp .nil
  cases h with
  | @plain c hc =>
    refine .of_plain fun d hd => T.plain_coded hc ?_
    rwa [text_cons, text_nil, List.append_nil] at hd
  | @simple b e k hb he =>
    obtain ⟨le, lk⟩ := simpleEscape_lt he
    have hk : T.text [(ascii k : α)] = [ascii k] := by
      rw [T.text_cons_of_lt (by rwa [code_ascii _ lk]), code_ascii _ lk, text_nil]
    rw [T.text_cons_of_lt (by omega), T.text_cons_of_lt le, text_nil, hk]
    exact one (.simple (by rw [code_ascii _ (by omega), hb]) (by rwa [code_ascii _ le]))
  | @unicode b u ds n hb hu hd hn =>
    rw [T.text_cons_of_lt (by omega), T.text_cons_of_lt (by omega),
      show T.text (encode n) = encode n from T.flatMap_encode n]
    exact one (.unicode (by rw [code_ascii _ (by omega), hb]) (by rw [code_ascii _ (by omega), hu])
      (T.hex4_text hd) hn)
  | @pair b u b' u' ds ds' high low hb hu hd hh hb' hu' hd' hl =>
    rw [T.text_cons_of_lt (by omega), T.text_cons_of_lt (by omega), text_append,
      T.text_cons_of_lt (c := b') (by omega), T.text_cons_of_lt (c := u') (by omega),
      show T.text (encode (surrogates high low)) = encode (surrogates high low) from
        T.flatMap_encode _]
    exact one (.pair (by rw [code_ascii _ (by omega), hb]) (by rw [code_ascii _ (by omega), hu])
      (T.hex4_text hd) hh (by rw [code_ascii _ (by omega), hb'])
      (by rw [code_ascii _ (by omega), hu']) (T.hex4_text hd') hl)

theorem stringBody_text {s d : List α} (h : StringBody s d) : StringBody (T.text s) (T.text d) := by
  induction h with
  | nil => exact .nil
  | unit hp _ ih =>
    rw [text_append, text_append]
    exact stringBody_append (T.stringBody_text_unit hp) ih

/-- What is read as a string is, transcoded, read as the transcoded string. -/
theorem string_text {t s r : List α} (h : string t = some (s, r)) :
    string (T.text t) = some (T.text s, T.text r) := by
  unfold string at h
  split at h
  · cases h
  · rename_i hr
    split at h
    · rename_i ht
      cases h
      obtain ⟨s', q, hs, hq, rfl⟩ := rawString_eq_some_iff.mp hr
      have hr' : rawString (T.text (s' ++ q :: r)) = some (T.text s, T.text r) :=
        rawString_eq_some_iff.mpr ⟨T.text s', ascii (code q), T.stringBody_text hs,
          by rw [code_ascii _ (by omega), hq], by rw [text_append, T.text_cons_of_lt (by omega)]⟩
      have ht' : isText (T.text s) = true := T.isText_flatMap s ht
      simp only [string, hr', ht', if_true]
    · cases h

/-! ## Numbers -/

/-- A property of the code of ASCII elements only. -/
def Ascii (p : ℕ → Bool) : Prop := ∀ n, 128 ≤ n → p n = false

variable {p : ℕ → Bool}

/-- A text cut behind its first elements with a property of ASCII elements. -/
theorem takeWhile_text (hp : Ascii p) (t : List α) :
    (T.text t).takeWhile (p ∘ code) = T.text (t.takeWhile (p ∘ code)) ∧
      (T.text t).dropWhile (p ∘ code) = T.text (t.dropWhile (p ∘ code)) := by
  induction t with
  | nil => exact ⟨rfl, rfl⟩
  | cons c t ih =>
    obtain ⟨d, r, e, hlt, hge⟩ := T.exists_text_cons c t
    by_cases hc : p (code c) = true
    · have h : code c < 128 := by
        by_contra hn
        rw [hp _ (by omega)] at hc
        cases hc
      obtain ⟨hd, rfl⟩ := hlt h
      have hd' : (p ∘ code) d = true := by rwa [Function.comp_apply, hd]
      have hc' : (p ∘ code) c = true := hc
      rw [e, List.takeWhile_cons_of_pos hd', List.dropWhile_cons_of_pos hd',
        List.takeWhile_cons_of_pos hc', List.dropWhile_cons_of_pos hc', ih.1, ih.2,
        T.text_cons_of_lt h]
      refine ⟨?_, rfl⟩
      rw [← hd, ascii_code (by omega)]
    · have hd' : ¬ (p ∘ code) d = true := by
        rw [Function.comp_apply]
        rcases Nat.lt_or_ge (code c) 128 with h | h
        · rwa [(hlt h).1]
        · rw [hp _ (hge h)]
          simp
      have hc' : ¬ (p ∘ code) c = true := hc
      rw [List.takeWhile_cons_of_neg hc', List.dropWhile_cons_of_neg hc', e,
        List.takeWhile_cons_of_neg hd', List.dropWhile_cons_of_neg hd', ← e]
      exact ⟨rfl, rfl⟩

theorem span_text (t : List α) : (T.text t).span isDigit =
    (T.text (t.span isDigit).1, T.text (t.span isDigit).2) := by
  have hp : Ascii fun n => decide (48 ≤ n) && decide (n ≤ 57) := fun n hn => by
    simp
    omega
  obtain ⟨ht, hd⟩ := T.takeWhile_text hp t
  rw [List.span_eq_takeWhile_dropWhile, List.span_eq_takeWhile_dropWhile]
  exact Prod.ext ht hd

theorem skip_text (t : List α) : skip (T.text t) = T.text (skip t) := by
  have hp : Ascii fun n => n = 32 || n = 9 || n = 10 || n = 13 := fun n hn => by
    simp
    omega
  exact (T.takeWhile_text hp t).2

/-- The text of ASCII elements. -/
theorem text_of_ascii {ds : List α} (h : ∀ c ∈ ds, code c < 128) :
    T.text ds = ds.map fun c => ascii (code c) := by
  induction ds with
  | nil => rfl
  | cons c ds ih =>
    rw [T.text_cons_of_lt (h c (by simp)), ih fun d hd => h d (by simp [hd]), List.map_cons]

theorem digitsValue_text {ds : List α} (h : ∀ c ∈ ds, isDigit c = true) :
    digitsValue (T.text ds) = digitsValue ds := by
  have hlt : ∀ c ∈ ds, code c < 128 := fun c hc => by
    have := h c hc
    simp [isDigit] at this
    omega
  rw [T.text_of_ascii hlt, digitsValue, digitsValue, List.foldl_map]
  refine List.foldl_ext _ _ _ fun v c hc => ?_
  rw [code_ascii _ (hlt c hc)]

theorem text_eq_nil_iff {s : List α} : T.text s = [] ↔ s = [] := by
  constructor
  · intro h
    have := T.length_le_length_text s
    rw [h] at this
    exact List.length_eq_zero_iff.mp (by simpa using this)
  · rintro rfl
    rfl

/-- A transcoded text is empty, or opens with an element that has the code of an ASCII element if
and only if the text itself opens with that element. -/
theorem text_cases (t : List α) : (t = [] ∧ T.text t = []) ∨ ∃ c t' d r, t = c :: t' ∧
    T.text t = d :: r ∧ (∀ k < 128, code d = k ↔ code c = k) ∧ (code c < 128 → r = T.text t') := by
  cases t with
  | nil => exact .inl ⟨rfl, rfl⟩
  | cons c t' =>
    obtain ⟨d, r, e, hlt, hge⟩ := T.exists_text_cons c t'
    refine .inr ⟨c, t', d, r, rfl, e, fun k hk => ?_, fun h => (hlt h).2⟩
    rcases Nat.lt_or_ge (code c) 128 with h | h
    · rw [(hlt h).1]
    · have := hge h
      omega

theorem fraction_text (t : List α) :
    fraction (T.text t) = (fraction t).map fun r => (T.text r.1, T.text r.2) := by
  rcases T.text_cases t with ⟨rfl, e⟩ | ⟨c, t', d, r, rfl, e, hk, hr⟩
  · rfl
  · rw [e, fraction, fraction]
    by_cases hc : code c = 46
    · rw [if_pos ((hk 46 (by decide)).mpr hc), if_pos hc, hr (by omega), T.span_text]
      simp only [text_eq_nil_iff]
      split <;> rfl
    · rw [if_neg (fun h => hc ((hk 46 (by decide)).mp h)), if_neg hc, Option.map_some, ← e]
      rfl

theorem exponentSign_text (t : List α) :
    exponentSign (T.text t) = ((exponentSign t).1, T.text (exponentSign t).2) := by
  rcases T.text_cases t with ⟨rfl, e⟩ | ⟨c, t', d, r, rfl, e, hk, hr⟩
  · rfl
  · rw [e, exponentSign, exponentSign]
    simp only [hk 45 (by decide), hk 43 (by decide)]
    split
    · rw [hr (by omega)]
    · split
      · rw [hr (by omega)]
      · rw [e]

theorem exponent_text (t : List α) :
    exponent (T.text t) = (exponent t).map fun r => (r.1, T.text r.2) := by
  rcases T.text_cases t with ⟨rfl, e⟩ | ⟨c, t', d, r, rfl, e, hk, hr⟩
  · rfl
  · rw [e, exponent, exponent]
    simp only [hk 101 (by decide), hk 69 (by decide)]
    split
    · rw [hr (by omega), T.exponentSign_text]
      simp only [T.span_text, text_eq_nil_iff]
      rw [T.digitsValue_text (span_split isDigit _).2]
      split <;> rfl
    · rw [Option.map_some, e]

theorem head_length_text {ds : List α} (h : ∀ c ∈ ds, isDigit c = true) :
    (T.text ds).length = ds.length ∧ (T.text ds).head?.map code = ds.head?.map code := by
  have hlt : ∀ c ∈ ds, code c < 128 := fun c hc => by
    have := h c hc
    simp [isDigit] at this
    omega
  rw [T.text_of_ascii hlt, List.length_map]
  refine ⟨rfl, ?_⟩
  cases ds with
  | nil => rfl
  | cons c ds =>
    simp only [List.map_cons, List.head?_cons, Option.map_some, code_ascii _ (hlt c (by simp))]

theorem isDigit_of_fraction {t fp r : List α} (h : fraction t = some (fp, r)) :
    ∀ c ∈ fp, isDigit c = true := by
  cases t with
  | nil =>
    cases h
    simp
  | cons c t =>
    rw [fraction] at h
    split at h
    · dsimp only at h
      split at h
      · cases h
      · rw [Option.some.injEq] at h
        intro c' hc'
        exact (span_split isDigit t).2 c' (by rwa [h])
    · cases h
      simp

theorem unsigned_text (t : List α) :
    unsigned (T.text t) = (unsigned t).map fun r => (r.1, T.text r.2) := by
  have hi := (span_split isDigit t).2
  obtain ⟨hlen, hhead⟩ := T.head_length_text hi
  simp only [unsigned, T.span_text, text_eq_nil_iff, hlen, hhead, T.fraction_text]
  split
  · rfl
  · cases hf : fraction (t.span isDigit).2 with
    | none => rfl
    | some r =>
      obtain ⟨fp, t'⟩ := r
      have hfp := isDigit_of_fraction hf
      simp only [Option.map_some, T.exponent_text, Option.map_map]
      rw [← text_append, (T.head_length_text hfp).1, T.digitsValue_text fun c hc => by
        rcases List.mem_append.mp hc with hc | hc
        · exact hi c hc
        · exact hfp c hc]
      rfl

/-- A number is, transcoded, read as the same number. -/
theorem number_text (t : List α) :
    number (T.text t) = (number t).map fun r => (r.1, T.text r.2) := by
  rcases T.text_cases t with ⟨rfl, e⟩ | ⟨c, t', d, r, rfl, e, hk, hr⟩
  · rfl
  · rw [e, number, number]
    simp only [hk 45 (by decide)]
    split
    · rw [hr (by omega), T.unsigned_text, Option.map_map, Option.map_map]
      rfl
    · rw [← e, T.unsigned_text]

/-! ## Values -/

mutual

/-- A value with its texts transcoded. -/
def value : Json α → Json β
  | .null => .null
  | .bool b => .bool b
  | .num q => .num q
  | .str s => .str (T.text s)
  | .arr elems => .arr (elements elems)
  | .obj ms => .obj (members ms)

/-- The elements of an array. -/
def elements : List (Json α) → List (Json β)
  | [] => []
  | v :: vs => value v :: elements vs

/-- The members of an object. -/
def members : List (List α × Json α) → List (List β × Json β)
  | [] => []
  | (k, v) :: ms => (T.text k, value v) :: members ms

end

theorem strip_text {ks : List ℕ} (h : ∀ k ∈ ks, k < 128) (t : List α) :
    strip ks (T.text t) = (strip ks t).map T.text := by
  induction ks generalizing t with
  | nil => rfl
  | cons k ks ih =>
    rcases T.text_cases t with ⟨rfl, e⟩ | ⟨c, t', d, r, rfl, e, hk, hr⟩
    · rfl
    · have hlt := h k (by simp)
      rw [e, strip, strip]
      simp only [hk k hlt]
      split
      · rw [hr (by omega), ih fun k' hk' => h k' (by simp [hk'])]
      · rfl

/-- A literal or a number is, transcoded, read as the same. -/
theorem scalar_text (t : List α) :
    scalar (T.text t) = (scalar t).map fun r => (T.value r.1, T.text r.2) := by
  have ht : ∀ k ∈ "true".toList.map Char.toNat, k < 128 := by decide
  have hf : ∀ k ∈ "false".toList.map Char.toNat, k < 128 := by decide
  have hn : ∀ k ∈ "null".toList.map Char.toNat, k < 128 := by decide
  simp only [scalar, T.strip_text ht, T.strip_text hf, T.strip_text hn, T.number_text]
  cases strip ("true".toList.map Char.toNat) t with
  | some _ => rfl
  | none =>
    cases strip ("false".toList.map Char.toNat) t with
    | some _ => rfl
    | none =>
      cases strip ("null".toList.map Char.toNat) t with
      | some _ => rfl
      | none =>
        simp only [Option.map_none, Option.map_map]
        rfl

/-- What the readers read with a fuel, they read of the transcoded text with as much or more. -/
structure Kept (fuel : ℕ) : Prop where
  value : ∀ {t r : List α} {v : Json α} {n : ℕ}, Json.value fuel t = some (v, r) → fuel ≤ n →
    Json.value n (T.text t) = some (T.value v, T.text r)
  elements : ∀ {t r : List α} {vs : List (Json α)} {n : ℕ},
    Json.elements fuel t = some (vs, r) → fuel ≤ n →
    Json.elements n (T.text t) = some (T.elements vs, T.text r)
  members : ∀ {t r : List α} {ms : List (List α × Json α)} {n : ℕ},
    Json.members fuel t = some (ms, r) → fuel ≤ n →
    Json.members n (T.text t) = some (T.members ms, T.text r)

variable {T} {fuel : ℕ}

theorem Kept.value_succ (h : T.Kept fuel) {t r : List α} {v : Json α} {n : ℕ}
    (hv : Json.value (fuel + 1) t = some (v, r)) (hn : fuel + 1 ≤ n) :
    Json.value n (T.text t) = some (T.value v, T.text r) := by
  obtain ⟨n, rfl⟩ := Nat.exists_eq_add_of_le' (Nat.one_le_of_lt hn)
  rcases T.text_cases t with ⟨rfl, -⟩ | ⟨c, t, d, s, rfl, e, hk, hs⟩
  · cases hv
  · rw [Json.value] at hv
    rw [e, Json.value]
    simp only [hk 34 (by decide), hk 91 (by decide), hk 123 (by decide)]
    split at hv
    · rename_i hc
      obtain ⟨⟨u, r'⟩, hu, he⟩ := Option.map_eq_some_iff.mp hv
      cases he
      rw [if_pos hc, hs (by omega), T.string_text hu]
      rfl
    · rename_i hq
      rw [if_neg hq]
      split at hv
      · rename_i hc
        rw [if_pos hc, hs (by omega), T.skip_text]
        generalize skip t = t at hv
        rcases T.text_cases t with ⟨rfl, -⟩ | ⟨c', t', d', s', rfl, e', hk', hs'⟩
        · cases hv
        · rw [e']
          simp only [hk' 93 (by decide)] at hv ⊢
          split at hv
          · rename_i hc'
            cases hv
            rw [if_pos hc', hs' (by omega)]
            rfl
          · rename_i hc'
            obtain ⟨⟨vs, r'⟩, hvs, he⟩ := Option.map_eq_some_iff.mp hv
            cases he
            rw [if_neg hc', ← e', h.elements hvs (by omega)]
            rfl
      · rename_i hb
        rw [if_neg hb]
        split at hv
        · rename_i hc
          rw [if_pos hc, hs (by omega), T.skip_text]
          generalize skip t = t at hv
          rcases T.text_cases t with ⟨rfl, -⟩ | ⟨c', t', d', s', rfl, e', hk', hs'⟩
          · cases hv
          · rw [e']
            simp only [hk' 125 (by decide)] at hv ⊢
            split at hv
            · rename_i hc'
              cases hv
              rw [if_pos hc', hs' (by omega)]
              rfl
            · rename_i hc'
              obtain ⟨⟨ms, r'⟩, hms, he⟩ := Option.map_eq_some_iff.mp hv
              cases he
              rw [if_neg hc', ← e', h.members hms (by omega)]
              rfl
        · rename_i hc
          rw [if_neg hc, ← e, T.scalar_text, hv]
          rfl

theorem Kept.elements_succ (h : T.Kept fuel) {t r : List α} {vs : List (Json α)} {n : ℕ}
    (hv : Json.elements (fuel + 1) t = some (vs, r)) (hn : fuel + 1 ≤ n) :
    Json.elements n (T.text t) = some (T.elements vs, T.text r) := by
  obtain ⟨n, rfl⟩ := Nat.exists_eq_add_of_le' (Nat.one_le_of_lt hn)
  rw [Json.elements] at hv ⊢
  split at hv
  · cases hv
  · rename_i v t' ht
    simp only [h.value ht (show fuel ≤ n by omega), T.skip_text]
    generalize skip t' = t' at hv
    rcases T.text_cases t' with ⟨rfl, -⟩ | ⟨c, t', d, s, rfl, e, hk, hs⟩
    · cases hv
    · rw [e]
      simp only [hk 44 (by decide), hk 93 (by decide)]
      dsimp only at hv
      split at hv
      · rename_i hc
        obtain ⟨⟨vs', r'⟩, hvs, he⟩ := Option.map_eq_some_iff.mp hv
        cases he
        rw [if_pos hc, hs (by omega), T.skip_text, h.elements hvs (by omega)]
        rfl
      · rename_i hc
        rw [if_neg hc]
        split at hv
        · rename_i hc'
          cases hv
          rw [if_pos hc', hs (by omega)]
          rfl
        · cases hv

theorem Kept.members_succ (h : T.Kept fuel) {t r : List α} {ms : List (List α × Json α)} {n : ℕ}
    (hv : Json.members (fuel + 1) t = some (ms, r)) (hn : fuel + 1 ≤ n) :
    Json.members n (T.text t) = some (T.members ms, T.text r) := by
  obtain ⟨n, rfl⟩ := Nat.exists_eq_add_of_le' (Nat.one_le_of_lt hn)
  rcases T.text_cases t with ⟨rfl, -⟩ | ⟨q, t, d, s, rfl, e, hk, hs⟩
  · cases hv
  · rw [Json.members] at hv
    rw [e, Json.members]
    simp only [hk 34 (by decide)]
    split at hv
    · rename_i hq
      rw [if_pos hq, hs (by omega)]
      split at hv
      · cases hv
      · rename_i k t₁ hstr
        simp only [T.string_text hstr, T.skip_text]
        generalize skip t₁ = t₁ at hv
        rcases T.text_cases t₁ with ⟨rfl, -⟩ | ⟨c, t₁, d₁, s₁, rfl, e₁, hk₁, hs₁⟩
        · cases hv
        · rw [e₁]
          simp only [hk₁ 58 (by decide)]
          dsimp only at hv
          split at hv
          · rename_i hc
            rw [if_pos hc, hs₁ (by omega), T.skip_text]
            split at hv
            · cases hv
            · rename_i v t₂ hval
              simp only [h.value hval (show fuel ≤ n by omega), T.skip_text]
              generalize skip t₂ = t₂ at hv
              rcases T.text_cases t₂ with ⟨rfl, -⟩ | ⟨c₂, t₂, d₂, s₂, rfl, e₂, hk₂, hs₂⟩
              · cases hv
              · rw [e₂]
                simp only [hk₂ 44 (by decide), hk₂ 125 (by decide)]
                dsimp only at hv
                split at hv
                · rename_i hc₂
                  obtain ⟨⟨ms', r'⟩, hms, he⟩ := Option.map_eq_some_iff.mp hv
                  cases he
                  rw [if_pos hc₂, hs₂ (by omega), T.skip_text, h.members hms (by omega)]
                  rfl
                · rename_i hc₂
                  rw [if_neg hc₂]
                  split at hv
                  · rename_i hc₃
                    cases hv
                    rw [if_pos hc₃, hs₂ (by omega)]
                    rfl
                  · cases hv
          · cases hv
    · cases hv

variable (T)

/-- By induction on the fuel: each reader calls the readers with less. -/
theorem kept (fuel : ℕ) : T.Kept fuel := by
  induction fuel with
  | zero =>
    constructor
    · intro t r v n hv
      cases hv
    · intro t r vs n hv
      cases hv
    · intro t r ms n hv
      cases hv
  | succ fuel ih => exact ⟨ih.value_succ, ih.elements_succ, ih.members_succ⟩

/-- **Transcoded texts.** A text that is read as a value is, transcoded, read as the transcoded
value. -/
theorem parse_text {t : List α} {v : Json α} (h : parse t = some v) :
    parse (T.text t) = some (T.value v) := by
  unfold parse at h ⊢
  split at h
  · rename_i w r hv
    split at h
    · rename_i hr
      cases h
      have hlen := T.length_le_length_text t
      have hv' := (T.kept _).value (n := 2 * (T.text t).length + 1) hv (by omega)
      rw [T.skip_text, hv']
      simp only [T.skip_text, hr, text_nil, if_true]
    · cases h
  · cases h

end Transcoding

end Outmdsd.Json

namespace Outmdsd

/-! ## Characters as UTF-8 -/

/-- The bounds on a byte of a character do not matter when none is to come. -/
theorem isUtf8_zero (lo hi : ℕ) (t : List UInt8) : isUtf8 0 lo hi t = isUtf8 0 0 0 t := by
  cases t <;> rfl

/-- A byte of a character behind its first. -/
theorem isUtf8_trail {n lo hi m : ℕ} (h : lo ≤ m % 64 + 128) (h' : m % 64 + 128 ≤ hi)
    (t : List UInt8) :
    isUtf8 (n + 1) lo hi (UInt8.ofNat (m % 64 + 128) :: t) = isUtf8 n 0x80 0xBF t := by
  have e : (UInt8.ofNat (m % 64 + 128)).toNat = m % 64 + 128 :=
    UInt8.toNat_ofNat_of_lt' (show _ < 256 by omega)
  rw [isUtf8, e, decide_eq_true (by omega), decide_eq_true (by omega), Bool.true_and, Bool.true_and]

/-- A byte behind the first that may be any. -/
theorem isUtf8_anyTrail {n m : ℕ} (t : List UInt8) :
    isUtf8 (n + 1) 0x80 0xBF (UInt8.ofNat (m % 64 + 128) :: t) = isUtf8 n 0x80 0xBF t :=
  isUtf8_trail (by omega) (by omega) t

/-- The bytes of a character are well formed: the case split is that of the first byte. -/
theorem isUtf8_utf8EncodeChar (c : Char) (t : List UInt8) :
    isUtf8 0 0 0 (String.utf8EncodeChar c ++ t) = isUtf8 0 0 0 t := by
  have hv : c.val.toNat < 0xD800 ∨ 0xDFFF < c.val.toNat ∧ c.val.toNat < 0x110000 := c.valid
  generalize hn : c.val.toNat = v at hv
  simp only [String.utf8EncodeChar, hn]
  split
  · rw [List.singleton_append, isUtf8, UInt8.toNat_ofNat_of_lt' (show _ < 256 by omega),
      if_pos (by omega)]
  · split
    · rw [List.cons_append, List.singleton_append, isUtf8,
        UInt8.toNat_ofNat_of_lt' (show _ < 256 by omega), if_neg (by omega), if_neg (by omega),
        if_pos (by omega), isUtf8_anyTrail, isUtf8_zero]
    · split
      · rw [List.cons_append, List.cons_append, List.singleton_append, isUtf8,
          UInt8.toNat_ofNat_of_lt' (show _ < 256 by omega), if_neg (by omega), if_neg (by omega),
          if_neg (by omega)]
        split
        · rw [isUtf8_trail (by omega) (by omega), isUtf8_anyTrail, isUtf8_zero]
        · split
          · rw [isUtf8_trail (by omega) (by omega), isUtf8_anyTrail, isUtf8_zero]
          · rw [if_pos (by omega), isUtf8_anyTrail, isUtf8_anyTrail, isUtf8_zero]
      · rw [List.cons_append, List.cons_append, List.cons_append, List.singleton_append, isUtf8,
          UInt8.toNat_ofNat_of_lt' (show _ < 256 by omega), if_neg (by omega), if_neg (by omega),
          if_neg (by omega), if_neg (by omega), if_neg (by omega), if_neg (by omega)]
        split
        · rw [isUtf8_trail (by omega) (by omega), isUtf8_anyTrail, isUtf8_anyTrail, isUtf8_zero]
        · split
          · rw [isUtf8_anyTrail, isUtf8_anyTrail, isUtf8_anyTrail, isUtf8_zero]
          · rw [if_pos (by omega), isUtf8_trail (by omega) (by omega), isUtf8_anyTrail,
              isUtf8_anyTrail, isUtf8_zero]

theorem isUtf8_flatMap (s : List Char) : isUtf8 0 0 0 (s.flatMap String.utf8EncodeChar) = true := by
  induction s with
  | nil => rfl
  | cons c s ih => rw [List.flatMap_cons, isUtf8_utf8EncodeChar, ih]

theorem le_of_mem_utf8EncodeChar {c : Char} (h : 128 ≤ c.toNat) {b : UInt8}
    (hb : b ∈ String.utf8EncodeChar c) : 128 ≤ b.toNat := by
  have hn : c.val.toNat = c.toNat := rfl
  simp only [String.utf8EncodeChar, hn] at hb
  split at hb
  · omega
  · split at hb
    · simp only [List.mem_cons, List.not_mem_nil, or_false] at hb
      rcases hb with rfl | rfl
      all_goals
        rw [UInt8.toNat_ofNat_of_lt' (show _ < 256 by omega)]
        omega
    · split at hb
      · simp only [List.mem_cons, List.not_mem_nil, or_false] at hb
        rcases hb with rfl | rfl | rfl
        all_goals
          rw [UInt8.toNat_ofNat_of_lt' (show _ < 256 by omega)]
          omega
      · simp only [List.mem_cons, List.not_mem_nil, or_false] at hb
        rcases hb with rfl | rfl | rfl | rfl
        all_goals
          rw [UInt8.toNat_ofNat_of_lt' (show _ < 256 by omega)]
          omega

namespace Json

/-- Characters as the bytes of UTF-8. -/
def Transcoding.utf8 : Transcoding Char UInt8 where
  coded := String.utf8EncodeChar
  coded_ne_nil _ := String.utf8EncodeChar_ne_nil
  coded_of_lt c h := by
    have h : c.val.toNat < 128 := h
    rw [String.utf8EncodeChar, if_pos (show c.val.toNat ≤ 0x7f by omega)]
    rfl
  le_code _ h _ hd := le_of_mem_utf8EncodeChar h hd
  flatMap_encode _ := List.flatMap_singleton _ _
  isText_flatMap s _ := isUtf8_flatMap s

end Json

end Outmdsd
