import Mathlib.Data.List.Basic
import Mathlib.Data.List.TakeWhile
import Mathlib.Algebra.Order.Field.Rat

/-!
# Reading JSON

A reader of JSON texts over an alphabet whose elements have codes: characters with their code
points, or bytes. It reads what the JSON grammar allows, and nothing else: control characters in
strings, lone surrogates in escapes, leading zeros and trailing commas are errors. The elements of
a string, once its escapes are resolved, must form a text of the alphabet (`Alphabet.isText`, for
bytes that they are UTF-8).
-/

namespace Outmdsd

/-- An alphabet of JSON texts. -/
class Alphabet (α : Type*) where
  code : α → ℕ
  /-- The element with an ASCII code. -/
  ascii : ℕ → α
  /-- The elements that stand for a code point. -/
  encode : ℕ → List α
  isText : List α → Bool
  code_injective : Function.Injective code
  code_ascii : ∀ k < 128, code (ascii k) = k
  encode_ascii : ∀ k < 128, encode k = [ascii k]
  length_encode_le : ∀ n, (encode n).length ≤ 4

/-- Characters; every list of them is a text. -/
instance : Alphabet Char where
  code := Char.toNat
  ascii := Char.ofNat
  encode n := [Char.ofNat n]
  isText _ := true
  code_injective _ _ h := Char.toNat_inj.mp h
  code_ascii := by decide
  encode_ascii _ _ := rfl
  length_encode_le _ := by simp

/-- Whether bytes are UTF-8, with `n` bytes of a character to come, the first of them from `lo` to
`hi`. -/
def isUtf8 : ℕ → ℕ → ℕ → List UInt8 → Bool
  | 0, _, _, [] => true
  | _ + 1, _, _, [] => false
  | n + 1, lo, hi, b :: t => lo ≤ b.toNat && b.toNat ≤ hi && isUtf8 n 0x80 0xBF t
  | 0, _, _, b :: t =>
    if b.toNat < 0x80 then isUtf8 0 0 0 t
    else if b.toNat < 0xC2 then false
    else if b.toNat < 0xE0 then isUtf8 1 0x80 0xBF t
    else if b.toNat = 0xE0 then isUtf8 2 0xA0 0xBF t
    else if b.toNat = 0xED then isUtf8 2 0x80 0x9F t
    else if b.toNat < 0xF0 then isUtf8 2 0x80 0xBF t
    else if b.toNat = 0xF0 then isUtf8 3 0x90 0xBF t
    else if b.toNat < 0xF4 then isUtf8 3 0x80 0xBF t
    else if b.toNat = 0xF4 then isUtf8 3 0x80 0x8F t
    else false

/-- Bytes; a text of them is UTF-8. -/
instance : Alphabet UInt8 where
  code := UInt8.toNat
  ascii := UInt8.ofNat
  encode n := String.utf8EncodeChar (Char.ofNat n)
  isText := isUtf8 0 0 0
  code_injective _ _ h := UInt8.toNat_inj.mp h
  code_ascii := by decide
  encode_ascii := by decide
  length_encode_le n := by
    rw [String.length_utf8EncodeChar]
    exact Char.utf8Size_le_four _

/-- JSON values. -/
inductive Json (α : Type*)
  | null
  | bool (b : Bool)
  | num (q : ℚ)
  | str (s : List α)
  | arr (elems : List (Json α))
  | obj (members : List (List α × Json α))

namespace Json

open Alphabet

variable {α : Type*} [Alphabet α]

/-! ## Strings -/

/-- The value of a hexadecimal digit. -/
def hexDigit (c : α) : Option ℕ :=
  if 48 ≤ code c ∧ code c ≤ 57 then some (code c - 48)
  else if 65 ≤ code c ∧ code c ≤ 70 then some (code c - 55)
  else if 97 ≤ code c ∧ code c ≤ 102 then some (code c - 87)
  else none

/-- Four hexadecimal digits. -/
def hex4 : List α → Option (ℕ × List α)
  | a :: b :: c :: d :: t =>
    match hexDigit a, hexDigit b, hexDigit c, hexDigit d with
    | some w, some x, some y, some z => some (((w * 16 + x) * 16 + y) * 16 + z, t)
    | _, _, _, _ => none
  | _ => none

/-- The code point of a surrogate pair. -/
def surrogates (high low : ℕ) : ℕ := 0x10000 + (high - 0xD800) * 0x400 + (low - 0xDC00)

/-- The second half of a surrogate pair, with the first one given. -/
def lowSurrogate (high : ℕ) : List α → Option (List α × List α)
  | b :: u :: t =>
    if code b = 92 ∧ code u = 117 then
      match hex4 t with
      | some (low, t') =>
        if 0xDC00 ≤ low ∧ low ≤ 0xDFFF then some (encode (surrogates high low), t') else none
      | none => none
    else none
  | _ => none

/-- The escape `\uXXXX`, behind its `u`. -/
def unicodeEscape (t : List α) : Option (List α × List α) :=
  match hex4 t with
  | none => none
  | some (n, t') =>
    if 0xD800 ≤ n ∧ n ≤ 0xDBFF then lowSurrogate n t'
    else if 0xDC00 ≤ n ∧ n ≤ 0xDFFF then none
    else some (encode n, t')

/-- The code a one-letter escape stands for. -/
def simpleEscape : ℕ → Option ℕ
  | 34 => some 34
  | 92 => some 92
  | 47 => some 47
  | 98 => some 8
  | 102 => some 12
  | 110 => some 10
  | 114 => some 13
  | 116 => some 9
  | _ => none

/-- An escape, behind its backslash. -/
def escape : List α → Option (List α × List α)
  | [] => none
  | c :: t =>
    if code c = 117 then unicodeEscape t
    else (simpleEscape (code c)).map fun k => ([ascii k], t)

/-- An element that stands for itself in a string: no control character, quote or backslash. -/
def Plain (c : α) : Prop := 32 ≤ code c ∧ code c ≠ 34 ∧ code c ≠ 92

instance (c : α) : Decidable (Plain c) := inferInstanceAs (Decidable (_ ∧ _ ∧ _))

/-- One element or escape of a string: what it stands for, and the text behind it. -/
def stringUnit : List α → Option (List α × List α)
  | [] => none
  | c :: t => if Plain c then some ([c], t) else if code c = 92 then escape t else none

/-- The grammar of an element or escape: its text and what it stands for. -/
inductive StringUnit : List α → List α → Prop
  | plain {c : α} (h : Plain c) : StringUnit [c] [c]
  | simple {b e : α} {k : ℕ} (hb : code b = 92) (he : simpleEscape (code e) = some k) :
      StringUnit [b, e] [ascii k]
  | unicode {b u : α} {ds : List α} {n : ℕ} (hb : code b = 92) (hu : code u = 117)
      (hd : hex4 ds = some (n, [])) (hn : ¬ (0xD800 ≤ n ∧ n ≤ 0xDFFF)) :
      StringUnit (b :: u :: ds) (encode n)
  | pair {b u b' u' : α} {ds ds' : List α} {high low : ℕ} (hb : code b = 92) (hu : code u = 117)
      (hd : hex4 ds = some (high, [])) (hh : 0xD800 ≤ high ∧ high ≤ 0xDBFF)
      (hb' : code b' = 92) (hu' : code u' = 117) (hd' : hex4 ds' = some (low, []))
      (hl : 0xDC00 ≤ low ∧ low ≤ 0xDFFF) :
      StringUnit (b :: u :: (ds ++ b' :: u' :: ds')) (encode (surrogates high low))

/-- Reading four digits does not look behind them. -/
theorem hex4_eq_some_iff {t t' : List α} {n : ℕ} :
    hex4 t = some (n, t') ↔ ∃ ds, t = ds ++ t' ∧ hex4 ds = some (n, []) := by
  constructor
  · intro h
    match t, h with
    | a :: b :: c :: d :: t, h =>
      refine ⟨[a, b, c, d], ?_, ?_⟩
      all_goals
        simp only [hex4] at h ⊢
        split at h
        · simp_all
        · cases h
  · rintro ⟨ds, rfl, h⟩
    match ds, h with
    | [a, b, c, d], h =>
      simp only [hex4, List.cons_append, List.nil_append] at h ⊢
      split at h
      · simp_all
      · cases h
    | a :: b :: c :: d :: e :: ds, h =>
      simp only [hex4] at h
      split at h <;> simp at h

/-- Four digits are four elements, none of them a quote or a backslash. -/
theorem of_hex4 {ds : List α} {n : ℕ} (h : hex4 ds = some (n, [])) :
    ds.length = 4 ∧ ∀ c ∈ ds, code c ≠ 34 := by
  have quote : ∀ {c : α} {v : ℕ}, hexDigit c = some v → code c ≠ 34 := by
    intro c v hc e
    simp [hexDigit, e] at hc
  match ds, h with
  | [a, b, c, d], h =>
    simp only [hex4] at h
    split at h
    · rename_i ha hb hc hd
      simp [quote ha, quote hb, quote hc, quote hd]
    · cases h
  | a :: b :: c :: d :: e :: ds, h =>
    simp only [hex4] at h
    split at h <;> simp at h

theorem lowSurrogate_eq_some_iff {high : ℕ} {t u t' : List α} :
    lowSurrogate high t = some (u, t') ↔ ∃ b e ds low, code b = 92 ∧ code e = 117 ∧
      hex4 ds = some (low, []) ∧ (0xDC00 ≤ low ∧ low ≤ 0xDFFF) ∧
      u = encode (surrogates high low) ∧ t = b :: e :: (ds ++ t') := by
  constructor
  · intro h
    match t, h with
    | b :: e :: t, h =>
      simp only [lowSurrogate] at h
      split at h
      · rename_i hbe
        split at h
        · rename_i low r hd
          split at h
          · rename_i hl
            cases h
            obtain ⟨ds, rfl, hds⟩ := hex4_eq_some_iff.mp hd
            exact ⟨b, e, ds, low, hbe.1, hbe.2, hds, hl, rfl, rfl⟩
          · cases h
        · cases h
      · cases h
  · rintro ⟨b, e, ds, low, hb, he, hd, hl, rfl, rfl⟩
    have hr : hex4 (ds ++ t') = some (low, t') := hex4_eq_some_iff.mpr ⟨ds, rfl, hd⟩
    simp only [lowSurrogate, hb, he, hr, hl, and_self, if_true]

/-- The reader of elements and escapes meets their grammar. -/
theorem stringUnit_eq_some_iff {t u t' : List α} :
    stringUnit t = some (u, t') ↔ ∃ p, StringUnit p u ∧ t = p ++ t' := by
  constructor
  · intro h
    cases t with
    | nil => cases h
    | cons c t =>
      simp only [stringUnit] at h
      split at h
      · rename_i hc
        cases h
        exact ⟨[c], .plain hc, rfl⟩
      · split at h
        · rename_i hb
          cases t with
          | nil => cases h
          | cons e t =>
            simp only [escape] at h
            split at h
            · rename_i hu
              simp only [unicodeEscape] at h
              split at h
              · cases h
              · rename_i n r hd
                obtain ⟨ds, rfl, hds⟩ := hex4_eq_some_iff.mp hd
                split at h
                · rename_i hh
                  obtain ⟨b', u', ds', low, hb', hu', hd', hl, rfl, rfl⟩ :=
                    lowSurrogate_eq_some_iff.mp h
                  exact ⟨_, .pair hb hu hds hh hb' hu' hd' hl, by simp⟩
                · split at h
                  · cases h
                  · cases h
                    exact ⟨_, .unicode hb hu hds (by omega), rfl⟩
            · obtain ⟨k, hk, he⟩ := Option.map_eq_some_iff.mp h
              cases he
              exact ⟨[c, e], .simple hb hk, rfl⟩
        · cases h
  · rintro ⟨p, hp, rfl⟩
    have escaped : ∀ {b : α} {t : List α}, code b = 92 → stringUnit (b :: t) = escape t := by
      intro b t hb
      have hp : ¬ Plain b := fun h => h.2.2 hb
      simp only [stringUnit, hb, if_neg hp, if_true]
    cases hp with
    | plain h => simp only [List.singleton_append, stringUnit, if_pos h]
    | simple hb he =>
      have hu : ∀ {e : ℕ} {k : ℕ}, simpleEscape e = some k → e ≠ 117 := by
        rintro e k h rfl
        cases h
      simp only [List.cons_append, List.nil_append, escaped hb, escape, if_neg (hu he), he,
        Option.map_some]
    | @unicode b u ds n hb hu hd hn =>
      have hr : hex4 (ds ++ t') = some (n, t') := hex4_eq_some_iff.mpr ⟨ds, rfl, hd⟩
      rw [List.cons_append, List.cons_append, escaped hb, escape, if_pos hu]
      simp only [unicodeEscape, hr]
      rw [if_neg (by omega), if_neg (by omega)]
    | @pair b u b' u' ds ds' high low hb hu hd hh hb' hu' hd' hl =>
      have hr : hex4 (ds ++ (b' :: u' :: (ds' ++ t'))) = some (high, b' :: u' :: (ds' ++ t')) :=
        hex4_eq_some_iff.mpr ⟨ds, rfl, hd⟩
      have hr' : lowSurrogate high (b' :: u' :: (ds' ++ t')) =
          some (encode (surrogates high low), t') :=
        lowSurrogate_eq_some_iff.mpr ⟨b', u', ds', low, hb', hu', hd', hl, rfl, rfl⟩
      rw [List.cons_append, List.cons_append, escaped hb, escape, if_pos hu, List.append_assoc,
        List.cons_append, List.cons_append]
      simp only [unicodeEscape, hr, if_pos hh, hr']

namespace StringUnit

/-- No element or escape opens with a quote. -/
theorem head {p u : List α} (h : StringUnit p u) : ∃ c p', p = c :: p' ∧ code c ≠ 34 := by
  cases h with
  | plain h => exact ⟨_, _, rfl, h.2.1⟩
  | simple hb he => exact ⟨_, _, rfl, by omega⟩
  | unicode hb hu hd hn => exact ⟨_, _, rfl, by omega⟩
  | pair hb hu hd hh hb' hu' hd' hl => exact ⟨_, _, rfl, by omega⟩

/-- An element or escape is plain, or longer than what it stands for, and holds no quote; or it is
the escape of a quote. -/
theorem cases_quote {p u : List α} (h : StringUnit p u) :
    ((∀ c ∈ p, code c ≠ 34) ∧ ((∃ c, p = [c] ∧ u = [c] ∧ Plain c) ∨ u.length < p.length)) ∨
      ∃ b e, p = [b, e] ∧ code b = 92 ∧ code e = 34 ∧ u = [ascii 34] := by
  cases h with
  | @plain c h => exact .inl ⟨by simpa using h.2.1, .inl ⟨c, rfl, rfl, h⟩⟩
  | @simple b e k hb he =>
    by_cases hq : code e = 34
    · rw [hq] at he
      cases he
      exact .inr ⟨b, e, rfl, hb, hq, rfl⟩
    · exact .inl ⟨by simp [hb, hq], .inr (by simp)⟩
  | @unicode b u ds n hb hu hd hn =>
    obtain ⟨hl, hq⟩ := of_hex4 hd
    refine .inl ⟨by simpa [hb, hu] using hq, .inr ?_⟩
    have := @length_encode_le α _ n
    simp only [List.length_cons]
    omega
  | @pair b u b' u' ds ds' high low hb hu hd hh hb' hu' hd' hl =>
    obtain ⟨hn, hq⟩ := of_hex4 hd
    obtain ⟨hn', hq'⟩ := of_hex4 hd'
    refine .inl ⟨?_, .inr ?_⟩
    · simp only [List.mem_cons, List.mem_append]
      rintro c (rfl | rfl | hc | rfl | rfl | hc)
      · omega
      · omega
      · exact hq c hc
      · omega
      · omega
      · exact hq' c hc
    · have := @length_encode_le α _ (surrogates high low)
      simp only [List.length_cons, List.length_append]
      omega

end StringUnit

/-- The text of a string up to its closing quote, and what is behind it. -/
def rawString (t : List α) : Option (List α × List α) :=
  match t with
  | [] => none
  | c :: t' =>
    if code c = 34 then some ([], t')
    else match _h : stringUnit (c :: t') with
      | none => none
      | some (u, r) => (rawString r).map fun p => (u ++ p.1, p.2)
termination_by t.length
decreasing_by
  obtain ⟨p, hp, e⟩ := stringUnit_eq_some_iff.mp _h
  obtain ⟨d, p', rfl, -⟩ := hp.head
  simp only [e, List.length_append, List.length_cons]
  omega

/-- A string, behind its opening quote. -/
def string (t : List α) : Option (List α × List α) :=
  match rawString t with
  | none => none
  | some (s, r) => if isText s then some (s, r) else none

/-- The grammar of the inside of a string: its text and what it stands for. -/
inductive StringBody : List α → List α → Prop
  | nil : StringBody [] []
  | unit {p u s d : List α} (hp : StringUnit p u) (hs : StringBody s d) :
    StringBody (p ++ s) (u ++ d)

/-- The reader of strings meets their grammar. -/
theorem rawString_eq_some_iff {t d r : List α} :
    rawString t = some (d, r) ↔ ∃ s q, StringBody s d ∧ code q = 34 ∧ t = s ++ q :: r := by
  constructor
  · intro h
    induction t using rawString.induct generalizing d with
    | case1 => simp [rawString] at h
    | case2 c t hc =>
      rw [rawString, if_pos hc] at h
      cases h
      exact ⟨[], c, .nil, hc, rfl⟩
    | case3 c t hc hn =>
      rw [rawString, if_neg hc] at h
      split at h
      · cases h
      · rename_i hu
        rw [hn] at hu
        cases hu
    | case4 c t hc u r' hu ih =>
      rw [rawString, if_neg hc] at h
      split at h
      · cases h
      · rename_i hu'
        rw [hu] at hu'
        cases hu'
        obtain ⟨⟨d', r''⟩, hr, he⟩ := Option.map_eq_some_iff.mp h
        cases he
        obtain ⟨p, hp, e⟩ := stringUnit_eq_some_iff.mp hu
        obtain ⟨s, q, hs, hq, rfl⟩ := ih hr
        exact ⟨p ++ s, q, .unit hp hs, hq, by rw [e, List.append_assoc]⟩
  · rintro ⟨s, q, hs, hq, rfl⟩
    induction hs with
    | nil => rw [List.nil_append, rawString, if_pos hq]
    | @unit p u s d hp hs ih =>
      obtain ⟨c, p', rfl, hc⟩ := hp.head
      have hu : stringUnit (c :: (p' ++ (s ++ q :: r))) = some (u, s ++ q :: r) :=
        stringUnit_eq_some_iff.mpr ⟨c :: p', hp, rfl⟩
      rw [List.append_assoc, List.cons_append, rawString, if_neg hc]
      split
      · rename_i hn
        rw [hn] at hu
        cases hu
      · rename_i hu'
        rw [hu] at hu'
        cases hu'
        rw [ih]
        rfl

/-! ## Writing strings -/

theorem ascii_code {c : α} (h : code c < 128) : ascii (code c) = c :=
  code_injective (code_ascii _ h)

/-- The code of the letter of a one-letter escape. -/
def escapeLetter : ℕ → Option ℕ
  | 34 => some 34
  | 92 => some 92
  | 8 => some 98
  | 12 => some 102
  | 10 => some 110
  | 13 => some 114
  | 9 => some 116
  | _ => none

/-- The code of a hexadecimal digit. -/
def hexCode (d : ℕ) : ℕ := if d < 10 then 48 + d else 87 + d

/-- An element as it is written in a string. -/
def writeUnit (c : α) : List α :=
  match escapeLetter (code c) with
  | some e => [ascii 92, ascii e]
  | none =>
    if code c < 32 then
      [ascii 92, ascii 117, ascii 48, ascii 48, ascii (hexCode (code c / 16)),
        ascii (hexCode (code c % 16))]
    else [c]

/-- The JSON literal of a string. -/
def writeString (s : List α) : List α := ascii 34 :: (s.flatMap writeUnit ++ [ascii 34])

theorem of_escapeLetter {k e : ℕ} (h : escapeLetter k = some e) :
    simpleEscape e = some k ∧ e < 128 ∧ k < 128 := by
  unfold escapeLetter at h
  split at h <;> cases h <;> decide

theorem hexDigit_hexCode {d : ℕ} (h : d < 16) : hexDigit (ascii (hexCode d) : α) = some d := by
  have hc : hexCode d < 128 := by
    unfold hexCode
    split <;> omega
  rw [hexDigit, code_ascii _ hc]
  unfold hexCode
  split
  · rw [if_pos (by omega)]
    congr 1
    omega
  · rw [if_neg (by omega), if_neg (by omega), if_pos (by omega)]
    congr 1
    omega

theorem stringUnit_writeUnit (c : α) : StringUnit (writeUnit c) [c] := by
  unfold writeUnit
  split
  · rename_i e he
    obtain ⟨hs, hlt, hk⟩ := of_escapeLetter he
    have := StringUnit.simple (b := (ascii 92 : α)) (e := ascii e) (k := code c)
      (code_ascii _ (by decide)) (by rwa [code_ascii _ hlt])
    rwa [ascii_code hk] at this
  · rename_i hn
    split
    · rename_i hc
      have hd : hex4 [ascii 48, ascii 48, ascii (hexCode (code c / 16)),
          (ascii (hexCode (code c % 16)) : α)] = some (code c, []) := by
        have h0 : hexDigit (ascii 48 : α) = some 0 := hexDigit_hexCode (d := 0) (by decide)
        simp only [hex4, h0, hexDigit_hexCode (show code c / 16 < 16 by omega),
          hexDigit_hexCode (show code c % 16 < 16 by omega)]
        congr 2
        omega
      have := StringUnit.unicode (b := ascii 92) (u := ascii 117) (code_ascii _ (by decide))
        (code_ascii _ (by decide)) hd (by omega)
      rwa [encode_ascii _ (by omega), ascii_code (by omega)] at this
    · refine .plain ⟨by omega, fun hq => ?_, fun hb => ?_⟩
      · rw [hq] at hn
        cases hn
      · rw [hb] at hn
        cases hn

theorem stringBody_flatMap_writeUnit (s : List α) : StringBody (s.flatMap writeUnit) s := by
  induction s with
  | nil => exact .nil
  | cons c s ih => exact .unit (stringUnit_writeUnit c) ih

/-- A written text is read back. -/
theorem string_writeString {s : List α} (h : isText s = true) :
    ∃ body, writeString s = ascii 34 :: body ∧ string body = some (s, []) := by
  refine ⟨_, rfl, ?_⟩
  have hr : rawString (s.flatMap writeUnit ++ [ascii 34]) = some (s, []) :=
    rawString_eq_some_iff.mpr ⟨_, _, stringBody_flatMap_writeUnit s, code_ascii _ (by decide), rfl⟩
  simp only [string, hr, h, if_true]

/-! ## Numbers -/

def isDigit (c : α) : Bool := 48 ≤ code c && code c ≤ 57

/-- The number that digits denote. -/
def digitsValue (ds : List α) : ℕ := ds.foldl (fun v c => 10 * v + (code c - 48)) 0

/-- The digits behind a decimal point, if there is one. -/
def fraction : List α → Option (List α × List α)
  | [] => some ([], [])
  | c :: t =>
    if code c = 46 then
      let r := t.span isDigit
      if r.1 = [] then none else some r
    else some ([], c :: t)

/-- The sign of an exponent. -/
def exponentSign : List α → ℤ × List α
  | [] => (1, [])
  | c :: t => if code c = 45 then (-1, t) else if code c = 43 then (1, t) else (1, c :: t)

/-- The exponent, 0 if there is none. -/
def exponent : List α → Option (ℤ × List α)
  | [] => some (0, [])
  | c :: t =>
    if code c = 101 ∨ code c = 69 then
      let e := exponentSign t
      let r := e.2.span isDigit
      if r.1 = [] then none else some (e.1 * digitsValue r.1, r.2)
    else some (0, c :: t)

/-- A number without its sign. -/
def unsigned (t : List α) : Option (ℚ × List α) :=
  let i := t.span isDigit
  if i.1 = [] ∨ (1 < i.1.length ∧ i.1.head?.map code = some 48) then none
  else match fraction i.2 with
    | none => none
    | some (fp, t) => (exponent t).map fun e =>
      (digitsValue (i.1 ++ fp) * (10 : ℚ) ^ (e.1 - (fp.length : ℤ)), e.2)

/-- A number. -/
def number : List α → Option (ℚ × List α)
  | [] => none
  | c :: t =>
    if code c = 45 then (unsigned t).map fun r => (-r.1, r.2)
    else unsigned (c :: t)

/-! ## Values -/

def isSpace (c : α) : Bool := code c = 32 || code c = 9 || code c = 10 || code c = 13

/-- The text behind white space. -/
def skip (t : List α) : List α := t.dropWhile isSpace

/-- The text behind the given codes. -/
def strip : List ℕ → List α → Option (List α)
  | [], t => some t
  | _ :: _, [] => none
  | k :: ks, c :: t => if code c = k then strip ks t else none

/-- A literal or a number. -/
def scalar (t : List α) : Option (Json α × List α) :=
  match strip ("true".toList.map Char.toNat) t, strip ("false".toList.map Char.toNat) t,
    strip ("null".toList.map Char.toNat) t with
  | some t, _, _ => some (.bool true, t)
  | none, some t, _ => some (.bool false, t)
  | none, none, some t => some (.null, t)
  | none, none, none => (number t).map fun r => (.num r.1, r.2)

mutual

/-- A value. -/
def value : ℕ → List α → Option (Json α × List α)
  | 0, _ => none
  | _ + 1, [] => none
  | fuel + 1, c :: t =>
    if code c = 34 then (string t).map fun r => (.str r.1, r.2)
    else if code c = 91 then
      match skip t with
      | [] => none
      | d :: t' =>
        if code d = 93 then some (.arr [], t')
        else (elements fuel (d :: t')).map fun r => (.arr r.1, r.2)
    else if code c = 123 then
      match skip t with
      | [] => none
      | d :: t' =>
        if code d = 125 then some (.obj [], t')
        else (members fuel (d :: t')).map fun r => (.obj r.1, r.2)
    else scalar (c :: t)

/-- The elements of an array, and its closing bracket. -/
def elements : ℕ → List α → Option (List (Json α) × List α)
  | 0, _ => none
  | fuel + 1, t =>
    match value fuel t with
    | none => none
    | some (v, t) =>
      match skip t with
      | [] => none
      | c :: t =>
        if code c = 44 then (elements fuel (skip t)).map fun r => (v :: r.1, r.2)
        else if code c = 93 then some ([v], t)
        else none

/-- The members of an object, and its closing brace. -/
def members : ℕ → List α → Option (List (List α × Json α) × List α)
  | 0, _ => none
  | _ + 1, [] => none
  | fuel + 1, q :: t =>
    if code q = 34 then
      match string t with
      | none => none
      | some (k, t) =>
        match skip t with
        | [] => none
        | c :: t =>
          if code c = 58 then
            match value fuel (skip t) with
            | none => none
            | some (v, t) =>
              match skip t with
              | [] => none
              | c :: t =>
                if code c = 44 then
                  (members fuel (skip t)).map fun r => ((k, v) :: r.1, r.2)
                else if code c = 125 then some ([(k, v)], t)
                else none
          else none
    else none

end

/-- The value of a JSON text. -/
def parse (t : List α) : Option (Json α) :=
  match value (2 * t.length + 1) (skip t) with
  | some (v, t) => if skip t = [] then some v else none
  | none => none

end Json

end Outmdsd
