import Outmdsd.Foundations.Spelling
import Outmdsd.Plugin.Write

/-!
# Messages as JSON

Values go through `JSON.generate`, while keys are put between quotes as they are. So what a new
message maker writes for a record is, in brackets, read as its id, its schema and its values if and
only if every key stands for itself between quotes (`message_readBack_iff`).

Floats and objects of classes the plugin does not know are written as their `to_s`, which need not
be JSON (`NaN`), and for some hashes `to_json` raises an exception; records with one are left out
here.
-/

namespace Outmdsd.Plugin

open Json

/-- `JSON.generate` makes a JSON literal of a string. -/
def GeneratesLiterals (lib : Libraries) : Prop :=
  ∀ s, ∃ body, lib.generate s = '"' :: body ∧ string body = some (s, [])

/-- A value that has a text, which does not depend on the `to_s` of a float or of an unknown
class. -/
def RValue.HasJsonText (hashtojson : Bool) : RValue → Prop
  | .float _ => False
  | .other _ _ => False
  | .hash _ to_json => hashtojson = Bool.true → to_json.isSome
  | _ => True

/-! ## Texts of the code as spellings -/

theorem asciiText_eq (cs : List Char) : asciiText cs = cs := by
  rw [asciiText]
  exact (List.map_congr_left fun c _ => Char.ofNat_toNat c).trans (List.map_id cs)

theorem text_integer (n : ℤ) : (Spelling.integer n).text = intToS n := by
  show Spelling.integerText n = intToS n
  rw [Spelling.integerText, digits, asciiText_eq]
  rfl

theorem text_natural (n : ℕ) : (Spelling.integer n).text = Nat.toDigits 10 n := by
  rw [text_integer, intToS, if_neg (by omega), Int.natAbs_natCast]

theorem text_array (ps : List (Spelling Char)) : (Spelling.array ps).text =
    ['['] ++ [','].intercalate (ps.map Spelling.text) ++ [']'] := rfl

theorem text_time (t : RTime) :
    (Spelling.array [.integer t.sec, .integer t.nsec] : Spelling Char).text = t.text := by
  rw [text_array, List.map_cons, List.map_singleton, text_integer, text_natural]
  simp [RTime.text, List.intercalate_cons_cons, List.intercalate_singleton]

variable {lib : Libraries}

/-- The JSON values that a column of a type holds. -/
inductive HasShape : RString → Json Char → Prop
  | bool (b : Bool) : HasShape "FT_BOOL".toList (.bool b)
  | int64 (q : ℚ) : HasShape "FT_INT64".toList (.num q)
  | double (q : ℚ) : HasShape "FT_DOUBLE".toList (.num q)
  | time (sec nsec : ℤ) : HasShape "FT_TIME".toList (.arr [.num sec, .num nsec])
  | string (s : RString) : HasShape "FT_STRING".toList (.str s)

/-- The text a value is passed to `JSON.generate` as. -/
def chosenText (hashtojson : Bool) : RValue → Option RString
  | .string s => some s
  | .array to_s => some to_s
  | .hash to_s to_json => if hashtojson then to_json else some to_s
  | .range to_s => some to_s
  | .nil => some "null".toList
  | _ => none

/-- A value of a known class, whose `to_s` is a JSON number if it is a float. -/
def RValue.HasJsonShape : RValue → Prop
  | .float to_s => ∃ q, number to_s = some (q, [])
  | .other _ _ => False
  | _ => True

/-- The text of a value is a spelling without a condition, of a value that its column holds. -/
theorem exists_valueSpelling (hg : GeneratesLiterals lib) {hashtojson : Bool} {v : RValue}
    (hv : v.HasJsonShape) (hr : v.raises hashtojson = Bool.false) :
    ∃ p : Spelling Char, getValueByType lib hashtojson v = some p.text ∧
      p.Cond ∧ HasShape (mdsdType v.className.name) p.val ∧
      ∀ s, chosenText hashtojson v = some s → p.val = .str s := by
  have lit : ∀ s, ∃ p : Spelling Char, some (lib.generate s) = some p.text ∧ p.Cond ∧
      HasShape "FT_STRING".toList p.val ∧ ∀ s', some s = some s' → p.val = .str s' := fun s =>
    ⟨.literal (lib.generate s) s (hg s), rfl, trivial, .string s, fun s' h => by cases h; rfl⟩
  have notText : ∀ {w : Json Char} (s : RString), none = some s → w = .str s := fun _ h => by
    cases h
  cases v with
  | string s => exact lit s
  | array to_s => exact lit to_s
  | hash to_s to_json =>
    cases hashtojson with
    | true =>
      cases to_json with
      | none => cases hr
      | some to_json => exact lit to_json
    | false => exact lit to_s
  | range to_s => exact lit to_s
  | nil => exact lit _
  | time t =>
    exact ⟨.array [.integer t.sec, .integer t.nsec], congrArg some (text_time t).symm, by simp,
      .time t.sec t.nsec, notText⟩
  | true =>
    exact ⟨.bool true, congrArg some (asciiText_eq _).symm, trivial, .bool true, notText⟩
  | false =>
    exact ⟨.bool false, congrArg some (asciiText_eq _).symm, trivial, .bool false, notText⟩
  | integer n =>
    exact ⟨.integer n, congrArg some (text_integer n).symm, trivial, .int64 n, notText⟩
  | float to_s =>
    obtain ⟨q, hq⟩ := hv
    exact ⟨.number to_s q hq, rfl, trivial, .double q, notText⟩
  | other cls to_s => exact hv.elim

theorem RValue.HasJsonText.hasJsonShape {v : RValue} {hashtojson : Bool}
    (hv : v.HasJsonText hashtojson) : v.HasJsonShape := by
  cases v with
  | float to_s => exact hv.elim
  | other cls to_s => exact hv.elim
  | _ => trivial

theorem RValue.HasJsonText.raises_eq {v : RValue} {hashtojson : Bool}
    (hv : v.HasJsonText hashtojson) : v.raises hashtojson = Bool.false := by
  cases v with
  | hash to_s to_json =>
    cases to_json with
    | none => exact Bool.eq_false_iff.mpr fun h => absurd (hv h) (by simp)
    | some to_json => rfl
  | _ => rfl

/-- The text of a value is a spelling without a condition, of which any value will do. -/
theorem exists_spelling (hg : GeneratesLiterals lib) {hashtojson : Bool} {v : RValue}
    (hv : v.HasJsonText hashtojson) : ∃ p : Spelling Char,
      getValueByType lib hashtojson v = some p.text ∧ p.Cond ∧ ∀ w, p.Decodes w := by
  obtain ⟨p, ht, hc, -⟩ := exists_valueSpelling hg hv.hasJsonShape hv.raises_eq
  exact ⟨p.anything hc, ht, hc, fun _ => trivial⟩

theorem exists_spellings (hg : GeneratesLiterals lib) {hashtojson : Bool}
    {fs : List (RString × RValue)} (hv : ∀ f ∈ fs, f.2.HasJsonText hashtojson) :
    ∃ ps : List (Spelling Char),
      fs.mapM (fun f => getValueByType lib hashtojson f.2) = some (ps.map Spelling.text) ∧
        ∀ p ∈ ps, p.Cond ∧ ∀ w, p.Decodes w := by
  induction fs with
  | nil => exact ⟨[], rfl, by simp⟩
  | cons f fs ih =>
    obtain ⟨ps, ht, hp⟩ := ih fun g hg => hv g (by simp [hg])
    obtain ⟨p, htp, hpp⟩ := exists_spelling hg (hv f (by simp))
    exact ⟨p :: ps, by simp [ht, htp], by simpa [hpp] using hp⟩

theorem plainText_mdsdType (className : RString) : PlainText (mdsdType className) :=
  mdsdType_of_forall (P := PlainText) (by decide) (by decide) className

/-! ## What a message is read as -/

/-- What a message should be read as: the id, the schema, whose columns open with the keys, and one
value for each key. -/
def MessageDecodes (record : Record) (w : Json Char) : Prop :=
  ∃ columns values,
    w = .arr [.num 1, .arr (.num (record.fields.length - 1 : ℤ) :: columns), .arr values] ∧
      List.Forall₂ (fun key c => ∃ type, c = .arr [.str key, type]) record.keys columns ∧
      values.length = record.keys.length

/-- What a new message maker writes for a record is read as its keys and values. -/
def MessageReadBack (lib : Libraries) (hashtojson : Bool) (record : Record) : Prop :=
  ∃ text w, ((⟨hashtojson, .new⟩ : MdsdMsgMaker).getSchemaValueStr lib record).1 = some text ∧
    parse ('[' :: text ++ [']']) = some w ∧ MessageDecodes record w

/-- A column of a schema. -/
def columnSpelling (f : RString × RValue) : Spelling Char :=
  .labelled f.1 (mdsdType f.2.className.name) (plainText_mdsdType _)

/-- A message as a spelling, with the spellings of its values. -/
def messageSpelling (record : Record) (values : List (Spelling Char)) : Spelling Char :=
  .array [.integer 1, .array (.integer (record.fields.length - 1 : ℤ) ::
    record.fields.map columnSpelling), .array values]

theorem text_columnSpelling (f : RString × RValue) :
    (columnSpelling f).text = SchemaManager.columnText f.1 (mdsdType f.2.className.name) := by
  have hq : ∀ s : RString, (Spelling.quoted s).text = ['"'] ++ s ++ ['"'] := fun _ => rfl
  simp [columnSpelling, Spelling.labelled, Spelling.anything, SchemaManager.columnText, text_array,
    hq, List.intercalate_cons_cons, List.intercalate_singleton]

/-- A new message maker uses the schema of the record itself, under the first id. -/
theorem getSchemaValueStr_new (lib : Libraries) (hashtojson : Bool) {record : Record}
    (h : record.fields ≠ []) :
    ((⟨hashtojson, .new⟩ : MdsdMsgMaker).getSchemaValueStr lib record).1 =
      (valueTexts lib hashtojson record).map fun values =>
        (Message.ofBuilder 1 record values).text := by
  rw [← Message.schemaValueStr_eq_text lib hashtojson 1 h h, ← SchemaManager.getNewSchema_eq]
  rfl

theorem text_messageSpelling {record : Record} (h : record.fields ≠ [])
    (values : List (Spelling Char)) : (messageSpelling record values).text =
      '[' :: (Message.ofBuilder 1 record (values.map Spelling.text)).text ++ [']'] := by
  have hcols : (record.fields.map columnSpelling).map Spelling.text =
      ((record.shape.map fun f => (f.1, mdsdType f.2)).map fun c =>
        SchemaManager.columnText c.1 c.2) := by
    simp only [List.map_map, Record.shape]
    exact List.map_congr_left fun f _ => text_columnSpelling f
  have hne : (record.shape.map fun f => (f.1, mdsdType f.2)).map (fun c =>
      SchemaManager.columnText c.1 c.2) ≠ [] := by simpa [Record.shape] using h
  have hi : (Spelling.integer ((record.fields.length : ℤ) - 1) : Spelling Char).text =
      Nat.toDigits 10 (record.fields.length - 1) := by
    rw [text_integer, Message.intToS_length_sub_one h]
  have ho : (Spelling.integer 1 : Spelling Char).text = Nat.toDigits 10 1 := text_natural 1
  obtain ⟨c, cs, hc⟩ := List.exists_cons_of_ne_nil hne
  simp only [messageSpelling, text_array, List.map_cons, List.map_nil, ho, hi, hcols, hc,
    List.intercalate_cons_cons, List.intercalate_singleton, Message.text, Message.ofBuilder]
  simp

theorem decodes_messageSpelling (record : Record) {values : List (Spelling Char)}
    (hl : values.length = record.fields.length) (hv : ∀ p ∈ values, ∀ w, p.Decodes w)
    (w : Json Char) : (messageSpelling record values).Decodes w ↔ MessageDecodes record w := by
  have hvals : ∀ ws, List.Forall₂ Spelling.Decodes values ws ↔
      ws.length = record.keys.length := by
    intro ws
    have hk : record.keys.length = values.length := by rw [Record.keys, List.length_map, hl]
    rw [List.forall₂_iff_get, hk]
    exact ⟨fun h => h.1.symm, fun h => ⟨h.symm, fun i _ _ => hv _ (List.get_mem _ _) _⟩⟩
  simp [messageSpelling, MessageDecodes, columnSpelling, List.forall₂_cons_left_iff, hvals,
    Record.keys]

theorem cond_messageSpelling (record : Record) {values : List (Spelling Char)}
    (hv : ∀ p ∈ values, p.Cond) :
    (messageSpelling record values).Cond ↔ ∀ key ∈ record.keys, PlainText key := by
  have hvals : (∀ p ∈ values, p.Cond) ↔ True := iff_true_intro hv
  simp only [messageSpelling, columnSpelling, Record.keys, Spelling.cond_array,
    List.forall_mem_cons, List.forall_mem_map, Spelling.cond_labelled, Spelling.cond_integer,
    hvals]
  simp

theorem messageReadBack_iff_keys (hg : GeneratesLiterals lib) (hashtojson : Bool)
    {record : Record} (h : record.fields ≠ [])
    (hv : ∀ f ∈ record.fields, f.2.HasJsonText hashtojson) :
    MessageReadBack lib hashtojson record ↔ ∀ key ∈ record.keys, PlainText key := by
  obtain ⟨values, ht, hp⟩ := exists_spellings hg hv
  have hl : values.length = record.fields.length := by
    simpa using (forall₂_valueTexts lib ht).length_eq.symm
  have htext : ((⟨hashtojson, .new⟩ : MdsdMsgMaker).getSchemaValueStr lib record).1 =
      some (Message.ofBuilder 1 record (values.map Spelling.text)).text := by
    rw [getSchemaValueStr_new lib hashtojson h, valueTexts, ht, Option.map_some]
  rw [← cond_messageSpelling record fun p hm => (hp p hm).1, ← Spelling.parse_iff,
    text_messageSpelling h]
  simp only [MessageReadBack, htext, Option.some.injEq, exists_and_left, exists_eq_left',
    decodes_messageSpelling record hl fun p hm => (hp p hm).2]

theorem plainText_iff (key : RString) :
    PlainText key ↔ ∀ c ∈ key, 32 ≤ c.toNat ∧ c ≠ '"' ∧ c ≠ '\\' := by
  have hq : ∀ c d : Char, c.toNat = d.toNat ↔ c = d := fun c d => Char.toNat_inj
  have hp : ∀ c : Char, Plain c ↔ 32 ≤ c.toNat ∧ c ≠ '"' ∧ c ≠ '\\' := fun c =>
    and_congr Iff.rfl (and_congr (not_congr (hq c '"')) (not_congr (hq c '\\')))
  exact ⟨fun h c hc => (hp c).mp (h.1 c hc), fun h => ⟨fun c hc => (hp c).mpr (h c hc), rfl⟩⟩

/-- **Messages.** With a `JSON.generate` that makes JSON literals, what a new message maker writes
for a record is, in brackets, read as its id, its schema with the keys in order, and one value for
each key if and only if no key holds a quote, a backslash or a control character. -/
theorem message_readBack_iff (hg : GeneratesLiterals lib) (hashtojson : Bool)
    {record : Record} (h : record.fields ≠ [])
    (hv : ∀ f ∈ record.fields, f.2.HasJsonText hashtojson) :
    MessageReadBack lib hashtojson record ↔
      ∀ key ∈ record.keys, ∀ c ∈ key, 32 ≤ c.toNat ∧ c ≠ '"' ∧ c ≠ '\\' := by
  simp only [messageReadBack_iff_keys hg hashtojson h hv, plainText_iff]

/-- A `JSON.generate`, and tags that match nothing. -/
def jsonLibraries : Libraries where
  generate := writeString
  matchTag _ _ := none

theorem generatesLiterals_jsonLibraries : GeneratesLiterals jsonLibraries := fun s =>
  string_writeString (s := s) rfl

/-- A text with a quote and a newline in it, a flag, nothing and a time. -/
def recordText : Record :=
  ⟨[("message".toList, .string "say \"hi\"\n".toList), ("ok".toList, .true), ("none".toList, .nil),
    ("time".toList, .time ⟨1493671442, 0⟩)], by decide⟩

theorem message_readBack_recordText : MessageReadBack jsonLibraries false recordText := by
  have hkeys : ∀ key ∈ recordText.keys, PlainText key := by decide
  refine (message_readBack_iff generatesLiterals_jsonLibraries false (by decide) ?_).mpr
    fun key hk => (plainText_iff key).mp (hkeys key hk)
  intro f hf
  simp only [recordText, List.mem_cons, List.not_mem_nil, or_false] at hf
  rcases hf with rfl | rfl | rfl | rfl <;> trivial

/-- A flag under a key with a quote in it. -/
def recordQuote : Record := ⟨[("a\"b".toList, .true)], by decide⟩

/-- The quote of the key is passed on as it is, and ends the name. -/
theorem message_of_recordQuote :
    GeneratesLiterals jsonLibraries ∧
      ((⟨false, .new⟩ : MdsdMsgMaker).getSchemaValueStr jsonLibraries recordQuote).1 =
        some "1,[0,[\"a\"b\",\"FT_BOOL\"]],[true]".toList ∧
      ¬ MessageReadBack jsonLibraries false recordQuote := by
  refine ⟨generatesLiterals_jsonLibraries, by decide, fun h => ?_⟩
  rw [messageReadBack_iff_keys generatesLiterals_jsonLibraries false (by decide)
    (by simp [recordQuote, RValue.HasJsonText])] at h
  exact absurd (h "a\"b".toList (by decide)) (by decide)

end Outmdsd.Plugin
