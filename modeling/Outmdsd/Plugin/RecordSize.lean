import Outmdsd.Foundations.Bytes
import Outmdsd.Plugin.MessageJson
import Mathlib.Algebra.BigOperators.Group.List.Basic

/-!
# The size limit on records

`record_too_large?` counts the characters of a message, and a message is handed on in UTF-8: a
character outside ASCII takes one to three bytes more than were counted. So a message within the
limit in bytes is never dropped, and one that is handed on is within the limit in bytes unless the
limit falls between its characters and its bytes. Both are counted from the keys and the values of
the record (`messageSize`), whose characters outside ASCII are written as they are
(`sizeLimited_iff`).
-/

namespace Outmdsd.Plugin

open Json

/-- The bytes of a Ruby string. -/
def utf8 (s : RString) : Bytes := s.flatMap String.utf8EncodeChar

/-- A message that is handed on is within the limit in bytes, and one that is within the limit in
bytes is handed on. -/
structure SizeLimited (limit : ℤ) (h : Handled) : Prop where
  bounded : ∀ dataStr, h.dataStr = some dataStr → h.outcome ≠ .dropped →
    (utf8 dataStr).length ≤ limit
  handedOn : ∀ dataStr, h.dataStr = some dataStr → (utf8 dataStr).length ≤ limit →
    h.outcome ≠ .dropped

/-! ## Sizes -/

/-- The size of a text whose characters have these sizes. -/
def textSize (w : Char → ℕ) (s : RString) : ℕ := (s.map w).sum

/-- Every character counts one. -/
def oneChar (_ : Char) : ℕ := 1

/-- The bytes of a character beyond one: none in ASCII. -/
def extraBytes (c : Char) : ℕ := c.utf8Size - 1

/-- The size of the JSON literal of a string: quotes, backslashes and control characters are
escaped. -/
def literalSize (w : Char → ℕ) (s : RString) : ℕ :=
  w '"' + (s.map fun c => textSize w (writeUnit c)).sum + w '"'

/-- The size of what is written for a value. -/
def RValue.size (w : Char → ℕ) (hashtojson : Bool) : RValue → ℕ
  | .string s => literalSize w s
  | .array to_s => literalSize w to_s
  | .hash to_s to_json => literalSize w (if hashtojson then to_json.getD [] else to_s)
  | .range to_s => literalSize w to_s
  | .time t => textSize w t.text
  | .nil => literalSize w "null".toList
  | .true => textSize w "true".toList
  | .false => textSize w "false".toList
  | .integer n => textSize w (intToS n)
  | .float to_s => textSize w to_s
  | .other _ to_s => textSize w to_s

/-- The size of the column of a field, with the comma before it. -/
def columnSize (w : Char → ℕ) (f : RString × RValue) : ℕ :=
  textSize w ",[\"\",\"\"]".toList + textSize w f.1 + textSize w (mdsdType f.2.className.name)

/-- The size of the id and the schema for a record: of those in the hash, or of the next id and a
schema with a column for each field. -/
def schemaSize (w : Char → ℕ) (m : SchemaManager) (record : Record) : ℕ :=
  match m.schemaHash.lookup (SchemaManager.getSchemaKey record) with
  | some (id, schema) => textSize w (Nat.toDigits 10 id) + textSize w schema
  | none =>
    textSize w (Nat.toDigits 10 (m.schema_id + 1)) +
      (w '[' + textSize w (Nat.toDigits 10 (record.fields.length - 1)) +
        (record.fields.map (columnSize w)).sum + w ']')

/-- The size of the message for a record: the id and the schema, and the values. -/
def messageSize (w : Char → ℕ) (m : MdsdMsgMaker) (record : Record) : ℕ :=
  schemaSize w m.schema_mgr record +
    (record.fields.map fun f => f.2.size w m.hashtojson + w ',').sum + textSize w ",,]".toList

/-- `JSON.generate` escapes quotes, backslashes and control characters, and no others. -/
def GeneratesEscaped (lib : Libraries) : Prop := ∀ s, lib.generate s = writeString s

section

variable (w : Char → ℕ)

@[simp] theorem textSize_nil : textSize w [] = 0 := rfl

@[simp] theorem textSize_cons (c : Char) (s : RString) :
    textSize w (c :: s) = w c + textSize w s := by
  simp [textSize]

@[simp] theorem textSize_append (s t : RString) :
    textSize w (s ++ t) = textSize w s + textSize w t := by
  simp [textSize]

theorem textSize_flatMap {α : Type*} (f : α → RString) (l : List α) :
    textSize w (l.flatMap f) = (l.map fun a => textSize w (f a)).sum := by
  induction l with
  | nil => rfl
  | cons a l ih => rw [List.flatMap_cons, textSize_append, ih, List.map_cons, List.sum_cons]

theorem textSize_writeString (s : RString) : textSize w (writeString s) = literalSize w s := by
  have hq : (Alphabet.ascii 34 : Char) = '"' := rfl
  simp only [writeString, literalSize, hq, textSize_cons, textSize_append, textSize_flatMap,
    textSize_nil]
  omega

/-- Texts with commas between them. -/
theorem textSize_intercalate {ts : List RString} (h : ts ≠ []) :
    textSize w ([','].intercalate ts) + w ',' = (ts.map fun t => textSize w t + w ',').sum := by
  obtain ⟨t, ts, rfl⟩ := List.exists_cons_of_ne_nil h
  induction ts generalizing t with
  | nil => simp [List.intercalate_singleton]
  | cons t' ts ih =>
    have ih := ih t' (by simp)
    rw [List.intercalate_cons_cons, List.map_cons, List.sum_cons, ← ih]
    simp only [textSize_append, textSize_cons, textSize_nil]
    omega

variable {lib : Libraries} (hg : GeneratesEscaped lib)
include hg

theorem textSize_getValueByType {hashtojson : Bool} {v : RValue} {text : RString}
    (h : getValueByType lib hashtojson v = some text) : textSize w text = v.size w hashtojson := by
  have literal : ∀ s, some (lib.generate s) = some text → textSize w text = literalSize w s :=
    fun s hs => by rw [← Option.some.inj hs, hg, textSize_writeString]
  cases v with
  | string s => exact literal s h
  | array to_s => exact literal to_s h
  | hash to_s to_json =>
    cases hashtojson with
    | false => exact literal to_s h
    | true =>
      cases to_json with
      | none => cases h
      | some to_json => exact literal to_json h
  | range to_s => exact literal to_s h
  | nil => exact literal _ h
  | _ =>
    cases h
    rfl

theorem sum_valueTexts {hashtojson : Bool} {record : Record} {texts : List RString}
    (h : valueTexts lib hashtojson record = some texts) :
    (texts.map fun t => textSize w t + w ',').sum =
      (record.fields.map fun f => f.2.size w hashtojson + w ',').sum := by
  have hall := forall₂_valueTexts lib h
  clear h
  generalize record.fields = fs at hall
  induction hall with
  | nil => rfl
  | cons hf _ ih =>
    rw [List.map_cons, List.map_cons, List.sum_cons, List.sum_cons, ih,
      textSize_getValueByType w hg hf]

omit hg in
theorem textSize_getNewSchema {record : Record} (h : record.fields ≠ []) :
    textSize w (SchemaManager.getNewSchema record) =
      w '[' + textSize w (Nat.toDigits 10 (record.fields.length - 1)) +
        (record.fields.map (columnSize w)).sum + w ']' := by
  have hs : record.shape ≠ [] := by simpa [Record.shape] using h
  have hlen : record.shape.length = record.fields.length := by simp [Record.shape]
  have hne : (record.shape.map fun f => SchemaManager.columnText f.1 (mdsdType f.2)) ≠ [] := by
    simpa using hs
  have hcols := textSize_intercalate w hne
  have hsum : (record.fields.map (columnSize w)).sum =
      ((record.shape.map fun f => SchemaManager.columnText f.1 (mdsdType f.2)).map fun t =>
        textSize w t + w ',').sum := by
    rw [Record.shape, List.map_map, List.map_map]
    refine congrArg List.sum (List.map_congr_left fun f _ => ?_)
    simp [columnSize, SchemaManager.columnText]
    omega
  rw [SchemaManager.getNewSchema_eq, SchemaManager.newSchemaOf_eq hs, hsum, ← hcols,
    Message.intToS_length_sub_one hs, hlen]
  simp only [List.cons_append, textSize_cons, textSize_append, textSize_nil]
  omega

omit hg in
theorem textSize_getSchemaInfo (m : SchemaManager) {record : Record} (h : record.fields ≠ []) :
    textSize w (Nat.toDigits 10 (m.getSchemaInfo record).1.1) +
      textSize w (m.getSchemaInfo record).1.2 = schemaSize w m record := by
  cases hl : m.schemaHash.lookup (SchemaManager.getSchemaKey record) with
  | some info => simp only [SchemaManager.getSchemaInfo, schemaSize, hl]
  | none =>
    simp only [SchemaManager.getSchemaInfo, schemaSize, hl, SchemaManager.getNewSchemaId,
      textSize_getNewSchema w h]

/-- The size of a message is that counted from the record. -/
theorem textSize_schemaValueStr (hw : w '[' = w ',') (m : MdsdMsgMaker) {record : Record}
    (h : record.fields ≠ []) {text : RString}
    (ht : (m.getSchemaValueStr lib record).1 = some text) :
    textSize w text = messageSize w m record := by
  rw [MdsdMsgMaker.getSchemaValueStr, schemaValueStr,
    Message.getRecordValues_eq lib m.hashtojson h] at ht
  obtain ⟨values, hv, rfl⟩ := Option.map_eq_some_iff.mp ht
  obtain ⟨texts, htexts, rfl⟩ := Option.map_eq_some_iff.mp hv
  have hne : texts ≠ [] := by
    have hl := (forall₂_valueTexts lib htexts).length_eq
    rintro rfl
    exact h (List.length_eq_zero_iff.mp hl)
  have hvalues := textSize_intercalate w hne
  rw [sum_valueTexts w hg htexts] at hvalues
  have hschema := textSize_getSchemaInfo w m.schema_mgr h
  have htail : textSize w ",,]".toList = w ',' + (w ',' + (w ']' + 0)) := rfl
  simp only [textSize_append, textSize_cons, textSize_nil, messageSize, htail] at *
  omega

end

/-! ## The limit -/

theorem textSize_oneChar (s : RString) : textSize oneChar s = s.length := by
  induction s with
  | nil => rfl
  | cons c s ih =>
    rw [textSize_cons, ih, oneChar, List.length_cons, Nat.add_comm]

theorem length_utf8 (s : RString) : (utf8 s).length = s.length + textSize extraBytes s := by
  induction s with
  | nil => rfl
  | cons c s ih =>
    have hc := c.utf8Size_pos
    simp only [utf8, List.flatMap_cons, List.length_append, String.length_utf8EncodeChar,
      textSize_cons, extraBytes, List.length_cons] at ih ⊢
    omega

theorem extraBytes_of_lt {c : Char} (h : c.toNat < 128) : extraBytes c = 0 := by
  have hs : c.utf8Size = 1 :=
    Char.utf8Size_eq_one_iff.mpr (UInt32.le_iff_toNat_le.mpr (Nat.le_of_lt_succ h))
  rw [extraBytes, hs]

theorem extraBytes_ascii {k : ℕ} (h : k < 128) : extraBytes (Alphabet.ascii k) = 0 :=
  extraBytes_of_lt ((Alphabet.code_ascii (α := Char) k h).trans_lt h)

/-- An escape has the extra bytes of the character it stands for, which are none. -/
theorem textSize_extraBytes_writeUnit (c : Char) :
    textSize extraBytes (writeUnit c) = extraBytes c := by
  have hcode : ∀ d, d < 16 → hexCode d < 128 := fun d hd => by
    unfold hexCode
    split <;> omega
  unfold writeUnit
  split
  · rename_i e he
    obtain ⟨-, hlt, hk⟩ := of_escapeLetter he
    simp [extraBytes_ascii (k := 92) (by decide), extraBytes_ascii hlt, extraBytes_of_lt hk]
  · split
    · rename_i hc
      have hc : c.toNat < 32 := hc
      have hd := hcode (c.toNat / 16) (by omega)
      have hm := hcode (c.toNat % 16) (by omega)
      have h0 : ∀ k < 128, extraBytes (Alphabet.ascii k) = 0 := fun k => extraBytes_ascii
      simp only [textSize_cons, textSize_nil, h0 92 (by decide), h0 117 (by decide),
        h0 48 (by decide), extraBytes_of_lt (show c.toNat < 128 by omega)]
      exact (congrArg₂ (fun a b => 0 + (0 + (0 + (0 + (a + (b + 0))))))
        (extraBytes_ascii hd) (extraBytes_ascii hm)).trans rfl
    · simp

/-- The extra bytes of a JSON literal are those of the string. -/
theorem literalSize_extraBytes (s : RString) :
    literalSize extraBytes s = textSize extraBytes s := by
  have hq : extraBytes '"' = 0 := by decide
  have hs : s.map (fun c => textSize extraBytes (writeUnit c)) = s.map extraBytes :=
    List.map_congr_left fun c _ => textSize_extraBytes_writeUnit c
  rw [literalSize, hs, hq, textSize]
  omega

/-- What is written for a value, before it is escaped. -/
def RValue.rawText (hashtojson : Bool) : RValue → RString
  | .string s => s
  | .array to_s => to_s
  | .hash to_s to_json => if hashtojson then to_json.getD [] else to_s
  | .range to_s => to_s
  | .time t => t.text
  | .nil => "null".toList
  | .true => "true".toList
  | .false => "false".toList
  | .integer n => intToS n
  | .float to_s => to_s
  | .other _ to_s => to_s

/-- An escaped value has the extra bytes of its text. -/
theorem RValue.size_extraBytes (hashtojson : Bool) (v : RValue) :
    v.size extraBytes hashtojson = textSize extraBytes (v.rawText hashtojson) := by
  cases v with
  | string | array | hash | range | nil => exact literalSize_extraBytes _
  | time | true | false | integer | float | other => rfl

theorem textSize_extraBytes_of_lt {s : RString} (h : ∀ c ∈ s, c.toNat < 128) :
    textSize extraBytes s = 0 := by
  induction s with
  | nil => rfl
  | cons c s ih =>
    rw [textSize_cons, extraBytes_of_lt (h c (by simp)), ih fun d hd => h d (by simp [hd])]

@[simp] theorem textSize_extraBytes_toDigits (n : ℕ) :
    textSize extraBytes (Nat.toDigits 10 n) = 0 :=
  textSize_extraBytes_of_lt fun c hc => by
    obtain ⟨-, -, hle⟩ := code_of_mem_toDigits Char hc
    omega

theorem textSize_extraBytes_mdsdType (className : RString) :
    textSize extraBytes (mdsdType className) = 0 :=
  mdsdType_of_forall (P := fun type => textSize extraBytes type = 0) (by decide) (by decide)
    className

/-- **Bytes and characters.** A message that brings a new schema has the bytes beyond its characters
that the keys and the values of its record have: none if these are in ASCII. -/
theorem messageSize_extraBytes (m : MdsdMsgMaker) {record : Record}
    (hl : m.schema_mgr.schemaHash.lookup (SchemaManager.getSchemaKey record) = none) :
    messageSize extraBytes m record = (record.fields.map fun f =>
      textSize extraBytes f.1 + textSize extraBytes (f.2.rawText m.hashtojson)).sum := by
  have hcolumn : columnSize extraBytes = fun f => textSize extraBytes f.1 := funext fun f => by
    have hpunct : textSize extraBytes ",[\"\",\"\"]".toList = 0 := by decide
    rw [columnSize, hpunct, textSize_extraBytes_mdsdType, Nat.zero_add, Nat.add_zero]
  have hvalue : ∀ f : RString × RValue, f.2.size extraBytes m.hashtojson + extraBytes ',' =
      textSize extraBytes (f.2.rawText m.hashtojson) := fun f => by
    rw [RValue.size_extraBytes]
    rfl
  have hopen : extraBytes '[' = 0 := by decide
  have hclose : extraBytes ']' = 0 := by decide
  have htail : textSize extraBytes ",,]".toList = 0 := by decide
  simp only [messageSize, schemaSize, hl, textSize_extraBytes_toDigits, hopen, hclose, htail,
    hcolumn, hvalue, List.sum_map_add, Nat.zero_add, Nat.add_zero]

/-- No message is made of a record if and only if it holds a hash that no text is made of. -/
theorem getSchemaValueStr_eq_none_iff {lib : Libraries} (m : MdsdMsgMaker) {record : Record}
    (hne : record.fields ≠ []) : (m.getSchemaValueStr lib record).1 = none ↔
      ∃ f ∈ record.fields, f.2.raises m.hashtojson = Bool.true := by
  have hmap : (m.getSchemaValueStr lib record).1 = none ↔
      ¬ (valueTexts lib m.hashtojson record).isSome := by
    rw [MdsdMsgMaker.getSchemaValueStr, schemaValueStr,
      Message.getRecordValues_eq lib m.hashtojson hne, Option.map_eq_none_iff,
      Option.map_eq_none_iff, Option.not_isSome_iff_eq_none]
  rw [hmap, isSome_valueTexts_iff]
  simp

/-- A message is dropped if it has more characters than the limit. -/
theorem outcome_eq_dropped_iff (p : OutputMdsd) (ev : Event) (dataStr : RString) :
    p.outcome ev (some dataStr) = .dropped ↔ p.configured_max_record_size < dataStr.length := by
  rw [OutputMdsd.outcome]
  split
  · simp_all
  · split <;> simp_all

/-- **The size limit.** Whatever schemas the plugin has cached, a record is handled within the limit
in bytes if and only if it holds a hash that no text is made of, or the limit is not from the number
of its message's characters on, but before that of its bytes. -/
theorem sizeLimited_iff {lib : Libraries} (hg : GeneratesEscaped lib)
    (emit_timestamp_name : RString) (use_source_timestamp : Bool)
    (mdsd_tag_regex_patterns : List RString) (max_record_size : ℤ) (m : MdsdMsgMaker) (ev : Event) :
    let p := { OutputMdsd.configure emit_timestamp_name use_source_timestamp
      mdsd_tag_regex_patterns max_record_size m.hashtojson with mdsdMsgMaker := m }
    let record := p.assigned ev
    let limit := min max_record_size 131071
    SizeLimited limit (p.handleRecord lib ev record).1 ↔
      (∃ f ∈ record.fields, f.2.raises m.hashtojson = Bool.true) ∨
        ¬ (messageSize oneChar m record ≤ limit ∧
          limit < messageSize oneChar m record + messageSize extraBytes m record) := by
  intro p record limit
  have hne : record.fields ≠ [] := p.assigned_fields_ne_nil ev
  have hmax : p.configured_max_record_size = limit := rfl
  have hraises := @getSchemaValueStr_eq_none_iff lib m _ hne
  cases ht : (m.getSchemaValueStr lib record).1 with
  | none =>
    refine iff_of_true ⟨fun dataStr hd => ?_, fun dataStr hd => ?_⟩ (.inl (hraises.mp ht))
    · exact absurd (ht.symm.trans hd) (by simp)
    · exact absurd (ht.symm.trans hd) (by simp)
  | some dataStr =>
    have hchars := textSize_schemaValueStr oneChar hg rfl m hne ht
    have hextra := textSize_schemaValueStr extraBytes hg (by decide) m hne ht
    rw [textSize_oneChar] at hchars
    have hbytes := length_utf8 dataStr
    rw [hchars, hextra] at hbytes
    have hdata : (p.handleRecord lib ev record).1.dataStr = some dataStr := ht
    have hdrop : (p.handleRecord lib ev record).1.outcome = .dropped ↔
        limit < dataStr.length := by
      have houtcome : (p.handleRecord lib ev record).1.outcome = p.outcome ev (some dataStr) :=
        congrArg (p.outcome ev) ht
      rw [houtcome, outcome_eq_dropped_iff, hmax]
    rw [hchars] at hdrop
    have hno : ¬ ∃ f ∈ record.fields, f.2.raises m.hashtojson = Bool.true := by
      rw [← hraises, ht]
      simp
    rw [or_iff_right hno]
    constructor
    · rintro ⟨hb, -⟩ ⟨hle, hlt⟩
      have := hb dataStr hdata fun ho => absurd (hdrop.mp ho) (by omega)
      rw [hbytes] at this
      omega
    · intro h
      refine ⟨fun s hs ho => ?_, fun s hs hle ho => ?_⟩
      · obtain rfl := Option.some.inj (hdata.symm.trans hs)
        have hl : ¬ limit < messageSize oneChar m record := fun hl => ho (hdrop.mpr hl)
        rw [hbytes]
        omega
      · obtain rfl := Option.some.inj (hdata.symm.trans hs)
        have hl := hdrop.mp ho
        rw [hbytes] at hle
        omega

/-- Five accented letters, and the time stamp. -/
def eventAccents : Event :=
  ⟨['t'], 5, ⟨[(['a'], .string "ééééé".toList)], by decide⟩, ⟨0, 0⟩, true⟩

/-- With a limit of 57, a message of 55 characters is handed on in 60 bytes. -/
theorem sizeLimited_of_eventAccents :
    let p := OutputMdsd.configure ['T'] true [] 57 false
    let h := (p.handleRecord jsonLibraries eventAccents (p.assigned eventAccents)).1
    ∃ dataStr, h.dataStr = some dataStr ∧ h.outcome = .sent ∧ dataStr.length = 55 ∧
      (utf8 dataStr).length = 60 ∧ ¬ SizeLimited (min 57 131071) h := by
  intro p h
  have ho : h.outcome = .sent := by decide
  have hd : h.dataStr =
      some "1,[1,[\"a\",\"FT_STRING\"],[\"T\",\"FT_TIME\"]],[\"ééééé\",[5,0]]".toList := by
    decide
  refine ⟨_, hd, ho, by decide, by decide, fun hs => ?_⟩
  exact absurd (hs.bounded _ hd (by simp [ho])) (by decide)

/-- Without the accents the limit is kept. -/
theorem sizeLimited_iff_eventA :
    let p := { OutputMdsd.configure ['T'] true [] 57 false with mdsdMsgMaker := ⟨false, .new⟩ }
    let record := p.assigned OutputMdsd.eventA
    SizeLimited (min 57 131071) (p.handleRecord jsonLibraries OutputMdsd.eventA record).1 ↔
      (∃ f ∈ record.fields, f.2.raises false = Bool.true) ∨
        ¬ (messageSize oneChar ⟨false, .new⟩ record ≤ min (57 : ℤ) 131071 ∧
          min (57 : ℤ) 131071 < messageSize oneChar ⟨false, .new⟩ record +
            messageSize extraBytes ⟨false, .new⟩ record) :=
  @sizeLimited_iff jsonLibraries (fun _ => rfl) ['T'] true [] 57 ⟨false, .new⟩
    OutputMdsd.eventA

end Outmdsd.Plugin
