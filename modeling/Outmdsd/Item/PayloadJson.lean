import Outmdsd.Foundations.Spelling
import Outmdsd.Item.SchemaIdentity

/-!
# The payload as JSON

The payload of an item is put together from its source and fields between quotes, brackets and
commas that are part of the code, and nothing is escaped on the way. As a text it is the spelling
`payloadSpelling` of `[source, tag, schema id, schema, data]`, so it is read as these if and only
if the source, the names and the string values all stand for themselves between quotes
(`payload_decodes_iff`).

The text of a double is whatever its stream prints (`inf` and `nan` among it), and fields with one
are left out here.
-/

namespace Outmdsd

open Json

/-! ## Texts of the code as spellings -/

theorem text_integer (n : ℤ) : (Spelling.integer n).text = toDecInt n := rfl

theorem text_natural (n : ℕ) : (Spelling.integer n).text = toDec n := by
  rw [text_integer, toDecInt, if_neg (by omega), Int.natAbs_natCast]

theorem text_bool (b : Bool) : (Spelling.bool b).text = if b then lit "true" else lit "false" := by
  cases b <;> rfl

theorem text_quoted (s : Bytes) : (Spelling.quoted s).text = lit "\"" ++ s ++ lit "\"" := rfl

theorem text_array (ps : List (Spelling Byte)) : (Spelling.array ps).text =
    lit "[" ++ (lit ",").intercalate (ps.map Spelling.text) ++ lit "]" := rfl

/-- A field that is not a double. -/
structure Field where
  name : Bytes
  value : FieldValue
  type_ne : value.type ≠ .double

/-- What a value should be read as. -/
def FieldValue.Decodes : FieldValue → Json Byte → Prop
  | .bool value, w => w = .bool value
  | .int32 value, w => w = .num value.toInt
  | .uint32 value, w => w = .num value.toNat
  | .int64 value, w => w = .num value.toInt
  | .double _, _ => False
  | .time seconds nanoseconds, w => w = .arr [.num seconds.toNat, .num nanoseconds.toNat]
  | .string value, w => w = .str value

/-- A string value stands for itself between quotes. -/
def FieldValue.Plain : FieldValue → Prop
  | .string value => PlainText value
  | _ => True

namespace Field

/-- The text of a value as a spelling. -/
def valueSpelling (f : Field) : Spelling Byte :=
  match f.value, f.type_ne with
  | .bool value, _ => .bool value
  | .int32 value, _ => .integer value.toInt
  | .uint32 value, _ => .integer value.toNat
  | .int64 value, _ => .integer value.toInt
  | .double _, h => absurd rfl h
  | .time seconds nanoseconds, _ => .array [.integer seconds.toNat, .integer nanoseconds.toNat]
  | .string value, _ => .quoted value

theorem plainText_typeName (t : FieldType) : PlainText t.name := by cases t <;> decide

/-- The column of a field in the schema, a name and a type. -/
def columnSpelling (f : Field) : Spelling Byte :=
  .labelled f.name f.value.type.name (plainText_typeName _)

theorem text_valueSpelling (f : Field) : f.valueSpelling.text = f.value.text := by
  obtain ⟨name, value, hv⟩ := f
  cases value with
  | bool value => exact text_bool value
  | int32 value => exact text_integer _
  | uint32 value => exact text_natural _
  | int64 value => exact text_integer _
  | double strm => exact absurd rfl hv
  | time seconds nanoseconds =>
    simp [valueSpelling, FieldValue.text, text_array, text_natural, List.intercalate_cons_cons,
      List.intercalate_singleton]
  | string value => exact text_quoted value

theorem decodes_valueSpelling (f : Field) (w : Json Byte) :
    f.valueSpelling.Decodes w ↔ f.value.Decodes w := by
  obtain ⟨name, value, hv⟩ := f
  cases value with
  | double strm => exact absurd rfl hv
  | time seconds nanoseconds =>
    simp [valueSpelling, FieldValue.Decodes, List.forall₂_cons_left_iff]
  | _ => exact Iff.rfl

theorem cond_valueSpelling (f : Field) : f.valueSpelling.Cond ↔ f.value.Plain := by
  obtain ⟨name, value, hv⟩ := f
  cases value with
  | double strm => exact absurd rfl hv
  | time seconds nanoseconds =>
    simp [valueSpelling, FieldValue.Plain]
  | _ => exact Iff.rfl

theorem text_columnSpelling (f : Field) : f.columnSpelling.text =
    lit "[\"" ++ f.name ++ lit "\",\"" ++ f.value.type.name ++ lit "\"]" := by
  have h₁ : lit "[\"" = lit "[" ++ lit "\"" := rfl
  have h₂ : lit "\",\"" = lit "\"" ++ (lit "," ++ lit "\"") := rfl
  have h₃ : lit "\"]" = lit "\"" ++ lit "]" := rfl
  simp [columnSpelling, Spelling.labelled, text_array, text_quoted, Spelling.anything,
    List.intercalate_cons_cons, List.intercalate_singleton, h₁, h₂, h₃]

end Field

namespace DjsonLogItem

/-- An item with a source and fields, its tag from the counter. -/
def ofFields (counter : ℕ) (source : Bytes) (fields : List Field) : DjsonLogItem :=
  fields.foldl (fun item f => item.addData f.name f.value) (ofSource counter source)

/-- What is behind the length line of a message. -/
def afterLengthLine (djsonData : Bytes) : Bytes := (djsonData.dropWhile (· ≠ newline)).tail

/-- What a payload should be read as: an array of five elements, the source, the tag, the schema
id, the schema, whose columns open with the names, and the data. -/
def PayloadDecodes (counter : ℕ) (source : Bytes) (fields : List Field) (w : Json Byte) : Prop :=
  ∃ schema data, w = .arr [.str source, .num counter, .num 1, .arr schema, .arr data] ∧
    List.Forall₂ (fun f c => ∃ type, c = .arr [.str f.name, type]) fields schema ∧
    List.Forall₂ (fun f d => f.value.Decodes d) fields data

/-- The payload as a spelling. -/
def payloadSpelling (counter : ℕ) (source : Bytes) (fields : List Field) : Spelling Byte :=
  .array [.quoted source, .integer counter, .integer 1, .array (fields.map Field.columnSpelling),
    .array (fields.map Field.valueSpelling)]

/-- The stored form of a field. -/
def itemInfo (f : Field) : ItemInfo := ⟨f.name, f.value.type, f.value.text⟩

theorem ofFields_eq (counter : ℕ) (source : Bytes) (fields : List Field) :
    ofFields counter source fields =
      { ofSource counter source with svlist := fields.map itemInfo } := by
  have fold : ∀ (fs : List Field) (item : DjsonLogItem),
      fs.foldl (fun item f => item.addData f.name f.value) item =
        { item with svlist := item.svlist ++ fs.map itemInfo } := by
    intro fs
    induction fs with
    | nil => simp
    | cons f fs ih =>
      intro item
      rw [List.foldl_cons, ih]
      simp [addData, itemInfo]
  rw [ofFields, fold]
  rfl

theorem afterLengthLine_composeFullData (item : DjsonLogItem) :
    afterLengthLine item.composeFullData.djsonData = item.payload := by
  have hn : ∀ b ∈ toDec item.payload.length, decide (b ≠ newline) = true := fun b hb =>
    decide_eq_true fun e => newline_notMem_toDec _ (e ▸ hb)
  rw [djsonData_composeFullData, afterLengthLine, List.dropWhile_append_of_pos hn]
  simp

/-- The payload of an item with fields. -/
theorem payload_eq_text (counter : ℕ) (source : Bytes) (fields : List Field) :
    ({ ofFields counter source fields with
      svlist := []
      schemaAndData := schemaText (1, composeSchemaArray (fields.map itemInfo)) ++
        composeDataValue (fields.map itemInfo) } : DjsonLogItem).payload =
      (payloadSpelling counter source fields).text := by
  have h₁ : lit "[\"" = lit "[" ++ lit "\"" := rfl
  have h₂ : lit "\"," = lit "\"" ++ lit "," := rfl
  have h₃ : lit "]," = lit "]" ++ lit "," := rfl
  have hc : (fields.map Field.columnSpelling).map Spelling.text = (fields.map itemInfo).map
      fun item => lit "[\"" ++ item.name ++ lit "\",\"" ++ item.type.name ++ lit "\"]" := by
    simp only [List.map_map]
    exact List.map_congr_left fun f _ => f.text_columnSpelling
  have hv : (fields.map Field.valueSpelling).map Spelling.text =
      (fields.map itemInfo).map ItemInfo.value := by
    simp only [List.map_map]
    exact List.map_congr_left fun f _ => f.text_valueSpelling
  have ho : Spelling.text (.integer 1 : Spelling Byte) = toDec 1 := text_natural 1
  rw [payloadSpelling, text_array]
  simp only [List.map_cons, List.map_nil, List.intercalate_cons_cons, List.intercalate_singleton,
    text_quoted, text_natural, ho, text_array, hc, hv]
  simp only [payload, ofFields_eq, ofSource, schemaText, composeSchemaArray, composeDataValue, h₁,
    h₂, h₃, List.append_assoc]

/-- The message of an item with fields, asked for its data on an empty id manager. -/
theorem getData_ofFields (counter : ℕ) (source : Bytes) {fields : List Field} (h : fields ≠ []) :
    ∃ item ids, (ofFields counter source fields).getData IdMgr.empty = .ok (item, ids) ∧
      afterLengthLine item.djsonData = (payloadSpelling counter source fields).text := by
  have hs : (ofFields counter source fields).svlist = fields.map itemInfo := by
    rw [ofFields_eq]
  have hne : fields.map itemInfo ≠ [] := by simpa using h
  obtain ⟨ids, hc, -⟩ := composeSchema_eq_request hne IdMgr.empty
  have hr : (schemaRequest IdMgr.empty (columns (fields.map itemInfo))).1 =
      (1, composeSchemaArray (fields.map itemInfo)) := by
    rw [schemaRequest, IdMgr.toInterner_empty, composeSchemaArray_eq]
    rfl
  rw [hr] at hc
  have hd : (ofFields counter source fields).djsonData = [] := by rw [ofFields_eq]; rfl
  have ht : (ofFields counter source fields).schemaAndData = [] := by rw [ofFields_eq]; rfl
  refine ⟨_, ids, ?_, (afterLengthLine_composeFullData _).trans
    (payload_eq_text counter source fields)⟩
  simp only [getData, hd, ht, if_true, composeSchemaAndData, hs, hc, bind, Except.bind, pure,
    Except.pure]

theorem decodes_payloadSpelling (counter : ℕ) (source : Bytes) (fields : List Field)
    (w : Json Byte) : (payloadSpelling counter source fields).Decodes w ↔
      PayloadDecodes counter source fields w := by
  simp [payloadSpelling, PayloadDecodes, List.forall₂_cons_left_iff, Field.columnSpelling,
    Field.decodes_valueSpelling]

theorem cond_payloadSpelling (counter : ℕ) (source : Bytes) (fields : List Field) :
    (payloadSpelling counter source fields).Cond ↔
      PlainText source ∧ ∀ f ∈ fields, PlainText f.name ∧ f.value.Plain := by
  simp [payloadSpelling, Field.columnSpelling, Field.cond_valueSpelling, forall_and]

/-- Asked for its data on an empty id manager, the item with these fields gives a message whose
payload is read as the source and the fields. -/
def PayloadReadBack (counter : ℕ) (source : Bytes) (fields : List Field) : Prop :=
  ∃ item ids w, (ofFields counter source fields).getData IdMgr.empty = .ok (item, ids) ∧
    parse (afterLengthLine item.djsonData) = some w ∧ PayloadDecodes counter source fields w

theorem payloadReadBack_iff_cond (counter : ℕ) (source : Bytes) {fields : List Field}
    (h : fields ≠ []) :
    PayloadReadBack counter source fields ↔ (payloadSpelling counter source fields).Cond := by
  obtain ⟨item, ids, hg, ht⟩ := getData_ofFields counter source h
  rw [← Spelling.parse_iff, PayloadReadBack]
  constructor
  · rintro ⟨item', ids', w, hg', hw, hd⟩
    rw [hg] at hg'
    cases hg'
    exact ⟨w, ht ▸ hw, (decodes_payloadSpelling ..).mpr hd⟩
  · rintro ⟨w, hw, hd⟩
    exact ⟨item, ids, w, hg, ht ▸ hw, (decodes_payloadSpelling ..).mp hd⟩

/-- **Payloads.** The payload of an item with fields is read as its source and its fields if and
only if the source, the names and the string values stand for themselves between quotes: they are
UTF-8 and hold no quote, no backslash and no control character. -/
theorem payload_readBack_iff (counter : ℕ) (source : Bytes) {fields : List Field}
    (h : fields ≠ []) :
    PayloadReadBack counter source fields ↔
      PlainText source ∧ ∀ f ∈ fields, PlainText f.name ∧ f.value.Plain := by
  rw [payloadReadBack_iff_cond counter source h, cond_payloadSpelling]

/-- A flag, a time and a message. -/
def plainFields : List Field :=
  [⟨lit "flag", .bool true, by decide⟩, ⟨lit "at", .time 1475129808 541868180, by decide⟩,
    ⟨lit "message", .string (lit "This is a message"), by decide⟩]

theorem payload_readBack_plainFields : PayloadReadBack 53 (lit "syslog") plainFields := by
  refine (payload_readBack_iff 53 (lit "syslog") (List.cons_ne_nil _ _)).mpr ⟨by decide, ?_⟩
  intro f hf
  simp only [List.mem_cons, List.not_mem_nil, or_false] at hf
  rcases hf with rfl | rfl | rfl
  · exact ⟨by decide, trivial⟩
  · exact ⟨by decide, trivial⟩
  · exact ⟨by decide, show PlainText _ by decide⟩

/-- A message with a quote in it. -/
def quoteField : Field := ⟨lit "message", .string (lit "a\"b"), by decide⟩

/-- The quote is passed on as it is, and ends the string. -/
theorem payload_of_quoteField :
    (∃ item ids, (ofFields 1 (lit "s") [quoteField]).getData IdMgr.empty = .ok (item, ids) ∧
      item.djsonData =
        lit "43\n[\"s\",1,1,[[\"message\",\"FT_STRING\"]],[\"a\"b\"]]") ∧
      ¬ PayloadReadBack 1 (lit "s") [quoteField] := by
  refine ⟨⟨_, _, rfl, by decide⟩, fun h => ?_⟩
  rw [payloadReadBack_iff_cond 1 (lit "s") (List.cons_ne_nil _ _), cond_payloadSpelling] at h
  have hq := (h.2 quoteField (by simp)).2.1 34 (by decide)
  revert hq
  decide

end DjsonLogItem

end Outmdsd
