import Outmdsd.Item.IdMgr

/-!
# DJSON log items

A `DjsonLogItem` is either built from a source and a ready text of schema and data
(`DjsonLogItem.ofSchemaAndData`, what `SocketLogger::SendDjson` does), or from a source and fields
added one by one with `addData`. `getData` composes the message once and keeps it: the length of
the payload, a newline, and the payload `["<source>",<tag>,<schemaAndData>]`.
-/

namespace Outmdsd

/-- The column types `DjsonLogItem::AddData` stores. -/
inductive FieldType
  | bool | int32 | int64 | double | time | string
  deriving DecidableEq

/-- The type strings. -/
def FieldType.name : FieldType → Bytes
  | .bool => lit "FT_BOOL"
  | .int32 => lit "FT_INT32"
  | .int64 => lit "FT_INT64"
  | .double => lit "FT_DOUBLE"
  | .time => lit "FT_TIME"
  | .string => lit "FT_STRING"

/-- `DjsonLogItem::ItemInfo` -/
structure ItemInfo where
  name : Bytes
  type : FieldType
  value : Bytes
  deriving DecidableEq

/-- The values of the overloads of `AddData`. A double is given by the text its stream prints. -/
inductive FieldValue
  | bool (value : Bool)
  | int32 (value : Int32)
  | uint32 (value : UInt32)
  | int64 (value : Int64)
  | double (strm : Bytes)
  | time (seconds : UInt64) (nanoseconds : UInt32)
  | string (value : Bytes)

/-- `std::to_string` of a signed number. -/
def toDecInt (n : ℤ) : Bytes :=
  if n < 0 then lit "-" ++ toDec n.natAbs else toDec n.natAbs

/-- The column type of a value. -/
def FieldValue.type : FieldValue → FieldType
  | .bool _ => .bool
  | .int32 _ => .int32
  | .uint32 _ => .int64
  | .int64 _ => .int64
  | .double _ => .double
  | .time _ _ => .time
  | .string _ => .string

/-- The text stored for a value. -/
def FieldValue.text : FieldValue → Bytes
  | .bool value => if value then lit "true" else lit "false"
  | .int32 value => toDecInt value.toInt
  | .uint32 value => toDec value.toNat
  | .int64 value => toDecInt value.toInt
  | .double strm => strm
  | .time seconds nanoseconds =>
    lit "[" ++ toDec seconds.toNat ++ lit "," ++ toDec nanoseconds.toNat ++ lit "]"
  | .string value => lit "\"" ++ value ++ lit "\""

/-- A log item, its tag included. -/
structure DjsonLogItem where
  tag : Bytes
  source : Bytes
  schemaAndData : Bytes
  svlist : List ItemInfo
  djsonData : Bytes
  deriving DecidableEq

namespace DjsonLogItem

/-- `DjsonLogItem(source)`, with the tag `LogItem()` takes from its counter. -/
def ofSource (counter : ℕ) (source : Bytes) : DjsonLogItem :=
  ⟨toDec counter, source, [], [], []⟩

/-- `DjsonLogItem(source, schemaAndData)` -/
def ofSchemaAndData (counter : ℕ) (source schemaAndData : Bytes) : DjsonLogItem :=
  ⟨toDec counter, source, schemaAndData, [], []⟩

/-- `DjsonLogItem::AddData` -/
def addData (item : DjsonLogItem) (name : Bytes) (v : FieldValue) : DjsonLogItem :=
  { item with svlist := item.svlist ++ [⟨name, v.type, v.text⟩] }

/-- `DjsonLogItem::GetSchemaCacheKey` -/
def getSchemaCacheKey (svlist : List ItemInfo) : Bytes :=
  svlist.flatMap fun item => item.name ++ item.type.name

/-- `DjsonLogItem::ComposeSchemaArray`, the comma that follows the array included. -/
def composeSchemaArray (svlist : List ItemInfo) : Bytes :=
  lit "[" ++ (lit ",").intercalate (svlist.map fun item =>
    lit "[\"" ++ item.name ++ lit "\",\"" ++ item.type.name ++ lit "\"]") ++ lit "],"

/-- `DjsonLogItem::ComposeDataValue` -/
def composeDataValue (svlist : List ItemInfo) : Bytes :=
  lit "[" ++ (lit ",").intercalate (svlist.map ItemInfo.value) ++ lit "]"

/-- `DjsonLogItem::ComposeSchema`: the schema id and the schema array it streams. -/
def composeSchema (svlist : List ItemInfo) (ids : IdMgr) : Except Exn ((ℕ × Bytes) × IdMgr) := do
  let key := getSchemaCacheKey svlist
  match ← ids.getItem key with
  | some cachedInfo => return (cachedInfo, ids)
  | none =>
    let schemaArray := composeSchemaArray svlist
    let r ← ids.findOrInsert key schemaArray
    return ((r.1, schemaArray), r.2)

/-- The text of a schema id and a schema array. -/
def schemaText (schema : ℕ × Bytes) : Bytes := toDec schema.1 ++ lit "," ++ schema.2

/-- `DjsonLogItem::ComposeSchemaAndData` -/
def composeSchemaAndData (item : DjsonLogItem) (ids : IdMgr) :
    Except Exn (DjsonLogItem × IdMgr) := do
  let r ← composeSchema item.svlist ids
  return ({ item with
    svlist := []
    schemaAndData := schemaText r.1 ++ composeDataValue item.svlist }, r.2)

/-- The payload of a message. -/
def payload (item : DjsonLogItem) : Bytes :=
  lit "[\"" ++ item.source ++ lit "\"," ++ item.tag ++ lit "," ++ item.schemaAndData ++ lit "]"

/-- The payload length `ComposeFullData` announces. -/
def announcedLength (item : DjsonLogItem) : ℕ :=
  2 + item.source.length + 2 + item.tag.length + 1 + item.schemaAndData.length + 1

/-- `DjsonLogItem::ComposeFullData` -/
def composeFullData (item : DjsonLogItem) : DjsonLogItem :=
  { item with
    djsonData := toDec item.announcedLength ++ lit "\n[\"" ++ item.source ++ lit "\"," ++
      item.tag ++ lit "," ++ item.schemaAndData ++ lit "]" }

/-- `DjsonLogItem::GetData`: the item afterwards, whose `djsonData` the returned pointer is to. -/
def getData (item : DjsonLogItem) (ids : IdMgr) : Except Exn (DjsonLogItem × IdMgr) :=
  if item.djsonData = [] then
    if item.schemaAndData = [] then do
      let r ← item.composeSchemaAndData ids
      return (r.1.composeFullData, r.2)
    else return (item.composeFullData, ids)
  else return (item, ids)

/-- There is something to compose the message from. -/
def HasData (item : DjsonLogItem) : Prop :=
  item.djsonData ≠ [] ∨ item.schemaAndData ≠ [] ∨ item.svlist ≠ []

instance (item : DjsonLogItem) : Decidable item.HasData :=
  inferInstanceAs (Decidable (_ ∨ _ ∨ _))

/-! ## What the composing functions produce -/

/-- The announced length is the length of the payload. -/
theorem announcedLength_eq (item : DjsonLogItem) : item.announcedLength = item.payload.length := by
  have h1 : (lit "[\"").length = 2 := by decide
  have h2 : (lit "\",").length = 2 := by decide
  have h3 : (lit ",").length = 1 := by decide
  have h4 : (lit "]").length = 1 := by decide
  simp only [announcedLength, payload, List.length_append, h1, h2, h3, h4]

/-- A composed message is a length line and the payload. -/
theorem djsonData_composeFullData (item : DjsonLogItem) :
    item.composeFullData.djsonData =
      toDec item.payload.length ++ newline :: item.payload := by
  have h : lit "\n[\"" = newline :: lit "[\"" := by decide
  simp only [composeFullData, announcedLength_eq, payload, h, List.append_assoc, List.cons_append]

/-- An item built from a text of schema and data is composed without the id manager. -/
theorem getData_of_schemaAndData {item : DjsonLogItem} (hd : item.djsonData = [])
    (hs : item.schemaAndData ≠ []) (ids : IdMgr) :
    item.getData ids = .ok (item.composeFullData, ids) := by
  simp [getData, hd, hs, pure, Except.pure]

end DjsonLogItem

end Outmdsd
