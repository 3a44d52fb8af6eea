import Outmdsd.Plugin.SchemaManager

/-!
# Messages of the plugin

`OutputMdsd#write` assigns the emit time stamp to each record of a chunk, builds its message from
the schema the manager returns and its values, and hands it to `SendDjson`. The schema of a message
is the one of the first record of the run with the same cache key, its *builder*
(`dataStr_eq_text`).
-/

namespace Outmdsd.Plugin

/-- `JSON.generate` of a string, and the first match of a regular expression in a tag. -/
structure Libraries where
  generate : RString → RString
  matchTag (regex tag : RString) : Option RString

/-- The `[tv_sec,tv_nsec]` pair of a time. -/
def RTime.text (t : RTime) : RString :=
  ['['] ++ intToS t.sec ++ [','] ++ Nat.toDigits 10 t.nsec ++ [']']

variable (lib : Libraries)

/-- The state of an `MdsdMsgMaker`. -/
structure MdsdMsgMaker where
  hashtojson : Bool
  schema_mgr : SchemaManager

/-- `get_value_by_type`; `none` is an exception. -/
def getValueByType (hashtojson : Bool) : RValue → Option RString
  | .string s => some (lib.generate s)
  | .array to_s => some (lib.generate to_s)
  | .hash to_s to_json =>
    if hashtojson then to_json.map lib.generate else some (lib.generate to_s)
  | .range to_s => some (lib.generate to_s)
  | .time t => some t.text
  | .nil => some (lib.generate "null".toList)
  | .true => some "true".toList
  | .false => some "false".toList
  | .integer n => some (intToS n)
  | .float to_s => some to_s
  | .other _ to_s => some to_s

/-- `get_record_values` -/
def getRecordValues (hashtojson : Bool) (record : Record) : Option RString :=
  (record.fields.foldlM (fun resultStr f => (getValueByType lib hashtojson f.2).map fun text =>
    (if resultStr = [] then resultStr ++ ['['] else resultStr ++ [',']) ++ text) []).map
      (· ++ [']'])

/-- `create_mdsd_source` -/
def createMdsdSource (tag : RString) (regexList : List RString) : RString :=
  (regexList.findSome? fun regex => lib.matchTag regex tag).getD tag

/-- The text `get_schema_value_str` makes of a schema object and a record. -/
def schemaValueStr (hashtojson : Bool) (schemaObj : ℕ × RString) (record : Record) :
    Option RString :=
  (getRecordValues lib hashtojson record).map
    (Nat.toDigits 10 schemaObj.1 ++ [','] ++ schemaObj.2 ++ [','] ++ ·)

/-- `get_schema_value_str`: the schema manager has answered when an exception is raised. -/
def MdsdMsgMaker.getSchemaValueStr (m : MdsdMsgMaker) (record : Record) :
    Option RString × MdsdMsgMaker :=
  let r := m.schema_mgr.getSchemaInfo record
  (schemaValueStr lib m.hashtojson r.1 record, { m with schema_mgr := r.2 })

/-- The configuration and the state of an `OutputMdsd`. -/
structure OutputMdsd where
  emit_timestamp_name : RString
  use_source_timestamp : Bool
  mdsdTagPatterns : List RString
  configured_max_record_size : ℤ
  mdsdMsgMaker : MdsdMsgMaker

/-- An entry of a chunk, with the clock when it is handled and what `SendDjson` returns for it. -/
structure Event where
  tag : RString
  /-- Seconds; part of the entry with `use_source_timestamp` only. -/
  time : ℤ
  record : Record
  now : RTime
  sendDjson : Bool

/-- How `handle_record` ends. -/
inductive Outcome
  | dropped
  | sent
  /-- The exception that ends the chunk. -/
  | raised
  deriving DecidableEq

/-- What `handle_record` did for a record; without a text, an exception was raised making it. -/
structure Handled where
  mdsdSource : RString
  dataStr : Option RString
  outcome : Outcome
  deriving DecidableEq

namespace OutputMdsd

/-- `MDSD_MAX_RECORD_SIZE` -/
def mdsdMaxRecordSize : ℤ := 128 * 1024 - 1

/-- `configure` -/
def configure (emit_timestamp_name : RString) (use_source_timestamp : Bool)
    (mdsd_tag_regex_patterns : List RString) (max_record_size : ℤ) (convert_hash_to_json : Bool) :
    OutputMdsd :=
  ⟨emit_timestamp_name, use_source_timestamp, mdsd_tag_regex_patterns,
    min max_record_size mdsdMaxRecordSize, ⟨convert_hash_to_json, .new⟩⟩

/-- The time assigned to an event: `Time.at(time)` or `Time.now`. -/
def timestamp (p : OutputMdsd) (ev : Event) : RTime :=
  if p.use_source_timestamp then ⟨ev.time, 0⟩ else ev.now

/-- The record after `record[emit_timestamp_name] = ...`. -/
def assigned (p : OutputMdsd) (ev : Event) : Record :=
  ev.record.set p.emit_timestamp_name (.time (p.timestamp ev))

theorem assigned_fields_ne_nil (p : OutputMdsd) (ev : Event) : (p.assigned ev).fields ≠ [] :=
  Record.set_fields_ne_nil _ _ _

/-- How `handle_record` goes on with the text for a record: `record_too_large?`, and `SendDjson`. -/
def outcome (p : OutputMdsd) (ev : Event) : Option RString → Outcome
  | none => .raised
  | some dataStr =>
    if p.configured_max_record_size < dataStr.length then .dropped
    else if ev.sendDjson then .sent else .raised

/-- `handle_record` -/
def handleRecord (p : OutputMdsd) (ev : Event) (record : Record) : Handled × OutputMdsd :=
  let mdsdSource := createMdsdSource lib ev.tag p.mdsdTagPatterns
  let r := p.mdsdMsgMaker.getSchemaValueStr lib record
  (⟨mdsdSource, r.1, p.outcome ev r.1⟩, { p with mdsdMsgMaker := r.2 })

/-- `write`: the handled events of a chunk, in order, and the state they leave. -/
def write (p : OutputMdsd) : List Event → List (Event × Handled) × OutputMdsd
  | [] => ([], p)
  | ev :: evs =>
    let h := p.handleRecord lib ev (p.assigned ev)
    if h.1.outcome = .raised then ([(ev, h.1)], h.2)
    else
      let r := write h.2 evs
      ((ev, h.1) :: r.1, r.2)

/-- The handled events of a list of chunks. -/
def writeAll (p : OutputMdsd) : List (List Event) → List (Event × Handled)
  | [] => []
  | chunk :: chunks =>
    let r := p.write lib chunk
    r.1 ++ writeAll r.2 chunks

end OutputMdsd

/-- The values without a text are the hashes that `to_json` raises an exception for. -/
theorem isSome_getValueByType (hashtojson : Bool) (v : RValue) :
    (getValueByType lib hashtojson v).isSome = !v.raises hashtojson := by
  cases v with
  | hash to_s to_json => cases hashtojson <;> cases to_json <;> rfl
  | _ => rfl

/-! ## Messages -/

/-- The texts of the values of a record. -/
def valueTexts (hashtojson : Bool) (record : Record) : Option (List RString) :=
  record.fields.mapM fun f => getValueByType lib hashtojson f.2

/-- A fold over values that are computed one by one is a fold over all of them. -/
theorem foldlM_map {α β γ : Type} (f : α → Option β) (g : γ → β → γ) (l : List α) (c : γ) :
    l.foldlM (fun c a => (f a).map (g c)) c = (l.mapM f).map (List.foldl g c) := by
  induction l generalizing c with
  | nil => rfl
  | cons a l ih =>
    rw [List.foldlM_cons, List.mapM_cons]
    cases f a with
    | none => rfl
    | some b =>
      show List.foldlM (fun c a => (f a).map (g c)) (g c b) l = _
      rw [ih]
      cases l.mapM f with
      | none => rfl
      | some bs => rfl

theorem forall₂_valueTexts {hashtojson : Bool} {record : Record} {texts : List RString}
    (h : valueTexts lib hashtojson record = some texts) :
    List.Forall₂ (fun f text => getValueByType lib hashtojson f.2 = some text) record.fields
      texts := by
  unfold valueTexts at h
  generalize record.fields = fs at h
  induction fs generalizing texts with
  | nil =>
    cases h
    exact .nil
  | cons f fs ih =>
    rw [List.mapM_cons] at h
    obtain ⟨text, ht, h⟩ := Option.bind_eq_some_iff.mp h
    obtain ⟨rest, hr, h⟩ := Option.bind_eq_some_iff.mp h
    cases h
    exact .cons ht (ih hr)

/-- The values of a record have texts if and only if none is a hash that `to_json` raises an
exception for. -/
theorem isSome_valueTexts_iff (hashtojson : Bool) (record : Record) :
    (valueTexts lib hashtojson record).isSome ↔
      ∀ f ∈ record.fields, f.2.raises hashtojson = Bool.false := by
  unfold valueTexts
  induction record.fields with
  | nil => simp
  | cons f fs ih =>
    have hf := isSome_getValueByType lib hashtojson f.2
    rw [List.mapM_cons, List.forall_mem_cons, ← ih]
    cases hv : getValueByType lib hashtojson f.2 with
    | none =>
      rw [hv, Option.isSome_none, eq_comm, Bool.not_eq_false'] at hf
      simp [hf]
    | some text =>
      rw [hv, Option.isSome_some, eq_comm, Bool.not_eq_true'] at hf
      cases List.mapM (fun f => getValueByType lib hashtojson f.2) fs <;> simp [hf]

/-- A message: its schema id, the head of the schema array, the columns, and the values. -/
structure Message where
  id : ℕ
  timeIndex : ℕ
  columns : List (RString × RString)
  values : List RString

namespace Message

/-- The text of a message. -/
def text (m : Message) : RString :=
  Nat.toDigits 10 m.id ++ [','] ++
    (['['] ++ Nat.toDigits 10 m.timeIndex ++ [','] ++
      [','].intercalate (m.columns.map fun c => SchemaManager.columnText c.1 c.2) ++ [']']) ++
    [','] ++ (['['] ++ [','].intercalate m.values ++ [']'])

/-- The message with the schema of a record and these values. -/
def ofBuilder (id : ℕ) (builder : Record) (values : List RString) : Message where
  id := id
  timeIndex := builder.fields.length - 1
  columns := builder.shape.map fun f => (f.1, mdsdType f.2)
  values := values

/-! ### The text of what the plugin builds -/

theorem intToS_length_sub_one {α : Type*} {l : List α} (h : l ≠ []) :
    intToS ((l.length : ℤ) - 1) = Nat.toDigits 10 (l.length - 1) := by
  have hl := List.length_pos_iff.mpr h
  rw [show (l.length : ℤ) - 1 = ((l.length - 1 : ℕ) : ℤ) by omega, intToS, if_neg (by omega),
    Int.natAbs_natCast]

theorem getRecordValues_eq (hashtojson : Bool) {record : Record} (h : record.fields ≠ []) :
    getRecordValues lib hashtojson record =
      (valueTexts lib hashtojson record).map fun texts =>
        ['['] ++ [','].intercalate texts ++ [']'] := by
  rw [getRecordValues, foldlM_map, Option.map_map]
  refine Option.map_congr fun texts ht => ?_
  have hne : texts ≠ [] := by
    have hl := (forall₂_valueTexts lib ht).length_eq
    rintro rfl
    exact h (List.length_eq_zero_iff.mp hl)
  have hfold := SchemaManager.foldl_intercalate (fun s => s ++ ['[']) (fun text => text)
    (by simp) hne
  rw [List.map_id'] at hfold
  exact congrArg (· ++ [']']) hfold

/-- The text of a schema object and a record is a message, if the schema is that of a record. -/
theorem schemaValueStr_eq_text (hashtojson : Bool) (id : ℕ) {builder record : Record}
    (hb : builder.fields ≠ []) (hr : record.fields ≠ []) :
    schemaValueStr lib hashtojson (id, SchemaManager.newSchemaOf builder.shape) record =
      (valueTexts lib hashtojson record).map fun values => (ofBuilder id builder values).text := by
  have hs : builder.shape ≠ [] := by simpa [Record.shape] using hb
  rw [schemaValueStr, getRecordValues_eq lib hashtojson hr, SchemaManager.newSchemaOf_eq hs,
    intToS_length_sub_one hs, Option.map_map]
  congr 1
  funext values
  simp [text, ofBuilder, Record.shape, Function.comp_def]

end Message

namespace OutputMdsd

/-! ### The log of a run -/

/-- The state after handling the events of a log. -/
def after (p : OutputMdsd) : List (Event × Handled) → OutputMdsd
  | [] => p
  | e :: log => after (p.handleRecord lib e.1 (p.assigned e.1)).2 log

/-- Every event of the log was handled in the state the events before it left. -/
def IsLog (p : OutputMdsd) : List (Event × Handled) → Prop
  | [] => True
  | e :: log => e.2 = (p.handleRecord lib e.1 (p.assigned e.1)).1 ∧
      IsLog (p.handleRecord lib e.1 (p.assigned e.1)).2 log

theorem isLog_append {p : OutputMdsd} {log log' : List (Event × Handled)} :
    p.IsLog lib (log ++ log') ↔ p.IsLog lib log ∧ (p.after lib log).IsLog lib log' := by
  induction log generalizing p with
  | nil => simp [IsLog, after]
  | cons e log ih => simp only [List.cons_append, IsLog, after, ih, and_assoc]

theorem isLog_write (p : OutputMdsd) (evs : List Event) :
    p.IsLog lib (p.write lib evs).1 ∧ (p.write lib evs).2 = p.after lib (p.write lib evs).1 := by
  induction evs generalizing p with
  | nil => exact ⟨trivial, rfl⟩
  | cons ev evs ih =>
    rw [write]
    split
    · exact ⟨⟨rfl, trivial⟩, rfl⟩
    · obtain ⟨hl, ha⟩ := ih (p.handleRecord lib ev (p.assigned ev)).2
      exact ⟨⟨rfl, hl⟩, ha⟩

theorem isLog_writeAll (p : OutputMdsd) (chunks : List (List Event)) :
    p.IsLog lib (p.writeAll lib chunks) := by
  induction chunks generalizing p with
  | nil => trivial
  | cons chunk chunks ih =>
    obtain ⟨hl, ha⟩ := isLog_write lib p chunk
    refine (isLog_append lib).mpr ⟨hl, ?_⟩
    rw [← ha]
    exact ih _

/-- Handling events changes the schema manager only: it has answered for their records. -/
theorem after_eq (p : OutputMdsd) (log : List (Event × Handled)) :
    p.after lib log = { p with mdsdMsgMaker := { p.mdsdMsgMaker with schema_mgr :=
      (p.mdsdMsgMaker.schema_mgr.getSchemaInfos (log.map fun e => p.assigned e.1)).2 } } := by
  induction log generalizing p with
  | nil => rfl
  | cons e log ih => rw [after, ih]; rfl

/-- The first event of a log whose record, with the time stamp assigned, has the pieces of the
given event's. -/
def builder? (p : OutputMdsd) (evs : List Event) (ev : Event) : Option Event :=
  evs.find? fun ev' =>
    decide (SchemaManager.keyPieces (p.assigned ev') = SchemaManager.keyPieces (p.assigned ev))

/-- The text built for an event is the message with the schema of its builder and its own values,
if they all have a text. -/
theorem dataStr_eq_text {p : OutputMdsd} (hp : p.mdsdMsgMaker.schema_mgr = .new)
    {hist : List (Event × Handled)} {ev : Event} {h : Handled} {chunks : List (List Event)}
    (hl : hist ++ [(ev, h)] <+: p.writeAll lib chunks) :
    ∃ id b, p.builder? (hist.map Prod.fst ++ [ev]) ev = some b ∧
      h.dataStr = (valueTexts lib p.mdsdMsgMaker.hashtojson (p.assigned ev)).map fun values =>
        (Message.ofBuilder id (p.assigned b) values).text := by
  obtain ⟨later, hl⟩ := hl
  have hlog := isLog_writeAll lib p chunks
  rw [← hl, isLog_append, isLog_append] at hlog
  have hh : h = ((p.after lib hist).handleRecord lib ev (p.assigned ev)).1 := by
    have := hlog.1.2.1
    rwa [after_eq] at this ⊢
  rw [after_eq, hp] at hh
  obtain ⟨r₀, hf, hv⟩ := SchemaManager.getSchemaInfo_after (hist.map fun e => p.assigned e.1)
    (p.assigned ev)
  have hm : (hist.map fun e => p.assigned e.1) ++ [p.assigned ev] =
      (hist.map Prod.fst ++ [ev]).map p.assigned := by simp
  rw [hm, List.find?_map] at hf
  obtain ⟨b, hb, rfl⟩ := Option.map_eq_some_iff.mp hf
  refine ⟨((SchemaManager.new.getSchemaInfos (hist.map fun e => p.assigned e.1)).2.getSchemaInfo
    (p.assigned ev)).1.1, b, hb, ?_⟩
  rw [← Message.schemaValueStr_eq_text lib p.mdsdMsgMaker.hashtojson _
    (p.assigned_fields_ne_nil b) (p.assigned_fields_ne_nil ev), ← hv, hh]
  rfl

/-- Quotes without escapes, and no patterns. -/
def plain : Libraries := ⟨fun s => ['"'] ++ s ++ ['"'], fun _ _ => none⟩

/-- A plugin whose time stamp is called `T`. -/
def pluginT : OutputMdsd := configure ['T'] true [] mdsdMaxRecordSize false

/-- `{"a" => 1}` at second 5. -/
def eventA : Event := ⟨['t'], 5, ⟨[(['a'], .integer 1)], by decide⟩, ⟨0, 0⟩, true⟩

end OutputMdsd

end Outmdsd.Plugin
