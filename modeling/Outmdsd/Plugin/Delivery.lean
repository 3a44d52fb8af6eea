import Outmdsd.Foundations.Printable
import Outmdsd.Foundations.Transcoding
import Outmdsd.Item.Receiving
import Outmdsd.Logger.Wire
import Outmdsd.Plugin.RecordSize
import Outmdsd.Plugin.ValueTypes

/-!
# From records to the server

The text the plugin builds for a record becomes the bytes of UTF-8, `SendDjson` puts a source, a tag
and a length line around them, and the server cuts the stream at the length lines and reads each
payload as JSON. When `JSON.generate` makes JSON literals, sources and keys stand for themselves
between quotes and no two records share the pieces of a cache key with different schemas, the
server gets, for the records that `SendDjson` accepts and in their order, the source, the schema and
the values of each (`received_records`).
-/

namespace Outmdsd.Plugin

open Json

/-! ## Values -/

/-- What a value of a record is read as. -/
def RValue.ReadAs (hashtojson : Bool) : RValue → Json Char → Prop
  | .true, w => w = .bool Bool.true
  | .false, w => w = .bool Bool.false
  | .integer n, w => w = .num n
  | .float to_s, w => ∃ q, number to_s = some (q, []) ∧ w = .num q
  | .time t, w => w = .arr [.num t.sec, .num t.nsec]
  | .other _ _, _ => False
  | v, w => ∃ s, chosenText hashtojson v = some s ∧ w = .str s

variable {lib : Libraries}

/-- The text of a value is a spelling without a condition, of what the value is to be read as. -/
theorem exists_readSpelling (hg : GeneratesLiterals lib) {hashtojson : Bool} {v : RValue}
    (hv : v.HasJsonShape) (hr : v.raises hashtojson = Bool.false) :
    ∃ p : Spelling Char, getValueByType lib hashtojson v = some p.text ∧
      p.Cond ∧ v.ReadAs hashtojson p.val := by
  have lit : ∀ s, ∃ p : Spelling Char, p.text = lib.generate s ∧ p.Cond ∧ p.val = .str s :=
    fun s => ⟨.literal (lib.generate s) s (hg s), rfl, trivial, rfl⟩
  have texts : ∀ s, getValueByType lib hashtojson v = some (lib.generate s) →
      (∀ w : Json Char, w = .str s → v.ReadAs hashtojson w) →
      ∃ p : Spelling Char, getValueByType lib hashtojson v = some p.text ∧ p.Cond ∧
        v.ReadAs hashtojson p.val := fun s ht hr => by
    obtain ⟨p, hp, hc, hval⟩ := lit s
    exact ⟨p, ht.trans (congrArg some hp.symm), hc, hr _ hval⟩
  cases v with
  | string s => exact texts s rfl fun w hw => ⟨s, rfl, hw⟩
  | array to_s => exact texts to_s rfl fun w hw => ⟨to_s, rfl, hw⟩
  | hash to_s to_json =>
    cases hashtojson with
    | true =>
      cases to_json with
      | none => cases hr
      | some to_json => exact texts to_json rfl fun w hw => ⟨to_json, rfl, hw⟩
    | false => exact texts to_s rfl fun w hw => ⟨to_s, rfl, hw⟩
  | range to_s => exact texts to_s rfl fun w hw => ⟨to_s, rfl, hw⟩
  | nil => exact texts _ rfl fun w hw => ⟨_, rfl, hw⟩
  | time t =>
    exact ⟨.array [.integer t.sec, .integer t.nsec], congrArg some (text_time t).symm, by simp,
      rfl⟩
  | true => exact ⟨.bool true, congrArg some (asciiText_eq _).symm, trivial, rfl⟩
  | false => exact ⟨.bool false, congrArg some (asciiText_eq _).symm, trivial, rfl⟩
  | integer n => exact ⟨.integer n, congrArg some (text_integer n).symm, trivial, rfl⟩
  | float to_s =>
    obtain ⟨q, hq⟩ := hv
    exact ⟨.number to_s q hq, rfl, trivial, q, hq, rfl⟩
  | other cls to_s => exact hv.elim

theorem exists_readSpellings (hg : GeneratesLiterals lib) {hashtojson : Bool}
    {fs : List (RString × RValue)} (hv : ∀ f ∈ fs, f.2.HasJsonShape)
    (hr : ∀ f ∈ fs, f.2.raises hashtojson = Bool.false) :
    ∃ ps : List (Spelling Char),
      fs.mapM (fun f => getValueByType lib hashtojson f.2) = some (ps.map Spelling.text) ∧
      (∀ p ∈ ps, p.Cond) ∧
      List.Forall₂ (fun f p => f.2.ReadAs hashtojson p.val) fs ps := by
  induction fs with
  | nil => exact ⟨[], rfl, by simp, .nil⟩
  | cons f fs ih =>
    obtain ⟨ps, ht, hc, hps⟩ := ih (fun g hg => hv g (by simp [hg])) fun g hg => hr g (by simp [hg])
    obtain ⟨p, htp, hcp, hp⟩ := exists_readSpelling hg (hv f (by simp)) (hr f (by simp))
    exact ⟨p :: ps, by simp [ht, htp], by simpa [hcp] using hc, .cons hp hps⟩

/-! ## Payloads -/

/-- The columns of the schema of a record. -/
def schemaColumns (record : Record) : List (Json Char) :=
  record.fields.map fun f => .arr [.str f.1, .str (mdsdType f.2.className.name)]

/-- What the payload of a record is read as: its source, the tag of the message, the id of the
schema, the schema, whose columns have the index of the last one before them, and the values. -/
def RecordReadAs (hashtojson : Bool) (source : RString) (tag : ℕ) (record : Record)
    (w : Json Char) : Prop :=
  ∃ (id : ℕ) (values : List (Json Char)),
    w = .arr [.str source, .num tag, .num id,
      .arr (.num ((record.fields.length : ℤ) - 1 : ℤ) :: schemaColumns record), .arr values] ∧
    List.Forall₂ (fun f v => f.2.ReadAs hashtojson v) record.fields values

/-- A payload as a spelling, with the spellings of its values. -/
def payloadSpelling (source : RString) (tag id : ℕ) (record : Record)
    (values : List (Spelling Char)) : Spelling Char :=
  .array [.quoted source, .integer tag, .integer id,
    .array (.integer ((record.fields.length : ℤ) - 1) :: record.fields.map columnSpelling),
    .array values]

theorem cond_payloadSpelling {source : RString} (hs : PlainText source) (tag id : ℕ)
    {record : Record} (hk : ∀ key ∈ record.keys, PlainText key) {values : List (Spelling Char)}
    (hv : ∀ p ∈ values, p.Cond) : (payloadSpelling source tag id record values).Cond := by
  have hcols : ∀ f ∈ record.fields, (columnSpelling f).Cond := fun f hf => by
    rw [columnSpelling, Spelling.cond_labelled]
    exact hk f.1 (List.mem_map_of_mem hf)
  simp only [payloadSpelling, Spelling.cond_array, List.forall_mem_cons, List.forall_mem_map,
    Spelling.cond_quoted, Spelling.cond_integer, true_and]
  exact ⟨hs, hcols, hv, by simp⟩

theorem text_payloadSpelling (source : RString) (tag id : ℕ) {record : Record}
    (h : record.fields ≠ []) (values : List (Spelling Char)) :
    (payloadSpelling source tag id record values).text =
      "[\"".toList ++ source ++ "\",".toList ++ Nat.toDigits 10 tag ++ ",".toList ++
        (Message.ofBuilder id record (values.map Spelling.text)).text ++ "]".toList := by
  have hcols : (record.fields.map columnSpelling).map Spelling.text =
      ((record.shape.map fun f => (f.1, mdsdType f.2)).map fun c =>
        SchemaManager.columnText c.1 c.2) := by
    simp only [List.map_map, Record.shape]
    exact List.map_congr_left fun f _ => text_columnSpelling f
  have hne : (record.shape.map fun f => (f.1, mdsdType f.2)).map (fun c =>
      SchemaManager.columnText c.1 c.2) ≠ [] := by simpa [Record.shape] using h
  have hi : (Spelling.integer ((record.fields.length : ℤ) - 1) : Spelling Char).text =
      Nat.toDigits 10 (record.fields.length - 1) := by
    rw [text_integer, Message.intToS_length_sub_one h]
  have hq : (Spelling.quoted source).text = '"' :: (source ++ ['"']) := rfl
  obtain ⟨c, cs, hc⟩ := List.exists_cons_of_ne_nil hne
  simp only [payloadSpelling, text_array, List.map_cons, List.map_nil, text_natural, hi, hcols,
    hc, hq, List.intercalate_cons_cons, List.intercalate_singleton, Message.text,
    Message.ofBuilder]
  simp

/-! ## Bytes -/

theorem utf8_append (s t : RString) : utf8 (s ++ t) = utf8 s ++ utf8 t := List.flatMap_append

theorem utf8_toDigits (n : ℕ) : utf8 (Nat.toDigits 10 n) = toDec n := by
  have h : ∀ cs : List Char, (∀ c ∈ cs, c ∈ Nat.toDigits 10 n) →
      utf8 cs = cs.map Char.toUInt8 := by
    intro cs
    induction cs with
    | nil => intro _; rfl
    | cons c cs ih =>
      intro hm
      have hd := code_of_mem_toDigits Char (hm c (by simp))
      have hc : Alphabet.code c < 128 := by
        have : Alphabet.code c = c.toNat := rfl
        omega
      have hlt := Transcoding.utf8.coded_of_lt c hc
      rw [List.map_cons, ← ih fun d hd => hm d (by simp [hd])]
      exact congrArg (· ++ utf8 cs) hlt
  exact h _ fun c hc => hc

/-- The bytes of a payload. -/
theorem utf8_payload (counter : ℕ) (source dataStr : RString) :
    utf8 ("[\"".toList ++ source ++ "\",".toList ++ Nat.toDigits 10 counter ++ ",".toList ++
        dataStr ++ "]".toList) =
      (DjsonLogItem.ofSchemaAndData counter (utf8 source) (utf8 dataStr)).payload := by
  have h₁ : utf8 "[\"".toList = lit "[\"" := by decide
  have h₂ : utf8 "\",".toList = lit "\"," := by decide
  have h₃ : utf8 ",".toList = lit "," := by decide
  have h₄ : utf8 "]".toList = lit "]" := by decide
  simp only [utf8_append, utf8_toDigits, h₁, h₂, h₃, h₄, DjsonLogItem.payload,
    DjsonLogItem.ofSchemaAndData]

/-- A payload that is read as JSON is sent whole. -/
theorem notMem_zero_of_parse {counter : ℕ} {source dataStr : Bytes} {w : Json Byte}
    (h : parse (DjsonLogItem.ofSchemaAndData counter source dataStr).payload = some w) :
    (0 : Byte) ∉ source ∧ (0 : Byte) ∉ dataStr := by
  have hp := printable_of_parse h
  have h0 : ¬ Printable (0 : Byte) := by
    rintro (h | h)
    · exact absurd h (by decide)
    · exact absurd h (by decide)
  refine ⟨fun hm => h0 (hp 0 ?_), fun hm => h0 (hp 0 ?_)⟩
  · simp [DjsonLogItem.payload, DjsonLogItem.ofSchemaAndData, hm]
  · simp [DjsonLogItem.payload, DjsonLogItem.ofSchemaAndData, hm]

/-! ## What the server gets -/

/-- What a call of `SendDjson` meets: the schema ids and the cache, the clock, the number its item
takes from the counter, and the answers of the socket. -/
structure Sending where
  ids : IdMgr
  dataCache : Option DataCache
  now : ℕ
  counter : ℕ
  calls : SocketClient.Calls

/-- The text for a handled record, if one was made. -/
def Handled.text (h : Handled) : RString := h.dataStr.getD []

/-- The call for a handled record. -/
def Sending.result (c : Sending) (h : Handled) : Option Bool × SocketLogger.CallResult :=
  SocketLogger.sendDjson c.ids c.dataCache c.now c.counter (utf8 h.mdsdSource) (utf8 h.text) c.calls

/-- The call returns `true` and the client is not stopped meanwhile. -/
structure Sending.Accepts (c : Sending) (h : Handled) : Prop where
  unstopped : c.calls.Unstopped
  answer : (c.result h).1 = some true

/-- An accepted call puts the message of its item on the wire, when no byte 0 cuts it. -/
theorem Sending.Accepts.wire {c : Sending} {h : Handled} (hc : c.Accepts h)
    (h0 : (0 : Byte) ∉ utf8 h.mdsdSource ∧ (0 : Byte) ∉ utf8 h.text) :
    (c.result h).2.wire = frame (DjsonLogItem.ofSchemaAndData c.counter (utf8 h.mdsdSource)
      (utf8 h.text)).payload := by
  have hs : utf8 h.mdsdSource ≠ [] := by
    intro hnil
    have := hc.answer
    simp [result, SocketLogger.sendDjson, hnil] at this
  have hd : utf8 h.text ≠ [] := by
    intro hnil
    have := hc.answer
    simp [result, SocketLogger.sendDjson, hnil, hs] at this
  rw [result, SocketLogger.wire_sendDjson hs hd hc.unstopped hc.answer,
    (DjsonLogItem.cStr_message_eq_iff c.counter _ _).mpr h0]
  exact DjsonLogItem.djsonData_composeFullData _

namespace OutputMdsd

/-- A record whose source and keys stand for themselves between quotes, and whose values are of
known classes and have texts; those of floats are JSON numbers. -/
structure Deliverable (lib : Libraries) (p : OutputMdsd) (ev : Event) : Prop where
  source : PlainText (createMdsdSource lib ev.tag p.mdsdTagPatterns)
  keys : ∀ key ∈ (p.assigned ev).keys, PlainText key
  values : ∀ f ∈ (p.assigned ev).fields, f.2.HasJsonShape
  texts : ∀ f ∈ (p.assigned ev).fields, f.2.raises p.mdsdMsgMaker.hashtojson = Bool.false

/-- What the server gets for a record: a payload that is read as the record with the time stamp
assigned. -/
def Received (lib : Libraries) (p : OutputMdsd) (ev : Event) (counter : ℕ) (payload : Bytes) :
    Prop :=
  ∃ w, parse payload = some (Transcoding.utf8.value w) ∧
    RecordReadAs p.mdsdMsgMaker.hashtojson (createMdsdSource lib ev.tag p.mdsdTagPatterns) counter
      (p.assigned ev) w

variable {p : OutputMdsd}

/-- No two records of a log have the same pieces and different shapes. -/
def OwnPieces (p : OutputMdsd) (log : List (Event × Handled)) : Prop :=
  ∀ e ∈ log, ∀ e' ∈ log, SchemaManager.keyPieces (p.assigned e.1) =
    SchemaManager.keyPieces (p.assigned e'.1) → (p.assigned e.1).shape = (p.assigned e'.1).shape

/-- A message depends on the record its schema is of by its shape only. -/
theorem ofBuilder_congr (id : ℕ) {b b' : Record} (h : b.shape = b'.shape)
    (values : List RString) : Message.ofBuilder id b values = Message.ofBuilder id b' values := by
  have hl : b.fields.length = b'.fields.length := by
    simpa [Record.shape] using congrArg List.length h
  simp only [Message.ofBuilder, h, hl]

/-- The source and the text of a record in the log of a run. -/
theorem handled_of_mem (hp : p.mdsdMsgMaker.schema_mgr = .new) {chunks : List (List Event)}
    (ho : p.OwnPieces (p.writeAll lib chunks)) {e : Event × Handled}
    (he : e ∈ p.writeAll lib chunks) :
    e.2.mdsdSource = createMdsdSource lib e.1.tag p.mdsdTagPatterns ∧
      ∃ id, e.2.dataStr = (valueTexts lib p.mdsdMsgMaker.hashtojson (p.assigned e.1)).map
        fun values => (Message.ofBuilder id (p.assigned e.1) values).text := by
  obtain ⟨hist, later, hlog⟩ := List.append_of_mem he
  have hpre : hist ++ [(e.1, e.2)] <+: p.writeAll lib chunks := ⟨later, by simp [hlog]⟩
  constructor
  · obtain ⟨later, hl⟩ := hpre
    have h := isLog_writeAll lib p chunks
    rw [← hl, isLog_append, isLog_append] at h
    have hh := h.1.2.1
    rw [after_eq] at hh
    rw [hh]
    rfl
  · obtain ⟨id, b, hb, ht⟩ := dataStr_eq_text lib hp hpre
    refine ⟨id, ht.trans ?_⟩
    rw [builder?] at hb
    have hfound := List.find?_some hb
    have hpieces := of_decide_eq_true hfound
    obtain ⟨e', he', rfl⟩ : ∃ e' ∈ p.writeAll lib chunks, e'.1 = b := by
      have hm := List.mem_of_find?_eq_some hb
      rcases List.mem_append.mp hm with hm | hm
      · obtain ⟨e', he', rfl⟩ := List.mem_map.mp hm
        exact ⟨e', by rw [hlog]; exact List.mem_append_left _ he', rfl⟩
      · exact ⟨e, he, (List.mem_singleton.mp hm).symm⟩
    simp only [ofBuilder_congr id (ho e' he' e he hpieces)]

/-- An accepted call puts one message on the wire, and its payload is read as the record. -/
theorem wire_of_accepts (hg : GeneratesLiterals lib) (hp : p.mdsdMsgMaker.schema_mgr = .new)
    {chunks : List (List Event)} (ho : p.OwnPieces (p.writeAll lib chunks)) {e : Event × Handled}
    (he : e ∈ p.writeAll lib chunks) (hd : p.Deliverable lib e.1) {c : Sending}
    (hc : c.Accepts e.2) :
    ∃ payload, (c.result e.2).2.wire = frame payload ∧ p.Received lib e.1 c.counter payload := by
  obtain ⟨hsource, id, hdata⟩ := handled_of_mem hp ho he
  obtain ⟨values, htexts, hcond, hread⟩ :=
    exists_readSpellings hg hd.values hd.texts
  have hne := p.assigned_fields_ne_nil e.1
  have htext : e.2.text = (Message.ofBuilder id (p.assigned e.1)
      (values.map Spelling.text)).text := by
    rw [Handled.text, hdata, valueTexts, htexts]
    rfl
  have hsp := hd.source
  rw [← hsource] at hsp
  have hparse := Transcoding.utf8.parse_text ((payloadSpelling e.2.mdsdSource c.counter id
    (p.assigned e.1) values).parse_text (cond_payloadSpelling hsp c.counter id hd.keys hcond))
  have hpay : Transcoding.utf8.text (payloadSpelling e.2.mdsdSource c.counter id (p.assigned e.1)
      values).text = (DjsonLogItem.ofSchemaAndData c.counter (utf8 e.2.mdsdSource)
        (utf8 e.2.text)).payload := by
    rw [text_payloadSpelling _ _ _ hne, ← htext, ← utf8_payload]
    rfl
  rw [hpay] at hparse
  refine ⟨_, hc.wire (notMem_zero_of_parse hparse), _, hparse, id, values.map Spelling.val, ?_, ?_⟩
  · rw [← hsource]
    simp only [payloadSpelling, Spelling.array, List.map_cons, List.map_nil, List.map_map,
      schemaColumns]
    rfl
  · rw [List.forall₂_map_right_iff]
    exact hread

/-- **From records to the server.** In every run of a newly configured plugin whose records are
deliverable and do not share the pieces of a cache key with different schemas, let `SendDjson`
accept the records that `handle_record` reports as sent, each call with whatever cache, clock and
answers of the socket, and no call of `Stop` meanwhile. Then the server receives exactly one payload
for each of them, in their order, and reads it as the source, the schema and the values of the
record. -/
theorem received_records (hg : GeneratesLiterals lib) (hp : p.mdsdMsgMaker.schema_mgr = .new)
    (chunks : List (List Event)) (ho : p.OwnPieces (p.writeAll lib chunks))
    (sent : List ((Event × Handled) × Sending))
    (hs : sent.map Prod.fst = (p.writeAll lib chunks).filter fun e => e.2.outcome = .sent)
    (hd : ∀ x ∈ sent, p.Deliverable lib x.1.1) (hc : ∀ x ∈ sent, x.2.Accepts x.1.2) :
    ∃ payloads, receive (sent.flatMap fun x => (x.2.result x.1.2).2.wire) = (payloads, []) ∧
      List.Forall₂ (fun x payload => p.Received lib x.1.1 x.2.counter payload) sent payloads := by
  have hmem : ∀ x ∈ sent, x.1 ∈ p.writeAll lib chunks := fun x hx => by
    have hm : x.1 ∈ sent.map Prod.fst := List.mem_map_of_mem hx
    rw [hs] at hm
    exact List.mem_of_mem_filter hm
  exact exists_receive_flatMap fun x hx =>
    wire_of_accepts hg hp ho (hmem x hx) (hd x hx) (hc x hx)

/-- A text with a letter outside ASCII and a quote. -/
def eventNe : Event :=
  ⟨"sys".toList, 5, ⟨[("m".toList, .string "né\"".toList)], by decide⟩, ⟨0, 0⟩, true⟩

/-- Two numbers. -/
def eventPi : Event :=
  ⟨"sys".toList, 6, ⟨[("n".toList, .integer (-7)), ("pi".toList, .float "3.14".toList)],
    by decide⟩, ⟨0, 0⟩, true⟩

/-- The run of the plugin on the two records. -/
def logNePi : List (Event × Handled) := pluginT.writeAll jsonLibraries [[eventNe, eventPi]]

/-- The calls, with a socket that accepts each message at once. -/
def sentNePi : List ((Event × Handled) × Sending) :=
  logNePi.zip [⟨.empty, none, 0, 1, SocketClient.acceptingAll 68⟩,
    ⟨.empty, none, 0, 2, SocketClient.acceptingAll 86⟩]

theorem forall_logNePi {P : Event → Prop} (hn : P eventNe) (hp : P eventPi) :
    ∀ e ∈ logNePi, P e.1 := by
  have hlog : logNePi.map Prod.fst = [eventNe, eventPi] := rfl
  intro e he
  have hm : e.1 ∈ logNePi.map Prod.fst := List.mem_map_of_mem he
  rw [hlog, List.mem_cons, List.mem_singleton] at hm
  rcases hm with h | h
  · rwa [h]
  · rwa [h]

theorem keys_logNePi : ∀ e ∈ logNePi, ∀ key ∈ (pluginT.assigned e.1).keys,
    ',' ∉ key ∧ PlainText key :=
  forall_logNePi (P := fun ev => ∀ key ∈ (pluginT.assigned ev).keys, ',' ∉ key ∧ PlainText key)
    (by decide) (by decide)

theorem values_logNePi : ∀ e ∈ logNePi, ∀ f ∈ (pluginT.assigned e.1).fields,
    f.2.HasJsonShape := by
  refine forall_logNePi (P := fun ev => ∀ f ∈ (pluginT.assigned ev).fields, f.2.HasJsonShape) ?_ ?_
  · intro f hf
    obtain rfl | rfl : f = ("m".toList, .string "né\"".toList) ∨
        f = (['T'], .time ⟨5, 0⟩) := by
      simpa [assigned, Record.set, Record.setFields, eventNe, pluginT, configure, timestamp]
        using hf
    · trivial
    · trivial
  · intro f hf
    obtain rfl | rfl | rfl : f = ("n".toList, .integer (-7)) ∨
        f = ("pi".toList, .float "3.14".toList) ∨ f = (['T'], .time ⟨6, 0⟩) := by
      simpa [assigned, Record.set, Record.setFields, eventPi, pluginT, configure, timestamp]
        using hf
    · trivial
    · exact ⟨314 * (10 : ℚ) ^ (-2 : ℤ), rfl⟩
    · trivial

theorem deliverable_logNePi : ∀ e ∈ logNePi, pluginT.Deliverable jsonLibraries e.1 := fun e he =>
  { source := forall_logNePi
      (P := fun ev => PlainText (createMdsdSource jsonLibraries ev.tag pluginT.mdsdTagPatterns))
      (by decide) (by decide) e he
    keys := fun k hk => (keys_logNePi e he k hk).2
    values := values_logNePi e he
    texts := forall_logNePi (P := fun ev => ∀ f ∈ (pluginT.assigned ev).fields,
      f.2.raises pluginT.mdsdMsgMaker.hashtojson = Bool.false) (by decide) (by decide) e he }

theorem accepts_sentNePi : ∀ x ∈ sentNePi, x.2.Accepts x.1.2 := by
  have h : sentNePi.map (fun x => (x.2.result x.1.2).1) = [some true, some true] := by rfl
  have hall : ∀ a ∈ sentNePi.map (fun x => (x.2.result x.1.2).1), a = some true := by
    rw [h]
    simp
  intro x hx
  have hanswer : (x.2.result x.1.2).1 = some true :=
    hall _ (List.mem_map_of_mem (f := fun x => (x.2.result x.1.2).1) hx)
  refine ⟨?_, hanswer⟩
  have hm := (List.of_mem_zip (Prod.eta x ▸ hx)).2
  rw [List.mem_cons, List.mem_singleton] at hm
  rcases hm with h | h
  · rw [h]
    exact SocketClient.unstopped_acceptingAll 68
  · rw [h]
    exact SocketClient.unstopped_acceptingAll 86

theorem received_records_sentNePi : ∃ payloads,
    receive (sentNePi.flatMap fun x => (x.2.result x.1.2).2.wire) = (payloads, []) ∧
      List.Forall₂ (fun x payload => pluginT.Received jsonLibraries x.1.1 x.2.counter payload)
        sentNePi payloads :=
  received_records generatesLiterals_jsonLibraries rfl [[eventNe, eventPi]]
    (fun e he e' he' => SchemaManager.shape_eq_of_keyPieces_eq
      (fun k hk => (keys_logNePi e he k hk).1) fun k hk => (keys_logNePi e' he' k hk).1)
    sentNePi rfl (fun x hx => deliverable_logNePi x.1 (List.of_mem_zip hx).1) accepts_sentNePi

end OutputMdsd

end Outmdsd.Plugin
