import Outmdsd.Plugin.MessageJson

/-!
# The time index

`write` assigns the emit time stamp to a record as its last field, unless the record has the key
already, and `get_new_schema` writes the index of the last field as the time index. So the index at
the head of a message designates the time stamp exactly when the time stamp name was not a key of
the builder's record, or already its last one, and the record's own field at that index holds the
assigned time (`timeIndexOk_iff`).
-/

namespace Outmdsd.Plugin

open Json

variable {lib : Libraries}

/-! ## Values that are written as a time -/

/-- The value is written as the time: it is the time, or its `to_s` is the text of the time. -/
def RValue.IsTime (t : RTime) : RValue → Prop
  | .time t' => t' = t
  | .float to_s => to_s = t.text
  | .other _ to_s => to_s = t.text
  | _ => False

theorem parse_text_time (t : RTime) :
    parse t.text = some (.arr [.num t.sec, .num t.nsec] : Json Char) := by
  rw [← text_time]
  exact (Spelling.array [.integer t.sec, .integer t.nsec]).parse_text (by simp)

theorem RTime.text_injective : Function.Injective RTime.text := fun t t' h => by
  have hp := parse_text_time t
  rw [h, parse_text_time t'] at hp
  simp only [Option.some.injEq, Json.arr.injEq, List.cons.injEq, Json.num.injEq, and_true] at hp
  obtain ⟨sec, nsec⟩ := t
  obtain ⟨sec', nsec'⟩ := t'
  exact (RTime.mk.injEq _ _ _ _).mpr ⟨by exact_mod_cast hp.1.symm, by exact_mod_cast hp.2.symm⟩

theorem intToS_ne_text (n : ℤ) (t : RTime) : intToS n ≠ t.text := fun h => by
  have hp := parse_text_time t
  rw [← h, ← text_integer, (Spelling.integer n).parse_text (by simp)] at hp
  cases hp

/-- A value is written as the text of a time if and only if it is that time. -/
theorem getValueByType_eq_text_iff (hg : GeneratesLiterals lib) (hashtojson : Bool) (v : RValue)
    (t : RTime) : getValueByType lib hashtojson v = some t.text ↔ v.IsTime t := by
  have literal : ∀ s, lib.generate s ≠ t.text := fun s h => by
    obtain ⟨body, hs, -⟩ := hg s
    rw [hs] at h
    exact absurd (List.cons.inj h).1 (by decide)
  have notText : ∀ {text : RString}, text ≠ t.text → (some text = some t.text ↔ False) := fun h =>
    iff_of_false (fun he => h (Option.some.inj he)) id
  cases v with
  | string s => exact notText (literal s)
  | array to_s => exact notText (literal to_s)
  | hash to_s to_json =>
    cases hashtojson with
    | false => exact notText (literal to_s)
    | true =>
      cases to_json with
      | none => exact iff_of_false (fun h => by cases h) id
      | some to_json => exact notText (literal to_json)
  | range to_s => exact notText (literal to_s)
  | nil => exact notText (literal _)
  | time t' => exact (Option.some_inj.trans RTime.text_injective.eq_iff)
  | true => exact notText fun h => absurd (List.cons.inj h).1 (by decide)
  | false => exact notText fun h => absurd (List.cons.inj h).1 (by decide)
  | integer n => exact notText (intToS_ne_text n t)
  | float to_s => exact Option.some_inj
  | other cls to_s => exact Option.some_inj

/-! ## The index of a message -/

/-- The time index designates the column of the given name, of type `FT_TIME`, and a value that is
the given time. -/
structure Message.TimeIndexOk (m : Message) (name : RString) (t : RTime) : Prop where
  column : m.columns[m.timeIndex]? = some (name, "FT_TIME".toList)
  value : m.values[m.timeIndex]? = some t.text

/-- The text of a field, by its index. -/
theorem getElem?_valueTexts {hashtojson : Bool} {record : Record} {texts : List RString}
    (h : valueTexts lib hashtojson record = some texts) (i : ℕ) :
    texts[i]? = record.fields[i]?.bind fun f => getValueByType lib hashtojson f.2 := by
  have hall := forall₂_valueTexts lib h
  clear h
  generalize record.fields = fs at hall
  induction hall generalizing i with
  | nil => rfl
  | cons hf _ ih =>
    cases i with
    | zero => exact hf.symm
    | succ i => exact ih i

namespace OutputMdsd

/-- The last key of a record after an assignment is the assigned one if it is new or was the
last. -/
theorem getLast?_keys_set (r : Record) (key : RString) (value : RValue) :
    (r.set key value).keys.getLast? = some key ↔ key ∉ r.keys ∨ r.keys.getLast? = some key := by
  rw [Record.keys_set]
  by_cases h : key ∈ r.keys
  · simp [h]
  · simp [h]

theorem mdsdType_time : mdsdType "Time".toList = "FT_TIME".toList := by decide

/-- The column at the time index of an assigned record is the time stamp if the assigned key is its
last one. -/
theorem timeColumn_iff (r : Record) (name : RString) (t : RTime) :
    ((r.set name (.time t)).shape.map fun f => (f.1, mdsdType f.2))[
        (r.set name (.time t)).fields.length - 1]? = some (name, "FT_TIME".toList) ↔
      name ∉ r.keys ∨ r.keys.getLast? = some name := by
  rw [← getLast?_keys_set r name (.time t)]
  obtain ⟨f, hf⟩ := List.getLast?_isSome.mpr (Record.set_fields_ne_nil r name (.time t)) |>
    Option.isSome_iff_exists.mp
  rw [Record.shape, Record.keys, List.map_map, List.getElem?_map, ← List.getLast?_eq_getElem?,
    List.getLast?_map, hf]
  simp only [Option.map_some, Function.comp_apply, Option.some.injEq, Prod.mk.injEq]
  refine ⟨And.left, fun h => ⟨h, ?_⟩⟩
  have hm := List.mem_of_getLast? hf
  rw [← Prod.eta f, h] at hm
  rw [Record.eq_of_mem_set hm]
  exact mdsdType_time

/-- **The time field.** In every run of a newly configured plugin, the message built for an event
has the schema of the event's builder and its own values; its time index designates the time stamp
if and only if the time stamp name is not a key of the builder's incoming record or is its last
one, and the event's own field at the builder's last index holds the assigned time. -/
theorem timeIndexOk_iff (hg : GeneratesLiterals lib) (p : OutputMdsd)
    (hp : p.mdsdMsgMaker.schema_mgr = .new) (chunks : List (List Event))
    (hist : List (Event × Handled)) (ev : Event) (h : Handled)
    (hl : hist ++ [(ev, h)] <+: p.writeAll lib chunks) :
    ∃ id b, p.builder? (hist.map Prod.fst ++ [ev]) ev = some b ∧
      h.dataStr = (valueTexts lib p.mdsdMsgMaker.hashtojson (p.assigned ev)).map (fun values =>
        (Message.ofBuilder id (p.assigned b) values).text) ∧
      ∀ values, valueTexts lib p.mdsdMsgMaker.hashtojson (p.assigned ev) = some values →
        ((Message.ofBuilder id (p.assigned b) values).TimeIndexOk p.emit_timestamp_name
            (p.timestamp ev) ↔
          (p.emit_timestamp_name ∉ b.record.keys ∨
              b.record.keys.getLast? = some p.emit_timestamp_name) ∧
            ∃ f, (p.assigned ev).fields[(p.assigned b).fields.length - 1]? = some f ∧
              f.2.IsTime (p.timestamp ev)) := by
  obtain ⟨id, b, hb, ht⟩ := dataStr_eq_text lib hp hl
  refine ⟨id, b, hb, ht, fun values hv => ?_⟩
  have hvalue : values[(p.assigned b).fields.length - 1]? = some (p.timestamp ev).text ↔
      ∃ f, (p.assigned ev).fields[(p.assigned b).fields.length - 1]? = some f ∧
        f.2.IsTime (p.timestamp ev) := by
    rw [getElem?_valueTexts hv, Option.bind_eq_some_iff]
    simp only [getValueByType_eq_text_iff hg]
  rw [← timeColumn_iff b.record p.emit_timestamp_name (p.timestamp b), ← hvalue]
  exact ⟨fun o => ⟨o.column, o.value⟩, fun o => ⟨o.1, o.2⟩⟩

/-- A record with its own schema has its time index right if and only if the time stamp name is not
a key of the incoming record or is its last one. -/
theorem timeIndexOk_iff_of_shape_eq (p : OutputMdsd) (id : ℕ) {b ev : Event}
    (hs : (p.assigned b).shape = (p.assigned ev).shape) {values : List RString}
    (hv : valueTexts lib p.mdsdMsgMaker.hashtojson (p.assigned ev) = some values) :
    (Message.ofBuilder id (p.assigned b) values).TimeIndexOk p.emit_timestamp_name
        (p.timestamp ev) ↔
      p.emit_timestamp_name ∉ ev.record.keys ∨
        ev.record.keys.getLast? = some p.emit_timestamp_name := by
  have hlen : (p.assigned b).fields.length = (p.assigned ev).fields.length := by
    simpa [Record.shape] using congrArg List.length hs
  rw [← timeColumn_iff ev.record p.emit_timestamp_name (p.timestamp ev)]
  constructor
  · rintro ⟨hc, -⟩
    rw [Message.ofBuilder, hs, hlen] at hc
    exact hc
  · intro hc
    refine ⟨by rw [Message.ofBuilder, hs, hlen]; exact hc, ?_⟩
    rw [Message.ofBuilder, hlen, getElem?_valueTexts hv]
    rw [Record.shape, List.map_map, List.getElem?_map] at hc
    obtain ⟨f, hf, hn⟩ := Option.map_eq_some_iff.mp hc
    have hm := List.mem_of_getElem? hf
    rw [← Prod.eta f, (Prod.mk.inj hn).1] at hm
    rw [assigned, hf, Option.bind_some, Record.eq_of_mem_set hm]
    rfl

/-- `{"T" => "x", "a" => 1}` at second 5: the time stamp overwrites the first field. -/
def eventTA : Event :=
  ⟨['t'], 5, ⟨[(['T'], .string ['x']), (['a'], .integer 1)], by decide⟩, ⟨0, 0⟩, true⟩

/-- For `eventTA` the time index designates the column of `a`. -/
theorem timeIndex_of_eventTA :
    pluginT.writeAll jsonLibraries [[eventTA]] =
        [(eventTA, ⟨['t'],
          some "1,[1,[\"T\",\"FT_TIME\"],[\"a\",\"FT_INT64\"]],[[5,0],1]".toList, .sent⟩)] ∧
      valueTexts jsonLibraries false (pluginT.assigned eventTA) =
        some ["[5,0]".toList, "1".toList] ∧
      "1,[1,[\"T\",\"FT_TIME\"],[\"a\",\"FT_INT64\"]],[[5,0],1]".toList =
        (Message.ofBuilder 1 (pluginT.assigned eventTA) ["[5,0]".toList, "1".toList]).text ∧
      ¬ (Message.ofBuilder 1 (pluginT.assigned eventTA)
        ["[5,0]".toList, "1".toList]).TimeIndexOk ['T'] ⟨5, 0⟩ := by
  refine ⟨?_, by decide, by decide, fun h => ?_⟩
  · rfl
  · exact absurd h.column (by decide)

/-- The field `a` of a record before it does not move the time stamp of the next one. -/
theorem timeIndexOk_iff_eventA :
    ∃ id b, pluginT.builder? [eventA, eventA] eventA = some b ∧
      some "1,[1,[\"a\",\"FT_INT64\"],[\"T\",\"FT_TIME\"]],[1,[5,0]]".toList =
        (valueTexts jsonLibraries false (pluginT.assigned eventA)).map (fun values =>
          (Message.ofBuilder id (pluginT.assigned b) values).text) ∧
      ∀ values, valueTexts jsonLibraries false (pluginT.assigned eventA) = some values →
        ((Message.ofBuilder id (pluginT.assigned b) values).TimeIndexOk ['T'] ⟨5, 0⟩ ↔
          (['T'] ∉ b.record.keys ∨ b.record.keys.getLast? = some ['T']) ∧
            ∃ f, (pluginT.assigned eventA).fields[(pluginT.assigned b).fields.length - 1]? =
              some f ∧ f.2.IsTime ⟨5, 0⟩) :=
  timeIndexOk_iff generatesLiterals_jsonLibraries pluginT rfl [[eventA, eventA]]
    [(eventA,
      ⟨['t'], some "1,[1,[\"a\",\"FT_INT64\"],[\"T\",\"FT_TIME\"]],[1,[5,0]]".toList, .sent⟩)]
    eventA
    ⟨['t'], some "1,[1,[\"a\",\"FT_INT64\"],[\"T\",\"FT_TIME\"]],[1,[5,0]]".toList, .sent⟩
    ⟨[], rfl⟩

end OutputMdsd

end Outmdsd.Plugin
