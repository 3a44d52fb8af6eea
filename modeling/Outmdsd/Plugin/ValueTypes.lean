import Outmdsd.Plugin.MessageJson

/-!
# Values and their declared types

`get_new_schema` takes the type of a column from a table of class names, and `get_value_by_type`
tests the kind of the value. For the values a record can hold the two agree: what is written for the
values of a record is read as an array with one element for each column, and each element is what a
column of its type holds. But nothing is written for a record with a hash that `to_json` raises an
exception for (`recordValues_types_iff`).
-/

namespace Outmdsd.Plugin

open Json

/-- The columns that `get_new_schema` declares: names and types. -/
def declaredColumns (record : Record) : List (RString × RString) :=
  record.shape.map fun f => (f.1, mdsdType f.2)

/-- The text of a schema with these columns. -/
def schemaText (columns : List (RString × RString)) : RString :=
  '[' :: intToS (columns.length - 1) ++ ',' ::
    [','].intercalate (columns.map fun c => SchemaManager.columnText c.1 c.2) ++ [']']

theorem getNewSchema_eq_schemaText {record : Record} (h : record.fields ≠ []) :
    SchemaManager.getNewSchema record = schemaText (declaredColumns record) := by
  have hs : record.shape ≠ [] := by simpa [Record.shape] using h
  rw [SchemaManager.getNewSchema_eq, SchemaManager.newSchemaOf_eq hs, schemaText, declaredColumns,
    List.length_map, List.map_map]
  rfl

variable {lib : Libraries}

theorem exists_valueSpellings (hg : GeneratesLiterals lib) {hashtojson : Bool}
    {fs : List (RString × RValue)} (hv : ∀ f ∈ fs, f.2.HasJsonShape)
    (hr : ∀ f ∈ fs, f.2.raises hashtojson = Bool.false) :
    ∃ ps : List (Spelling Char),
      fs.mapM (fun f => getValueByType lib hashtojson f.2) = some (ps.map Spelling.text) ∧
      (∀ p ∈ ps, p.Cond) ∧
      List.Forall₂ (fun f p => HasShape (mdsdType f.2.className.name) p.val ∧
        ∀ s, chosenText hashtojson f.2 = some s → p.val = .str s) fs ps := by
  induction fs with
  | nil => exact ⟨[], rfl, by simp, .nil⟩
  | cons f fs ih =>
    obtain ⟨ps, ht, hc, hps⟩ := ih (fun g hg => hv g (by simp [hg])) fun g hg => hr g (by simp [hg])
    obtain ⟨p, htp, hcp, hp⟩ := exists_valueSpelling hg (hv f (by simp)) (hr f (by simp))
    exact ⟨p :: ps, by simp [ht, htp], by simpa [hcp] using hc, .cons hp hps⟩

/-- What is written for the values of a record is read as an array, whose elements are, in order,
values of the types of the declared columns; the value written as a text is a string of that
text. -/
def TypesAgree (lib : Libraries) (hashtojson : Bool) (record : Record) : Prop :=
  ∃ text, ∃ values : List (Json Char), getRecordValues lib hashtojson record = some text ∧
    parse text = some (.arr values) ∧
    List.Forall₂ (fun c v => HasShape c.2 v) (declaredColumns record) values ∧
    List.Forall₂ (fun f v => ∀ s, chosenText hashtojson f.2 = some s → v = .str s)
      record.fields values

/-- **Values agree with the declared types.** With a `JSON.generate` that makes JSON literals, what
is written for a record agrees with the columns declared for it if and only if the record holds no
hash that is written with `to_json` and that `to_json` raises an exception for. -/
theorem recordValues_types_iff (hg : GeneratesLiterals lib) (hashtojson : Bool) {record : Record}
    (h : record.fields ≠ []) (hv : ∀ f ∈ record.fields, f.2.HasJsonShape) :
    SchemaManager.getNewSchema record = schemaText (declaredColumns record) ∧
      (declaredColumns record).map Prod.fst = record.keys ∧
      (TypesAgree lib hashtojson record ↔
        ∀ f ∈ record.fields, f.2.raises hashtojson = Bool.false) := by
  refine ⟨getNewSchema_eq_schemaText h, by simp [declaredColumns, Record.shape, Record.keys],
    fun ha => ?_, fun hr => ?_⟩
  · obtain ⟨text, values, ht, -⟩ := ha
    rw [Message.getRecordValues_eq lib hashtojson h] at ht
    obtain ⟨texts, ht, -⟩ := Option.map_eq_some_iff.mp ht
    exact (isSome_valueTexts_iff lib _ _).mp (Option.isSome_of_eq_some ht)
  · obtain ⟨ps, ht, hc, hps⟩ := exists_valueSpellings hg hv hr
    refine ⟨(Spelling.array ps).text, ps.map Spelling.val, ?_, (Spelling.array ps).parse_text hc,
      ?_, ?_⟩
    · rw [Message.getRecordValues_eq lib hashtojson h, valueTexts, ht, text_array]
      rfl
    · rw [declaredColumns, Record.shape, List.map_map, List.forall₂_map_left_iff,
        List.forall₂_map_right_iff]
      exact hps.imp fun f p hp => hp.1
    · rw [List.forall₂_map_right_iff]
      exact hps.imp fun f p hp => hp.2

/-- Nothing, a flag, numbers, texts and a time. -/
def recordTypes : Record :=
  ⟨[("none".toList, .nil), ("ok".toList, .true), ("n".toList, .integer (-7)),
    ("pi".toList, .float "3.14".toList), ("text".toList, .string "\"é\"\n".toList),
    ("list".toList, .array "[1]".toList),
    ("hash".toList, .hash "\x7b1=>2\x7d".toList (some "\x7b\"1\":2\x7d".toList)),
    ("range".toList, .range "1...4".toList), ("time".toList, .time ⟨123, 0⟩)], by decide⟩

theorem recordValues_types_iff_recordTypes : TypesAgree jsonLibraries true recordTypes ↔
    ∀ f ∈ recordTypes.fields, f.2.raises true = Bool.false := by
  have hv : ∀ f ∈ recordTypes.fields, f.2.HasJsonShape := by
    intro f hf
    simp only [recordTypes, List.mem_cons, List.not_mem_nil, or_false] at hf
    rcases hf with rfl | rfl | rfl | rfl | rfl | rfl | rfl | rfl | rfl
    · trivial
    · trivial
    · trivial
    · exact ⟨314 * (10 : ℚ) ^ (-2 : ℤ), rfl⟩
    all_goals trivial
  exact (recordValues_types_iff generatesLiterals_jsonLibraries true
    (show recordTypes.fields ≠ [] by decide) hv).2.2

/-- `{"h" => {"x" => NaN}}`: `to_json` of the hash raises `JSON::GeneratorError`. -/
def recordNaN : Record := ⟨[("h".toList, .hash "\x7b\"x\"=>NaN\x7d".toList none)], by decide⟩

/-- With `convert_hash_to_json` nothing is written for the hash, without it its `to_s` is. -/
theorem recordValues_of_recordNaN :
    getRecordValues jsonLibraries true recordNaN = none ∧
      getRecordValues jsonLibraries false recordNaN =
        some "[\"\x7b\\\"x\\\"=>NaN\x7d\"]".toList ∧
      ¬ TypesAgree jsonLibraries true recordNaN := by
  have hn : getRecordValues jsonLibraries true recordNaN = none := by decide
  refine ⟨hn, by decide, ?_⟩
  rintro ⟨text, values, ht, -⟩
  rw [hn] at ht
  cases ht

end Outmdsd.Plugin
