import Outmdsd.Plugin.Record
import Outmdsd.Foundations.Cut
import Outmdsd.Foundations.Interning
import Mathlib.Data.List.AList

/-!
# The schema manager of the plugin

`SchemaManager` caches schemas under the comma-join of the keys and class names of a record.
Commas are not escaped, so two records have the same cache key exactly when they have the same
*pieces*: the keys cut at their commas and the class names, in order (`getSchemaKey_eq_iff`).

`get_schema_info` interns these keys (`getSchemaInfo_eq_request`), hence it identifies the records
of a run and returns each its own schema exactly when no two of them have the same pieces and
different (key, class) lists (`ownSchemaInfos_iff`).
-/

namespace Outmdsd.Plugin

/-- The decimal text of `to_s` of an integer. -/
def intToS (n : ℤ) : RString :=
  if n < 0 then '-' :: Nat.toDigits 10 n.natAbs else Nat.toDigits 10 n.natAbs

/-- `@@rb2mdsdType` -/
def rb2mdsdType : List (RString × RString) :=
  [("TrueClass".toList, "FT_BOOL".toList), ("FalseClass".toList, "FT_BOOL".toList),
    ("Integer".toList, "FT_INT64".toList), ("Fixnum".toList, "FT_INT64".toList),
    ("Bignum".toList, "FT_INT64".toList), ("Float".toList, "FT_DOUBLE".toList),
    ("Time".toList, "FT_TIME".toList), ("String".toList, "FT_STRING".toList)]

/-- The column type of a class name; a class outside the table is treated as string. -/
def mdsdType (className : RString) : RString :=
  (rb2mdsdType.lookup className).getD "FT_STRING".toList

/-- What holds of the types of the table and of `FT_STRING` holds of every column type. -/
theorem mdsdType_of_forall {P : RString → Prop} (h : ∀ e ∈ rb2mdsdType, P e.2)
    (hstring : P "FT_STRING".toList) (className : RString) : P (mdsdType className) := by
  unfold mdsdType
  cases hl : rb2mdsdType.lookup className with
  | none => exact hstring
  | some type =>
    obtain ⟨l₁, l₂, e, -⟩ := List.lookup_eq_some_iff.mp hl
    exact h (className, type) (e ▸ by simp)

/-- The state of a `SchemaManager`. -/
structure SchemaManager where
  schemaHash : AList fun _ : RString => ℕ × RString
  schema_id : ℕ

namespace SchemaManager

/-- `SchemaManager#initialize` -/
def new : SchemaManager := ⟨∅, 0⟩

/-- `get_schema_key` -/
def getSchemaKey (record : Record) : RString :=
  record.fields.foldl (fun key_str f => key_str ++ f.1 ++ [','] ++ f.2.className.name ++ [',']) []

/-- `get_new_schema` -/
def getNewSchema (record : Record) : RString :=
  let time_field_index : ℤ := record.fields.length - 1
  record.fields.foldl (fun schema_str f =>
    (if schema_str = [] then schema_str ++ ['['] ++ intToS time_field_index ++ [',']
      else schema_str ++ [',']) ++
    ("[\"".toList ++ f.1 ++ "\",\"".toList ++ mdsdType f.2.className.name ++
      "\"]".toList)) [] ++ [']']

/-- `get_new_schema_id` -/
def getNewSchemaId (m : SchemaManager) : ℕ × SchemaManager :=
  (m.schema_id + 1, { m with schema_id := m.schema_id + 1 })

/-- `get_schema_info` -/
def getSchemaInfo (m : SchemaManager) (record : Record) : (ℕ × RString) × SchemaManager :=
  let hashkey := getSchemaKey record
  match m.schemaHash.lookup hashkey with
  | some value => (value, m)
  | none =>
    let (new_schema_id, m) := m.getNewSchemaId
    let new_schema := (new_schema_id, getNewSchema record)
    (new_schema, { m with schemaHash := m.schemaHash.insert hashkey new_schema })

/-- `get_schema_info` of each record of a run, in order. -/
def getSchemaInfos (m : SchemaManager) : List Record → List (ℕ × RString) × SchemaManager
  | [] => ([], m)
  | record :: records =>
    let r := m.getSchemaInfo record
    let r' := getSchemaInfos r.2 records
    (r.1 :: r'.1, r'.2)

/-! ## The cache key -/

/-- The comma as a terminator. -/
def comma : Terminators Char Unit := .single ','

/-- The comma-terminated words of a shape. -/
def shapeWords (shape : List (RString × RString)) : List (RString × Unit) :=
  shape.flatMap fun f => [(f.1, ()), (f.2, ())]

/-- The cache key of a shape. -/
def shapeKey (shape : List (RString × RString)) : RString := comma.join (shapeWords shape)

/-- The pieces of a record: its keys cut at their commas, each followed by the class name. -/
def keyPieces (record : Record) : List RString :=
  record.fields.flatMap fun f => (comma.pieces (f.1 ++ [','])).map Prod.fst ++ [f.2.className.name]

theorem getSchemaKey_eq (record : Record) : getSchemaKey record = shapeKey record.shape := by
  have h : ∀ (fs : List (RString × RValue)) (acc : RString),
      fs.foldl (fun key_str f => key_str ++ f.1 ++ [','] ++ f.2.className.name ++ [',']) acc =
        acc ++ shapeKey (fs.map fun f => (f.1, f.2.className.name)) := by
    intro fs
    induction fs with
    | nil => simp [shapeKey, shapeWords, Terminators.join]
    | cons f fs ih =>
      intro acc
      rw [List.foldl_cons, ih]
      simp [shapeKey, shapeWords, Terminators.join, comma, Terminators.single]
  simpa [getSchemaKey, Record.shape] using h record.fields []

theorem pieces_className (c : ClassName) : comma.pieces (c.name ++ [',']) = [(c.name, ())] :=
  Terminators.pieces_single_terminated c.comma_notMem

/-- The pieces of the words of a record, as texts. -/
theorem flatMap_pieces (record : Record) :
    ((shapeWords record.shape).flatMap fun p => comma.pieces (p.1 ++ comma.word p.2)) =
      (keyPieces record).map fun p => (p, ()) := by
  have hu : ∀ l : List (RString × Unit), (l.map Prod.fst).map (fun p => (p, ())) = l := fun l => by
    simp [Function.comp_def]
  rw [shapeWords, Record.shape, keyPieces]
  induction record.fields with
  | nil => rfl
  | cons f fs ih =>
    simp only [List.map_cons, List.flatMap_cons, List.flatMap_append, List.flatMap_nil,
      List.append_nil, List.map_append, ih, hu]
    exact congrArg (fun l => _ ++ l ++ _) (pieces_className f.2.className)

/-- Two records have the same cache key if and only if they have the same pieces. -/
theorem getSchemaKey_eq_iff (r r' : Record) :
    getSchemaKey r = getSchemaKey r' ↔ keyPieces r = keyPieces r' := by
  rw [getSchemaKey_eq, getSchemaKey_eq, shapeKey, shapeKey, comma.join_eq_join_iff, flatMap_pieces,
    flatMap_pieces]
  exact List.map_inj_right fun a b h => congrArg Prod.fst h

/-! ## The schema text -/

/-- The text of a column. -/
def columnText (name type : RString) : RString :=
  "[\"".toList ++ name ++ "\",\"".toList ++ type ++ "\"]".toList

/-- The schema text of a shape. -/
def newSchemaOf (shape : List (RString × RString)) : RString :=
  let time_field_index : ℤ := shape.length - 1
  shape.foldl (fun schema_str f =>
    (if schema_str = [] then schema_str ++ ['['] ++ intToS time_field_index ++ [',']
      else schema_str ++ [',']) ++ columnText f.1 (mdsdType f.2)) [] ++ [']']

theorem getNewSchema_eq (record : Record) : getNewSchema record = newSchemaOf record.shape := by
  rw [getNewSchema, newSchemaOf, Record.shape, List.length_map, List.foldl_map]
  rfl

theorem intercalate_comma (x : RString) (xs : List RString) :
    [','].intercalate (x :: xs) = x ++ xs.flatMap fun y => ',' :: y := by
  induction xs generalizing x with
  | nil => simp
  | cons y ys ih => rw [List.intercalate_cons_cons, ih, List.flatMap_cons]; simp

/-- The loops that write an opening before the first text and a comma before every other one. -/
theorem foldl_intercalate {α : Type*} (opening : RString → RString) (text : α → RString)
    (ho : opening [] ≠ []) {xs : List α} (h : xs ≠ []) :
    xs.foldl (fun s x => (if s = [] then opening s else s ++ [',']) ++ text x) [] =
      opening [] ++ [','].intercalate (xs.map text) := by
  have later : ∀ (xs : List α) (acc : RString), acc ≠ [] →
      xs.foldl (fun s x => (if s = [] then opening s else s ++ [',']) ++ text x) acc =
        acc ++ xs.flatMap fun x => ',' :: text x := by
    intro xs
    induction xs with
    | nil => simp
    | cons x xs ih =>
      intro acc ha
      rw [List.foldl_cons, if_neg ha, ih _ (by simp [ha])]
      simp
  obtain ⟨x, xs, rfl⟩ := List.exists_cons_of_ne_nil h
  rw [List.foldl_cons, if_pos rfl, later xs _ (by simp [ho]), List.map_cons, intercalate_comma,
    List.flatMap_map, List.append_assoc]

/-- The schema of a non-empty shape: the index of its last field, and one column for each field,
with its name and type. -/
theorem newSchemaOf_eq {shape : List (RString × RString)} (h : shape ≠ []) :
    newSchemaOf shape = '[' :: intToS (shape.length - 1) ++ ',' ::
      [','].intercalate (shape.map fun f => columnText f.1 (mdsdType f.2)) ++ [']'] := by
  rw [newSchemaOf, foldl_intercalate (fun s => s ++ ['['] ++ intToS (shape.length - 1) ++ [','])
    (fun f => columnText f.1 (mdsdType f.2)) (by simp) h]
  simp

/-! ## Schema identity -/

/-- The interner a schema manager is. -/
def toInterner (m : SchemaManager) : Interner RString RString :=
  ⟨fun k => m.schemaHash.lookup k, m.schema_id⟩

@[simp] theorem toInterner_new : toInterner new = Interner.empty := by
  simp only [toInterner, new, Interner.empty, AList.lookup_empty]

/-- `get_schema_info` is one request for the cache key of the record, with its own schema. -/
theorem getSchemaInfo_eq_request (m : SchemaManager) (record : Record) :
    (m.getSchemaInfo record).1 =
        (m.toInterner.request (shapeKey record.shape) (newSchemaOf record.shape)).1 ∧
      (m.getSchemaInfo record).2.toInterner =
        (m.toInterner.request (shapeKey record.shape) (newSchemaOf record.shape)).2 := by
  rw [← getSchemaKey_eq, ← getNewSchema_eq]
  rcases hl : m.schemaHash.lookup (getSchemaKey record) with _ | value
  · simp only [getSchemaInfo, hl, getNewSchemaId, Interner.request, toInterner, true_and,
      Interner.mk.injEq, and_true]
    funext k
    rcases eq_or_ne k (getSchemaKey record) with rfl | hne
    · rw [AList.lookup_insert, Function.update_self]
    · rw [AList.lookup_insert_ne hne, Function.update_of_ne hne]
  · simp [getSchemaInfo, hl, Interner.request, toInterner]

theorem getSchemaInfos_eq_run (m : SchemaManager) (records : List Record) :
    (m.getSchemaInfos records).1 =
        (m.toInterner.run shapeKey newSchemaOf (records.map Record.shape)).1 ∧
      (m.getSchemaInfos records).2.toInterner =
        (m.toInterner.run shapeKey newSchemaOf (records.map Record.shape)).2 := by
  induction records generalizing m with
  | nil => exact ⟨rfl, rfl⟩
  | cons record records ih =>
    obtain ⟨h₁, h₂⟩ := getSchemaInfo_eq_request m record
    obtain ⟨ih₁, ih₂⟩ := ih (m.getSchemaInfo record).2
    rw [getSchemaInfos, List.map_cons, Interner.run, ih₁, ih₂, h₁, h₂]
    exact ⟨rfl, rfl⟩

/-- After a run of records, a record is returned the schema of the first record of the run, or else
itself, that has its pieces. -/
theorem getSchemaInfo_after (records : List Record) (record : Record) :
    ∃ r₀, (records ++ [record]).find? (fun r => decide (keyPieces r = keyPieces record)) = some r₀ ∧
      ((new.getSchemaInfos records).2.getSchemaInfo record).1.2 = newSchemaOf r₀.shape := by
  obtain ⟨s₀, hf, hv⟩ := Interner.snd_request_run shapeKey newSchemaOf (records.map Record.shape)
    record.shape
  have hk : ((fun s => decide (shapeKey s = shapeKey record.shape)) ∘ Record.shape) =
      fun r => decide (keyPieces r = keyPieces record) := by
    funext r
    simp only [Function.comp_apply, ← getSchemaKey_eq, getSchemaKey_eq_iff]
  rw [← List.map_singleton, ← List.map_append, List.find?_map, hk] at hf
  obtain ⟨r₀, hr, rfl⟩ := Option.map_eq_some_iff.mp hf
  refine ⟨r₀, hr, ?_⟩
  rw [(getSchemaInfo_eq_request _ record).1, (getSchemaInfos_eq_run new records).2, toInterner_new,
    hv]

/-- Every record of the run is returned its own schema, and two records get the same schema id
only if their (key, class) lists are equal. -/
structure OwnSchemaInfos (records : List Record) (infos : List (ℕ × RString)) : Prop where
  schema : ∀ p ∈ records.zip infos, p.2.2 = getNewSchema p.1
  id : ∀ p ∈ records.zip infos, ∀ q ∈ records.zip infos, p.2.1 = q.2.1 → p.1.shape = q.1.shape

/-- **Schema identity.** A new manager returns the records of a run their own schemas, under ids
that tell their shapes apart, if and only if no two of them have the same pieces and different
(key, class) lists. -/
theorem ownSchemaInfos_iff (records : List Record) :
    OwnSchemaInfos records (new.getSchemaInfos records).1 ↔
      ∀ r ∈ records, ∀ r' ∈ records, keyPieces r = keyPieces r' → r.shape = r'.shape := by
  have key := Interner.separates_iff shapeKey newSchemaOf (records.map Record.shape)
  rw [← toInterner_new, ← (getSchemaInfos_eq_run new records).1] at key
  simp only [List.zip_map_left, List.forall_mem_map, Prod.map_fst, Prod.map_snd, id_eq,
    ← getSchemaKey_eq, getSchemaKey_eq_iff, ← getNewSchema_eq] at key
  rw [← key]
  exact ⟨fun o => ⟨o.schema, o.id⟩, fun o => ⟨o.1, o.2⟩⟩

/-- Records whose keys hold no comma have their own pieces. -/
theorem shape_eq_of_keyPieces_eq {r r' : Record} (hr : ∀ k ∈ r.keys, ',' ∉ k)
    (hr' : ∀ k ∈ r'.keys, ',' ∉ k) (h : keyPieces r = keyPieces r') : r.shape = r'.shape := by
  have hf : ∀ s : Record, (∀ k ∈ s.keys, ',' ∉ k) →
      keyPieces s = s.shape.flatMap fun f => [f.1, f.2] := by
    intro s hs
    rw [keyPieces, Record.shape, List.flatMap_map]
    exact List.flatMap_congr fun f hf => by
      rw [comma, Terminators.pieces_single_terminated (hs f.1 (List.mem_map_of_mem hf))]
      rfl
  have inj : ∀ l l' : List (RString × RString),
      (l.flatMap fun f => [f.1, f.2]) = (l'.flatMap fun f => [f.1, f.2]) → l = l' := by
    intro l
    induction l with
    | nil =>
      rintro (_ | ⟨f', l'⟩) h
      · rfl
      · simp at h
    | cons f l ih =>
      rintro (_ | ⟨f', l'⟩) h
      · simp at h
      · simp only [List.flatMap_cons, List.cons_append, List.nil_append, List.cons.injEq] at h
        rw [ih l' h.2.2, Prod.ext h.1 h.2.1]
  rw [hf r hr, hf r' hr'] at h
  exact inj _ _ h

/-- The record `{"a" => 1, "b" => 2}`. -/
def recordAB : Record := ⟨[(['a'], .integer 1), (['b'], .integer 2)], by decide⟩

/-- One field, whose key spells the first field of `recordAB` and the key of its second. -/
def recordSpelled : Record := ⟨[("a,Integer,b".toList, .integer 2)], by decide⟩

/-- After `recordAB`, the one-field record gets its id and its schema of two columns. -/
theorem recordSpelled_gets_schema_of_recordAB :
    (new.getSchemaInfos [recordAB, recordSpelled]).1 =
        [(1, "[1,[\"a\",\"FT_INT64\"],[\"b\",\"FT_INT64\"]]".toList),
          (1, "[1,[\"a\",\"FT_INT64\"],[\"b\",\"FT_INT64\"]]".toList)] ∧
      getNewSchema recordSpelled = "[0,[\"a,Integer,b\",\"FT_INT64\"]]".toList ∧
      ¬ OwnSchemaInfos [recordAB, recordSpelled]
        (new.getSchemaInfos [recordAB, recordSpelled]).1 := by
  have hi : (new.getSchemaInfos [recordAB, recordSpelled]).1 =
      [(1, "[1,[\"a\",\"FT_INT64\"],[\"b\",\"FT_INT64\"]]".toList),
        (1, "[1,[\"a\",\"FT_INT64\"],[\"b\",\"FT_INT64\"]]".toList)] := by decide
  refine ⟨hi, by decide, fun o => ?_⟩
  rw [hi] at o
  have := o.schema (recordSpelled, (1, "[1,[\"a\",\"FT_INT64\"],[\"b\",\"FT_INT64\"]]".toList))
    (.tail _ (.head _))
  revert this
  decide

end SchemaManager

end Outmdsd.Plugin
