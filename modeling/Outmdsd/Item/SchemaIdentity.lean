import Outmdsd.Foundations.Cut
import Outmdsd.Item.Framing

/-!
# Schema identity of DJSON items

The key under which a schema is cached is the concatenation of the names and type names of its
fields, with nothing between them. The type names form `Terminators` (`typeWords`): each starts
with its only `F`, and none is a prefix of another. So two field lists have the same key exactly
when they have the same *pieces*, every name being cut at the type names inside it
(`getSchemaCacheKey_eq_iff`).

`GetData` on items with fields interns their keys (`composeSchema_eq_request`), hence a sequence of
items carries its own schemas, under ids that tell the schemas apart, exactly when no two of its
field lists have the same pieces and different columns (`ownSchemas_iff`).
-/

namespace Outmdsd

/-- The type names as terminators. -/
def typeWords : Terminators Byte FieldType where
  word := FieldType.name
  all := [.bool, .int32, .int64, .double, .time, .string]
  mem_all t := by cases t <;> decide
  marker := 70
  word_eq t := by cases t <;> exact ⟨_, rfl, by decide⟩
  prefixFree {t u} := by cases t <;> cases u <;> decide

namespace DjsonLogItem

/-- The (name, type) pairs of a field list, in order. -/
def columns (svlist : List ItemInfo) : List (Bytes × FieldType) :=
  svlist.map fun item => (item.name, item.type)

/-- The pieces of a field list: each name is cut after every type name inside it, and its own type
closes the last piece. -/
def columnPieces (svlist : List ItemInfo) : List (Bytes × FieldType) :=
  (columns svlist).flatMap fun c => typeWords.pieces (c.1 ++ c.2.name)

/-- The schema array of a list of columns. -/
def schemaArrayOf (cols : List (Bytes × FieldType)) : Bytes :=
  lit "[" ++ (lit ",").intercalate (cols.map fun c =>
    lit "[\"" ++ c.1 ++ lit "\",\"" ++ c.2.name ++ lit "\"]") ++ lit "],"

theorem composeSchemaArray_eq (svlist : List ItemInfo) :
    composeSchemaArray svlist = schemaArrayOf (columns svlist) := by
  simp [composeSchemaArray, schemaArrayOf, columns, Function.comp_def]

theorem getSchemaCacheKey_eq (svlist : List ItemInfo) :
    getSchemaCacheKey svlist = typeWords.join (columns svlist) := by
  simp [getSchemaCacheKey, Terminators.join, columns, List.flatMap_map, typeWords]

/-- Two field lists have the same cache key if and only if they have the same pieces. -/
theorem getSchemaCacheKey_eq_iff (svlist svlist' : List ItemInfo) :
    getSchemaCacheKey svlist = getSchemaCacheKey svlist' ↔
      columnPieces svlist = columnPieces svlist' := by
  rw [getSchemaCacheKey_eq, getSchemaCacheKey_eq, typeWords.join_eq_join_iff]
  rfl

/-- Names that hold no type name are not cut. -/
theorem columnPieces_eq_columns {svlist : List ItemInfo}
    (h : ∀ item ∈ svlist, ∀ t : FieldType, ¬ t.name <:+: item.name) :
    columnPieces svlist = columns svlist := by
  induction svlist with
  | nil => rfl
  | cons item svlist ih =>
    have hi := typeWords.pieces_word_of_not_infix (h item (by simp)) item.type
    have ht := ih fun i hi => h i (by simp [hi])
    simp only [columnPieces, columns, List.map_cons, List.flatMap_cons] at ht ⊢
    rw [ht]
    exact congrArg (· ++ _) hi

theorem getSchemaCacheKey_ne_nil {svlist : List ItemInfo} (h : svlist ≠ []) :
    getSchemaCacheKey svlist ≠ [] := by
  obtain ⟨item, tl, rfl⟩ := List.exists_cons_of_ne_nil h
  have : item.type.name ≠ [] := by cases item.type <;> decide
  simp [getSchemaCacheKey, this]

theorem schemaArrayOf_ne_nil (cols : List (Bytes × FieldType)) : schemaArrayOf cols ≠ [] := by
  have h : lit "[" ≠ [] := by decide
  simp [schemaArrayOf, h]

/-- The request an item with the columns `cols` makes: its key, with its own schema array. -/
def schemaRequest (ids : IdMgr) (cols : List (Bytes × FieldType)) :
    (ℕ × Bytes) × Interner Bytes Bytes :=
  ids.toInterner.request (typeWords.join cols) (schemaArrayOf cols)

/-- `ComposeSchema` on a non-empty field list is one request. -/
theorem composeSchema_eq_request {svlist : List ItemInfo} (h : svlist ≠ []) (ids : IdMgr) :
    ∃ ids', composeSchema svlist ids = .ok ((schemaRequest ids (columns svlist)).1, ids') ∧
      ids'.toInterner = (schemaRequest ids (columns svlist)).2 := by
  have hk := getSchemaCacheKey_ne_nil h
  rw [schemaRequest, ← getSchemaCacheKey_eq, ← composeSchemaArray_eq]
  rcases hl : ids.cache.lookup (getSchemaCacheKey svlist) with _ | info
  · have hd : composeSchemaArray svlist ≠ [] := by
      rw [composeSchemaArray_eq]
      exact schemaArrayOf_ne_nil _
    obtain ⟨ids', hf, hi⟩ := ids.findOrInsert_eq hk hd hl
    refine ⟨ids', ?_, hi⟩
    have hr : (ids.toInterner.request (getSchemaCacheKey svlist) (composeSchemaArray svlist)).1.2 =
        composeSchemaArray svlist := by
      simp [Interner.request, IdMgr.toInterner, hl]
    simp only [composeSchema, IdMgr.getItem, if_neg hk, hl, bind, Except.bind, hf, pure,
      Except.pure]
    exact congrArg (fun a => Except.ok ((_, a), ids')) hr.symm
  · refine ⟨ids, ?_, ?_⟩
    · simp [composeSchema, IdMgr.getItem, hk, hl, bind, Except.bind, pure, Except.pure,
        Interner.request, IdMgr.toInterner]
    · simp [Interner.request, IdMgr.toInterner, hl]

/-- `GetData` on an item with something to compose returns. -/
theorem getData_ok {item : DjsonLogItem} (h : item.HasData) (ids : IdMgr) :
    ∃ r, item.getData ids = .ok r := by
  unfold getData
  split
  · rename_i hd
    split
    · rename_i hs
      have hf : item.svlist ≠ [] := (h.resolve_left (not_not.mpr hd)).resolve_left (not_not.mpr hs)
      obtain ⟨ids', hc, -⟩ := composeSchema_eq_request hf ids
      simp only [composeSchemaAndData, hc, bind, Except.bind, pure, Except.pure]
      exact ⟨_, rfl⟩
    · exact ⟨_, rfl⟩
  · exact ⟨_, rfl⟩

/-- Without fields the cache key of the schema is empty, and `GetItem` throws. -/
theorem getData_error {item : DjsonLogItem} (h : ¬ item.HasData) (ids : IdMgr) :
    item.getData ids = .error
      (.invalidArgument (lit "GetItem(): invalid empty string for 'key' parameter.")) := by
  simp only [HasData, not_or, not_not] at h
  obtain ⟨hd, hs, hf⟩ := h
  simp only [getData, hd, hs, if_true, composeSchemaAndData, composeSchema, hf, getSchemaCacheKey,
    List.flatMap_nil, IdMgr.getItem, bind, Except.bind]

/-- The item `GetData` leaves when `ComposeSchema` streamed the schema `r`. -/
def composedWith (item : DjsonLogItem) (r : ℕ × Bytes) : DjsonLogItem :=
  { item with
    svlist := []
    schemaAndData := schemaText r ++ composeDataValue item.svlist }.composeFullData

/-- An item built with `AddData` and not asked for its data yet. -/
structure Fresh (item : DjsonLogItem) : Prop where
  djsonData : item.djsonData = []
  schemaAndData : item.schemaAndData = []
  svlist : item.svlist ≠ []

/-- The schemas of a sequence of items interned by an id manager. -/
def internSchemas (ids : IdMgr) (items : List DjsonLogItem) :
    List (ℕ × Bytes) × Interner Bytes Bytes :=
  ids.toInterner.run typeWords.join schemaArrayOf (items.map fun item => columns item.svlist)

theorem getDataAll_eq (ids : IdMgr) {items : List DjsonLogItem} (h : ∀ item ∈ items, item.Fresh) :
    ∃ ids', getDataAll ids items =
      .ok (items.zipWith composedWith (internSchemas ids items).1, ids') := by
  induction items generalizing ids with
  | nil => exact ⟨ids, rfl⟩
  | cons item items ih =>
    have hi := h item (by simp)
    obtain ⟨ids₁, hc, hs⟩ := composeSchema_eq_request hi.svlist ids
    obtain ⟨ids₂, ht⟩ := ih ids₁ fun i hi => h i (by simp [hi])
    refine ⟨ids₂, ?_⟩
    have hg : item.getData ids =
        .ok (item.composedWith (schemaRequest ids (columns item.svlist)).1, ids₁) := by
      simp only [getData, hi.djsonData, hi.schemaAndData, if_true, composeSchemaAndData, hc, bind,
        Except.bind, pure, Except.pure]
      rfl
    rw [getDataAll, hg]
    change (getDataAll ids₁ items >>= fun r' => pure (_ :: r'.1, r'.2)) = _
    rw [ht, internSchemas, hs]
    rfl

/-- Every item of the sequence carries the schema array of its own fields, and two items carry the
same schema id if and only if their columns are equal. -/
structure OwnSchemas (items : List DjsonLogItem) (schemas : List (ℕ × Bytes)) : Prop where
  schema : ∀ p ∈ items.zip schemas, p.2.2 = composeSchemaArray p.1.svlist
  id_iff : ∀ p ∈ items.zip schemas, ∀ q ∈ items.zip schemas,
    p.2.1 = q.2.1 ↔ columns p.1.svlist = columns q.1.svlist

/-- **Schema identity.** Asked for their data in order on an empty id manager, items with fields
carry schemas `schemas` (`composedWith` being the message of an item with its schema), and these
are their own if and only if no two items have field lists with the same pieces and different
columns. -/
theorem ownSchemas_iff {items : List DjsonLogItem} (h : ∀ item ∈ items, item.Fresh) :
    ∃ schemas ids', schemas.length = items.length ∧
      getDataAll IdMgr.empty items = .ok (items.zipWith composedWith schemas, ids') ∧
      (OwnSchemas items schemas ↔ ∀ a ∈ items, ∀ b ∈ items,
        columnPieces a.svlist = columnPieces b.svlist → columns a.svlist = columns b.svlist) := by
  obtain ⟨ids', hg⟩ := getDataAll_eq IdMgr.empty h
  refine ⟨_, ids', by simp [internSchemas], hg, ?_⟩
  have key := Interner.identifies_iff typeWords.join schemaArrayOf
    (items.map fun item => columns item.svlist)
  rw [← IdMgr.toInterner_empty] at key
  simp only [List.zip_map_left, List.forall_mem_map, Prod.map_fst, Prod.map_snd, id_eq,
    ← getSchemaCacheKey_eq, getSchemaCacheKey_eq_iff, ← composeSchemaArray_eq] at key
  rw [← key]
  exact ⟨fun o => ⟨o.schema, o.id_iff⟩, fun o => ⟨o.1, o.2⟩⟩

/-- Two fields, `x` and `y`. -/
def twoFields : DjsonLogItem :=
  ((ofSource 1 (lit "s")).addData (lit "x") (.int32 5)).addData (lit "y") (.bool true)

/-- One field, whose name spells the first field of `twoFields` and the name of its second. -/
def oneField : DjsonLogItem := (ofSource 2 (lit "s")).addData (lit "xFT_INT32y") (.bool false)

theorem fresh_twoFields_oneField : ∀ item ∈ [twoFields, oneField], item.Fresh := by
  intro item hi
  rcases List.mem_pair.mp hi with rfl | rfl <;> exact ⟨rfl, rfl, by decide⟩

theorem ownSchemas_iff_twoFields_oneField :
    ∃ schemas ids', schemas.length = [twoFields, oneField].length ∧
      getDataAll IdMgr.empty [twoFields, oneField] =
        .ok ([twoFields, oneField].zipWith composedWith schemas, ids') ∧
      (OwnSchemas [twoFields, oneField] schemas ↔
        ∀ a ∈ [twoFields, oneField], ∀ b ∈ [twoFields, oneField],
          columnPieces a.svlist = columnPieces b.svlist → columns a.svlist = columns b.svlist) :=
  ownSchemas_iff fresh_twoFields_oneField

/-- `oneField`, asked after `twoFields`, is sent under the id and the two columns of `twoFields`,
with one datum. -/
theorem oneField_gets_schema_of_twoFields :
    (∀ item ∈ [twoFields, oneField], item.Fresh) ∧
      ∃ ids', getDataAll IdMgr.empty [twoFields, oneField] =
          .ok ([twoFields, oneField].zipWith composedWith
            [(1, composeSchemaArray twoFields.svlist), (1, composeSchemaArray twoFields.svlist)],
            ids') ∧
        (oneField.composedWith (1, composeSchemaArray twoFields.svlist)).djsonData =
          lit "52\n[\"s\",2,1,[[\"x\",\"FT_INT32\"],[\"y\",\"FT_BOOL\"]],[false]]" ∧
        ¬ OwnSchemas [twoFields, oneField]
          [(1, composeSchemaArray twoFields.svlist), (1, composeSchemaArray twoFields.svlist)] := by
  refine ⟨fun item hi => ?_, ?_⟩
  · rcases List.mem_pair.mp hi with rfl | rfl <;> exact ⟨rfl, rfl, by decide⟩
  · refine ⟨_, rfl, by decide, fun o => ?_⟩
    have := o.schema (oneField, (1, composeSchemaArray twoFields.svlist)) (by decide)
    revert this
    decide

end DjsonLogItem

end Outmdsd
