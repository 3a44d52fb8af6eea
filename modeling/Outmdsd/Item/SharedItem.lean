import Mathlib.Tactic.Simps.Basic
import Outmdsd.Foundations.Runs
import Outmdsd.Item.SchemaIdentity

/-!
# An item that is shared

`SendData` puts an item into the cache before its message is composed, so a round of the resender
can call `GetData` on the same item at the same time. `GetData` composes the message in the item
itself, in several steps, and takes a text that is not empty for a ready one. What it returns is a
pointer into the item, and `Send` reads the text through it later. Here any number of calls of
`GetData`, each with the `Send` behind it, run on one item, with the calls on other items as far as
they use the id manager.

What is handed to `Send`, and what `Send` reads, is complete when no call hands the text, or begins
it anew, while another has written the length and not the rest, no call begins it anew while a
`Send` may read it, and no call reads the fields after another has emptied them
(`handed_complete`). In general it is not (`handed_length_only`).
-/

namespace Outmdsd

namespace DjsonLogItem

/-- What `ComposeFullData` appends to the length. -/
def rest (item : DjsonLogItem) : Bytes :=
  lit "\n[\"" ++ item.source ++ lit "\"," ++ item.tag ++ lit "," ++ item.schemaAndData ++ lit "]"

/-- `ComposeFullData` in its two steps. -/
theorem djsonData_eq_append_rest (item : DjsonLogItem) :
    item.composeFullData.djsonData = toDec item.announcedLength ++ item.rest := by
  simp only [composeFullData, rest, List.append_assoc]

end DjsonLogItem

open DjsonLogItem

/-- Where a call of `GetData` is. -/
inductive GetDataPc
  | idle
  /-- Before the test of `m_djsonData`. -/
  | testData
  /-- Before the test of `m_schemaAndData`. -/
  | testSchema
  /-- Before the look-up of the schema. -/
  | key
  /-- Before a new schema is composed and registered. -/
  | array (key : Bytes)
  /-- Before the values are streamed. -/
  | values (strm : Bytes)
  /-- Before the fields are swapped away. -/
  | swap (strm : Bytes)
  /-- Before the assignment of `m_schemaAndData`. -/
  | assign (strm : Bytes)
  /-- Before the length is counted. -/
  | measure
  /-- Before the assignment of the length string. -/
  | assignLength (len : ℕ)
  | append
  /-- Before the pointer to the text is handed to `Send`. -/
  | hand
  /-- In `Send`, which reads the text through the pointer. -/
  | sending
  deriving DecidableEq

/-- An item in the cache, the id manager, and the calls of `GetData` on the item. -/
structure SharedItem where
  item : DjsonLogItem
  ids : IdMgr
  pc : ℕ → GetDataPc
  /-- The texts behind the pointers, when they were handed to `Send` and when `Send` read them. -/
  handed : List Bytes

namespace SharedItem

/-- A step of the system. -/
inductive Label
  /-- The sending thread or a round of the resender calls `GetData`. -/
  | call (τ : ℕ)
  | run (τ : ℕ)
  /-- The `Send` ends, in whatever way. -/
  | sent (τ : ℕ)
  /-- A call on another item registers a schema. -/
  | register (key data : Bytes)

/-- An item as `Add` publishes it: not composed. -/
def publish (item : DjsonLogItem) (ids : IdMgr) : SharedItem :=
  ⟨{ item with djsonData := [] }, ids, fun _ => .idle, []⟩

@[simps] def setPc (s : SharedItem) (τ : ℕ) (pc : GetDataPc) : SharedItem :=
  { s with pc := Function.update s.pc τ pc }

/-- A step of `GetData`, or a look of `Send` at the text. An exception of the id manager ends the
call. -/
def getDataStep (s : SharedItem) (τ : ℕ) : GetDataPc → Option SharedItem
  | .idle => none
  | .testData => some (s.setPc τ (if s.item.djsonData = [] then .testSchema else .hand))
  | .testSchema => some (s.setPc τ (if s.item.schemaAndData = [] then .key else .measure))
  | .key =>
    let key := getSchemaCacheKey s.item.svlist
    match s.ids.getItem key with
    | .error _ => some (s.setPc τ .idle)
    | .ok (some cachedInfo) => some (s.setPc τ (.values (schemaText cachedInfo)))
    | .ok none => some (s.setPc τ (.array key))
  | .array key =>
    let schemaArray := composeSchemaArray s.item.svlist
    match s.ids.findOrInsert key schemaArray with
    | .error _ => some (s.setPc τ .idle)
    | .ok (schemaId, ids) =>
      some ({ s with ids := ids }.setPc τ (.values (schemaText (schemaId, schemaArray))))
  | .values strm => some (s.setPc τ (.swap (strm ++ composeDataValue s.item.svlist)))
  | .swap strm => some ({ s with item := { s.item with svlist := [] } }.setPc τ (.assign strm))
  | .assign strm =>
    some ({ s with item := { s.item with schemaAndData := strm } }.setPc τ .measure)
  | .measure => some (s.setPc τ (.assignLength s.item.announcedLength))
  | .assignLength len =>
    some ({ s with item := { s.item with djsonData := toDec len } }.setPc τ .append)
  | .append =>
    some ({ s with item := { s.item with
      djsonData := s.item.djsonData ++ s.item.rest } }.setPc τ .hand)
  | .hand => some ({ s with handed := s.handed ++ [s.item.djsonData] }.setPc τ .sending)
  | .sending => some { s with handed := s.handed ++ [s.item.djsonData] }

/-- A step of the system. -/
def step (s : SharedItem) : Label → Option SharedItem
  | .call τ => if s.pc τ = .idle then some (s.setPc τ .testData) else none
  | .run τ => s.getDataStep τ (s.pc τ)
  | .sent τ => if s.pc τ = .sending then some (s.setPc τ .idle) else none
  | .register key data =>
    match s.ids.findOrInsert key data with
    | .error _ => none
    | .ok (_, ids) => some { s with ids := ids }

/-! ## Complete messages -/

/-- The text of schema and data of an item: the one it was built with, or the schema that the id
manager holds for its fields, and their values. -/
def IsText (item : DjsonLogItem) (ids : IdMgr) (t : Bytes) : Prop :=
  if item.schemaAndData = [] then
    ∃ schema, ids.cache.lookup (getSchemaCacheKey item.svlist) = some schema ∧
      t = schemaText schema ++ composeDataValue item.svlist
  else t = item.schemaAndData

/-- The complete message of an item. -/
def IsMessage (item : DjsonLogItem) (ids : IdMgr) (d : Bytes) : Prop :=
  ∃ t, IsText item ids t ∧ d = { item with schemaAndData := t }.composeFullData.djsonData

/-- The condition on a step: no call hands the text or begins it anew while another has written the
length and not the rest, or begins it anew while another is in its `Send`, and no call reads the
values of fields that another has emptied. -/
def Separate (s : SharedItem) : Label → Prop
  | .run τ =>
    match s.pc τ with
    | .hand => ∀ τ' ≠ τ, s.pc τ' ≠ .append
    | .assignLength _ => ∀ τ' ≠ τ, s.pc τ' ≠ .append ∧ s.pc τ' ≠ .sending
    | .values _ => s.item.svlist ≠ []
    | _ => True
  | _ => True

/-- Every string that was handed to `Send`, whenever it is read there, is the complete message. -/
def HandedComplete (item : DjsonLogItem) (s : SharedItem) : Prop :=
  ∀ d ∈ s.handed, IsMessage item s.ids d

/-! ## The text of an item -/

variable {item : DjsonLogItem} {ids ids' : IdMgr} {s s' : SharedItem} {τ : ℕ} {pc : GetDataPc}
  {t t' key data : Bytes}

/-- Entries of the id manager are never changed. -/
theorem lookup_mono {id : ℕ} (h : ids.findOrInsert key data = .ok (id, ids')) {k : Bytes}
    {schema : ℕ × Bytes} (hk : ids.cache.lookup k = some schema) :
    ids'.cache.lookup k = some schema := by
  rcases ids.lookup_findOrInsert h k with he | ⟨rfl, hnot, -⟩
  · exact he.trans hk
  · rw [AList.lookup_eq_none.mpr hnot] at hk
    cases hk

/-- What `FindOrInsert` returns is what it holds. -/
theorem lookup_of_findOrInsert {id : ℕ} (h : ids.findOrInsert key data = .ok (id, ids')) :
    ids'.cache.lookup key = some (id, data) := by
  unfold IdMgr.findOrInsert at h
  split at h
  · cases h
  · split at h
    · cases h
    · split at h
      · cases h
        exact AList.lookup_insert _
      · rename_i schema hl
        split at h
        · cases h
        · rename_i hd
          rw [not_not] at hd
          cases h
          rw [hl, hd]

theorem IsText.mono (h : IsText item ids t)
    (hids : ∀ k schema, ids.cache.lookup k = some schema → ids'.cache.lookup k = some schema) :
    IsText item ids' t := by
  unfold IsText at h ⊢
  split
  · rename_i h0
    rw [if_pos h0] at h
    obtain ⟨schema, hl, ht⟩ := h
    exact ⟨schema, hids _ _ hl, ht⟩
  · rename_i h0
    rwa [if_neg h0] at h

theorem IsText.unique (h : IsText item ids t) (h' : IsText item ids t') : t = t' := by
  unfold IsText at h h'
  split at h
  · rename_i h0
    rw [if_pos h0] at h'
    obtain ⟨schema, hl, rfl⟩ := h
    obtain ⟨schema', hl', rfl⟩ := h'
    cases hl.symm.trans hl'
    rfl
  · rename_i h0
    rw [if_neg h0] at h'
    exact h.trans h'.symm

theorem IsText.ne_nil (h : IsText item ids t) : t ≠ [] := by
  unfold IsText at h
  split at h
  · obtain ⟨schema, -, rfl⟩ := h
    simp [schemaText, toDec_ne_nil]
  · rename_i h0
    rwa [h]

theorem IsMessage.mono (h : IsMessage item ids t)
    (hids : ∀ k schema, ids.cache.lookup k = some schema → ids'.cache.lookup k = some schema) :
    IsMessage item ids' t := by
  obtain ⟨t, ht, hd⟩ := h
  exact ⟨t, ht.mono hids, hd⟩

/-! ## What a composed item is -/

/-- What the call of a thread relies on. -/
def PcOk (item : DjsonLogItem) (s : SharedItem) : GetDataPc → Prop
  | .key => item.schemaAndData = []
  | .array key => item.schemaAndData = [] ∧ key = getSchemaCacheKey item.svlist
  | .values strm => item.schemaAndData = [] ∧
    ∃ schema, s.ids.cache.lookup (getSchemaCacheKey item.svlist) = some schema ∧
      strm = schemaText schema
  | .swap strm | .assign strm => IsText item s.ids strm
  | .measure | .append => s.item.schemaAndData ≠ []
  | .assignLength len => s.item.schemaAndData ≠ [] ∧ len = s.item.announcedLength
  | .hand | .sending => s.item.djsonData ≠ []
  | _ => True

/-- The parts of a shared item, and the message it holds when no call is in the middle of it. -/
structure Inv (item : DjsonLogItem) (s : SharedItem) : Prop where
  source : s.item.source = item.source
  tag : s.item.tag = item.tag
  svlist : s.item.svlist = item.svlist ∨ s.item.svlist = []
  schema : s.item.schemaAndData = [] ∧ item.schemaAndData = [] ∨
    IsText item s.ids s.item.schemaAndData
  pcs : ∀ τ, PcOk item s (s.pc τ)
  /-- Only one call is between its assignment and its append. -/
  one : ∀ τ τ', s.pc τ = .append → s.pc τ' = .append → τ' = τ
  appending : ∀ τ, s.pc τ = .append → s.item.djsonData = toDec s.item.announcedLength
  /-- While a `Send` may read the text, no call is between its assignment and its append. -/
  sending : ∀ τ, s.pc τ = .sending → ∀ τ', s.pc τ' ≠ .append
  data : (∀ τ, s.pc τ ≠ .append) → s.item.djsonData = [] ∨ IsMessage item s.ids s.item.djsonData
  handed : HandedComplete item s

theorem inv_publish (item : DjsonLogItem) (ids : IdMgr) : (publish item ids).Inv item where
  source := rfl
  tag := rfl
  svlist := .inl rfl
  schema := by
    by_cases h : item.schemaAndData = []
    · exact .inl ⟨h, h⟩
    · exact .inr (by simp [IsText, h, publish])
  pcs _ := trivial
  one := by simp [publish]
  appending := by simp [publish]
  sending := by simp [publish]
  data _ := .inl rfl
  handed := by simp [HandedComplete, publish]

/-- The text of schema and data that is there is the one text of the item. -/
theorem Inv.isText (h : s.Inv item) (hne : s.item.schemaAndData ≠ []) :
    IsText item s.ids s.item.schemaAndData :=
  h.schema.resolve_left fun h0 => hne h0.1

/-- A step that leaves the message alone: it may change the id manager, set the text of schema and
data, and empty the fields. -/
structure Quiet (item : DjsonLogItem) (s s' : SharedItem) : Prop where
  source : s'.item.source = s.item.source
  tag : s'.item.tag = s.item.tag
  svlist : s'.item.svlist = s.item.svlist ∨ s'.item.svlist = []
  schema : s'.item.schemaAndData = s.item.schemaAndData ∨
    IsText item s'.ids s'.item.schemaAndData
  djsonData : s'.item.djsonData = s.item.djsonData
  lookup : ∀ k schema, s.ids.cache.lookup k = some schema → s'.ids.cache.lookup k = some schema
  pc : ∀ τ, s'.pc τ = s.pc τ ∨
    s.pc τ ≠ .append ∧ s'.pc τ ≠ .append ∧ PcOk item s' (s'.pc τ)
  sending : ∀ τ, s'.pc τ = .sending → s.pc τ = .sending ∨ ∀ τ', s.pc τ' ≠ .append

/-- A call moves between two places before or after the assignment. -/
theorem pc_move (hpc : s'.pc = Function.update s.pc τ pc) (hold : s.pc τ ≠ .append)
    (hnew : pc ≠ .append) (hok : PcOk item s' pc) (τ' : ℕ) :
    s'.pc τ' = s.pc τ' ∨ s.pc τ' ≠ .append ∧ s'.pc τ' ≠ .append ∧ PcOk item s' (s'.pc τ') := by
  rw [hpc]
  exact (Function.forall_update_iff s.pc fun τ' pc => pc = s.pc τ' ∨
    s.pc τ' ≠ .append ∧ pc ≠ .append ∧ PcOk item s' pc).mpr
      ⟨.inr ⟨hold, hnew, hok⟩, fun _ _ => .inl rfl⟩ τ'

/-- A call moves to a place before its `Send`. -/
theorem sending_move (hpc : s'.pc = Function.update s.pc τ pc) (hnew : pc ≠ .sending) (τ' : ℕ)
    (h : s'.pc τ' = .sending) : s.pc τ' = .sending ∨ ∀ τ, s.pc τ ≠ .append := by
  rw [hpc] at h
  by_cases hτ : τ' = τ
  · subst hτ
    rw [Function.update_self] at h
    exact absurd h hnew
  · rw [Function.update_of_ne hτ] at h
    exact .inl h

theorem Quiet.move (hold : s.pc τ ≠ .append) (hnew : pc ≠ .append) (hs : pc ≠ .sending)
    (hok : PcOk item s pc) : Quiet item s (s.setPc τ pc) :=
  ⟨rfl, rfl, .inl rfl, .inl rfl, rfl, fun _ _ h => h, pc_move rfl hold hnew hok,
    sending_move rfl hs⟩

/-- The text of schema and data is set once. -/
theorem Quiet.same_text (hq : Quiet item s s') (h : s.Inv item)
    (hne : s.item.schemaAndData ≠ []) : s'.item.schemaAndData = s.item.schemaAndData := by
  rcases hq.schema with he | ht
  · exact he
  · exact ht.unique ((h.isText hne).mono hq.lookup)

theorem Quiet.announcedLength (hq : Quiet item s s') (h : s.Inv item)
    (hne : s.item.schemaAndData ≠ []) : s'.item.announcedLength = s.item.announcedLength := by
  simp only [DjsonLogItem.announcedLength, hq.source, hq.tag, hq.same_text h hne]

theorem Quiet.pcOk (hq : Quiet item s s') (h : s.Inv item) (hok : PcOk item s pc) :
    PcOk item s' pc := by
  have hkeep : s.item.schemaAndData ≠ [] → s'.item.schemaAndData ≠ [] := fun hne => by
    rwa [hq.same_text h hne]
  cases pc with
  | key | array => exact hok
  | values strm =>
    obtain ⟨h0, schema, hl, ht⟩ := hok
    exact ⟨h0, schema, hq.lookup _ _ hl, ht⟩
  | swap | assign => exact IsText.mono hok hq.lookup
  | measure | append => exact hkeep hok
  | assignLength len => exact ⟨hkeep hok.1, hok.2.trans (hq.announcedLength h hok.1).symm⟩
  | hand | sending =>
    have hd : s.item.djsonData ≠ [] := hok
    exact fun he => hd (hq.djsonData.symm.trans he)
  | idle | testData | testSchema => trivial

theorem Quiet.append_iff (hq : Quiet item s s') (τ : ℕ) : s'.pc τ = .append ↔ s.pc τ = .append := by
  rcases hq.pc τ with he | ⟨hold, hnew, -⟩
  · rw [he]
  · exact iff_of_false hnew hold

theorem Inv.quiet (h : s.Inv item) (hq : Quiet item s s') (hh : HandedComplete item s') :
    s'.Inv item where
  source := hq.source.trans h.source
  tag := hq.tag.trans h.tag
  svlist := by
    rcases hq.svlist with he | he
    · rw [he]
      exact h.svlist
    · exact .inr he
  schema := by
    rcases hq.schema with he | ht
    · rw [he]
      exact h.schema.imp_right fun ht => ht.mono hq.lookup
    · exact .inr ht
  pcs τ := by
    rcases hq.pc τ with he | ⟨-, -, hok⟩
    · rw [he]
      exact hq.pcOk h (h.pcs τ)
    · exact hok
  one τ τ' hτ hτ' := h.one τ τ' ((hq.append_iff τ).mp hτ) ((hq.append_iff τ').mp hτ')
  appending τ hτ := by
    have hpc := (hq.append_iff τ).mp hτ
    have hne : s.item.schemaAndData ≠ [] := by
      have hok := h.pcs τ
      rwa [hpc] at hok
    rw [hq.djsonData, hq.announcedLength h hne]
    exact h.appending τ hpc
  sending τ hτ τ' := by
    rw [ne_eq, hq.append_iff]
    rcases hq.sending τ hτ with hτ | hnone
    · exact h.sending τ hτ τ'
    · exact hnone τ'
  data hτ := by
    rw [hq.djsonData]
    refine (h.data fun τ hpc => hτ τ ((hq.append_iff τ).mpr hpc)).imp_right fun hm => ?_
    exact hm.mono hq.lookup
  handed := hh

theorem HandedComplete.mono (h : HandedComplete item s) (hh : s'.handed = s.handed)
    (hids : ∀ k schema, s.ids.cache.lookup k = some schema → s'.ids.cache.lookup k = some schema) :
    HandedComplete item s' := fun d hd => (h d (hh ▸ hd)).mono hids

/-- The assignment of the length string, when no other call is before its append or in its
`Send`. -/
theorem Inv.assignLength (h : s.Inv item) {len : ℕ} (hpc : s.pc τ = .assignLength len)
    (hsep : ∀ τ' ≠ τ, s.pc τ' ≠ .append ∧ s.pc τ' ≠ .sending) :
    ({ s with item := { s.item with djsonData := toDec len } }.setPc τ .append).Inv item := by
  obtain ⟨hne, hlen⟩ : s.item.schemaAndData ≠ [] ∧ len = s.item.announcedLength := by
    have hok := h.pcs τ
    rwa [hpc] at hok
  have hother : ∀ τ', Function.update s.pc τ .append τ' = .append → τ' = τ := fun τ' hτ' => by
    by_contra hne
    rw [Function.update_of_ne hne] at hτ'
    exact (hsep τ' hne).1 hτ'
  refine ⟨h.source, h.tag, h.svlist, h.schema, ?_, ?_, ?_, fun τ' hτ' => ?_, ?_, h.handed⟩
  · refine (Function.forall_update_iff s.pc fun _ pc => PcOk item _ pc).mpr ⟨hne, fun τ' _ => ?_⟩
    have hok := h.pcs τ'
    generalize s.pc τ' = pc at hok
    cases pc with
    | hand | sending => exact toDec_ne_nil len
    | _ => exact hok
  · exact fun τ₁ τ₂ h₁ h₂ => (hother τ₂ h₂).trans (hother τ₁ h₁).symm
  · exact fun _ _ => congrArg toDec hlen
  · by_cases he : τ' = τ
    · subst he
      simp at hτ'
    · rw [setPc_pc, Function.update_of_ne he] at hτ'
      exact absurd hτ' (hsep τ' he).2
  · intro hn
    exact (hn τ (by simp)).elim

/-- The append behind the length. -/
theorem Inv.append (h : s.Inv item) (hpc : s.pc τ = .append) :
    ({ s with item := { s.item with djsonData := s.item.djsonData ++ s.item.rest } }.setPc τ
      .hand).Inv item := by
  have hne : s.item.schemaAndData ≠ [] := by
    have hok := h.pcs τ
    rwa [hpc] at hok
  have hd := h.appending τ hpc
  have hm : IsMessage item s.ids (s.item.djsonData ++ s.item.rest) := by
    refine ⟨s.item.schemaAndData, h.isText hne, ?_⟩
    rw [djsonData_eq_append_rest, hd]
    simp only [DjsonLogItem.announcedLength, DjsonLogItem.rest, h.source, h.tag]
  have hnone : ∀ τ', Function.update s.pc τ .hand τ' ≠ .append := fun τ' hτ' => by
    by_cases he : τ' = τ
    · subst he
      simp at hτ'
    · rw [Function.update_of_ne he] at hτ'
      exact he (h.one τ τ' hpc hτ')
  refine ⟨h.source, h.tag, h.svlist, h.schema, ?_, ?_, ?_, fun _ _ => hnone, fun _ => .inr hm,
    h.handed⟩
  · refine (Function.forall_update_iff s.pc fun _ pc => PcOk item _ pc).mpr ⟨?_, fun τ' _ => ?_⟩
    · have h0 : toDec s.item.announcedLength ++ s.item.rest ≠ [] := by simp [toDec_ne_nil]
      rwa [← hd] at h0
    · have hok := h.pcs τ'
      generalize s.pc τ' = pc at hok
      cases pc with
      | hand | sending =>
        have hok' : s.item.djsonData ≠ [] := hok
        exact fun he => hok' (List.append_eq_nil_iff.mp he).1
      | _ => exact hok
  · exact fun τ₁ _ h₁ _ => absurd h₁ (hnone τ₁)
  · exact fun τ₁ h₁ => absurd h₁ (hnone τ₁)

/-- The id manager has an answer only for a key that is not empty. -/
theorem getItem_eq_ok {r : Option (ℕ × Bytes)} (h : ids.getItem key = .ok r) :
    key ≠ [] ∧ r = ids.cache.lookup key := by
  unfold IdMgr.getItem at h
  split at h
  · cases h
  · rename_i hk
    cases h
    exact ⟨hk, rfl⟩

/-- The look-up of the schema finds the one of the item, or throws. -/
theorem Inv.lookupSchema (h : s.Inv item) (hpc : s.pc τ = .key)
    (hs : s.getDataStep τ .key = some s') : s'.Inv item := by
  have hold : s.pc τ ≠ .append := by simp [hpc]
  have h0 : item.schemaAndData = [] := by
    have hok := h.pcs τ
    rwa [hpc] at hok
  have hsv : getSchemaCacheKey s.item.svlist ≠ [] → s.item.svlist = item.svlist := fun hk => by
    refine h.svlist.resolve_right fun he => hk ?_
    rw [he]
    rfl
  simp only [SharedItem.getDataStep] at hs
  split at hs
  · cases hs
    exact h.quiet (.move hold nofun nofun trivial) h.handed
  · rename_i schema hg
    obtain ⟨hk, hl⟩ := getItem_eq_ok hg
    cases hs
    refine h.quiet (.move hold nofun nofun ⟨h0, schema, ?_, rfl⟩) h.handed
    rw [← hsv hk]
    exact hl.symm
  · rename_i hg
    obtain ⟨hk, -⟩ := getItem_eq_ok hg
    cases hs
    exact h.quiet (.move hold nofun nofun ⟨h0, by rw [hsv hk]⟩) h.handed

/-- A registered schema is the one the id manager holds. -/
theorem Inv.registerSchema (h : s.Inv item) (hpc : s.pc τ = .array key)
    (hs : s.getDataStep τ (.array key) = some s') : s'.Inv item := by
  have hold : s.pc τ ≠ .append := by simp [hpc]
  obtain ⟨h0, hkey⟩ : item.schemaAndData = [] ∧ key = getSchemaCacheKey item.svlist := by
    have hok := h.pcs τ
    rwa [hpc] at hok
  simp only [SharedItem.getDataStep] at hs
  split at hs
  · cases hs
    exact h.quiet (.move hold nofun nofun trivial) h.handed
  · rename_i id ids hf
    cases hs
    have hids := @lookup_mono _ _ _ _ _ hf
    have hl := lookup_of_findOrInsert hf
    rw [hkey] at hl
    refine h.quiet ⟨rfl, rfl, .inl rfl, .inl rfl, rfl, fun _ _ => hids, ?_, sending_move rfl nofun⟩
      (h.handed.mono rfl fun _ _ => hids)
    exact pc_move rfl hold nofun ⟨h0, _, hl, rfl⟩

/-- What is read when no call is before its append is the complete message. -/
theorem Inv.handedComplete_read (h : s.Inv item) (hne : s.item.djsonData ≠ [])
    (hnone : ∀ τ', s.pc τ' ≠ .append) (hids : s'.ids = s.ids)
    (hs : s'.handed = s.handed ++ [s.item.djsonData]) : HandedComplete item s' := by
  intro d hd
  rw [hids]
  rcases List.mem_append.mp (hs ▸ hd) with hd | hd
  · exact h.handed d hd
  · rw [List.mem_singleton.mp hd]
    exact (h.data hnone).resolve_left hne

/-- The hand-over, when no other call is before its append. -/
theorem Inv.handOver (h : s.Inv item) (hpc : s.pc τ = .hand) (hsep : ∀ τ' ≠ τ, s.pc τ' ≠ .append) :
    ({ s with handed := s.handed ++ [s.item.djsonData] }.setPc τ .sending).Inv item := by
  have hold : s.pc τ ≠ .append := by simp [hpc]
  have hne : s.item.djsonData ≠ [] := by
    have hok := h.pcs τ
    rwa [hpc] at hok
  have hnone : ∀ τ', s.pc τ' ≠ .append := fun τ' => by
    by_cases he : τ' = τ
    · rwa [he]
    · exact hsep τ' he
  refine h.quiet ⟨rfl, rfl, .inl rfl, .inl rfl, rfl, fun _ _ hl => hl, ?_, fun _ _ => .inr hnone⟩
    (h.handedComplete_read hne hnone rfl rfl)
  exact pc_move rfl hold nofun hne

/-- A look of `Send` at the text. -/
theorem Inv.read (h : s.Inv item) (hpc : s.pc τ = .sending) :
    Inv item { s with handed := s.handed ++ [s.item.djsonData] } := by
  have hne : s.item.djsonData ≠ [] := by
    have hok := h.pcs τ
    rwa [hpc] at hok
  exact h.quiet ⟨rfl, rfl, .inl rfl, .inl rfl, rfl, fun _ _ hl => hl, fun _ => .inl rfl,
    fun _ => .inl⟩ (h.handedComplete_read hne (h.sending τ hpc) rfl rfl)

/-- **A step of a call** that meets the condition. -/
theorem Inv.getDataStep (h : s.Inv item) (hsep : s.Separate (.run τ))
    (hs : s.getDataStep τ (s.pc τ) = some s') : s'.Inv item := by
  have hok := h.pcs τ
  simp only [Separate] at hsep
  generalize hpc : s.pc τ = pc at hok hsep hs
  have hgo : ∀ pc', pc ≠ .append → pc' ≠ .append → pc' ≠ .sending → PcOk item s pc' →
      (s.setPc τ pc').Inv item := fun pc' hold hnew hns hok =>
    h.quiet (.move (hpc ▸ hold) hnew hns hok) h.handed
  cases pc with
  | idle => cases hs
  | testData =>
    cases hs
    split
    · exact hgo _ nofun nofun nofun trivial
    · rename_i hd
      exact hgo _ nofun nofun nofun hd
  | testSchema =>
    cases hs
    split
    · rename_i h0
      refine hgo .key nofun nofun nofun ?_
      rcases h.schema with he | ht
      · exact he.2
      · exact absurd h0 ht.ne_nil
    · rename_i h0
      exact hgo .measure nofun nofun nofun h0
  | key => exact h.lookupSchema hpc hs
  | array key => exact h.registerSchema hpc hs
  | values strm =>
    obtain ⟨h0, schema, hl, rfl⟩ := hok
    cases hs
    refine hgo _ nofun nofun nofun ?_
    have hsv : s.item.svlist = item.svlist := h.svlist.resolve_right hsep
    simp only [PcOk, IsText, h0, if_true, hsv]
    exact ⟨schema, hl, rfl⟩
  | swap strm =>
    cases hs
    refine h.quiet ⟨rfl, rfl, .inr rfl, .inl rfl, rfl, fun _ _ hl => hl, ?_,
      sending_move rfl nofun⟩ h.handed
    exact pc_move rfl (by simp [hpc]) nofun hok
  | assign strm =>
    cases hs
    refine h.quiet ⟨rfl, rfl, .inl rfl, .inr hok, rfl, fun _ _ hl => hl, ?_,
      sending_move rfl nofun⟩ h.handed
    exact pc_move rfl (by simp [hpc]) nofun (IsText.ne_nil hok)
  | measure =>
    cases hs
    exact hgo _ nofun nofun nofun ⟨hok, rfl⟩
  | assignLength len =>
    cases hs
    exact h.assignLength hpc hsep
  | append =>
    cases hs
    exact h.append hpc
  | hand =>
    cases hs
    exact h.handOver hpc hsep
  | sending =>
    cases hs
    exact h.read hpc

theorem Inv.step (h : s.Inv item) {l : Label} (hsep : s.Separate l) (hs : s.step l = some s') :
    s'.Inv item := by
  cases l with
  | call τ =>
    simp only [SharedItem.step] at hs
    split at hs
    · rename_i hpc
      cases hs
      exact h.quiet (.move (by simp [hpc]) nofun nofun trivial) h.handed
    · cases hs
  | run τ => exact h.getDataStep hsep hs
  | sent τ =>
    simp only [SharedItem.step] at hs
    split at hs
    · rename_i hpc
      cases hs
      exact h.quiet (.move (by simp [hpc]) nofun nofun trivial) h.handed
    · cases hs
  | register key data =>
    simp only [SharedItem.step] at hs
    split at hs
    · cases hs
    · rename_i hf
      cases hs
      have hids := @lookup_mono _ _ _ _ _ hf
      exact h.quiet ⟨rfl, rfl, .inl rfl, .inl rfl, rfl, fun _ _ => hids, fun _ => .inl rfl,
        fun _ => .inl⟩ (h.handed.mono rfl fun _ _ => hids)

/-- **Complete messages.** In every run whose steps meet the condition, every string that was
handed to `Send` is the complete message of the item, and so is all that `Send` reads. -/
theorem handed_complete (hr : Reach step Separate (publish item ids) s) : HandedComplete item s :=
  (hr.invariant (inv_publish item ids) fun _ _ _ h hsep hs => h.step hsep hs).handed

/-! ## A call that nobody disturbs -/

/-- The thread comes from one state to another with nobody else taking a step. -/
def Leads (τ : ℕ) (s s' : SharedItem) : Prop :=
  ∃ n, exec step s (List.replicate n (.run τ)) = some s'

theorem Leads.head {s'' : SharedItem} (s' : SharedItem)
    (hs : s.getDataStep τ (s.pc τ) = some s') (h : Leads τ s' s'') : Leads τ s s'' := by
  obtain ⟨n, hn⟩ := h
  refine ⟨n + 1, ?_⟩
  rw [List.replicate_succ, exec, SharedItem.step, hs]
  exact hn

/-- The state after a call has handed out its text. -/
def after (s : SharedItem) (τ : ℕ) (item : DjsonLogItem) (ids : IdMgr) : SharedItem :=
  { s with item := item, ids := ids, handed := s.handed ++ [item.djsonData] }.setPc τ .sending

theorem leads_hand (s : SharedItem) (τ : ℕ) :
    Leads τ (s.setPc τ .hand) (s.after τ s.item s.ids) := by
  refine .head (s.after τ s.item s.ids) ?_ ⟨0, rfl⟩
  simp [getDataStep, setPc, after]

theorem leads_composeFullData (s : SharedItem) (τ : ℕ) :
    Leads τ (s.setPc τ .measure) (s.after τ s.item.composeFullData s.ids) := by
  let len := s.item.announcedLength
  let s₁ := { s with item := { s.item with djsonData := toDec len } }
  have hcomp : { s₁.item with djsonData := s₁.item.djsonData ++ s₁.item.rest } =
      s.item.composeFullData := by
    rw [DjsonLogItem.composeFullData]
    simp only [DjsonLogItem.rest, List.append_assoc, s₁, len]
  refine .head (s.setPc τ (.assignLength len)) ?_ ?_
  · simp [getDataStep, setPc, len]
  refine .head (s₁.setPc τ .append) ?_ ?_
  · simp [getDataStep, setPc, s₁]
  refine .head ({ s with item := s.item.composeFullData }.setPc τ .hand) ?_ ?_
  · rw [← hcomp]
    simp [getDataStep, setPc, s₁]
  · exact leads_hand { s with item := s.item.composeFullData } τ

/-- The values are streamed behind the schema, and the fields are emptied. -/
theorem leads_values (s : SharedItem) (τ : ℕ) (schema : ℕ × Bytes) :
    let item := { s.item with
      svlist := []
      schemaAndData := schemaText schema ++ composeDataValue s.item.svlist }
    Leads τ (s.setPc τ (.values (schemaText schema))) (s.after τ item.composeFullData s.ids) := by
  intro item
  let strm := schemaText schema ++ composeDataValue s.item.svlist
  let s₁ := { s with item := { s.item with svlist := [] } }
  refine .head (s.setPc τ (.swap strm)) ?_ ?_
  · simp [getDataStep, setPc, strm]
  refine .head (s₁.setPc τ (.assign strm)) ?_ ?_
  · simp [getDataStep, setPc, s₁]
  refine .head ({ s with item := item }.setPc τ .measure) ?_ ?_
  · simp [getDataStep, setPc, s₁, item, strm]
  · exact leads_composeFullData { s with item := item } τ

theorem leads_composeSchema (s : SharedItem) (τ : ℕ) {schema : ℕ × Bytes}
    (h : composeSchema s.item.svlist s.ids = .ok (schema, ids')) :
    Leads τ (s.setPc τ .key)
      ({ s with ids := ids' }.setPc τ (.values (schemaText schema))) := by
  simp only [composeSchema, bind, Except.bind, pure, Except.pure] at h
  cases hg : s.ids.getItem (getSchemaCacheKey s.item.svlist) with
  | error e =>
    rw [hg] at h
    cases h
  | ok r =>
    rw [hg] at h
    cases r with
    | some cachedInfo =>
      cases h
      refine .head _ ?_ ⟨0, rfl⟩
      simp [getDataStep, setPc, hg]
    | none =>
      cases hf : s.ids.findOrInsert (getSchemaCacheKey s.item.svlist)
          (composeSchemaArray s.item.svlist) with
      | error e =>
        simp only [hf] at h
        cases h
      | ok r =>
        simp only [hf] at h
        cases h
        refine .head (s.setPc τ (.array (getSchemaCacheKey s.item.svlist))) ?_ ?_
        · simp [getDataStep, setPc, hg]
        refine .head _ ?_ ⟨0, rfl⟩
        simp [getDataStep, setPc, hf]

theorem Leads.trans {s'' : SharedItem} (h : Leads τ s s') (h' : Leads τ s' s'') :
    Leads τ s s'' := by
  obtain ⟨n, hn⟩ := h
  induction n generalizing s with
  | zero =>
    obtain rfl : s = s' := by simpa [exec] using hn
    exact h'
  | succ n ih =>
    rw [List.replicate_succ, exec] at hn
    obtain ⟨s₁, hs₁, hn⟩ := Option.bind_eq_some_iff.mp hn
    exact .head s₁ hs₁ (ih hn)

/-- **A call that nobody disturbs is `getData`**: it leaves its item, and hands out its text. -/
theorem leads_getData (s : SharedItem) (τ : ℕ) {item' : DjsonLogItem}
    (h : s.item.getData s.ids = .ok (item', ids')) :
    Leads τ (s.setPc τ .testData) (s.after τ item' ids') := by
  unfold DjsonLogItem.getData at h
  by_cases hd : s.item.djsonData = []
  · rw [if_pos hd] at h
    refine .head (s.setPc τ .testSchema) (by simp [getDataStep, setPc, hd]) ?_
    by_cases h0 : s.item.schemaAndData = []
    · rw [if_pos h0] at h
      refine .head (s.setPc τ .key) (by simp [getDataStep, setPc, h0]) ?_
      simp only [composeSchemaAndData, bind, Except.bind, pure, Except.pure] at h
      cases hc : composeSchema s.item.svlist s.ids with
      | error e =>
        simp only [hc] at h
        cases h
      | ok r =>
        simp only [hc] at h
        cases h
        exact (leads_composeSchema s τ hc).trans (leads_values { s with ids := r.2 } τ r.1)
    · rw [if_neg h0] at h
      cases h
      refine .head (s.setPc τ .measure) (by simp [getDataStep, setPc, h0]) ?_
      exact leads_composeFullData s τ
  · rw [if_neg hd] at h
    cases h
    refine .head (s.setPc τ .hand) (by simp [getDataStep, setPc, hd]) ?_
    exact leads_hand s τ

/-! ## Two calls -/

/-- An item as `SendDjson` builds it. -/
def itemS7 : DjsonLogItem := ofSchemaAndData 7 (lit "s") (lit "1,[],[]")

/-- A call of a thread, and `n` of its steps. -/
def callOf (τ n : ℕ) : List Label := .call τ :: List.replicate n (.run τ)

/-- A step of one of two threads, that the other lets pass. -/
def letPass (s : SharedItem) : Label → Bool
  | .call τ => τ < 2
  | .run τ => τ < 2 && s.pc (1 - τ) ≠ .append &&
    match s.pc τ with
    | .assignLength _ => s.pc (1 - τ) ≠ .sending
    | .values _ => false
    | _ => true
  | .sent τ => τ < 2
  | .register _ _ => false

theorem separate_of_letPass {l : Label} (h : s.letPass l = true ∧ ∀ τ, 2 ≤ τ → s.pc τ = .idle) :
    s.Separate l := by
  obtain ⟨hl, hidle⟩ := h
  cases l with
  | call | sent | register => trivial
  | run τ =>
    simp only [letPass, Bool.and_eq_true, decide_eq_true_eq] at hl
    obtain ⟨⟨hτ, hother⟩, hv⟩ := hl
    have hsep : ∀ pc, pc ≠ .idle → s.pc (1 - τ) ≠ pc → ∀ τ' ≠ τ, s.pc τ' ≠ pc :=
      fun pc hpc h τ' hne => by
        by_cases h2 : 2 ≤ τ'
        · rw [hidle τ' h2]
          exact hpc.symm
        · obtain rfl : τ' = 1 - τ := by omega
          exact h
    have happend := hsep .append (by simp) hother
    simp only [Separate]
    generalize s.pc τ = pc at hv
    cases pc with
    | hand => exact happend
    | assignLength =>
      have hsending := hsep .sending (by simp) (of_decide_eq_true hv)
      exact fun τ' hne => ⟨happend τ' hne, hsending τ' hne⟩
    | values => cases hv
    | _ => trivial

/-- A step of a call moves no other one. -/
theorem pc_getDataStep (hs : s.getDataStep τ pc = some s') :
    ∃ pc', s'.pc = Function.update s.pc τ pc' := by
  cases pc with
  | idle => cases hs
  | key =>
    simp only [getDataStep] at hs
    split at hs <;> cases hs <;> exact ⟨_, rfl⟩
  | array key =>
    simp only [getDataStep] at hs
    split at hs <;> cases hs <;> exact ⟨_, rfl⟩
  | sending =>
    cases hs
    exact ⟨s.pc τ, (Function.update_eq_self τ s.pc).symm⟩
  | _ =>
    cases hs
    exact ⟨_, rfl⟩

theorem idle_step {l : Label} (hidle : ∀ τ, 2 ≤ τ → s.pc τ = .idle) (hl : s.letPass l = true)
    (hs : s.step l = some s') : ∀ τ, 2 ≤ τ → s'.pc τ = .idle := by
  have hupdate : ∀ τ pc, τ < 2 → s'.pc = Function.update s.pc τ pc →
      ∀ τ', 2 ≤ τ' → s'.pc τ' = .idle := fun τ pc hτ hpc τ' h2 => by
    rw [hpc, Function.update_of_ne (by omega)]
    exact hidle τ' h2
  cases l with
  | register => cases hl
  | call τ =>
    simp only [SharedItem.step] at hs
    split at hs
    · cases hs
      exact hupdate τ _ (by simpa [letPass] using hl) rfl
    · cases hs
  | sent τ =>
    simp only [SharedItem.step] at hs
    split at hs
    · cases hs
      exact hupdate τ _ (by simpa [letPass] using hl) rfl
    · cases hs
  | run τ =>
    simp only [letPass, Bool.and_eq_true, decide_eq_true_eq] at hl
    obtain ⟨pc', hpc'⟩ := pc_getDataStep hs
    exact hupdate τ pc' hl.1.1 hpc'

/-- Two calls: the second one hands the text while the `Send` of the first reads it. -/
theorem handed_complete_twice :
    ∃ s : SharedItem, s.handed = List.replicate 4 (lit "15\n[\"s\",7,1,[],[]]") ∧
      HandedComplete itemS7 s := by
  obtain ⟨s, hr, ht⟩ : ∃ s, Reach step (fun s l => s.letPass l = true) (publish itemS7 .empty) s ∧
      decide (s.handed = List.replicate 4 (lit "15\n[\"s\",7,1,[],[]]")) = true :=
    @Reach.exists_of_exec _ _ step _ _ letPass _
      (callOf 0 6 ++ callOf 1 2 ++ [.run 0, .run 1, .sent 0, .sent 1])
      (fun _ _ h => h) (by decide) (by decide)
  have hsep := (hr.strengthen (I := fun s => ∀ τ, 2 ≤ τ → s.pc τ = .idle)
    (fun _ _ => rfl) fun _ _ _ h hl hs => idle_step h hl hs).mono fun _ _ => separate_of_letPass
  exact ⟨s, of_decide_eq_true ht, handed_complete hsep⟩

/-- The length string alone is no complete message. -/
theorem not_isMessage_lengthOnly (ids : IdMgr) : ¬ IsMessage itemS7 ids (lit "15") := by
  rintro ⟨t, ht, he⟩
  rw [IsText, if_neg (by decide)] at ht
  subst ht
  exact absurd he (by decide)

/-- A call hands the text while another has written the length only. Or the text is complete when it
is handed, and another call, which found no text before, has assigned the length when `Send` reads
it. -/
theorem handed_length_only :
    (∃ s, Reach step (fun _ _ => True) (publish itemS7 .empty) s ∧
      s.handed = [lit "15"] ∧ ¬ HandedComplete itemS7 s) ∧
    ∃ s, Reach step (fun _ _ => True) (publish itemS7 .empty) s ∧
      s.handed = [lit "15\n[\"s\",7,1,[],[]]", lit "15"] ∧ ¬ HandedComplete itemS7 s := by
  constructor
  · obtain ⟨s, hr, ht⟩ : ∃ s, Reach step (fun _ _ => True) (publish itemS7 .empty) s ∧
        decide (s.handed = [lit "15"]) = true :=
      @Reach.exists_of_exec _ _ step _ _ (fun _ _ => true) _ (callOf 0 4 ++ callOf 1 2)
        (fun _ _ _ => trivial) (by decide) (by decide)
    have hd := of_decide_eq_true ht
    exact ⟨s, hr, hd, fun hc => not_isMessage_lengthOnly s.ids (hc _ (by simp [hd]))⟩
  · obtain ⟨s, hr, ht⟩ : ∃ s, Reach step (fun _ _ => True) (publish itemS7 .empty) s ∧
        decide (s.handed = [lit "15\n[\"s\",7,1,[],[]]", lit "15"]) = true :=
      @Reach.exists_of_exec _ _ step _ _ (fun _ _ => true) _
        (callOf 1 3 ++ callOf 0 6 ++ [.run 1, .run 0]) (fun _ _ _ => trivial) (by decide)
        (by decide)
    have hd := of_decide_eq_true ht
    exact ⟨s, hr, hd, fun hc => not_isMessage_lengthOnly s.ids (hc _ (by simp [hd]))⟩

end SharedItem

end Outmdsd
