import Outmdsd.Reader.DataReader
import Outmdsd.Cache.ConcurrentMap

/-!
# Acks across connections

`ProcessItem` erases the tag of a success ack from the backup cache (`processItem_eq`). The partial
data of the reader outlives a connection: bytes of a line that was cut when a connection ended
stand in front of the first line of a later one. The reader erases exactly the tags that the
complete lines of the single connections ack, if and only if no such fragment meets a success ack
(`erasesAsAcked_iff`; the one fragment that does no harm is `0:` in front of the line `0`).
-/

namespace Outmdsd

namespace DataReader

variable {V : Type*}

/-- The byte `':'`. -/
def colon : Byte := 58

theorem not_isDigit_colon : isDigit colon = false := not_isDigit.2.2

/-- What the reader writes. -/
structure State (V : Type*) where
  /-- `m_dataCache`, which can be NULL. -/
  dataCache : Option (StringMap V)
  nTagsRead : ℕ
  /-- The tags of all calls of `Erase` so far. -/
  erased : List Bytes

/-- `m_dataCache->Erase(tag)`, if there is a cache. -/
def State.erase (s : State V) (tag : Bytes) : State V :=
  match s.dataCache with
  | none => s
  | some m => { s with
      dataCache := some (ConcurrentMap.erase m tag).2
      erased := s.erased ++ [tag] }

/-- `ProcessTag(tag)` -/
def processTag (s : State V) (tag : Bytes) : State V := if tag = [] then s else s.erase tag

/-- `ProcessTag(tag, ackStatus)` -/
def processTagStatus (s : State V) (tag ackStatus : Bytes) : State V :=
  if tag = [] then s
  else if ackStatus = [] then s
  else if lit "0" ≠ ackStatus then s
  else s.erase tag

/-- `ProcessItem` -/
def processItem (s : State V) (item : Bytes) : State V :=
  if item = [] then s
  else
    let s := { s with nTagsRead := s.nTagsRead + 1 }
    match item.span (· ≠ colon) with
    | (_, []) => processTag s item
    | (tag, _ :: ackStatus) => processTagStatus s tag ackStatus

/-- The tag an item has erased, if any. -/
def ackTag (item : Bytes) : Option Bytes :=
  match item.span (· ≠ colon) with
  | (_, []) => if item = [] then none else some item
  | (tag, _ :: ackStatus) => if tag ≠ [] ∧ ackStatus = lit "0" then some tag else none

theorem ackTag_of_notMem {item : Bytes} (h : colon ∉ item) :
    ackTag item = if item = [] then none else some item := by
  rw [ackTag, span_ne_of_notMem h]

theorem ackTag_append {tag : Bytes} (h : colon ∉ tag) (ackStatus : Bytes) :
    ackTag (tag ++ colon :: ackStatus) =
      if tag ≠ [] ∧ ackStatus = lit "0" then some tag else none := by
  rw [ackTag, span_ne_append h]

theorem ackTag_ne_nil {item : Bytes} : ackTag item ≠ some [] := by
  by_cases h : colon ∈ item
  · obtain ⟨tag, st, rfl, ht⟩ := List.eq_append_cons_of_mem h
    rw [ackTag_append ht]
    split <;> simp_all
  · rw [ackTag_of_notMem h]
    split <;> simp_all

/-- The effect of an item: it is counted, and erases its tag if it is a success ack. -/
theorem processItem_eq (s : State V) (item : Bytes) :
    processItem s item =
      let s := if item = [] then s else { s with nTagsRead := s.nTagsRead + 1 }
      match ackTag item with
      | none => s
      | some tag => s.erase tag := by
  by_cases h0 : item = []
  · subst h0
    rfl
  by_cases h : colon ∈ item
  · obtain ⟨tag, st, rfl, ht⟩ := List.eq_append_cons_of_mem h
    rw [processItem, if_neg h0, ackTag_append ht, span_ne_append ht]
    by_cases ht0 : tag = []
    · simp [processTagStatus, ht0]
    by_cases hst : st = lit "0"
    · subst hst
      simp [processTagStatus, ht0, show lit "0" ≠ [] by decide]
    · by_cases hs0 : st = []
      · simp [processTagStatus, ht0, hs0, show ([] : Bytes) ≠ lit "0" by decide]
      · simp [processTagStatus, ht0, hst, hs0, Ne.symm hst]
  · rw [processItem, if_neg h0, ackTag_of_notMem h, span_ne_of_notMem h]
    simp [processTag, h0]

/-- The state after an item, with a cache. -/
theorem processItem_some (m : StringMap V) (n : ℕ) (erased : List Bytes) (item : Bytes) :
    processItem ⟨some m, n, erased⟩ item =
      ⟨some (ConcurrentMap.eraseList m (ackTag item).toList).2, n + if item = [] then 0 else 1,
        erased ++ (ackTag item).toList⟩ := by
  have hs : (if item = [] then (⟨some m, n, erased⟩ : State V) else ⟨some m, n + 1, erased⟩) =
      ⟨some m, n + if item = [] then 0 else 1, erased⟩ := by
    split <;> rfl
  rw [processItem_eq]
  simp only [hs]
  cases hi : ackTag item with
  | none => simp [ConcurrentMap.eraseList]
  | some tag =>
    have ht : tag ≠ [] := by
      rintro rfl
      exact ackTag_ne_nil hi
    simp [State.erase, ConcurrentMap.erase, ConcurrentMap.eraseList, ht]

/-- The cache after an item. -/
theorem dataCache_processItem (m : StringMap V) (n : ℕ) (erased : List Bytes) (item : Bytes) :
    (processItem ⟨some m, n, erased⟩ item).dataCache =
      some (match ackTag item with
        | none => m
        | some tag => m.erase tag) := by
  rw [processItem_some]
  cases ackTag item <;> rfl

/-- A list of items erases the tags of its success acks, in order, and nothing else. The items that
are not empty are counted. -/
theorem foldl_processItem (m : StringMap V) (n : ℕ) (erased items : List Bytes) :
    items.foldl processItem ⟨some m, n, erased⟩ =
      ⟨some (ConcurrentMap.eraseList m (items.filterMap ackTag)).2, n + items.countP (· ≠ []),
        erased ++ items.filterMap ackTag⟩ := by
  induction items generalizing m n erased with
  | nil => simp [ConcurrentMap.eraseList]
  | cons item items ih =>
    have ht : (item :: items).filterMap ackTag =
        (ackTag item).toList ++ items.filterMap ackTag := by
      rw [List.filterMap_cons]
      cases ackTag item <;> rfl
    have hc : (item :: items).countP (· ≠ []) =
        (if item = [] then 0 else 1) + items.countP (· ≠ []) := by
      rw [List.countP_cons, Nat.add_comm]
      simp
    rw [List.foldl_cons, processItem_some, ih, ht, hc, ConcurrentMap.eraseList_append,
      Nat.add_assoc, List.append_assoc]

/-! ## Connections -/

/-- A line of the server, `<tag>` or `<tag>:<status>`, with a decimal tag. -/
structure AckLine where
  tag : Bytes
  status : Option Bytes
  tag_ne_nil : tag ≠ []
  isDigit_tag : ∀ b ∈ tag, isDigit b = true
  status_text : ∀ st, status = some st → newline ∉ st ∧ (0 : Byte) ∉ st

namespace AckLine

/-- The line `<n>`. -/
def ofTag (n : ℕ) : AckLine where
  tag := toDec n
  status := none
  tag_ne_nil := toDec_ne_nil n
  isDigit_tag _ hb := isDigit_of_mem_toDec hb
  status_text := nofun

/-- The text of a line, without its newline. -/
def text (l : AckLine) : Bytes :=
  match l.status with
  | none => l.tag
  | some st => l.tag ++ colon :: st

/-- The tag a line acks with success: it is `<tag>` or `<tag>:0`. -/
def acked (l : AckLine) : Option Bytes :=
  match l.status with
  | none => some l.tag
  | some st => if st = lit "0" then some l.tag else none

theorem notMem_tag {l : AckLine} {b : Byte} (hb : isDigit b = false) : b ∉ l.tag := fun h => by
  have := l.isDigit_tag b h
  rw [hb] at this
  cases this

theorem notMem_text (l : AckLine) : newline ∉ l.text ∧ (0 : Byte) ∉ l.text := by
  have hn := l.notMem_tag not_isDigit.2.1
  have h0 := l.notMem_tag not_isDigit.1
  unfold text
  split
  · exact ⟨hn, h0⟩
  · rename_i st hst
    have := l.status_text st hst
    simp only [List.mem_append, List.mem_cons, not_or]
    exact ⟨⟨hn, by decide, this.1⟩, h0, by decide, this.2⟩

/-- The tag erased by a line with a fragment in front that holds no colon. -/
theorem ackTag_fragment_append {p : Bytes} (hp : colon ∉ p) (l : AckLine) :
    ackTag (p ++ l.text) = l.acked.map (p ++ ·) := by
  have ht : colon ∉ p ++ l.tag := by simp [hp, l.notMem_tag not_isDigit_colon]
  have h0 : p ++ l.tag ≠ [] := by simp [l.tag_ne_nil]
  unfold text acked
  cases l.status with
  | none => simp only [ackTag_of_notMem ht, if_neg h0, Option.map_some]
  | some st =>
    rw [← List.append_assoc, ackTag_append ht]
    by_cases hst : st = lit "0"
    · simp [hst, h0]
    · simp [hst]

/-- A fragment that holds a colon turns a line into a success ack only if it is `<tag>:` and the
line is `0`. -/
theorem ackTag_fragment_colon_append {p₁ : Bytes} (hp : colon ∉ p₁) (p₂ : Bytes) (l : AckLine) :
    ackTag (p₁ ++ colon :: p₂ ++ l.text) =
      if p₁ ≠ [] ∧ p₂ = [] ∧ l.text = lit "0" then some p₁ else none := by
  have h0 : l.text ≠ [] := by
    unfold text
    split <;> simp [l.tag_ne_nil]
  rw [List.append_assoc, List.cons_append, ackTag_append hp]
  refine if_congr (and_congr_right fun _ => ?_) rfl rfl
  constructor
  · intro h
    cases p₂ with
    | nil => exact ⟨rfl, h⟩
    | cons b p₂ =>
      have := congrArg List.length h
      simp only [List.length_append, List.length_cons, lit] at this
      have := List.length_pos_iff.mpr h0
      simp at *
      omega
  · rintro ⟨rfl, h⟩
    exact h

theorem acked_of_text_eq {l : AckLine} (h : l.text = lit "0") : l.acked = some (lit "0") := by
  have hc : colon ∉ lit "0" := by decide
  unfold text at h
  unfold acked
  cases hs : l.status with
  | none =>
    rw [hs] at h
    exact congrArg some h
  | some st =>
    rw [hs] at h
    change l.tag ++ colon :: st = lit "0" at h
    exact absurd (h ▸ hc : colon ∉ l.tag ++ colon :: st) (by simp)

/-- A fragment in front of a line makes no success ack. -/
theorem isSome_acked {p : Bytes} {l : AckLine} (h : (ackTag (p ++ l.text)).isSome) :
    l.acked.isSome := by
  by_cases hp : colon ∈ p
  · obtain ⟨p₁, p₂, rfl, hp₁⟩ := List.eq_append_cons_of_mem hp
    rw [ackTag_fragment_colon_append hp₁] at h
    split at h
    · rename_i hc
      rw [acked_of_text_eq hc.2.2]
      rfl
    · cases h
  · rwa [ackTag_fragment_append hp, Option.isSome_map] at h

/-- A fragment in front of a line changes the tag it erases, unless there is none, or the line is
no success ack, or the fragment is `0:` and the line `0`. -/
theorem ackTag_append_text_iff (p : Bytes) (l : AckLine) :
    ackTag (p ++ l.text) = l.acked ↔
      p = [] ∨ l.acked = none ∨ (p = lit "0:" ∧ l.text = lit "0") := by
  by_cases hp : colon ∈ p
  · obtain ⟨p₁, p₂, rfl, hp₁⟩ := List.eq_append_cons_of_mem hp
    rw [ackTag_fragment_colon_append hp₁]
    have hz : lit "0:" = lit "0" ++ [colon] := by decide
    by_cases hc : p₁ ≠ [] ∧ p₂ = [] ∧ l.text = lit "0"
    · obtain ⟨h₁, rfl, ht⟩ := hc
      rw [if_pos ⟨h₁, rfl, ht⟩, acked_of_text_eq ht, hz, List.append_left_inj]
      simp [ht]
    · rw [if_neg hc]
      constructor
      · exact fun h => .inr (.inl h.symm)
      · rintro (h | h | ⟨h, ht⟩)
        · simp at h
        · exact h.symm
        · -- the fragment `0:` in front of `0` is the excluded case
          have hs := congrArg (List.span (· ≠ colon)) (h.trans hz)
          rw [span_ne_append hp₁, span_ne_append (by decide)] at hs
          obtain ⟨rfl, h₂⟩ := Prod.mk.inj hs
          exact absurd ⟨by decide, (List.cons.inj h₂).2, ht⟩ hc
  · rw [ackTag_fragment_append hp]
    cases l.acked with
    | none => simp
    | some t =>
      have : p ≠ lit "0:" := by
        rintro rfl
        exact hp (by decide)
      simp [this]

end AckLine

/-- A connection: the lines the server sends, and the reads up to the moment it is cut. -/
structure Connection where
  sent : List AckLine
  results : List ReadResult
  notStopped : .stopped ∉ results
  isPrefixOf : received results <+: sent.flatMap fun l => l.text ++ [newline]

namespace Connection

/-- The lines that were received completely. -/
def complete (c : Connection) : List AckLine := c.sent.take (lines (received c.results)).length

theorem zero_notMem_received (c : Connection) : (0 : Byte) ∉ received c.results := fun h => by
  obtain ⟨l, -, hl⟩ := List.mem_flatMap.mp (c.isPrefixOf.subset h)
  rcases List.mem_append.mp hl with h0 | h0
  · exact l.notMem_text.2 h0
  · exact absurd h0 (by decide)

/-- The complete lines of a beginning of what the server sends. -/
theorem lines_of_isPrefix (sent : List AckLine) {x : Bytes}
    (h : x <+: sent.flatMap fun l => l.text ++ [newline]) :
    lines x = (sent.take (lines x).length).map AckLine.text := by
  induction sent generalizing x with
  | nil =>
    rw [List.flatMap_nil, List.prefix_nil] at h
    simp [h, lines_of_notMem]
  | cons l sent ih =>
    by_cases hn : newline ∈ x
    · obtain ⟨l', s, rfl, hl'⟩ := List.eq_append_cons_of_mem hn
      obtain ⟨z, hz⟩ := h
      have hs := congrArg (List.span (· ≠ newline)) hz
      rw [List.flatMap_cons, List.append_assoc, List.append_assoc, List.singleton_append,
        List.cons_append, span_ne_append hl', span_ne_append l.notMem_text.1] at hs
      obtain ⟨rfl, ht⟩ := Prod.mk.inj hs
      have := ih ⟨z, (List.cons.inj ht).2⟩
      rw [lines_append_newline hl', List.length_cons, List.take_succ_cons, List.map_cons, ← this]
    · simp [lines_of_notMem hn]

theorem lines_received (c : Connection) :
    lines (received c.results) = c.complete.map AckLine.text :=
  lines_of_isPrefix c.sent c.isPrefixOf

/-- The tags the complete lines of a connection ack with success. -/
def ackedTags (c : Connection) : List Bytes := c.complete.filterMap AckLine.acked

end Connection

/-- The bytes received over a list of connections. -/
def stream (conns : List Connection) : Bytes := conns.flatMap fun c => received c.results

/-- The tags the reader erases from a stream, with given partial data in front. -/
def erasedTags (p s : Bytes) : List Bytes := (lines (p ++ s)).filterMap ackTag

/-- The tags erased on a connection: those of its complete lines, but for the partial data in
front of the first one. -/
theorem erasedTags_received {p : Bytes} (hp : newline ∉ p) (c : Connection) :
    erasedTags p (received c.results) = match c.complete with
      | [] => []
      | l :: ls => (ackTag (p ++ l.text)).toList ++ ls.filterMap AckLine.acked := by
  have ha : ∀ l : AckLine, ackTag l.text = l.acked := fun l => by
    simpa using (l.ackTag_append_text_iff []).mpr (.inl rfl)
  rw [erasedTags, lines_append_of_notMem hp, c.lines_received]
  cases c.complete with
  | nil => rfl
  | cons l ls =>
    simp only [List.map_cons, List.filterMap_cons, List.filterMap_map, Function.comp_def, ha]
    cases ackTag (p ++ l.text) <;> rfl

theorem length_erasedTags_le {p : Bytes} (hp : newline ∉ p) (c : Connection) :
    (erasedTags p (received c.results)).length ≤ c.ackedTags.length := by
  rw [erasedTags_received hp, Connection.ackedTags]
  cases c.complete with
  | nil => rfl
  | cons l ls =>
    have := @AckLine.isSome_acked p l
    simp only [List.filterMap_cons, List.length_append]
    cases hx : ackTag (p ++ l.text) with
    | none =>
      cases l.acked with
      | none => simp
      | some t => simp
    | some t =>
      rw [hx] at this
      obtain ⟨t', ht⟩ := Option.isSome_iff_exists.mp (this rfl)
      simp [ht]
      omega

/-- No fragment of earlier connections stands in front of a success ack: whenever the first
complete line of a connection meets one, it is no success ack, or the two are `0:` and `0`. -/
def NoStaleFragment : Bytes → List Connection → Prop
  | _, [] => True
  | p, c :: cs =>
    (∀ l, c.complete.head? = some l →
      p = [] ∨ l.acked = none ∨ (p = lit "0:" ∧ l.text = lit "0")) ∧
    NoStaleFragment (unfinished (p ++ received c.results)) cs

theorem erasedTags_eq_ackedTags_iff {p : Bytes} (hp : newline ∉ p) (c : Connection) :
    erasedTags p (received c.results) = c.ackedTags ↔ ∀ l, c.complete.head? = some l →
      p = [] ∨ l.acked = none ∨ (p = lit "0:" ∧ l.text = lit "0") := by
  rw [erasedTags_received hp, Connection.ackedTags]
  cases c.complete with
  | nil => simp
  | cons l ls =>
    have hl : (l :: ls).filterMap AckLine.acked = l.acked.toList ++ ls.filterMap AckLine.acked := by
      rw [List.filterMap_cons]
      cases l.acked <;> rfl
    have hj : ∀ o o' : Option Bytes, o.toList = o'.toList → o = o' := fun o o' h => by
      simpa using congrArg List.head? h
    simp only [hl, List.append_left_inj, List.head?_cons, Option.some.injEq, forall_eq',
      ← AckLine.ackTag_append_text_iff]
    exact ⟨hj _ _, congrArg Option.toList⟩

theorem erasedTags_cons {p : Bytes} (c : Connection) (cs : List Connection) :
    erasedTags p (stream (c :: cs)) = erasedTags p (received c.results) ++
      erasedTags (unfinished (p ++ received c.results)) (stream cs) := by
  rw [erasedTags, stream, List.flatMap_cons, ← List.append_assoc, lines_append,
    List.filterMap_append]
  rfl

theorem length_erasedTags_stream_le {p : Bytes} (hp : newline ∉ p) (conns : List Connection) :
    (erasedTags p (stream conns)).length ≤ (conns.flatMap Connection.ackedTags).length := by
  induction conns generalizing p with
  | nil => simp [erasedTags, stream, lines_of_notMem hp]
  | cons c cs ih =>
    have h₁ := length_erasedTags_le hp c
    have h₂ := ih (newline_notMem_unfinished (p ++ received c.results))
    rw [erasedTags_cons, List.flatMap_cons, List.length_append, List.length_append]
    omega

/-- The erased tags are those acked on the single connections if and only if no fragment meets a
success ack. -/
theorem erasedTags_stream_iff {p : Bytes} (hp : newline ∉ p) (conns : List Connection) :
    erasedTags p (stream conns) = conns.flatMap Connection.ackedTags ↔ NoStaleFragment p conns := by
  induction conns generalizing p with
  | nil => simp [erasedTags, stream, lines_of_notMem hp, NoStaleFragment]
  | cons c cs ih =>
    have hu := newline_notMem_unfinished (p ++ received c.results)
    have h₁ := length_erasedTags_le hp c
    have h₂ := length_erasedTags_stream_le hu cs
    rw [erasedTags_cons, List.flatMap_cons, NoStaleFragment, ← ih hu,
      ← erasedTags_eq_ackedTags_iff hp]
    constructor
    · intro h
      -- neither part is longer than its counterpart, so the two lists split at the same place
      have hlen := congrArg List.length h
      rw [List.length_append, List.length_append] at hlen
      exact List.append_inj h (by omega)
    · rintro ⟨h, h'⟩
      rw [h, h']

/-! ## The reader over connections -/

/-- The reader over a list of connections, from a given cache. -/
def readAll (m : StringMap V) (conns : List Connection) : State V :=
  (run [] (conns.flatMap fun c => c.results.map .ofResult)).1.foldl processItem ⟨some m, 0, []⟩

/-- The reads over a list of connections process the lines of the whole stream. -/
theorem run_connections (conns : List Connection) :
    run [] (conns.flatMap fun c => c.results.map .ofResult) =
      (lines (stream conns), unfinished (stream conns)) := by
  have hs : .stopped ∉ conns.flatMap Connection.results := fun h => by
    obtain ⟨c, -, hc⟩ := List.mem_flatMap.mp h
    exact c.notStopped hc
  have hr : received (conns.flatMap Connection.results) = stream conns := by
    rw [received, List.flatMap_assoc]
    rfl
  have h0 : (0 : Byte) ∉ received (conns.flatMap Connection.results) := fun h => by
    rw [hr] at h
    obtain ⟨c, -, hc⟩ := List.mem_flatMap.mp h
    exact c.zero_notMem_received hc
  rw [← List.map_flatMap, run_ofResult (by simp) hs h0, hr]
  rfl

theorem readAll_eq (m : StringMap V) (conns : List Connection) :
    ∃ m' n', readAll m conns = ⟨some m', n', erasedTags [] (stream conns)⟩ ∧
      ∀ k, k ∈ m' ↔ k ∈ m ∧ k ∉ erasedTags [] (stream conns) := by
  rw [readAll, run_connections, foldl_processItem]
  exact ⟨_, _, rfl, fun k => ConcurrentMap.mem_eraseList _⟩

/-- The reader erases exactly the tags that the complete lines received on the single connections
ack with success, one for one and in order. -/
def ErasesAsAcked (m : StringMap V) (conns : List Connection) : Prop :=
  (readAll m conns).erased = conns.flatMap Connection.ackedTags

/-- A tag leaves the cache only if a line sent on a single connection acks it, and the tags of all
success acks received completely on one connection are gone from it. -/
structure OnlyAckedErased (m : StringMap V) (conns : List Connection) : Prop where
  acked : ∀ m', (readAll m conns).dataCache = some m' → ∀ t ∈ m, t ∉ m' →
    ∃ c ∈ conns, ∃ l ∈ c.sent, l.acked = some t
  erased : ∀ m', (readAll m conns).dataCache = some m' →
    ∀ c ∈ conns, ∀ l ∈ c.complete, ∀ t, l.acked = some t → t ∉ m'

theorem ErasesAsAcked.onlyAckedErased {m : StringMap V} {conns : List Connection}
    (h : ErasesAsAcked m conns) : OnlyAckedErased m conns := by
  obtain ⟨m₁, n₁, hr, hm⟩ := readAll_eq m conns
  rw [ErasesAsAcked, hr] at h
  have hc : ∀ m', (readAll m conns).dataCache = some m' → m₁ = m' := fun m' h' => by
    rw [hr] at h'
    exact Option.some.inj h'
  constructor
  · rintro m' h' t ht htm
    obtain rfl := hc m' h'
    have he : t ∈ erasedTags [] (stream conns) := by
      by_contra hn
      exact htm ((hm t).mpr ⟨ht, hn⟩)
    change erasedTags [] (stream conns) = _ at h
    rw [h] at he
    obtain ⟨c, hc, hct⟩ := List.mem_flatMap.mp he
    obtain ⟨l, hl, hlt⟩ := List.mem_filterMap.mp hct
    exact ⟨c, hc, l, List.mem_of_mem_take hl, hlt⟩
  · rintro m' h' c hc₁ l hl t hlt htm
    obtain rfl := hc m' h'
    refine ((hm t).mp htm).2 ?_
    change erasedTags [] (stream conns) = _ at h
    rw [h]
    exact List.mem_flatMap.mpr ⟨c, hc₁, List.mem_filterMap.mpr ⟨l, hl, hlt⟩⟩

/-- **Acks and erases.** Over every list of connections the reader erases the tags acked by the
complete lines of the single connections, and no others, if and only if no fragment of a cut line
meets a success ack; then a tag leaves the cache only if it was acked, and every acked tag does. -/
theorem erasesAsAcked_iff (m : StringMap V) (conns : List Connection) :
    (ErasesAsAcked m conns ↔ NoStaleFragment [] conns) ∧
      (NoStaleFragment [] conns → OnlyAckedErased m conns) := by
  have h : ErasesAsAcked m conns ↔ NoStaleFragment [] conns := by
    obtain ⟨m', n', hr, -⟩ := readAll_eq m conns
    rw [ErasesAsAcked, hr, ← erasedTags_stream_iff (by simp)]
  exact ⟨h, fun hn => (h.mpr hn).onlyAckedErased⟩

/-- The server acks `12`, and the connection is cut after the first digit. -/
def connectionCut : Connection where
  sent := [.ofTag 12]
  results := [.data ⟨lit "1", by decide, by decide⟩, .nothing]
  notStopped := by simp
  isPrefixOf := ⟨lit "2\n", by decide⟩

/-- The server acks `3`. -/
def connectionAfter : Connection where
  sent := [.ofTag 3]
  results := [.data ⟨lit "3\n", by decide, by decide⟩]
  notStopped := by simp
  isPrefixOf := ⟨[], by decide⟩

/-- After the cut, the ack of `3` erases `13`, which no line acks, and leaves `3` in the cache. -/
theorem cut_ack_erases_other_tag :
    (readAll ((∅ : StringMap Unit).insert (lit "13") () |>.insert (lit "3") ())
        [connectionCut, connectionAfter]).erased = [lit "13"] ∧
      ¬ OnlyAckedErased ((∅ : StringMap Unit).insert (lit "13") () |>.insert (lit "3") ())
        [connectionCut, connectionAfter] := by
  obtain ⟨m', n', hr, hm⟩ := readAll_eq
    ((∅ : StringMap Unit).insert (lit "13") () |>.insert (lit "3") ())
    [connectionCut, connectionAfter]
  have he : erasedTags [] (stream [connectionCut, connectionAfter]) = [lit "13"] := by
    rw [erasedTags, show [] ++ stream [connectionCut, connectionAfter] = lit "13" ++ newline :: []
      by decide, lines_append_newline (by decide), lines_of_notMem (by simp)]
    decide
  rw [he] at hr hm
  refine ⟨by rw [hr], fun h => ?_⟩
  obtain ⟨c, hc, l, hl, ht⟩ := h.acked m' (by rw [hr]) (lit "13") (by decide)
    (fun h13 => ((hm _).mp h13).2 (by simp))
  simp only [List.mem_cons, List.not_mem_nil, or_false] at hc
  rcases hc with rfl | rfl
  · obtain rfl := List.mem_singleton.mp hl
    exact absurd ht (by decide)
  · obtain rfl := List.mem_singleton.mp hl
    exact absurd ht (by decide)

end DataReader

end Outmdsd
