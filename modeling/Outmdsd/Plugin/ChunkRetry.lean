import Outmdsd.Foundations.Replay
import Outmdsd.Logger.Wire
import Outmdsd.Plugin.RecordSize

/-!
# Chunks that are written again

An exception ends `write` in the middle of a chunk, which may then be written again. The schema
manager remembers its answers (`remembers_infoOf`), so a failed attempt leaves no trace in a later
one on the same chunk: each does what it would have done as the first one (`write_again`).

So an attempt that fails hands over a proper prefix of what the chunk is to send, and the one that
returns hands over all of it (`flush_accepted`). Over a list of chunks of which none is given up,
the attempts that return send what a run sends in which `SendDjson` never fails
(`flushAll_accepted`). But a record that raises an exception every time holds up everything behind
it in its chunk (`refused_blocks`).
-/

namespace Outmdsd.Plugin

variable (lib : Libraries)

namespace SchemaManager

/-- `get_schema_info`, by the shape of the record. -/
def infoOf (m : SchemaManager) (shape : List (RString × RString)) :
    (ℕ × RString) × SchemaManager :=
  match m.schemaHash.lookup (shapeKey shape) with
  | some value => (value, m)
  | none =>
    ((m.schema_id + 1, newSchemaOf shape),
      ⟨m.schemaHash.insert (shapeKey shape) (m.schema_id + 1, newSchemaOf shape), m.schema_id + 1⟩)

theorem getSchemaInfo_eq_infoOf (m : SchemaManager) (record : Record) :
    m.getSchemaInfo record = m.infoOf record.shape := by
  unfold getSchemaInfo infoOf
  rw [getSchemaKey_eq, getNewSchema_eq]
  rfl

variable {m : SchemaManager} {shape : List (RString × RString)} {value : ℕ × RString}

theorem infoOf_of_lookup (h : m.schemaHash.lookup (shapeKey shape) = some value) :
    m.infoOf shape = (value, m) := by
  simp only [infoOf, h]

/-- An answer is in the hash. -/
theorem lookup_infoOf (m : SchemaManager) (shape : List (RString × RString)) :
    (m.infoOf shape).2.schemaHash.lookup (shapeKey shape) = some (m.infoOf shape).1 := by
  unfold infoOf
  split
  · assumption
  · exact AList.lookup_insert _

/-- An entry of the hash stays. -/
theorem lookup_keeps {key : RString} (h : m.schemaHash.lookup key = some value)
    (shape : List (RString × RString)) :
    (m.infoOf shape).2.schemaHash.lookup key = some value := by
  unfold infoOf
  split
  · exact h
  · rename_i hn
    have hne : key ≠ shapeKey shape := by
      rintro rfl
      rw [h] at hn
      cases hn
    rw [AList.lookup_insert_ne hne, h]

/-- A request that does not change the manager is answered from the hash. -/
theorem lookup_of_unchanged (h : (m.infoOf shape).2 = m) :
    m.schemaHash.lookup (shapeKey shape) = some (m.infoOf shape).1 := by
  conv_lhs => rw [← h]
  exact lookup_infoOf m shape

theorem remembers_infoOf : Remembers infoOf where
  again _ _ := infoOf_of_lookup (lookup_infoOf _ _)
  keeps _ _ _ h := infoOf_of_lookup (lookup_keeps (lookup_of_unchanged h) _)

end SchemaManager

/-- An entry of a chunk. -/
structure Entry where
  tag : RString
  time : ℤ
  record : Record

/-- What an attempt to write a chunk meets at its entries: the clock, and what `SendDjson`
returns. -/
structure Attempt where
  now : ℕ → RTime
  sendDjson : ℕ → Bool

/-- The attempt from the next entry on. -/
def Attempt.next (a : Attempt) : Attempt := ⟨fun i => a.now (i + 1), fun i => a.sendDjson (i + 1)⟩

/-- The attempt at the same times in which `SendDjson` never fails. -/
def Attempt.accepting (a : Attempt) : Attempt := ⟨a.now, fun _ => true⟩

/-- The first entry of a chunk in an attempt. -/
def Entry.event (e : Entry) (a : Attempt) : Event :=
  ⟨e.tag, e.time, e.record, a.now 0, a.sendDjson 0⟩

/-- The entries of a chunk in an attempt. -/
def events : List Entry → Attempt → List Event
  | [], _ => []
  | e :: chunk, a => e.event a :: events chunk a.next

/-- The attempt ended with an exception. -/
def raised (log : List (Event × Handled)) : Bool := log.any fun e => e.2.outcome = .raised

/-- The messages that `SendDjson` accepted, with their sources. -/
def accepted (log : List (Event × Handled)) : List (RString × Option RString) :=
  log.filterMap fun e => if e.2.outcome = .sent then some (e.2.mdsdSource, e.2.dataStr) else none

/-- The messages that are to be sent, with their sources: all that are not too large. A record that
no text is made of has its place among them. -/
def notDropped (log : List (Event × Handled)) : List (RString × Option RString) :=
  log.filterMap fun e =>
    if e.2.outcome = .dropped then none else some (e.2.mdsdSource, e.2.dataStr)

/-- What became of a chunk: the attempts that failed, the one that returned, and the plugin. -/
structure Flush where
  failed : List (Attempt × List (Event × Handled))
  written : Option (Attempt × List (Event × Handled))
  plugin : OutputMdsd

/-- No chunk was given up: an attempt to write it returned before the next one was taken. This is
what the output does when it is to retry for ever. -/
def NoneGivenUp (flushes : List Flush) : Prop := ∀ fl ∈ flushes.dropLast, fl.written.isSome

namespace OutputMdsd

/-- The attempts to write a chunk, until one returns. -/
def flush (p : OutputMdsd) (chunk : List Entry) : List Attempt → Flush
  | [] => ⟨[], none, p⟩
  | a :: attempts =>
    let r := p.write lib (events chunk a)
    if raised r.1 then
      let fl := flush r.2 chunk attempts
      ⟨(a, r.1) :: fl.failed, fl.written, fl.plugin⟩
    else ⟨[], some (a, r.1), r.2⟩

/-- The chunks of a queue, each with the attempts made to write it before the next one is taken,
written or not. -/
def flushAll (p : OutputMdsd) : List (List Entry × List Attempt) → List Flush
  | [] => []
  | (chunk, attempts) :: chunks =>
    let fl := p.flush lib chunk attempts
    fl :: flushAll fl.plugin chunks

/-- What `handle_record` does for each entry of a chunk at the times of an attempt, were no
exception to end the attempt. -/
def handledEach (p : OutputMdsd) (chunk : List Entry) (a : Attempt) : List (Event × Handled) :=
  p.writeAll lib ((events chunk a).map fun ev => [ev])

/-- The messages that the chunk is to send, at the times of an attempt. -/
def intended (p : OutputMdsd) (chunk : List Entry) (a : Attempt) :
    List (RString × Option RString) :=
  notDropped (p.handledEach lib chunk a)

/-! ## An attempt, from the answers of the schema manager -/

/-- The plugin with another state of its schema manager. -/
def withSchemas (p : OutputMdsd) (m : SchemaManager) : OutputMdsd :=
  { p with mdsdMsgMaker := { p.mdsdMsgMaker with schema_mgr := m } }

/-- What is asked of the schema manager for an entry. -/
def shapeOf (p : OutputMdsd) (e : Entry) : List (RString × RString) :=
  (e.record.set p.emit_timestamp_name (.time ⟨0, 0⟩)).shape

/-- What `handle_record` does for an event, with the answer of the schema manager. -/
def handledWith (p : OutputMdsd) (ev : Event) (info : ℕ × RString) : Handled :=
  let dataStr := schemaValueStr lib p.mdsdMsgMaker.hashtojson info (p.assigned ev)
  ⟨createMdsdSource lib ev.tag p.mdsdTagPatterns, dataStr, p.outcome ev dataStr⟩

/-- What an attempt does, with the answers of the schema manager. -/
def logOf (p : OutputMdsd) : List Entry → List (ℕ × RString) → Attempt → List (Event × Handled)
  | e :: chunk, info :: infos, a =>
    let h := p.handledWith lib (e.event a) info
    if h.outcome = .raised then [(e.event a, h)]
    else (e.event a, h) :: logOf p chunk infos a.next
  | _, _, _ => []

/-- What `handle_record` does for each entry, with the answers of the schema manager. -/
def logEach (p : OutputMdsd) : List Entry → List (ℕ × RString) → Attempt → List (Event × Handled)
  | e :: chunk, info :: infos, a =>
    (e.event a, p.handledWith lib (e.event a) info) :: logEach p chunk infos a.next
  | _, _, _ => []

theorem shape_setFields (key : RString) (t t' : RTime) (fs : List (RString × RValue)) :
    (Record.setFields key (.time t) fs).map (fun f => (f.1, f.2.className.name)) =
      (Record.setFields key (.time t') fs).map fun f => (f.1, f.2.className.name) := by
  induction fs with
  | nil => rfl
  | cons f fs ih =>
    simp only [Record.setFields]
    split
    · rfl
    · rw [List.map_cons, List.map_cons, ih]

/-- The clock does not matter to the schema manager. -/
theorem shape_assigned (p : OutputMdsd) (e : Entry) (a : Attempt) :
    (p.assigned (e.event a)).shape = p.shapeOf e :=
  shape_setFields _ _ _ _

theorem handleRecord_eq (p : OutputMdsd) (e : Entry) (a : Attempt) :
    p.handleRecord lib (e.event a) (p.assigned (e.event a)) =
      (p.handledWith lib (e.event a) (p.mdsdMsgMaker.schema_mgr.infoOf (p.shapeOf e)).1,
        p.withSchemas (p.mdsdMsgMaker.schema_mgr.infoOf (p.shapeOf e)).2) := by
  have hinfo : p.mdsdMsgMaker.schema_mgr.getSchemaInfo (p.assigned (e.event a)) =
      p.mdsdMsgMaker.schema_mgr.infoOf (p.shapeOf e) := by
    rw [SchemaManager.getSchemaInfo_eq_infoOf, shape_assigned]
  unfold handleRecord MdsdMsgMaker.getSchemaValueStr
  rw [hinfo]
  rfl

/-- The answers of the schema manager for a chunk, from this state of it. -/
def infos (p : OutputMdsd) (m : SchemaManager) (chunk : List Entry) :
    List (ℕ × RString) × SchemaManager :=
  answers SchemaManager.infoOf m (chunk.map p.shapeOf)

theorem write_eq (p : OutputMdsd) (m : SchemaManager) (chunk : List Entry) (a : Attempt) :
    (p.withSchemas m).write lib (events chunk a) =
      (p.logOf lib chunk (p.infos m chunk).1 a,
        p.withSchemas
          (p.infos m (chunk.take (p.logOf lib chunk (p.infos m chunk).1 a).length)).2) := by
  induction chunk generalizing m a with
  | nil => rfl
  | cons e chunk ih =>
    have hh : (p.withSchemas m).handleRecord lib (e.event a)
        ((p.withSchemas m).assigned (e.event a)) =
        (p.handledWith lib (e.event a) (m.infoOf (p.shapeOf e)).1,
          p.withSchemas (m.infoOf (p.shapeOf e)).2) :=
      handleRecord_eq lib (p.withSchemas m) e a
    simp only [events, write, hh, ih]
    simp only [infos, List.map_cons, answers, logOf]
    split
    · simp [answers]
    · simp [answers]

theorem handledEach_eq (p : OutputMdsd) (m : SchemaManager) (chunk : List Entry) (a : Attempt) :
    (p.withSchemas m).handledEach lib chunk a = p.logEach lib chunk (p.infos m chunk).1 a := by
  induction chunk generalizing m a with
  | nil => rfl
  | cons e chunk ih =>
    have hh : (p.withSchemas m).handleRecord lib (e.event a)
        ((p.withSchemas m).assigned (e.event a)) =
        (p.handledWith lib (e.event a) (m.infoOf (p.shapeOf e)).1,
          p.withSchemas (m.infoOf (p.shapeOf e)).2) :=
      handleRecord_eq lib (p.withSchemas m) e a
    have ih := ih (m.infoOf (p.shapeOf e)).2 a.next
    simp only [handledEach, events, List.map_cons, writeAll, write, hh, infos, answers, logEach]
      at ih ⊢
    rw [← ih]
    split <;> rfl

/-- An attempt that returns has handled every entry. -/
theorem length_logOf (p : OutputMdsd) (chunk : List Entry) (infos : List (ℕ × RString))
    (a : Attempt) (hl : infos.length = chunk.length)
    (h : raised (p.logOf lib chunk infos a) = false) :
    (p.logOf lib chunk infos a).length = chunk.length := by
  induction chunk generalizing infos a with
  | nil => rfl
  | cons e chunk ih =>
    cases infos with
    | nil => cases hl
    | cons info infos =>
      rw [logOf] at h ⊢
      split at h
      · rename_i hr
        simp [raised, hr] at h
      · rename_i hr
        rw [if_neg hr]
        simp only [raised, List.any_cons, Bool.or_eq_false_iff] at h
        exact congrArg Nat.succ (ih infos a.next (Nat.succ.inj hl) h.2)

/-! ## A failed attempt leaves no trace -/

/-- The plugin after some attempts on the chunk: the manager has answered for the first entries. -/
def Tried (p : OutputMdsd) (chunk : List Entry) (q : OutputMdsd) : Prop :=
  ∃ k, q = p.withSchemas (p.infos p.mdsdMsgMaker.schema_mgr (chunk.take k)).2

theorem tried_self (p : OutputMdsd) (chunk : List Entry) : p.Tried chunk p := ⟨0, rfl⟩

variable {p q : OutputMdsd} {chunk : List Entry} {a : Attempt}

/-- **An attempt after others does what it would have done as the first one.** -/
theorem write_again (h : p.Tried chunk q) :
    (q.write lib (events chunk a)).1 = (p.write lib (events chunk a)).1 ∧
      p.Tried chunk (q.write lib (events chunk a)).2 ∧
      (raised (q.write lib (events chunk a)).1 = false →
        (q.write lib (events chunk a)).2 = (p.write lib (events chunk a)).2) := by
  obtain ⟨k, rfl⟩ := h
  have hp : p.write lib (events chunk a) = _ := write_eq lib p p.mdsdMsgMaker.schema_mgr chunk a
  -- what the manager answers after the first `k` entries, for the first `n` ones
  have htake : ∀ n, p.infos (p.infos p.mdsdMsgMaker.schema_mgr (chunk.take k)).2 (chunk.take n) =
      ((p.infos p.mdsdMsgMaker.schema_mgr (chunk.take n)).1,
        (p.infos p.mdsdMsgMaker.schema_mgr (chunk.take (max k n))).2) := fun n => by
    simp only [infos, List.map_take]
    exact SchemaManager.remembers_infoOf.answers_take _ k n
  have hall : p.infos (p.infos p.mdsdMsgMaker.schema_mgr (chunk.take k)).2 chunk =
      p.infos p.mdsdMsgMaker.schema_mgr chunk := by
    have h := htake chunk.length
    rwa [List.take_of_length_le (le_max_right k chunk.length), List.take_length] at h
  rw [write_eq, hall, hp]
  refine ⟨rfl, ⟨max k _, by rw [htake]⟩, fun hr => ?_⟩
  have hlen := length_logOf lib p chunk _ a (by simp [infos, length_answers]) hr
  simp only [hlen, List.take_length, hall]

/-- The attempts on a chunk, each as if it had been the first one. -/
theorem flush_again (h : p.Tried chunk q) (attempts : List Attempt) :
    (∀ x ∈ (q.flush lib chunk attempts).failed,
        x.1 ∈ attempts ∧ x.2 = (p.write lib (events chunk x.1)).1 ∧ raised x.2 = true) ∧
      ∀ x, (q.flush lib chunk attempts).written = some x →
        x.1 ∈ attempts ∧ x.2 = (p.write lib (events chunk x.1)).1 ∧ raised x.2 = false ∧
          (q.flush lib chunk attempts).plugin = (p.write lib (events chunk x.1)).2 := by
  induction attempts generalizing q with
  | nil => exact ⟨fun x hx => by simp [flush] at hx, nofun⟩
  | cons a attempts ih =>
    obtain ⟨hlog, htried, hplugin⟩ := write_again lib (a := a) h
    simp only [flush]
    split
    · rename_i hr
      obtain ⟨hfailed, hwritten⟩ := ih htried
      refine ⟨List.forall_mem_cons.mpr ⟨⟨.head _, hlog, hr⟩, fun x hx => ?_⟩, fun x hx => ?_⟩
      · exact ⟨.tail _ (hfailed x hx).1, (hfailed x hx).2⟩
      · exact ⟨.tail _ (hwritten x hx).1, (hwritten x hx).2⟩
    · rename_i hr
      have hr := Bool.eq_false_iff.mpr hr
      refine ⟨by simp, fun x hx => ?_⟩
      obtain rfl := Option.some.inj hx
      exact ⟨.head _, hlog, hr, hplugin hr⟩

/-! ## What the attempts send -/

theorem raised_cons (x : Event × Handled) (log : List (Event × Handled)) :
    raised (x :: log) = (decide (x.2.outcome = .raised) || raised log) := rfl

theorem accepted_cons (x : Event × Handled) (log : List (Event × Handled)) :
    accepted (x :: log) =
      (if x.2.outcome = .sent then [(x.2.mdsdSource, x.2.dataStr)] else []) ++ accepted log := by
  unfold accepted
  rw [List.filterMap_cons]
  split <;> rename_i h <;> split at h <;> simp_all

theorem notDropped_cons (x : Event × Handled) (log : List (Event × Handled)) :
    notDropped (x :: log) =
      (if x.2.outcome = .dropped then [] else [(x.2.mdsdSource, x.2.dataStr)]) ++
        notDropped log := by
  unfold notDropped
  rw [List.filterMap_cons]
  split <;> rename_i h <;> split at h <;> simp_all

/-- A proper prefix. -/
def PartOf {α : Type*} (l l' : List α) : Prop := l <+: l' ∧ l.length < l'.length

theorem PartOf.append {α : Type*} {l l' : List α} (h : PartOf l l') (k : List α) :
    PartOf (k ++ l) (k ++ l') := by
  refine ⟨(List.prefix_append_right_inj k).mpr h.1, ?_⟩
  have := h.2
  simp only [List.length_append]
  omega

/-- An attempt that fails hands over a part of what is to be sent, one that does not all of it. -/
theorem accepted_logOf (p : OutputMdsd) (chunk : List Entry) (infos : List (ℕ × RString))
    (a : Attempt) :
    (raised (p.logOf lib chunk infos a) = true →
        PartOf (accepted (p.logOf lib chunk infos a)) (notDropped (p.logEach lib chunk infos a))) ∧
      (raised (p.logOf lib chunk infos a) = false →
        accepted (p.logOf lib chunk infos a) = notDropped (p.logEach lib chunk infos a)) := by
  induction chunk generalizing infos a with
  | nil => exact ⟨fun h => (Bool.false_ne_true h).elim, fun _ => rfl⟩
  | cons e chunk ih =>
    cases infos with
    | nil => exact ⟨fun h => (Bool.false_ne_true h).elim, fun _ => rfl⟩
    | cons info infos =>
      obtain ⟨hpart, hall⟩ := ih infos a.next
      simp only [logOf, logEach]
      by_cases hr : (p.handledWith lib (e.event a) info).outcome = .raised
      · simp [raised_cons, hr, accepted, notDropped_cons, PartOf]
      · have hsame : (if (p.handledWith lib (e.event a) info).outcome = .sent then
            [((p.handledWith lib (e.event a) info).mdsdSource,
              (p.handledWith lib (e.event a) info).dataStr)] else []) =
            if (p.handledWith lib (e.event a) info).outcome = .dropped then []
            else [((p.handledWith lib (e.event a) info).mdsdSource,
              (p.handledWith lib (e.event a) info).dataStr)] := by
          cases ho : (p.handledWith lib (e.event a) info).outcome with
          | raised => exact absurd ho hr
          | dropped => rfl
          | sent => rfl
        rw [if_neg hr, raised_cons, accepted_cons, notDropped_cons, hsame, decide_eq_false hr,
          Bool.false_or]
        exact ⟨fun h => (hpart h).append _, fun h => by rw [hall h]⟩

variable {p : OutputMdsd} {chunk : List Entry} {a : Attempt}

theorem log_eq (p : OutputMdsd) (chunk : List Entry) (a : Attempt) :
    (p.write lib (events chunk a)).1 =
        p.logOf lib chunk (p.infos p.mdsdMsgMaker.schema_mgr chunk).1 a ∧
      p.handledEach lib chunk a =
        p.logEach lib chunk (p.infos p.mdsdMsgMaker.schema_mgr chunk).1 a :=
  ⟨congrArg Prod.fst (write_eq lib p p.mdsdMsgMaker.schema_mgr chunk a),
    handledEach_eq lib p p.mdsdMsgMaker.schema_mgr chunk a⟩

theorem accepted_of_raised (h : raised (p.write lib (events chunk a)).1 = true) :
    PartOf (accepted (p.write lib (events chunk a)).1) (p.intended lib chunk a) := by
  have hlog := accepted_logOf lib p chunk (p.infos p.mdsdMsgMaker.schema_mgr chunk).1 a
  rw [← (log_eq lib p chunk a).1, ← (log_eq lib p chunk a).2] at hlog
  exact hlog.1 h

theorem accepted_of_returned (h : raised (p.write lib (events chunk a)).1 = false) :
    accepted (p.write lib (events chunk a)).1 = p.intended lib chunk a := by
  have hlog := accepted_logOf lib p chunk (p.infos p.mdsdMsgMaker.schema_mgr chunk).1 a
  rw [← (log_eq lib p chunk a).1, ← (log_eq lib p chunk a).2] at hlog
  exact hlog.2 h

/-- The plugin after an attempt that returns is the same for all of them. -/
theorem plugin_of_returned (h : raised (p.write lib (events chunk a)).1 = false) {b : Attempt}
    (hb : raised (p.write lib (events chunk b)).1 = false) :
    (p.write lib (events chunk a)).2 = (p.write lib (events chunk b)).2 := by
  have hw := fun a => write_eq lib p p.mdsdMsgMaker.schema_mgr chunk a
  simp only [withSchemas] at hw
  have hlen : (p.infos p.mdsdMsgMaker.schema_mgr chunk).1.length = chunk.length := by
    simp [infos, length_answers]
  rw [hw] at h hb
  rw [hw, hw, length_logOf lib p chunk _ a hlen h, length_logOf lib p chunk _ b hlen hb]

/-! ### Texts -/

theorem raises_setFields {hashtojson : Bool} (key : RString) (t t' : RTime)
    (fs : List (RString × RValue)) :
    (∀ f ∈ Record.setFields key (.time t) fs, f.2.raises hashtojson = Bool.false) ↔
      ∀ f ∈ Record.setFields key (.time t') fs, f.2.raises hashtojson = Bool.false := by
  induction fs with
  | nil => simp [Record.setFields, RValue.raises]
  | cons f fs ih =>
    simp only [Record.setFields]
    split
    · simp [RValue.raises]
    · rw [List.forall_mem_cons, List.forall_mem_cons, ih]

/-- Whether a text is made of a record depends on neither the schema nor the clock. -/
theorem isSome_schemaValueStr_iff (p : OutputMdsd) (e : Entry) (a : Attempt) (info : ℕ × RString) :
    (p.handledWith lib (e.event a) info).dataStr.isSome ↔
      ∀ f ∈ (e.record.set p.emit_timestamp_name (.time ⟨0, 0⟩)).fields,
        f.2.raises p.mdsdMsgMaker.hashtojson = Bool.false := by
  have htexts := isSome_valueTexts_iff lib p.mdsdMsgMaker.hashtojson (p.assigned (e.event a))
  rw [handledWith, schemaValueStr, Message.getRecordValues_eq lib _ (p.assigned_fields_ne_nil _),
    Option.isSome_map, Option.isSome_map, htexts]
  exact raises_setFields p.emit_timestamp_name _ _ e.record.fields

theorem outcome_eq_raised_iff (p : OutputMdsd) (ev : Event) (info : ℕ × RString) :
    (p.handledWith lib ev info).outcome = .raised ↔
      (p.handledWith lib ev info).dataStr = none ∨
        ((p.handledWith lib ev info).outcome ≠ .dropped ∧ ev.sendDjson = false) := by
  simp only [handledWith]
  cases schemaValueStr lib p.mdsdMsgMaker.hashtojson info (p.assigned ev) with
  | none => simp [outcome]
  | some dataStr =>
    simp only [outcome]
    split
    · simp
    · cases ev.sendDjson <;> simp

/-- Where an attempt returned, one whose calls of `SendDjson` all succeed returns. -/
theorem raised_logOf_accepting (p : OutputMdsd) (chunk : List Entry)
    (infos : List (ℕ × RString)) {a : Attempt} (h : raised (p.logOf lib chunk infos a) = false)
    (b : Attempt) : raised (p.logOf lib chunk infos b.accepting) = false := by
  induction chunk generalizing infos a b with
  | nil => rfl
  | cons e chunk ih =>
    cases infos with
    | nil => rfl
    | cons info infos =>
      have hnext : b.accepting.next = b.next.accepting := rfl
      rw [logOf] at h
      split at h
      · rename_i hr
        simp [raised, hr] at h
      · rename_i hr
        rw [raised_cons, Bool.or_eq_false_iff] at h
        have htext : (p.handledWith lib (e.event a) info).dataStr.isSome := by
          rw [← Option.ne_none_iff_isSome]
          exact fun hn => hr ((outcome_eq_raised_iff lib p _ info).mpr (.inl hn))
        rw [isSome_schemaValueStr_iff, ← isSome_schemaValueStr_iff lib p e b.accepting info,
          ← Option.ne_none_iff_isSome] at htext
        have hout : (p.handledWith lib (e.event b.accepting) info).outcome ≠ .raised := fun ho => by
          rcases (outcome_eq_raised_iff lib p _ info).mp ho with hn | ⟨-, hs⟩
          · exact htext hn
          · cases hs
        rw [logOf, if_neg hout, raised_cons, hnext, ih infos h.2 b.next, decide_eq_false hout]
        rfl

theorem raised_accepting (h : raised (p.write lib (events chunk a)).1 = false) (b : Attempt) :
    raised (p.write lib (events chunk b.accepting)).1 = false := by
  rw [(log_eq lib p chunk a).1] at h
  rw [(log_eq lib p chunk b.accepting).1]
  exact raised_logOf_accepting lib p chunk _ h b

/-- **Writing a chunk again.** Each attempt that fails hands over a proper prefix of the messages
that the chunk is to send, and the one that returns hands over all of them; the plugin is then as
if no attempt had failed. -/
theorem flush_accepted (p : OutputMdsd) (chunk : List Entry) (attempts : List Attempt) :
    (∀ x ∈ (p.flush lib chunk attempts).failed,
        PartOf (accepted x.2) (p.intended lib chunk x.1)) ∧
      ∀ x, (p.flush lib chunk attempts).written = some x →
        accepted x.2 = p.intended lib chunk x.1 ∧
          ∀ b : Attempt,
            (p.flush lib chunk attempts).plugin = (p.write lib (events chunk b.accepting)).2 := by
  obtain ⟨hfailed, hwritten⟩ := flush_again lib (tried_self p chunk) attempts
  refine ⟨fun x hx => ?_, fun x hx => ?_⟩
  · obtain ⟨-, hlog, hr⟩ := hfailed x hx
    rw [hlog] at hr ⊢
    exact accepted_of_raised lib hr
  · obtain ⟨-, hlog, hr, hplugin⟩ := hwritten x hx
    rw [hlog] at hr ⊢
    exact ⟨accepted_of_returned lib hr, fun b =>
      hplugin.trans (plugin_of_returned lib hr (raised_accepting lib hr b))⟩

/-! ## A queue of chunks -/

/-- With the times of the source, the messages of a chunk do not depend on the attempt. -/
theorem intended_eq (hp : p.use_source_timestamp = true) (a b : Attempt) :
    p.intended lib chunk a = p.intended lib chunk b := by
  have hlog : ∀ (chunk : List Entry) (infos : List (ℕ × RString)) (a b : Attempt),
      notDropped (p.logEach lib chunk infos a) = notDropped (p.logEach lib chunk infos b) := by
    intro chunk
    induction chunk with
    | nil => exact fun _ _ _ => rfl
    | cons e chunk ih =>
      intro infos a b
      cases infos with
      | nil => rfl
      | cons info infos =>
        have hdata : (p.handledWith lib (e.event a) info).dataStr =
            (p.handledWith lib (e.event b) info).dataStr := by
          simp only [handledWith, assigned, timestamp, hp, if_true]
          rfl
        have hdropped : (p.handledWith lib (e.event a) info).outcome = .dropped ↔
            (p.handledWith lib (e.event b) info).outcome = .dropped := by
          have hout : ∀ ev, (p.handledWith lib ev info).outcome =
              p.outcome ev (p.handledWith lib ev info).dataStr := fun _ => rfl
          rw [hout, hout, hdata]
          cases (p.handledWith lib (e.event b) info).dataStr with
          | none => rfl
          | some dataStr => rw [outcome_eq_dropped_iff, outcome_eq_dropped_iff]
        simp only [logEach, notDropped_cons, hdropped, hdata, ih infos a.next b.next]
        rfl
  rw [intended, intended, (log_eq lib p chunk a).2, (log_eq lib p chunk b).2]
  exact hlog _ _ _ _

theorem use_source_timestamp_write (p : OutputMdsd) (chunk : List Entry) (a : Attempt) :
    (p.write lib (events chunk a)).2.use_source_timestamp = p.use_source_timestamp := by
  have hw := write_eq lib p p.mdsdMsgMaker.schema_mgr chunk a
  simp only [withSchemas] at hw
  rw [hw]

theorem accepted_append (log log' : List (Event × Handled)) :
    accepted (log ++ log') = accepted log ++ accepted log' :=
  List.filterMap_append

theorem NoneGivenUp.tail {fl : Flush} {fls : List Flush} (h : NoneGivenUp (fl :: fls)) :
    NoneGivenUp fls := by
  cases fls with
  | nil => exact fun x hx => by simp at hx
  | cons fl' fls => exact fun x hx => h x (by simp [hx])

/-- **Failures do not show.** With the times of the source, if no chunk is given up, the attempts
that return hand over, in order, the messages of a run over the same chunks in which `SendDjson`
never fails, and each attempt that fails hands over a proper prefix of the messages of its chunk. -/
theorem flushAll_accepted (hp : p.use_source_timestamp = true)
    (chunks : List (List Entry × List Attempt)) (hq : NoneGivenUp (p.flushAll lib chunks))
    (b : Attempt) :
    accepted (((p.flushAll lib chunks).filterMap Flush.written).flatMap Prod.snd) =
        accepted (p.writeAll lib
          ((chunks.take ((p.flushAll lib chunks).filterMap Flush.written).length).map
            fun c => events c.1 b.accepting)) ∧
      ∀ fl ∈ p.flushAll lib chunks, ∃ msgs : List (RString × Option RString),
        (∀ x ∈ fl.failed, PartOf (accepted x.2) msgs) ∧
          ∀ x, fl.written = some x → accepted x.2 = msgs := by
  induction chunks generalizing p with
  | nil => exact ⟨rfl, by simp [flushAll]⟩
  | cons c chunks ih =>
    obtain ⟨chunk, attempts⟩ := c
    obtain ⟨hfailed, hwritten⟩ := flush_accepted lib p chunk attempts
    have hmsgs : ∃ msgs : List (RString × Option RString),
        (∀ x ∈ (p.flush lib chunk attempts).failed, PartOf (accepted x.2) msgs) ∧
          ∀ x, (p.flush lib chunk attempts).written = some x → accepted x.2 = msgs :=
      ⟨p.intended lib chunk b, fun x hx => intended_eq lib hp x.1 b ▸ hfailed x hx,
        fun x hx => (hwritten x hx).1.trans (intended_eq lib hp x.1 b)⟩
    rw [flushAll] at hq ⊢
    cases hw : (p.flush lib chunk attempts).written with
    | none =>
      -- a chunk that is not written is the last one
      cases chunks with
      | nil =>
        exact ⟨by simp [flushAll, hw, accepted, writeAll], by simpa [flushAll, hw] using hmsgs⟩
      | cons c chunks =>
        have := hq (p.flush lib chunk attempts) (by simp [flushAll])
        rw [hw] at this
        cases this
    | some x =>
      obtain ⟨hx, hplugin⟩ := hwritten x hw
      obtain ⟨-, hlog, hr, -⟩ := (flush_again lib (tried_self p chunk) attempts).2 x hw
      have hp' : (p.flush lib chunk attempts).plugin.use_source_timestamp = true := by
        rw [hplugin b, use_source_timestamp_write, hp]
      obtain ⟨hrun, hrest⟩ := ih hp' (NoneGivenUp.tail hq)
      have haccepting : accepted (p.write lib (events chunk b.accepting)).1 = accepted x.2 := by
        rw [hlog] at hr
        rw [accepted_of_returned lib (raised_accepting lib hr b), hx, intended_eq lib hp]
      refine ⟨?_, List.forall_mem_cons.mpr ⟨hmsgs, hrest⟩⟩
      rw [List.filterMap_cons_some hw, List.flatMap_cons, accepted_append, hrun, hplugin b,
        List.length_cons, List.take_succ_cons, List.map_cons, writeAll, accepted_append,
        haccepting]

/-- `{"a" => 1}` at second 5. -/
def entryA : Entry := ⟨['t'], 5, eventA.record⟩

/-- `SendDjson` accepts so many records. -/
def acceptingFirst (n : ℕ) : Attempt := ⟨fun _ => ⟨0, 0⟩, fun i => i < n⟩

/-- A chunk whose first attempt fails at the second record, and one that is not yet written. -/
def retriedQueue : List (List Entry × List Attempt) :=
  [([entryA, entryA], [acceptingFirst 1, acceptingFirst 2]), ([entryA], [acceptingFirst 0])]

theorem flushAll_accepted_retried :
    (pluginT.flushAll plain retriedQueue).map (fun fl => (fl.failed.length, fl.written.isSome)) =
        [(1, true), (1, false)] ∧
      accepted (((pluginT.flushAll plain retriedQueue).filterMap Flush.written).flatMap Prod.snd) =
        accepted (pluginT.writeAll plain
          ((retriedQueue.take
              ((pluginT.flushAll plain retriedQueue).filterMap Flush.written).length).map
            fun c => events c.1 (acceptingFirst 0).accepting)) ∧
      ∀ fl ∈ pluginT.flushAll plain retriedQueue, ∃ msgs : List (RString × Option RString),
        (∀ x ∈ fl.failed, PartOf (accepted x.2) msgs) ∧
          ∀ x, fl.written = some x → accepted x.2 = msgs := by
  have hq : NoneGivenUp (pluginT.flushAll plain retriedQueue) := by
    intro fl hfl
    obtain rfl : fl =
        pluginT.flush plain [entryA, entryA] [acceptingFirst 1, acceptingFirst 2] := by
      simpa [flushAll, retriedQueue] using hfl
    rfl
  exact ⟨by rfl, flushAll_accepted plain rfl retriedQueue hq (acceptingFirst 0)⟩

/-! ## A record that is refused -/

/-- An entry whose handling raises an exception ends the attempt at the latest. -/
theorem logOf_of_raised (p : OutputMdsd) {chunk : List Entry} {infos : List (ℕ × RString)}
    {a : Attempt} {i : ℕ} {x : Event × Handled} (hx : (p.logEach lib chunk infos a)[i]? = some x)
    (hs : x.2.outcome = .raised) :
    raised (p.logOf lib chunk infos a) = true ∧ (p.logOf lib chunk infos a).length ≤ i + 1 := by
  induction chunk generalizing infos a i with
  | nil => simp [logEach] at hx
  | cons e chunk ih =>
    cases infos with
    | nil => simp [logEach] at hx
    | cons info infos =>
      rw [logOf]
      split
      · rename_i hr
        simp [raised_cons, hr]
      · rename_i hr
        cases i with
        | zero =>
          obtain rfl := Option.some.inj hx
          exact absurd hs hr
        | succ i =>
          obtain ⟨hraised, hlen⟩ := ih hx
          exact ⟨by simp [raised_cons, hraised], by simpa using hlen⟩

theorem length_failed {attempts : List Attempt} (h : (q.flush lib chunk attempts).written = none) :
    (q.flush lib chunk attempts).failed.length = attempts.length := by
  induction attempts generalizing q with
  | nil => rfl
  | cons a attempts ih =>
    simp only [flush] at h ⊢
    split at h
    · rename_i hr
      rw [if_pos hr]
      exact congrArg Nat.succ (ih h)
    · cases h

/-- **A record that is refused blocks its chunk.** If the handling of an entry of a chunk raises an
exception at every attempt, then no attempt returns, and nothing behind the entry is ever
handled. -/
theorem refused_blocks {i : ℕ} {attempts : List Attempt}
    (hs : ∀ a ∈ attempts, ∃ x, (p.handledEach lib chunk a)[i]? = some x ∧
      x.2.outcome = .raised) :
    (p.flush lib chunk attempts).written = none ∧
      (p.flush lib chunk attempts).failed.length = attempts.length ∧
      ∀ x ∈ (p.flush lib chunk attempts).failed, x.2.length ≤ i + 1 := by
  have hlog : ∀ a ∈ attempts, raised (p.write lib (events chunk a)).1 = true ∧
      (p.write lib (events chunk a)).1.length ≤ i + 1 := fun a ha => by
    obtain ⟨x, hx, hraised⟩ := hs a ha
    rw [(log_eq lib p chunk a).2] at hx
    rw [(log_eq lib p chunk a).1]
    exact logOf_of_raised lib p hx hraised
  obtain ⟨hfailed, hwritten⟩ := flush_again lib (tried_self p chunk) attempts
  have hnone : (p.flush lib chunk attempts).written = none := by
    cases hf : (p.flush lib chunk attempts).written with
    | none => rfl
    | some x =>
      obtain ⟨hmem, hx, hr, -⟩ := hwritten x hf
      rw [hx, (hlog x.1 hmem).1] at hr
      cases hr
  refine ⟨hnone, length_failed lib hnone, fun x hx => ?_⟩
  obtain ⟨hmem, he, -⟩ := hfailed x hx
  rw [he]
  exact (hlog x.1 hmem).2

/-- An answer of `SendDjson` for a source and a text. -/
def AnswerOf (mdsdSource dataStr : RString) (answer : Bool) : Prop :=
  ∃ (ids : IdMgr) (dataCache : Option DataCache) (now counter : ℕ) (calls : SocketClient.Calls),
    (SocketLogger.sendDjson ids dataCache now counter (utf8 mdsdSource) (utf8 dataStr) calls).1 =
      some answer

theorem answerOf_nil {dataStr : RString} {answer : Bool} (h : AnswerOf [] dataStr answer) :
    answer = false := by
  obtain ⟨ids, dataCache, now, counter, calls, h⟩ := h
  exact (Option.some.inj h).symm

theorem sendDjson_of_getElem? (p : OutputMdsd) {chunk : List Entry} {infos : List (ℕ × RString)}
    {a : Attempt} {i : ℕ} {x : Event × Handled}
    (hx : (p.logEach lib chunk infos a)[i]? = some x) :
    x.1.sendDjson = a.sendDjson i ∧ ∃ info, x.2 = p.handledWith lib x.1 info := by
  induction chunk generalizing infos a i with
  | nil => simp [logEach] at hx
  | cons e chunk ih =>
    cases infos with
    | nil => simp [logEach] at hx
    | cons info infos =>
      cases i with
      | zero =>
        obtain rfl := Option.some.inj hx
        exact ⟨rfl, info, rfl⟩
      | succ i => exact ih (a := a.next) hx

/-- **A tag whose match is empty blocks its chunk.** If the source made of the tag of an entry is
empty, and the entry is not dropped as too large, `SendDjson` refuses it at every attempt. So no
attempt returns, and nothing behind the entry is ever handled. -/
theorem emptySource_blocks {i : ℕ} {attempts : List Attempt}
    (hs : ∀ a ∈ attempts, ∃ x, (p.handledEach lib chunk a)[i]? = some x ∧
      x.2.outcome ≠ .dropped ∧ x.2.mdsdSource = [] ∧
      ∀ dataStr, x.2.dataStr = some dataStr →
        AnswerOf x.2.mdsdSource dataStr (a.sendDjson i)) :
    (p.flush lib chunk attempts).written = none ∧
      (p.flush lib chunk attempts).failed.length = attempts.length ∧
      ∀ x ∈ (p.flush lib chunk attempts).failed, x.2.length ≤ i + 1 := by
  refine refused_blocks lib fun a ha => ?_
  obtain ⟨x, hx, hdropped, hsource, hanswer⟩ := hs a ha
  refine ⟨x, hx, ?_⟩
  rw [(log_eq lib p chunk a).2] at hx
  obtain ⟨hsend, info, hinfo⟩ := sendDjson_of_getElem? lib p hx
  rw [hinfo] at hdropped hanswer ⊢
  rw [outcome_eq_raised_iff]
  cases hd : (p.handledWith lib x.1 info).dataStr with
  | none => exact .inl rfl
  | some dataStr =>
    have hans := hanswer dataStr hd
    rw [← hinfo, hsource] at hans
    exact .inr ⟨hdropped, hsend.trans (answerOf_nil hans)⟩

/-- A pattern such as `x*`, whose match in any other tag is empty. -/
def emptyMatch : Libraries := ⟨plain.generate, fun _ _ => some []⟩

/-- A plugin with this pattern. -/
def pluginX : OutputMdsd := configure ['T'] true [['x', '*']] mdsdMaxRecordSize false

theorem emptySource_blocks_pluginX :
    (pluginX.flush emptyMatch [entryA, entryA]
        [acceptingFirst 0, acceptingFirst 0]).written = none ∧
      (pluginX.flush emptyMatch [entryA, entryA]
        [acceptingFirst 0, acceptingFirst 0]).failed.length = 2 ∧
      ∀ x ∈ (pluginX.flush emptyMatch [entryA, entryA]
        [acceptingFirst 0, acceptingFirst 0]).failed, x.2.length ≤ 1 := by
  refine emptySource_blocks emptyMatch (i := 0) fun a ha => ?_
  obtain rfl : a = acceptingFirst 0 := by simpa using ha
  exact ⟨_, rfl, by decide, rfl, fun _ _ => ⟨.empty, none, 0, 1, SocketClient.acceptingAll 0, rfl⟩⟩

end OutputMdsd

end Outmdsd.Plugin
