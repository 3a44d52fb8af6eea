import Outmdsd.Item.DjsonLogItem

/-!
# The length-prefixed stream

`decode` is the reader of a stream of messages: decimal digits up to the first newline, then
exactly that many bytes, repeated to the end of the stream. On the concatenation of composed
messages it returns their payloads, whatever bytes the payloads hold (`decode_messages`).
-/

namespace Outmdsd

/-- Read one message: the length line and the bytes it announces, and what follows them. -/
def decodeOne (s : Bytes) : Option (Bytes × Bytes) :=
  match s.takeWhile (· ≠ newline), s.dropWhile (· ≠ newline) with
  | _, [] => none
  | header, _ :: body =>
    if header ≠ [] ∧ header.all isDigit ∧ ofDec header ≤ body.length then
      some (body.take (ofDec header), body.drop (ofDec header))
    else none

theorem length_of_decodeOne {s m r : Bytes} (h : decodeOne s = some (m, r)) :
    r.length < s.length := by
  unfold decodeOne at h
  have hl := congrArg List.length (List.takeWhile_append_dropWhile (p := (· ≠ newline)) (l := s))
  split at h
  · simp at h
  · rename_i b body hb
    split at h
    · simp only [Option.some.injEq, Prod.mk.injEq] at h
      rw [List.length_append, hb, List.length_cons] at hl
      have := congrArg List.length h.2
      simp only [List.length_drop] at this
      omega
    · simp at h

/-- Read a whole stream: the messages in order, or `none` when something is left over. -/
def decode (s : Bytes) : Option (List Bytes) :=
  if s = [] then some []
  else
    match _h : decodeOne s with
    | none => none
    | some (m, r) => (decode r).map (m :: ·)
termination_by s.length
decreasing_by exact length_of_decodeOne _h

@[simp] theorem decode_nil : decode [] = some [] := by
  rw [decode]
  rfl

/-- A length line and its payload in front of a stream are read as one message. -/
theorem decodeOne_message (p s : Bytes) :
    decodeOne (toDec p.length ++ newline :: p ++ s) = some (p, s) := by
  have hd : ∀ b ∈ toDec p.length, decide (b ≠ newline) = true := fun b hb => by
    have hne : b ≠ newline := fun e => newline_notMem_toDec p.length (e ▸ hb)
    simpa using hne
  have ht : (toDec p.length ++ newline :: (p ++ s)).takeWhile (· ≠ newline) = toDec p.length := by
    rw [List.takeWhile_append_of_pos hd]
    simp
  have hr : (toDec p.length ++ newline :: (p ++ s)).dropWhile (· ≠ newline) =
      newline :: (p ++ s) := by
    rw [List.dropWhile_append_of_pos hd]
    simp
  have hall : (toDec p.length).all isDigit = true :=
    List.all_eq_true.mpr fun b hb => isDigit_of_mem_toDec hb
  simp only [List.append_assoc, List.cons_append, decodeOne, ht, hr, ofDec_toDec]
  rw [if_pos ⟨toDec_ne_nil _, hall, by simp⟩]
  simp

theorem decode_message (p s : Bytes) :
    decode (toDec p.length ++ newline :: p ++ s) = (decode s).map (p :: ·) := by
  have hne : toDec p.length ++ newline :: p ++ s ≠ [] := by simp
  rw [decode, if_neg hne]
  split
  · rename_i h
    rw [decodeOne_message] at h
    cases h
  · rename_i m r h
    rw [decodeOne_message, Option.some.injEq, Prod.mk.injEq] at h
    rw [h.1, h.2]

/-- The stream of framed payloads decodes to the payloads. -/
theorem decode_flatMap (ps : List Bytes) :
    decode (ps.flatMap fun p => toDec p.length ++ newline :: p) = some ps := by
  induction ps with
  | nil => simp
  | cons p ps ih => rw [List.flatMap_cons, decode_message, ih, Option.map_some]

namespace DjsonLogItem

/-- `GetData` of each item of a list, in order. -/
def getDataAll (ids : IdMgr) : List DjsonLogItem → Except Exn (List DjsonLogItem × IdMgr)
  | [] => return ([], ids)
  | item :: items => do
    let r ← item.getData ids
    let r' ← getDataAll r.2 items
    return (r.1 :: r'.1, r'.2)

theorem getDataAll_of_schemaAndData (ids : IdMgr) {items : List DjsonLogItem}
    (hi : ∀ item ∈ items, item.djsonData = [] ∧ item.schemaAndData ≠ []) :
    getDataAll ids items = .ok (items.map composeFullData, ids) := by
  induction items with
  | nil => rfl
  | cons item items ih =>
    have h := hi item (by simp)
    rw [getDataAll, getData_of_schemaAndData h.1 h.2 ids]
    change (getDataAll ids items >>= fun r' => pure (item.composeFullData :: r'.1, r'.2)) = _
    rw [ih fun i hi' => hi i (by simp [hi'])]
    rfl

/-- **Framing round trip.** For items built from a source and a non-empty text of schema and data
(the counter being the number in the item's tag), the concatenation of the composed messages
decodes to the payloads, in order and to the last byte. -/
theorem decode_messages (ids : IdMgr) (args : List (ℕ × Bytes × Bytes))
    (hne : ∀ a ∈ args, a.2.2 ≠ []) :
    ∃ composed,
      getDataAll ids (args.map fun a => ofSchemaAndData a.1 a.2.1 a.2.2) = .ok (composed, ids) ∧
      decode (composed.flatMap djsonData) = some (args.map fun a =>
        lit "[\"" ++ a.2.1 ++ lit "\"," ++ toDec a.1 ++ lit "," ++ a.2.2 ++ lit "]") := by
  refine ⟨_, getDataAll_of_schemaAndData ids ?_, ?_⟩
  · intro item hi
    obtain ⟨a, ha, rfl⟩ := List.mem_map.mp hi
    exact ⟨rfl, hne a ha⟩
  · rw [List.map_map, List.flatMap_map]
    have h := decode_flatMap (args.map fun a => (ofSchemaAndData a.1 a.2.1 a.2.2).payload)
    rw [List.flatMap_map] at h
    simp only [Function.comp_apply, djsonData_composeFullData]
    exact h

/-- Payloads that start like headers, with newlines, quotes and a NUL in them, and one of them
twice. -/
theorem decode_messages_header_like :
    ∃ composed,
      getDataAll IdMgr.empty [ofSchemaAndData 7 (lit "s") (lit "3\n12" ++ [0]),
          ofSchemaAndData 8 (lit "\"") (lit "\n"),
          ofSchemaAndData 7 (lit "s") (lit "3\n12" ++ [0])] =
        .ok (composed, IdMgr.empty) ∧
      decode (composed.flatMap djsonData) =
        some [lit "[\"" ++ lit "s" ++ lit "\"," ++ toDec 7 ++ lit "," ++ (lit "3\n12" ++ [0]) ++
            lit "]",
          lit "[\"" ++ lit "\"" ++ lit "\"," ++ toDec 8 ++ lit "," ++ lit "\n" ++ lit "]",
          lit "[\"" ++ lit "s" ++ lit "\"," ++ toDec 7 ++ lit "," ++ (lit "3\n12" ++ [0]) ++
            lit "]"] :=
  decode_messages IdMgr.empty [(7, lit "s", lit "3\n12" ++ [0]), (8, lit "\"", lit "\n"),
    (7, lit "s", lit "3\n12" ++ [0])] (by decide)

end DjsonLogItem

end Outmdsd
