import Outmdsd.Cache.ConcurrentMap
import Outmdsd.Item.Framing
import Outmdsd.Item.LogItem
import Outmdsd.Socket.Send

/-!
# What the loggers put on the wire

`SocketLogger::SendData` and `DataResender::ResendData`, each run by a single thread with the
answers of the clock and of the socket. Both hand the composed message to `Send` as a `const char*`.
The length at the head of the message counts the bytes of the strings it was composed from, so the
bytes on the wire are the whole message exactly when neither the source nor the text of schema and
data holds a NUL (`wholeMessageSent_iff`).
-/

namespace Outmdsd

open SocketClient

namespace SocketLogger

/-- What a call leaves: the bytes on the wire, the cache, and how it ended. -/
structure CallResult where
  wire : Bytes
  cache : Option DataCache
  ending : End

/-- `m_socketClient->Send(m_dataCache->Get(tag)->GetData())`; the composed message stays in the
cached item. -/
def sendCached (ids : IdMgr) (m : DataCache) (tag : Bytes) (calls : Calls) : CallResult :=
  match ConcurrentMap.get m tag with
  | .error e => ⟨[], some m, .threw e⟩
  | .ok none => ⟨[], some m, .running⟩  -- excluded by `assert(dataItem)`
  | .ok (some l) =>
    match l.item.getData ids with
    | .error e => ⟨[], some m, .threw e⟩
    | .ok (item, _) =>
      let r := sendText item.djsonData calls
      ⟨r.accepted, some (m.insert tag (some { l with item := item })), r.ending⟩

/-- `SocketLogger::SendData` -/
def sendData (ids : IdMgr) (dataCache : Option DataCache) (now : ℕ) (l : LogItem)
    (calls : Calls) : CallResult :=
  match dataCache with
  | none =>
    match l.item.getData ids with
    | .error e => ⟨[], none, .threw e⟩
    | .ok (item, _) =>
      let r := sendText item.djsonData calls
      ⟨r.accepted, none, r.ending⟩
  | some m =>
    let tag := l.item.tag
    match ConcurrentMap.add m tag (some (l.touch now)) with
    | .error e => ⟨[], some m, .threw e⟩
    | .ok m =>
      match ConcurrentMap.get m tag with
      | .error e => ⟨[], some m, .threw e⟩
      | .ok _ =>
        let r := sendCached ids m tag calls
        match r.ending with
        | .threw e => ⟨r.wire, r.cache.map fun m => (ConcurrentMap.erase m tag).2, .threw e⟩
        | _ => r

/-- `SocketLogger::SendDjson`: what it returns, if it does, and what it leaves. The counter is the
number in the tag of the new item. -/
def sendDjson (ids : IdMgr) (dataCache : Option DataCache) (now counter : ℕ)
    (sourceName schemaAndData : Bytes) (calls : Calls) : Option Bool × CallResult :=
  if sourceName = [] then (some false, ⟨[], dataCache, .returned⟩)
  else if schemaAndData = [] then (some false, ⟨[], dataCache, .returned⟩)
  else
    let item := DjsonLogItem.ofSchemaAndData counter sourceName schemaAndData
    let r := sendData ids dataCache now ⟨item, now⟩ calls
    match r.ending with
    | .returned => (some true, r)
    | .threw _ => (some false, r)
    | .running => (none, r)

end SocketLogger

namespace DataResender

/-- The sends of a round, in order, and how they ended. -/
structure Sends where
  sent : List (Bytes × Sent)
  ending : End

/-- `ForEachUnsafe(SendItem)` on the copied entries. -/
def sendEach (ids : IdMgr) : List (Bytes × LogItemPtr) → List Calls → Sends
  | [], _ => ⟨[], .returned⟩
  | (_, none) :: es, callss => sendEach ids es callss
  | (_, some _) :: _, [] => ⟨[], .running⟩
  | (k, some l) :: es, calls :: callss =>
    match l.item.getData ids with
    | .error e => ⟨[], .threw e⟩
    | .ok (item, _) =>
      let r := sendText item.djsonData calls
      if r.ending = .returned then
        let rs := sendEach ids es callss
        ⟨(k, r) :: rs.sent, rs.ending⟩
      else ⟨[(k, r)], r.ending⟩

/-- `ResendData`: the cache without the obsolete entries, and the sends of the others. A
`SocketException` ends the sends, and is caught. `clock k` is the time when the age of the entry
`k` is tested. -/
def resendData (ids : IdMgr) (ackTimeoutMS : ℕ) (clock : Bytes → ℕ) (dataCache : DataCache)
    (callss : List Calls) : DataCache × Sends :=
  let keysToRemove := ConcurrentMap.filterEach dataCache fun k =>
    LogItem.checkItemAge ackTimeoutMS (clock k)
  let dataCache := (ConcurrentMap.eraseList dataCache keysToRemove).2
  let r := sendEach ids (dataCache.entries.map fun e => (e.1, e.2)) callss
  (dataCache, match r.ending with
    | .threw (.socketException _ _) => { r with ending := .returned }
    | _ => r)

end DataResender

/-! ## The bytes on the wire -/

namespace DjsonLogItem

/-- The composed message of an item. -/
def message (item : DjsonLogItem) : Bytes := item.composeFullData.djsonData

/-- The bytes are the whole message of the item: as many follow the length line as it announces. -/
structure Whole (item : DjsonLogItem) (wire : Bytes) : Prop where
  eq_message : wire = item.message
  announced : decodeOne wire = some (item.payload, [])

theorem whole_iff (item : DjsonLogItem) (wire : Bytes) : item.Whole wire ↔ wire = item.message := by
  refine ⟨Whole.eq_message, fun h => ⟨h, ?_⟩⟩
  have hd := decodeOne_message item.payload []
  rwa [List.append_nil, ← djsonData_composeFullData, ← message, ← h] at hd

/-- The bytes before the first NUL of a message are all of it exactly when there is no NUL in the
source and in the text of schema and data. -/
theorem cStr_message_eq_iff (counter : ℕ) (source schemaAndData : Bytes) :
    cStr (ofSchemaAndData counter source schemaAndData).message =
        (ofSchemaAndData counter source schemaAndData).message ↔
      (0 : Byte) ∉ source ∧ (0 : Byte) ∉ schemaAndData := by
  have ht := zero_notMem_toDec counter
  have hl : ∀ n, (0 : Byte) ∉ toDec n := zero_notMem_toDec
  have h₁ : (0 : Byte) ∉ lit "[\"" := by decide
  have h₂ : (0 : Byte) ∉ lit "\"," := by decide
  have h₃ : (0 : Byte) ∉ lit "," := by decide
  have h₄ : (0 : Byte) ∉ lit "]" := by decide
  have h₅ : (0 : Byte) ≠ newline := by decide
  rw [cStr_eq_self_iff, message, djsonData_composeFullData]
  simp [payload, ofSchemaAndData, hl, h₁, h₂, h₃, h₄, h₅, List.mem_append]

/-- `GetData` of an item built from a text of schema and data, composed already or not. -/
theorem getData_message {item : DjsonLogItem} {counter : ℕ} {source schemaAndData : Bytes}
    (hd : schemaAndData ≠ [])
    (h : item = ofSchemaAndData counter source schemaAndData ∨
      item = (ofSchemaAndData counter source schemaAndData).composeFullData) (ids : IdMgr) :
    item.getData ids =
      .ok ((ofSchemaAndData counter source schemaAndData).composeFullData, ids) := by
  rcases h with rfl | rfl
  · exact getData_of_schemaAndData rfl hd ids
  · have hne : (ofSchemaAndData counter source schemaAndData).composeFullData.djsonData ≠ [] := by
      rw [djsonData_composeFullData]
      simp
    rw [getData, if_neg hne]
    rfl

end DjsonLogItem

open DjsonLogItem

namespace SocketLogger

variable {counter : ℕ} {source schemaAndData : Bytes}

/-- `SendData` hands the composed message to `Send`, with and without a cache. -/
theorem sendData_eq (hd : schemaAndData ≠ []) (ids : IdMgr) (dataCache : Option DataCache)
    (now : ℕ) (calls : Calls) :
    ∃ dataCache', sendData ids dataCache now ⟨ofSchemaAndData counter source schemaAndData, now⟩
        calls =
      ⟨(sendText (ofSchemaAndData counter source schemaAndData).message calls).accepted, dataCache',
        (sendText (ofSchemaAndData counter source schemaAndData).message calls).ending⟩ := by
  have hg := @getData_message _ counter source schemaAndData hd (.inl rfl) ids
  cases dataCache with
  | none =>
    simp only [sendData, hg]
    exact ⟨none, rfl⟩
  | some m =>
    have ht : (ofSchemaAndData counter source schemaAndData).tag ≠ [] := toDec_ne_nil counter
    simp only [sendData, ConcurrentMap.add_eq_ok ht, sendCached,
      (ConcurrentMap.get_eq_ok_iff ht).mpr (AList.lookup_insert m), LogItem.touch, hg]
    cases he : (sendText (ofSchemaAndData counter source schemaAndData).composeFullData.djsonData
      calls).ending with
    | returned | running => exact ⟨_, by rw [message, he]⟩
    | threw e => exact ⟨_, by rw [message, he]⟩

/-- When `SendDjson` returns `true` without a stop of the client, the bytes of the message before
its first NUL are on the wire. -/
theorem wire_sendDjson (hs : source ≠ []) (hd : schemaAndData ≠ []) {ids : IdMgr}
    {dataCache : Option DataCache} {now : ℕ} {calls : Calls} (hc : calls.Unstopped)
    (h : (sendDjson ids dataCache now counter source schemaAndData calls).1 = some true) :
    (sendDjson ids dataCache now counter source schemaAndData calls).2.wire =
      cStr (ofSchemaAndData counter source schemaAndData).message := by
  obtain ⟨m, hm⟩ := @sendData_eq counter source schemaAndData hd ids dataCache now calls
  simp only [sendDjson, if_neg hs, if_neg hd, hm] at h ⊢
  cases he : (sendText (ofSchemaAndData counter source schemaAndData).message calls).ending with
  | returned => exact accepted_sendText hc he
  | threw e => simp [he] at h
  | running => simp [he] at h

end SocketLogger

namespace DataResender

/-- Every send of a round is of the composed message of an entry. -/
theorem mem_sendEach {ids : IdMgr} {es : List (Bytes × LogItemPtr)} {callss : List Calls}
    {k : Bytes} {r : Sent} (h : (k, r) ∈ (sendEach ids es callss).sent) :
    ∃ l calls item ids', (k, some l) ∈ es ∧ calls ∈ callss ∧
      l.item.getData ids = .ok (item, ids') ∧ r = sendText item.djsonData calls := by
  induction es generalizing callss with
  | nil => simp [sendEach] at h
  | cons e es ih =>
    obtain ⟨k', _ | l'⟩ := e
    · rw [sendEach] at h
      obtain ⟨l, calls, item, ids', hl, hc, hg, hr⟩ := ih h
      exact ⟨l, calls, item, ids', .tail _ hl, hc, hg, hr⟩
    · cases callss with
      | nil => simp [sendEach] at h
      | cons calls' callss =>
        rw [sendEach] at h
        split at h
        · simp at h
        · rename_i item ids' hg
          have head : (k, r) = (k', sendText item.djsonData calls') →
              ∃ l calls item ids', (k, some l) ∈ (k', some l') :: es ∧ calls ∈ calls' :: callss ∧
                l.item.getData ids = .ok (item, ids') ∧ r = sendText item.djsonData calls := by
            intro he
            obtain ⟨rfl, rfl⟩ := Prod.mk.inj he
            exact ⟨l', calls', item, ids', .head _, .head _, hg, rfl⟩
          dsimp only at h
          split at h
          · rcases List.mem_cons.mp h with he | h
            · exact head he
            · obtain ⟨l, calls, item, ids', hl, hc, hg, hr⟩ := ih h
              exact ⟨l, calls, item, ids', .tail _ hl, .tail _ hc, hg, hr⟩
          · exact head (List.mem_singleton.mp h)

/-- A send of a round that returns without a stop of the client puts the bytes of the message
before its first NUL on the wire. -/
theorem accepted_resendData {counter : ℕ} {source schemaAndData : Bytes} (hd : schemaAndData ≠ [])
    {ids : IdMgr} {ackTimeoutMS : ℕ} {clock : Bytes → ℕ} {dataCache : DataCache}
    {callss : List Calls} {k : Bytes} {l : LogItem} {r : Sent}
    (hk : dataCache.lookup k = some (some l))
    (hl : l.item = ofSchemaAndData counter source schemaAndData ∨
      l.item = (ofSchemaAndData counter source schemaAndData).composeFullData)
    (hr : (k, r) ∈ (resendData ids ackTimeoutMS clock dataCache callss).2.sent)
    (hc : ∀ calls ∈ callss, calls.Unstopped) (he : r.ending = .returned) :
    r.accepted = cStr (ofSchemaAndData counter source schemaAndData).message := by
  have hs : (k, r) ∈ (sendEach ids ((ConcurrentMap.eraseList dataCache
      (ConcurrentMap.filterEach dataCache fun k => LogItem.checkItemAge ackTimeoutMS
        (clock k))).2.entries.map fun e => (e.1, e.2)) callss).sent := by
    unfold resendData at hr
    dsimp only at hr
    split at hr <;> exact hr
  obtain ⟨l', calls, item, ids', hm, hcm, hg, rfl⟩ := mem_sendEach hs
  obtain ⟨⟨k', v⟩, hv, hkv⟩ := List.mem_map.mp hm
  obtain ⟨rfl, rfl⟩ := Prod.mk.inj hkv
  have hl' := AList.mem_lookup_iff.mpr hv
  rw [ConcurrentMap.lookup_eraseList, hk] at hl'
  split at hl'
  · cases hl'
  · cases hl'
    rw [getData_message hd hl ids] at hg
    obtain ⟨rfl, -⟩ := Prod.mk.inj (Except.ok.inj hg)
    exact accepted_sendText (hc calls hcm) he

end DataResender

/-- Whatever answers the socket gives, if the call returns and the client is not stopped, the whole
message of the item is on the wire: when `SendDjson` sends it, and when `ResendData` sends it from
a cache. -/
structure WholeMessageSent (counter : ℕ) (source schemaAndData : Bytes) : Prop where
  logger : ∀ {ids dataCache now calls}, Calls.Unstopped calls →
    (SocketLogger.sendDjson ids dataCache now counter source schemaAndData calls).1 = some true →
    (ofSchemaAndData counter source schemaAndData).Whole
      (SocketLogger.sendDjson ids dataCache now counter source schemaAndData calls).2.wire
  resender : ∀ {ids ackTimeoutMS clock callss k r} {dataCache : DataCache} {l : LogItem},
    dataCache.lookup k = some (some l) →
    (l.item = ofSchemaAndData counter source schemaAndData ∨
      l.item = (ofSchemaAndData counter source schemaAndData).composeFullData) →
    (k, r) ∈ (DataResender.resendData ids ackTimeoutMS clock dataCache callss).2.sent →
    (∀ calls ∈ callss, Calls.Unstopped calls) → r.ending = .returned →
    (ofSchemaAndData counter source schemaAndData).Whole r.accepted

/-- **Announced length and wire.** The whole message is put on the wire, by `SendData` and by
`ResendData`, if and only if neither the source nor the text of schema and data holds a NUL. -/
theorem wholeMessageSent_iff (counter : ℕ) {source schemaAndData : Bytes} (hs : source ≠ [])
    (hd : schemaAndData ≠ []) :
    WholeMessageSent counter source schemaAndData ↔
      (0 : Byte) ∉ source ∧ (0 : Byte) ∉ schemaAndData := by
  rw [← cStr_message_eq_iff counter]
  constructor
  · intro h
    -- a socket that accepts the message at once
    have hc := unstopped_acceptingAll (ofSchemaAndData counter source schemaAndData).message.length
    obtain ⟨m, hm⟩ := @SocketLogger.sendData_eq counter source schemaAndData hd .empty none 0
      (acceptingAll (ofSchemaAndData counter source schemaAndData).message.length)
    have ht : (SocketLogger.sendDjson .empty none 0 counter source schemaAndData
        (acceptingAll (ofSchemaAndData counter source schemaAndData).message.length)).1 =
          some true := by
      simp [SocketLogger.sendDjson, hs, hd, hm, sendText_acceptingAll]
    rw [← SocketLogger.wire_sendDjson hs hd hc ht]
    exact (h.logger hc ht).eq_message
  · intro h
    constructor
    · intro ids dataCache now calls hc ht
      rw [whole_iff, SocketLogger.wire_sendDjson hs hd hc ht, h]
    · intro ids ackTimeoutMS clock callss k r dataCache l hk hl hr hc he
      rw [whole_iff, DataResender.accepted_resendData hd hk hl hr hc he, h]

/-- The text of schema and data for a record whose key is a `k` and a NUL. -/
def schemaAndDataNul : Bytes := lit "1,[0,[\"k" ++ [0] ++ lit "\",\"FT_INT64\"]],[1]"

theorem wholeMessageSent_iff_nul :
    WholeMessageSent 7 (lit "s") schemaAndDataNul ↔
      (0 : Byte) ∉ lit "s" ∧ (0 : Byte) ∉ schemaAndDataNul :=
  wholeMessageSent_iff 7 (by decide) (by decide)

/-- `SendDjson` returns `true` with 15 of the 35 announced bytes on the wire. -/
theorem sendDjson_cuts_at_nul :
    SocketLogger.sendDjson .empty none 0 7 (lit "s") schemaAndDataNul (acceptingAll 38) =
        (some true, ⟨lit "35\n[\"s\",7,1,[0,[\"k", none, .returned⟩) ∧
      ¬ WholeMessageSent 7 (lit "s") schemaAndDataNul := by
  have hd : SocketLogger.sendDjson .empty none 0 7 (lit "s") schemaAndDataNul (acceptingAll 38) =
      (some true, ⟨lit "35\n[\"s\",7,1,[0,[\"k", none, .returned⟩) := by rfl
  refine ⟨hd, fun h => ?_⟩
  have hw := (h.logger (unstopped_acceptingAll 38) (congrArg Prod.fst hd)).eq_message
  rw [hd] at hw
  exact absurd hw (by decide)

end Outmdsd
