import Outmdsd.Item.SchemaIdentity
import Outmdsd.Logger.Backup
import Mathlib.Data.List.Perm.Basic

/-!
# One resend round

`ResendData` while no other thread touches the cache. It takes two copies of the cache: the ages of
the first decide what is erased, and the items of the second are sent. A copy may have another
iteration order, and each age is read from the clock when its entry is visited.

The items sent are the first ones of the second copy (`forEachSend_cases`): the loop stops at the
first exception, of `Send` or of `GetData`, and the cache stays as it is. `GetData` throws for an
item without fields, before anything of it or of the items behind it is sent. A round sends all the
items it should when no such item is visited, or a `Send` has failed before
(`resendData_effect_iff`).
-/

namespace Outmdsd

/-- What `Send` does with a message. -/
inductive SendOutcome
  | sent
  | threw (e : Exn)
  deriving DecidableEq

/-- The copy constructor of `ConcurrentMap`. -/
structure MapCopy (V : Type*) where
  copy : StringMap V → StringMap V
  /-- The iteration order of a copy may be another. -/
  perm : ∀ m, (copy m).entries.Perm m.entries

/-- A copy in the order of the map. -/
def MapCopy.inOrder (V : Type*) : MapCopy V := ⟨id, fun _ => .refl _⟩

/-- The part of a `DataResender` that a round works on, with the schema ids `GetData` uses. -/
structure Resender where
  ackTimeoutMS : ℕ
  dataCache : DataCache
  totalSend : ℕ
  ids : IdMgr

namespace Resender

/-- Where a round stands. -/
structure Round where
  dataCache : DataCache
  totalSend : ℕ
  ids : IdMgr
  /-- The calls of `Send` so far. -/
  calls : ℕ
  /-- The entries whose item was sent. -/
  sent : List (Bytes × LogItem)
  /-- The exception that ended the round. -/
  threw : Option Exn

/-- `SendItem` on an entry of `cacheCopy`; `send` gives the outcomes of the calls of `Send`. -/
def sendItem (send : ℕ → SendOutcome) (r : Round) (key : Bytes) : LogItemPtr → Round
  | none => r
  | some l =>
    match l.item.getData r.ids with
    | .error e => { r with threw := some e }
    | .ok (_, ids) =>
      match send r.calls with
      | .sent => { r with
          ids := ids
          calls := r.calls + 1
          sent := r.sent ++ [(key, l)]
          totalSend := r.totalSend + 1 }
      | .threw e => { r with ids := ids, calls := r.calls + 1, threw := some e }

/-- `cacheCopy.ForEachUnsafe(SendItem)`, which an exception ends. -/
def forEachSend (send : ℕ → SendOutcome) : List (Sigma fun _ : Bytes => LogItemPtr) → Round → Round
  | [], r => r
  | e :: es, r =>
    let r' := sendItem send r e.1 e.2
    if r'.threw.isSome then r' else forEachSend send es r'

/-- The handler of `ResendData`, which catches a `SocketException`. -/
def catchSocket : Option Exn → Option Exn
  | some (.socketException _ _) => none
  | e => e

/-- `ResendData`. `bak` and `again` make the two copies, and `now` is the clock when the entry of a
key is checked. -/
def resendData (d : Resender) (bak again : MapCopy LogItemPtr) (now : Bytes → ℕ)
    (send : ℕ → SendOutcome) : Round :=
  let cacheBak := bak.copy d.dataCache
  let keysToRemove := ConcurrentMap.filterEach cacheBak fun key =>
    LogItem.checkItemAge d.ackTimeoutMS (now key)
  let dataCache := (ConcurrentMap.eraseList d.dataCache keysToRemove).2
  let cacheCopy := again.copy dataCache
  let r := forEachSend send cacheCopy.entries ⟨dataCache, d.totalSend, d.ids, 0, [], none⟩
  { r with threw := catchSocket r.threw }

/-- `ResendOnce`, which logs what leaves `ResendData`. -/
def resendOnce (d : Resender) (bak again : MapCopy LogItemPtr) (now : Bytes → ℕ)
    (send : ℕ → SendOutcome) : Round :=
  if 0 < d.dataCache.size then { d.resendData bak again now send with threw := none }
  else ⟨d.dataCache, d.totalSend, d.ids, 0, [], none⟩

/-! ## Sending -/

/-- The items among some entries that are not null. -/
def items (es : List (Sigma fun _ : Bytes => LogItemPtr)) : List (Bytes × LogItem) :=
  es.filterMap fun e => e.2.map fun l => (e.1, l)

/-- Where the sends of a round from `r` on stop, after `n` of the items `l`: there is no item left,
the next one has nothing to compose its message from, or `Send` throws for it. -/
inductive Stops (send : ℕ → SendOutcome) (l : List (Bytes × LogItem)) (r r' : Round) (n : ℕ) : Prop
  | allSent (hn : n = l.length) (ht : r'.threw = none) (hc : r'.calls = r.calls + n)
  | noData (k : Bytes) (x : LogItem) (hx : l[n]? = some (k, x)) (hd : ¬ x.item.HasData)
      (hc : r'.calls = r.calls + n)
  | sendThrew (k : Bytes) (x : LogItem) (hx : l[n]? = some (k, x)) (hd : x.item.HasData) (e : Exn)
      (hs : send (r.calls + n) = .threw e) (ht : r'.threw = some e)
      (hc : r'.calls = r.calls + n + 1)

/-- What a `ForEachUnsafe` did from `r` on: the first `n` items were sent, and there it stopped. -/
structure SentFirst (send : ℕ → SendOutcome) (l : List (Bytes × LogItem)) (r r' : Round) (n : ℕ) :
    Prop where
  le : n ≤ l.length
  hasData : ∀ e ∈ l.take n, e.2.item.HasData
  outcome : ∀ i < n, send (r.calls + i) = .sent
  sent : r'.sent = r.sent ++ l.take n
  totalSend : r'.totalSend = r.totalSend + n
  dataCache : r'.dataCache = r.dataCache
  stops : Stops send l r r' n

/-- One more item sent before the others. -/
theorem SentFirst.cons {send : ℕ → SendOutcome} {l : List (Bytes × LogItem)} {r r₁ r' : Round}
    {n : ℕ} {key : Bytes} {x : LogItem} (h : SentFirst send l r₁ r' n) (hx : x.item.HasData)
    (hs : send r.calls = .sent)
    (h₁ : r₁.calls = r.calls + 1 ∧ r₁.sent = r.sent ++ [(key, x)] ∧
      r₁.totalSend = r.totalSend + 1 ∧ r₁.dataCache = r.dataCache) :
    SentFirst send ((key, x) :: l) r r' (n + 1) := by
  obtain ⟨hc₁, hs₁, ht₁, hd₁⟩ := h₁
  have hc : r₁.calls + n = r.calls + (n + 1) := by omega
  refine ⟨Nat.succ_le_succ h.le, ?_, fun i hi => ?_, ?_, ?_, h.dataCache.trans hd₁, ?_⟩
  · rw [List.take_succ_cons, List.forall_mem_cons]
    exact ⟨hx, h.hasData⟩
  · cases i with
    | zero => exact hs
    | succ i =>
      rw [show r.calls + (i + 1) = r₁.calls + i by omega]
      exact h.outcome i (by omega)
  · rw [h.sent, hs₁]
    simp
  · rw [h.totalSend, ht₁, Nat.add_assoc, Nat.add_comm 1]
  · cases h.stops with
    | allSent hn ht hcalls => exact .allSent (by simp [hn]) ht (by rw [hcalls, hc])
    | noData k y hy hd hcalls => exact .noData k y (by simpa using hy) hd (by rw [hcalls, hc])
    | sendThrew k y hy hd e he ht hcalls =>
      exact .sendThrew k y (by simpa using hy) hd e (by rw [← hc]; exact he) ht (by rw [hcalls, hc])

section forEachSend

variable (send : ℕ → SendOutcome) (key : Bytes) {l : LogItem}
  (es : List (Sigma fun _ : Bytes => LogItemPtr)) {r : Round}

theorem forEachSend_null (hr : r.threw = none) :
    forEachSend send (⟨key, none⟩ :: es) r = forEachSend send es r := by
  simp [forEachSend, sendItem, hr]

/-- The exception of `GetData` comes before the call of `Send`. -/
theorem forEachSend_noData (hd : ¬ l.item.HasData) :
    forEachSend send (⟨key, some l⟩ :: es) r = { r with
      threw := some (.invalidArgument
        (lit "GetItem(): invalid empty string for 'key' parameter.")) } := by
  simp [forEachSend, sendItem, DjsonLogItem.getData_error hd]

variable {send}

theorem forEachSend_threw (hd : l.item.HasData) {e : Exn} (hs : send r.calls = .threw e) :
    ∃ ids, forEachSend send (⟨key, some l⟩ :: es) r =
      { r with ids := ids, calls := r.calls + 1, threw := some e } := by
  obtain ⟨⟨item, ids⟩, hg⟩ := DjsonLogItem.getData_ok hd r.ids
  exact ⟨ids, by simp [forEachSend, sendItem, hg, hs]⟩

theorem forEachSend_sent (hr : r.threw = none) (hd : l.item.HasData) (hs : send r.calls = .sent) :
    ∃ ids, forEachSend send (⟨key, some l⟩ :: es) r = forEachSend send es { r with
      ids := ids
      calls := r.calls + 1
      sent := r.sent ++ [(key, l)]
      totalSend := r.totalSend + 1 } := by
  obtain ⟨⟨item, ids⟩, hg⟩ := DjsonLogItem.getData_ok hd r.ids
  exact ⟨ids, by simp [forEachSend, sendItem, hg, hs, hr]⟩

end forEachSend

/-- **The sends of a round.** They stop at the first item without data and at the first exception of
`Send`. -/
theorem forEachSend_cases (send : ℕ → SendOutcome)
    (es : List (Sigma fun _ : Bytes => LogItemPtr)) (r : Round) (hr : r.threw = none) :
    ∃ n, SentFirst send (items es) r (forEachSend send es r) n := by
  induction es generalizing r with
  | nil =>
    exact ⟨0, le_rfl, by simp, by simp, by simp [forEachSend], rfl, rfl, .allSent rfl hr rfl⟩
  | cons e es ih =>
    obtain ⟨key, _ | l⟩ := e
    · -- a null item is passed over
      rw [forEachSend_null send key es hr]
      exact ih r hr
    · have hl : items (⟨key, some l⟩ :: es) = (key, l) :: items es := rfl
      rw [hl]
      by_cases hd : l.item.HasData
      · cases hs : send r.calls with
        | threw ex =>
          obtain ⟨ids, he⟩ := forEachSend_threw key es hd hs
          rw [he]
          exact ⟨0, Nat.zero_le _, by simp, by simp, by simp, rfl, rfl,
            .sendThrew key l rfl hd ex hs rfl rfl⟩
        | sent =>
          obtain ⟨ids, he⟩ := forEachSend_sent key es hr hd hs
          rw [he]
          obtain ⟨n, hn⟩ := ih { r with
            ids := ids
            calls := r.calls + 1
            sent := r.sent ++ [(key, l)]
            totalSend := r.totalSend + 1 } hr
          exact ⟨n + 1, hn.cons hd hs ⟨rfl, rfl, rfl, rfl⟩⟩
      · rw [forEachSend_noData send key es hd]
        exact ⟨0, Nat.zero_le _, by simp, by simp, by simp, rfl, rfl, .noData key l rfl hd rfl⟩

theorem mem_items {es : List (Sigma fun _ : Bytes => LogItemPtr)} {k : Bytes} {l : LogItem} :
    (k, l) ∈ items es ↔ ⟨k, some l⟩ ∈ es := by
  simp only [items, List.mem_filterMap, Option.map_eq_some_iff, Prod.mk.injEq]
  constructor
  · rintro ⟨⟨k', v⟩, hm, l', hv, rfl, rfl⟩
    exact (show v = some l' from hv) ▸ hm
  · exact fun hm => ⟨_, hm, l, rfl, rfl, rfl⟩

theorem items_keys_sublist (es : List (Sigma fun _ : Bytes => LogItemPtr)) :
    ((items es).map Prod.fst).Sublist es.keys := by
  induction es with
  | nil => exact .slnil
  | cons e es ih =>
    obtain ⟨k, _ | l⟩ := e
    · exact ih.cons k
    · exact ih.cons_cons k

/-! ## Erasing -/

/-- An entry that the round erases, with the clock at its check. -/
def obsolete (ackTimeoutMS : ℕ) (now : Bytes → ℕ) : (Sigma fun _ : Bytes => LogItemPtr) → Bool
  | ⟨key, some l⟩ => ackTimeoutMS < l.ageMS (now key)
  | ⟨_, none⟩ => false

/-- The ages of the items fit into an `int`. -/
def AgesFit (d : Resender) (now : Bytes → ℕ) : Prop :=
  ∀ k l, d.dataCache.lookup k = some (some l) → l.ageMS (now k) < 2147483648

variable {d : Resender} (bak again : MapCopy LogItemPtr) {now : Bytes → ℕ}
  (send : ℕ → SendOutcome)

theorem checkItemAge_eq_obsolete (h : d.AgesFit now) {e : Sigma fun _ : Bytes => LogItemPtr}
    (he : e ∈ d.dataCache.entries) :
    LogItem.checkItemAge d.ackTimeoutMS (now e.1) e.2 = obsolete d.ackTimeoutMS now e := by
  obtain ⟨k, _ | l⟩ := e
  · rfl
  · exact LogItem.checkItemAge_some _ (h k l (AList.mem_lookup_iff.mpr he))

/-- **What is erased**, in the order of the map that is left. -/
theorem entries_eraseList_filterEach (h : d.AgesFit now) :
    (ConcurrentMap.eraseList d.dataCache (ConcurrentMap.filterEach (bak.copy d.dataCache)
      fun key => LogItem.checkItemAge d.ackTimeoutMS (now key))).2.entries =
    d.dataCache.entries.filter fun e => !obsolete d.ackTimeoutMS now e := by
  rw [ConcurrentMap.entries_eraseList]
  refine List.filter_congr fun e he => ?_
  rw [← Bool.decide_eq_true (b := obsolete d.ackTimeoutMS now e), ← decide_not]
  refine decide_eq_decide.mpr (not_congr ?_)
  simp only [ConcurrentMap.filterEach, List.mem_map, List.mem_filter, (bak.perm _).mem_iff]
  constructor
  · rintro ⟨e', ⟨he', hage⟩, hk⟩
    obtain rfl : e' = e := d.dataCache.nodupKeys.eq_of_fst_eq he' he hk
    rwa [← checkItemAge_eq_obsolete h he]
  · intro ho
    exact ⟨e, ⟨he, by rwa [checkItemAge_eq_obsolete h he]⟩, rfl⟩

/-- No `Send` changes the cache. -/
theorem dataCache_resendData (d : Resender) (now : Bytes → ℕ) :
    (d.resendData bak again now send).dataCache =
      (ConcurrentMap.eraseList d.dataCache (ConcurrentMap.filterEach (bak.copy d.dataCache)
        fun key => LogItem.checkItemAge d.ackTimeoutMS (now key))).2 := by
  obtain ⟨n, hn⟩ := forEachSend_cases send _ ⟨_, d.totalSend, d.ids, 0, [], none⟩ rfl
  exact hn.dataCache

/-- The cache without the entries that are too old. -/
def kept (d : Resender) (now : Bytes → ℕ) : DataCache where
  entries := d.dataCache.entries.filter fun e => !obsolete d.ackTimeoutMS now e
  nodupKeys := d.dataCache.nodupKeys.sublist List.filter_sublist

theorem lookup_kept {k : Bytes} {l : LogItem} :
    (d.kept now).lookup k = some (some l) ↔
      d.dataCache.lookup k = some (some l) ∧ l.ageMS (now k) ≤ d.ackTimeoutMS := by
  rw [← Option.mem_def, ← Option.mem_def, AList.mem_lookup_iff, AList.mem_lookup_iff, kept,
    List.mem_filter]
  simp [obsolete]

/-- **The sends of `ResendData`**: those of the items of the second copy. -/
theorem resendData_sends (h : d.AgesFit now) : ∃ n r',
    SentFirst send (items (again.copy (d.kept now)).entries)
      ⟨d.kept now, d.totalSend, d.ids, 0, [], none⟩ r' n ∧
    d.resendData bak again now send = { r' with threw := catchSocket r'.threw } := by
  have hm : (ConcurrentMap.eraseList d.dataCache (ConcurrentMap.filterEach (bak.copy d.dataCache)
      fun key => LogItem.checkItemAge d.ackTimeoutMS (now key))).2 = d.kept now :=
    AList.ext (entries_eraseList_filterEach bak h)
  obtain ⟨n, hn⟩ := forEachSend_cases send (again.copy (d.kept now)).entries
    ⟨d.kept now, d.totalSend, d.ids, 0, [], none⟩ rfl
  refine ⟨n, _, hn, ?_⟩
  simp only [resendData, hm]

/-- What one round does: the cache loses the items older than the ack timeout, and nothing else; the
items sent are distinct, and are among the others; every `Send` that returned is counted. If no
`Send` throws, all the others are sent, and a `Send` that throws ends the round. -/
structure RoundOk (d : Resender) (now : Bytes → ℕ) (send : ℕ → SendOutcome) (r : Round) : Prop where
  dataCache : r.dataCache.entries = d.dataCache.entries.filter
    fun e => !obsolete d.ackTimeoutMS now e
  totalSend : r.totalSend = d.totalSend + r.sent.length
  distinct : (r.sent.map Prod.fst).Nodup
  survives : ∀ k l, (k, l) ∈ r.sent →
    d.dataCache.lookup k = some (some l) ∧ l.ageMS (now k) ≤ d.ackTimeoutMS
  all : (∀ n < r.calls, send n = .sent) → ∀ k l, d.dataCache.lookup k = some (some l) →
    l.ageMS (now k) ≤ d.ackTimeoutMS → (k, l) ∈ r.sent
  stop : ∀ n < r.calls, ∀ e, send n = .threw e →
    r.calls = n + 1 ∧ r.sent.length = n ∧ r.threw = catchSocket (some e)

theorem mem_items_copy {k : Bytes} {l : LogItem} :
    (k, l) ∈ items (again.copy (d.kept now)).entries ↔
      d.dataCache.lookup k = some (some l) ∧ l.ageMS (now k) ≤ d.ackTimeoutMS := by
  rw [mem_items, (again.perm _).mem_iff, ← AList.mem_lookup_iff, Option.mem_def]
  exact lookup_kept

/-- A round that does not stop before an item without data does what it should. -/
theorem SentFirst.roundOk {n : ℕ} {r' : Round}
    (hn : SentFirst send (items (again.copy (d.kept now)).entries)
      ⟨d.kept now, d.totalSend, d.ids, 0, [], none⟩ r' n)
    (hdata : ∀ k l, (items (again.copy (d.kept now)).entries)[n]? = some (k, l) →
      r'.calls = n → l.item.HasData) :
    RoundOk d now send { r' with threw := catchSocket r'.threw } := by
  have hsent : r'.sent = (items (again.copy (d.kept now)).entries).take n := hn.sent
  have hlen : r'.sent.length = n := by rw [hsent, List.length_take_of_le hn.le]
  have hout : ∀ i < n, send i = .sent := fun i hi => by simpa using hn.outcome i hi
  have hbefore : ∀ i < n, ∀ e, send i ≠ .threw e := fun i hi e he => by simp [hout i hi] at he
  refine ⟨by rw [hn.dataCache]; rfl, by rw [hn.totalSend, hlen], ?_, fun k l hkl => ?_,
    fun hall k l hl hage => ?_, fun i hi e he => ?_⟩
  · exact ((items_keys_sublist _).nodup (again.copy _).nodupKeys).sublist
      (hsent ▸ (List.take_sublist _ _).map _)
  · exact (mem_items_copy again).mp (List.mem_of_mem_take (hsent ▸ hkl))
  · cases hn.stops with
    | allSent hl' =>
      change (k, l) ∈ r'.sent
      rw [hsent, hl', List.take_length]
      exact (mem_items_copy again).mpr ⟨hl, hage⟩
    | noData k x hx hd hc => exact absurd (hdata k x hx (by simpa using hc)) hd
    | sendThrew k x hx hd e he ht hc =>
      rw [hall _ (by simp only [hc]; omega)] at he
      cases he
  · have hge : n ≤ i := not_lt.mp fun hlt => hbefore i hlt e he
    cases hn.stops with
    | allSent _ _ hc => simp only [hc] at hi; omega
    | noData _ _ _ _ hc => simp only [hc] at hi; omega
    | sendThrew k x hx hd e' he' ht hc =>
      simp only [hc, Nat.zero_add] at hi he'
      obtain rfl : i = n := by omega
      rw [he] at he'
      cases he'
      exact ⟨by simpa using hc, hlen, by simp only [ht]⟩

/-- **One round** does what it should if and only if no item without data is visited before a `Send`
has failed. -/
theorem resendData_effect_iff (h : d.AgesFit now) :
    RoundOk d now send (d.resendData bak again now send) ↔
      ∀ i k l, (items (again.copy (d.kept now)).entries)[i]? = some (k, l) → ¬ l.item.HasData →
        ∃ n < i, send n ≠ .sent := by
  obtain ⟨n, r', hn, hr⟩ := resendData_sends bak again send h
  rw [hr]
  have hout : ∀ i < n, send i = .sent := fun i hi => by simpa using hn.outcome i hi
  constructor
  · intro hok i k l hi hd
    by_contra hno
    simp only [not_exists, not_and, not_not] at hno
    have hle : n ≤ i := not_lt.mp fun hlt =>
      hd (hn.hasData (k, l) (List.mem_of_getElem? (by rw [List.getElem?_take_of_lt hlt, hi])))
    cases hn.stops with
    | allSent hl => simp [← hl, hle] at hi
    | noData k' x hx hd' hc =>
      -- no `Send` has failed, and this item is not sent
      have hc' : r'.calls = n := by simpa using hc
      obtain ⟨hl, hage⟩ := (mem_items_copy again).mp (List.mem_of_getElem? hx)
      have hm : (k', x) ∈ r'.sent := hok.all (fun j hj => hout j (hc' ▸ hj)) k' x hl hage
      rw [hn.sent] at hm
      exact hd' (hn.hasData _ (by simpa using hm))
    | sendThrew k' x hx hd' e he =>
      rw [Nat.zero_add] at he
      obtain hlt | rfl := lt_or_eq_of_le hle
      · rw [hno n hlt] at he
        cases he
      · rw [hi] at hx
        cases hx
        exact hd hd'
  · intro hcond
    refine SentFirst.roundOk again send hn fun k l hx hc => ?_
    by_contra hd
    obtain ⟨j, hj, hs⟩ := hcond n k l hx hd
    exact hs (hout j hj)

/-- A cache of an item that is too old, a null item, and two younger items: `Send` throws for the
second of these. -/
def threeItems : Resender where
  ackTimeoutMS := 100
  dataCache := ((((∅ : DataCache).insert (lit "1")
    (some ⟨.ofSchemaAndData 1 (lit "s") (lit "1,[],[]"), 0⟩)).insert (lit "2")
    none).insert (lit "3")
    (some ⟨.ofSchemaAndData 3 (lit "s") (lit "1,[],[]"), 950000000⟩)).insert (lit "4")
    (some ⟨.ofSchemaAndData 4 (lit "s") (lit "1,[],[]"), 960000000⟩)
  totalSend := 7
  ids := .empty

/-- Ages at most a second fit. -/
theorem agesFit_of_second (d : Resender) : d.AgesFit fun _ => 1000000000 := by
  intro k l _
  have h : l.ageMS 1000000000 ≤ 1000000000 / 1000000 := Nat.div_le_div_right (Nat.sub_le _ _)
  exact lt_of_le_of_lt h (by decide)

theorem resendData_effect_iff_threeItems :
    let send := fun n => if n = 0 then SendOutcome.sent else .threw (.socketException 32 [])
    let r := threeItems.resendData (.inOrder _) (.inOrder _) (fun _ => 1000000000) send
    RoundOk threeItems (fun _ => 1000000000) send r ∧ r.sent.length = 1 := by
  intro send r
  refine ⟨(resendData_effect_iff (.inOrder _) (.inOrder _) send
    (agesFit_of_second threeItems)).mpr fun i k l hi hd => ?_, by decide⟩
  have hall : ∀ e ∈ items ((MapCopy.inOrder _).copy
      (threeItems.kept fun _ => 1000000000)).entries, e.2.item.HasData := by decide
  exact absurd (hall _ (List.mem_of_getElem? hi)) hd

/-- A cache of an item without fields, visited first, and a complete one. -/
def fieldlessFirst : Resender where
  ackTimeoutMS := 100
  dataCache := ((∅ : DataCache).insert (lit "2")
    (some ⟨.ofSchemaAndData 2 (lit "s") (lit "1,[],[]"), 960000000⟩)).insert (lit "1")
    (some ⟨.ofSource 1 (lit "s"), 950000000⟩)
  totalSend := 0
  ids := .empty

/-- No `Send` fails, and the complete item is not sent: `GetData` throws for the other. -/
theorem resendData_fieldlessFirst :
    fieldlessFirst.AgesFit (fun _ => 1000000000) ∧
      (fieldlessFirst.resendData (.inOrder _) (.inOrder _) (fun _ => 1000000000)
        fun _ => .sent).sent = [] ∧
      ¬ RoundOk fieldlessFirst (fun _ => 1000000000) (fun _ => .sent)
        (fieldlessFirst.resendData (.inOrder _) (.inOrder _) (fun _ => 1000000000)
          fun _ => .sent) := by
  refine ⟨agesFit_of_second _, by decide, fun hok => ?_⟩
  have hm := hok.all (fun _ _ => rfl) (lit "2")
    ⟨.ofSchemaAndData 2 (lit "s") (lit "1,[],[]"), 960000000⟩ (by decide) (by decide)
  revert hm
  decide

/-- `ResendOnce` does what `ResendData` does, but no exception leaves it: with an empty cache there
is nothing to do. -/
theorem resendOnce_eq (d : Resender) (now : Bytes → ℕ) :
    d.resendOnce bak again now send = { d.resendData bak again now send with threw := none } := by
  unfold resendOnce
  split
  · rfl
  · rename_i h
    have he : d.dataCache = ∅ := AList.ext (List.map_eq_nil_iff.mp
      (List.length_eq_zero_iff.mp (Nat.eq_zero_of_not_pos h)))
    have hbak : (bak.copy ∅).entries = [] := (bak.perm ∅).eq_nil
    have hagain : (again.copy ∅).entries = [] := (again.perm ∅).eq_nil
    simp [resendData, he, hbak, hagain, ConcurrentMap.filterEach, ConcurrentMap.eraseList,
      forEachSend]

end Resender

namespace Backup

/-! ## The round among the steps of the background threads -/

/-- A step of the resender. -/
def OwnStep (_ : Backup) (s : BackupStep) : Prop := ∃ r, s = .resender r

variable {b : Backup}

/-- The entry to be visited next, wherever it stands in the cache. -/
theorem exists_index {V : Type*} {e : V} {order l : List V} (h : (e :: order).Perm l) :
    ∃ i : ℕ, l[i]? = some e ∧ order.Perm (l.eraseIdx i) := by
  obtain ⟨i, hi⟩ := List.getElem?_of_mem (h.mem_iff.mp List.mem_cons_self)
  exact ⟨i, hi, (List.perm_eraseIdx_of_getElem?_eq (m := 0) hi.symm).mpr h⟩

/-- `FilterEach`, in any order. -/
theorem reach_filter (order l : List (Bytes × LogItemPtr)) (keys : List (Bytes × ℕ))
    (hl : order.Perm l) : ∃ keys' : List (Bytes × ℕ),
      Reach step OwnStep { b with resender := .filter l keys }
        { b with resender := .filter [] keys' } ∧
      keys'.map Prod.fst = keys.map Prod.fst ++
        (order.filter fun e => LogItem.checkItemAge b.ackTimeoutMS b.clock e.2).map Prod.fst := by
  induction order generalizing l keys with
  | nil =>
    obtain rfl := hl.nil_eq
    exact ⟨keys, .init, by simp⟩
  | cons e order ih =>
    obtain ⟨i, hi, hp⟩ := exists_index hl
    obtain ⟨key, _ | item⟩ := e
    · obtain ⟨keys', hr, hk⟩ := ih _ keys hp
      refine ⟨keys', (Reach.init.step ⟨.check i, rfl⟩ ?_).trans hr, ?_⟩
      · simp [step, resenderStep, hi]
      · simpa [LogItem.checkItemAge] using hk
    · obtain ⟨keys', hr, hk⟩ := ih _
        (if LogItem.checkItemAge b.ackTimeoutMS b.clock (some item) then
          keys ++ [(key, item.ageMS b.clock)] else keys) hp
      refine ⟨keys', (Reach.init.step ⟨.check i, rfl⟩ ?_).trans hr, ?_⟩
      · simp [step, resenderStep, hi]
      · rw [hk, List.filter_cons]
        split <;> simp

/-- `ForEachUnsafe`, in any order; the server gets the items whose `Send` returns. -/
theorem reach_send (send : ℕ → SendOutcome) (es : List (Sigma fun _ : Bytes => LogItemPtr))
    (l : List (Bytes × LogItemPtr)) (hl : (es.map fun e => (e.1, e.2)).Perm l)
    (r : Resender.Round) (hr : r.threw = none) : ∃ b',
      Reach step OwnStep { b with
        resender := .send l
        totalSend := r.totalSend
        received := b.received ++ r.sent.map fun e => e.2.item.tag } b' ∧
      b'.resender = .wait ∧ b'.dataCache = b.dataCache ∧
      b'.totalSend = (Resender.forEachSend send es r).totalSend ∧
      b'.received = b.received ++
        (Resender.forEachSend send es r).sent.map fun e => e.2.item.tag := by
  induction es generalizing l r with
  | nil =>
    obtain rfl := hl.nil_eq
    exact ⟨_, Reach.init.step ⟨.done, rfl⟩ rfl, rfl, rfl, rfl, rfl⟩
  | cons e es ih =>
    obtain ⟨i, hi, hp⟩ := exists_index hl
    obtain ⟨key, _ | item⟩ := e
    · obtain ⟨b', hb', h⟩ := ih _ hp r hr
      refine ⟨b', (Reach.init.step ⟨.send i true true, rfl⟩ ?_).trans hb', ?_⟩
      · simp [step, resenderStep, hi]
      · simpa [Resender.forEachSend, Resender.sendItem, hr] using h
    · -- an exception, of `GetData` or of `Send`
      have hstop : Reach step OwnStep
          { b with
            resender := .send l
            totalSend := r.totalSend
            received := b.received ++ r.sent.map fun e => e.2.item.tag }
          { b with
            resender := .wait
            totalSend := r.totalSend
            received := b.received ++ r.sent.map fun e => e.2.item.tag } :=
        Reach.init.step ⟨.send i false false, rfl⟩ (by simp [step, resenderStep, hi])
      by_cases hd : item.item.HasData
      · cases hs : send r.calls with
        | threw ex =>
          obtain ⟨ids, he⟩ := Resender.forEachSend_threw key es hd hs
          rw [he]
          exact ⟨_, hstop, rfl, rfl, rfl, rfl⟩
        | sent =>
          obtain ⟨ids, he⟩ := Resender.forEachSend_sent key es hr hd hs
          rw [he]
          obtain ⟨b', hb', h⟩ := ih _ hp { r with
            ids := ids
            calls := r.calls + 1
            sent := r.sent ++ [(key, item)]
            totalSend := r.totalSend + 1 } hr
          refine ⟨b', (Reach.init.step ⟨.send i true true, rfl⟩ ?_).trans hb', h⟩
          simp [step, resenderStep, hi, deliver]
      · rw [Resender.forEachSend_noData send key es hd]
        exact ⟨_, hstop, rfl, rfl, rfl, rfl⟩

/-- **The round is one of the runs of the resender** in which no other thread steps in and the clock
stands still. -/
theorem reach_resendData (hb : b.resender = .copy) (bak again : MapCopy LogItemPtr)
    (ids : IdMgr) (send : ℕ → SendOutcome) : ∃ b', Reach step OwnStep b b' ∧ b'.resender = .wait ∧
      let r := Resender.resendData ⟨b.ackTimeoutMS, b.dataCache, b.totalSend, ids⟩ bak again
        (fun _ => b.clock) send
      b'.dataCache = r.dataCache ∧ b'.totalSend = r.totalSend ∧
        b'.received = b.received ++ r.sent.map fun e => e.2.item.tag := by
  obtain ⟨keys', hf, hk⟩ := reach_filter (b := b)
    ((bak.copy b.dataCache).entries.map fun e => (e.1, e.2)) b.entries []
    ((bak.perm b.dataCache).map _)
  have hkeys : keys'.map Prod.fst = ConcurrentMap.filterEach (bak.copy b.dataCache) fun _ =>
      LogItem.checkItemAge b.ackTimeoutMS b.clock := by
    rw [hk, List.filter_map, List.map_map]
    rfl
  have hcopy : b.step (.resender .copy) = some { b with resender := .filter b.entries [] } := by
    simp [step, resenderStep, hb]
  let b₁ : Backup := { b with
    dataCache := (ConcurrentMap.eraseList b.dataCache (keys'.map Prod.fst)).2
    ledger := b.ledger.removeAll (keys'.map fun k => (k.1, .expired k.2)) }
  obtain ⟨b', hs, hw, hm, ht, hrec⟩ := reach_send (b := b₁) send
    (again.copy b₁.dataCache).entries b₁.entries ((again.perm b₁.dataCache).map _)
    ⟨b₁.dataCache, b.totalSend, ids, 0, [], none⟩ rfl
  have hstart : Reach step OwnStep b
      { b₁ with
        resender := .send b₁.entries
        totalSend := b.totalSend
        received := b.received ++ [] } := by
    rw [List.append_nil]
    exact (((Reach.init.step ⟨.copy, rfl⟩ hcopy).trans hf).step ⟨.erase, rfl⟩ rfl).step
      ⟨.copyAgain, rfl⟩ rfl
  refine ⟨b', hstart.trans hs, hw, ?_⟩
  simp only [b₁, hkeys] at hm ht hrec
  exact ⟨by rw [Resender.dataCache_resendData]; exact hm, ht, hrec⟩

end Backup

end Outmdsd
