import Outmdsd.Logger.Backup

/-!
# The socket logger

Any number of `SendDjson` calls, the reader and the resender share the backup cache. Each access of
a call to the cache, and its send, is one step. In every run in which the server acks only what it
received and no fragment of a cut line meets a success ack, the cache holds what was added and not
removed by an ack, by age, or by the call whose send failed (`cache_conserved`).
-/

namespace Outmdsd

open DataReader

/-- Where a call of `SendDjson` is. -/
inductive CallPc
  | idle
  /-- The item is built, the workers are not started yet. -/
  | constructed (l : LogItem)
  | started (l : LogItem)
  | touched (l : LogItem)
  /-- After `Add`. -/
  | added (tag : Bytes)
  /-- After the first `Get`. -/
  | got (tag : Bytes)
  /-- After the second `Get`, inside the `try` block. -/
  | gotAgain (tag : Bytes) (l : LogItem)
  /-- In the `catch` block, before `Erase`. -/
  | failing (tag : Bytes)
  /-- Returned, with the tag of the item if one was built. -/
  | returned (tag : Option Bytes) (result : Bool)
  deriving DecidableEq

/-- A step of a call of `SendDjson`. -/
inductive CallStep
  | begin (sourceName schemaAndData : Bytes)
  /-- `std::call_once(StartWorkers)`, which may fail to start a thread. -/
  | startWorkers (ok : Bool)
  | touch
  | add
  | get
  | getAgain
  /-- `GetData` and `Send`: whether `Send` returns, and whether the server gets the message. -/
  | send (ok delivered : Bool)
  | erase

/-- A socket logger with its calls. -/
structure SocketLogger where
  backup : Backup
  /-- `LogItem::s_counter` -/
  counter : ℕ
  totalSend : ℕ
  pc : ℕ → CallPc

namespace SocketLogger

/-- A step of the system: of a call, of a background thread, or the building of other items. -/
inductive Label
  | call (c : ℕ) (a : CallStep)
  | backup (b : BackupStep)
  | otherItems (n : ℕ)

/-- A new logger. -/
def init (ackTimeoutMS : ℕ) : SocketLogger := ⟨.init ackTimeoutMS, 0, 0, fun _ => .idle⟩

/-- Move a call on. -/
def setPc (s : SocketLogger) (c : ℕ) (pc : CallPc) : SocketLogger :=
  { s with pc := Function.update s.pc c pc }

/-- A step of the call `c`. -/
def callStep (s : SocketLogger) (c : ℕ) (a : CallStep) : Option SocketLogger :=
  match s.pc c, a with
  | .idle, .begin sourceName schemaAndData =>
    if sourceName = [] then some (s.setPc c (.returned none false))
    else if schemaAndData = [] then some (s.setPc c (.returned none false))
    else
      let item := DjsonLogItem.ofSchemaAndData (s.counter + 1) sourceName schemaAndData
      some ({ s with counter := s.counter + 1 }.setPc c (.constructed ⟨item, s.backup.clock⟩))
  | .constructed l, .startWorkers ok =>
    some (s.setPc c (if ok then .started l else .returned (some l.item.tag) false))
  | .started l, .touch => some (s.setPc c (.touched (l.touch s.backup.clock)))
  | .touched l, .add =>
    match s.backup.add l.item.tag l with
    | .error _ => some (s.setPc c (.returned (some l.item.tag) false))
    | .ok b => some ({ s with backup := b }.setPc c (.added l.item.tag))
  | .added tag, .get =>
    match ConcurrentMap.get s.backup.dataCache tag with
    | .error _ => some (s.setPc c (.returned (some tag) false))
    | .ok _ => some (s.setPc c (.got tag))
  | .got tag, .getAgain =>
    match ConcurrentMap.get s.backup.dataCache tag with
    | .error _ => some (s.setPc c (.failing tag))
    | .ok none => none
    | .ok (some l) => some (s.setPc c (.gotAgain tag l))
  | .gotAgain tag l, .send ok delivered =>
    -- `GetData` only composes the message: the item has a text of schema and data
    let s := if delivered then { s with backup := s.backup.deliver l.item.tag } else s
    some (if ok then { s with totalSend := s.totalSend + 1 }.setPc c (.returned (some tag) true)
      else s.setPc c (.failing tag))
  | .failing tag, .erase =>
    some ({ s with backup := s.backup.eraseFailed tag }.setPc c (.returned (some tag) false))
  | _, _ => none

/-- A step of the system. -/
def step (s : SocketLogger) : Label → Option SocketLogger
  | .call c a => s.callStep c a
  | .backup bs => (s.backup.step bs).map fun b => { s with backup := b }
  | .otherItems n => some { s with counter := s.counter + n }

/-- The server acks only tags of messages it has received. -/
def Honest (s : SocketLogger) : Label → Prop
  | .backup bs => s.backup.Honest bs
  | _ => True

/-- No fragment of a cut line meets a success ack. -/
def NoStale (s : SocketLogger) : Label → Prop
  | .backup bs => s.backup.NoStale bs
  | _ => True

instance (s : SocketLogger) : ∀ l, Decidable (s.Honest l)
  | .backup bs => inferInstanceAs (Decidable (s.backup.Honest bs))
  | .call _ _ => inferInstanceAs (Decidable True)
  | .otherItems _ => inferInstanceAs (Decidable True)

instance (s : SocketLogger) : ∀ l, Decidable (s.NoStale l)
  | .backup bs => inferInstanceAs (Decidable (s.backup.NoStale bs))
  | .call _ _ => inferInstanceAs (Decidable True)
  | .otherItems _ => inferInstanceAs (Decidable True)

end SocketLogger

/-! ## The invariant -/

namespace CallPc

/-- The tag of the item of a call. -/
def tag? : CallPc → Option Bytes
  | .idle => none
  | .constructed l => some l.item.tag
  | .started l => some l.item.tag
  | .touched l => some l.item.tag
  | .added tag => some tag
  | .got tag => some tag
  | .gotAgain tag _ => some tag
  | .failing tag => some tag
  | .returned tag _ => tag

/-- The tag was added, and not removed as failed. -/
def Held (L : Ledger Bytes Reason) (tag : Bytes) : Prop :=
  tag ∈ L.added ∧ (tag, Reason.failed) ∉ L.removed

/-- What the position of a call says about the ledger. -/
def Ok (L : Ledger Bytes Reason) : CallPc → Prop
  | .idle => True
  | .constructed l => l.item.tag ∉ L.added
  | .started l => l.item.tag ∉ L.added
  | .touched l => l.item.tag ∉ L.added
  | .added tag => Held L tag
  | .got tag => Held L tag
  | .gotAgain tag l => Held L tag ∧ l.item.tag = tag
  | .failing tag => Held L tag
  | .returned none _ => True
  | .returned (some tag) true => Held L tag
  | .returned (some tag) false => ¬ L.Live tag

variable {L L' : Ledger Bytes Reason}

/-- A change of the ledger that does not concern a tag: it is neither added nor removed as failed,
and does not become live. -/
structure Keeps (L L' : Ledger Bytes Reason) (tag : Bytes) : Prop where
  added_iff : tag ∈ L'.added ↔ tag ∈ L.added
  failed_iff : (tag, Reason.failed) ∈ L'.removed ↔ (tag, Reason.failed) ∈ L.removed
  live : L'.Live tag → L.Live tag

theorem Keeps.held {tag : Bytes} (h : Keeps L L' tag) : Held L' tag ↔ Held L tag :=
  and_congr h.added_iff (not_congr h.failed_iff)

theorem Ok.keeps {pc : CallPc} (h : pc.Ok L) (hk : ∀ tag, pc.tag? = some tag → Keeps L L' tag) :
    pc.Ok L' := by
  cases pc with
  | idle => trivial
  | constructed l | started l | touched l => exact fun ha => h ((hk _ rfl).added_iff.mp ha)
  | added tag | got tag | failing tag => exact (hk _ rfl).held.mpr h
  | gotAgain tag l => exact ⟨(hk _ rfl).held.mpr h.1, h.2⟩
  | returned tag result =>
    cases tag with
    | none => trivial
    | some tag =>
      cases result with
      | true => exact (hk _ rfl).held.mpr h
      | false => exact fun hl => h ((hk _ rfl).live hl)

theorem keeps_removeAll {l : List (Bytes × Reason)} {tag : Bytes} (h : (tag, Reason.failed) ∉ l) :
    Keeps L (L.removeAll l) tag where
  added_iff := Iff.rfl
  failed_iff := by simp [h]
  live hl := (Ledger.live_removeAll.mp hl).1

theorem keeps_add {tag tag' : Bytes} (h : tag ≠ tag') : Keeps L (L.add tag') tag where
  added_iff := by simp [h]
  failed_iff := Iff.rfl
  live hl := ⟨by simpa [h] using hl.1, hl.2⟩

end CallPc

namespace SocketLogger

open CallPc

/-- The background threads keep theirs, every call has a tag of its own, and each is where the
ledger allows it. -/
structure Inv (s : SocketLogger) : Prop where
  backup : s.backup.Inv
  numbered : ∀ c tag, (s.pc c).tag? = some tag → ∃ n ≤ s.counter, tag = toDec n
  distinct : ∀ c c' tag, (s.pc c).tag? = some tag → (s.pc c').tag? = some tag → c = c'
  owned : ∀ tag ∈ s.backup.ledger.added, ∃ c, (s.pc c).tag? = some tag
  pcOk : ∀ c, (s.pc c).Ok s.backup.ledger
  failed : ∀ tag, (tag, Reason.failed) ∈ s.backup.ledger.removed →
    ∃ c, s.pc c = .returned (some tag) false

theorem inv_init (ackTimeoutMS : ℕ) : (init ackTimeoutMS).Inv where
  backup := Backup.inv_init ackTimeoutMS
  numbered := by simp [init, tag?]
  distinct := by simp [init, tag?]
  owned := by simp [init, Backup.init, Ledger.empty]
  pcOk _ := trivial
  failed := by simp [init, Backup.init, Ledger.empty]

variable {s s' : SocketLogger} {c : ℕ}

/-! ### The tags of the calls -/

/-- The tags of the calls are numbers up to the counter, and each is that of one call. -/
structure TagsOk (pc : ℕ → CallPc) (counter : ℕ) : Prop where
  numbered : ∀ c tag, (pc c).tag? = some tag → ∃ n ≤ counter, tag = toDec n
  distinct : ∀ c c' tag, (pc c).tag? = some tag → (pc c').tag? = some tag → c = c'

namespace TagsOk

variable {pc : ℕ → CallPc} {counter : ℕ} {p : CallPc}

/-- The next tag was never used. -/
theorem fresh (h : TagsOk pc counter) (c : ℕ) : (pc c).tag? ≠ some (toDec (counter + 1)) := by
  intro hc
  obtain ⟨n, hn, he⟩ := h.numbered c _ hc
  have := toDec_injective he
  omega

theorem tag?_update (ht : p.tag? = (pc c).tag?) (c' : ℕ) :
    (Function.update pc c p c').tag? = (pc c').tag? :=
  (Function.forall_update_iff pc fun c' p => p.tag? = (pc c').tag?).mpr ⟨ht, fun _ _ => rfl⟩ c'

/-- A call goes on with its tag. -/
theorem update (h : TagsOk pc counter) (ht : p.tag? = (pc c).tag?) :
    TagsOk (Function.update pc c p) counter where
  numbered c' tag hc := h.numbered c' tag ((tag?_update ht c').symm.trans hc)
  distinct c₁ c₂ tag h₁ h₂ :=
    h.distinct c₁ c₂ tag ((tag?_update ht c₁).symm.trans h₁) ((tag?_update ht c₂).symm.trans h₂)

/-- A call begins, with the next tag. -/
theorem update_next (h : TagsOk pc counter) (ht : p.tag? = some (toDec (counter + 1))) :
    TagsOk (Function.update pc c p) (counter + 1) := by
  have htags : ∀ c' tag, (Function.update pc c p c').tag? = some tag →
      (c' = c ∧ tag = toDec (counter + 1)) ∨ (pc c').tag? = some tag := by
    intro c' tag hc
    by_cases he : c' = c
    · subst he
      rw [Function.update_self, ht] at hc
      exact .inl ⟨rfl, (Option.some.inj hc).symm⟩
    · rw [Function.update_of_ne he] at hc
      exact .inr hc
  refine ⟨fun c' tag hc => ?_, fun c₁ c₂ tag h₁ h₂ => ?_⟩
  · rcases htags c' tag hc with ⟨-, rfl⟩ | hold
    · exact ⟨counter + 1, le_rfl, rfl⟩
    · obtain ⟨n, hn, he⟩ := h.numbered c' tag hold
      exact ⟨n, Nat.le_succ_of_le hn, he⟩
  · rcases htags c₁ tag h₁ with ⟨e₁, he₁⟩ | o₁ <;> rcases htags c₂ tag h₂ with ⟨e₂, he₂⟩ | o₂
    · rw [e₁, e₂]
    · exact absurd (he₁ ▸ o₂) (h.fresh c₂)
    · exact absurd (he₂ ▸ o₁) (h.fresh c₁)
    · exact h.distinct c₁ c₂ tag o₁ o₂

end TagsOk

theorem Inv.tagsOk (h : s.Inv) : TagsOk s.pc s.counter := ⟨h.numbered, h.distinct⟩

/-! ### What a step of a call does -/

/-- The steps of the call `c`, by what they do. -/
inductive CallMove (s : SocketLogger) (c : ℕ) : CallStep → SocketLogger → Prop
  | reject {sourceName schemaAndData : Bytes} (hpc : s.pc c = .idle) :
    CallMove s c (.begin sourceName schemaAndData) (s.setPc c (.returned none false))
  | construct {sourceName schemaAndData : Bytes} (hpc : s.pc c = .idle) :
    CallMove s c (.begin sourceName schemaAndData)
      ({ s with counter := s.counter + 1 }.setPc c (.constructed
        ⟨.ofSchemaAndData (s.counter + 1) sourceName schemaAndData, s.backup.clock⟩))
  | notStarted {l : LogItem} (hpc : s.pc c = .constructed l) :
    CallMove s c (.startWorkers false) (s.setPc c (.returned (some l.item.tag) false))
  | started {l : LogItem} (hpc : s.pc c = .constructed l) :
    CallMove s c (.startWorkers true) (s.setPc c (.started l))
  | touch {l : LogItem} (hpc : s.pc c = .started l) :
    CallMove s c .touch (s.setPc c (.touched (l.touch s.backup.clock)))
  | notAdded {l : LogItem} (hpc : s.pc c = .touched l) :
    CallMove s c .add (s.setPc c (.returned (some l.item.tag) false))
  | add {l : LogItem} {b : Backup} (hpc : s.pc c = .touched l)
      (hb : s.backup.add l.item.tag l = .ok b) :
    CallMove s c .add ({ s with backup := b }.setPc c (.added l.item.tag))
  | notFound {tag : Bytes} {e : Exn} (hpc : s.pc c = .added tag)
      (hg : ConcurrentMap.get s.backup.dataCache tag = .error e) :
    CallMove s c .get (s.setPc c (.returned (some tag) false))
  | get {tag : Bytes} (hpc : s.pc c = .added tag) : CallMove s c .get (s.setPc c (.got tag))
  | notFoundAgain {tag : Bytes} (hpc : s.pc c = .got tag) :
    CallMove s c .getAgain (s.setPc c (.failing tag))
  | getAgain {tag : Bytes} {l : LogItem} (hpc : s.pc c = .got tag)
      (hg : ConcurrentMap.get s.backup.dataCache tag = .ok (some l)) :
    CallMove s c .getAgain (s.setPc c (.gotAgain tag l))
  | sent {tag : Bytes} {l : LogItem} {delivered : Bool} (hpc : s.pc c = .gotAgain tag l) :
    CallMove s c (.send true delivered)
      ({ s with
        backup := if delivered then s.backup.deliver l.item.tag else s.backup
        totalSend := s.totalSend + 1 }.setPc c (.returned (some tag) true))
  | threw {tag : Bytes} {l : LogItem} {delivered : Bool} (hpc : s.pc c = .gotAgain tag l) :
    CallMove s c (.send false delivered)
      ({ s with
        backup := if delivered then s.backup.deliver l.item.tag else s.backup }.setPc c
          (.failing tag))
  | erase {tag : Bytes} (hpc : s.pc c = .failing tag) :
    CallMove s c .erase
      ({ s with backup := s.backup.eraseFailed tag }.setPc c (.returned (some tag) false))

theorem callMove {a : CallStep} (hs : s.callStep c a = some s') : CallMove s c a s' := by
  unfold callStep at hs
  split at hs
  case h_1 hpc =>
    split at hs
    · cases hs
      exact .reject hpc
    · split at hs <;> cases hs
      · exact .reject hpc
      · exact .construct hpc
  case h_2 ok hpc =>
    cases hs
    cases ok
    · exact .notStarted hpc
    · exact .started hpc
  case h_3 hpc =>
    cases hs
    exact .touch hpc
  case h_4 hpc =>
    split at hs
    · cases hs
      exact .notAdded hpc
    · rename_i b hb
      cases hs
      exact .add hpc hb
  case h_5 hpc =>
    split at hs
    · rename_i e hg
      cases hs
      exact .notFound hpc hg
    · cases hs
      exact .get hpc
  case h_6 hpc =>
    split at hs
    · cases hs
      exact .notFoundAgain hpc
    · cases hs
    · rename_i l hg
      cases hs
      exact .getAgain hpc hg
  case h_7 ok delivered hpc =>
    cases hs
    cases ok
    · cases delivered <;> exact .threw hpc
    · cases delivered <;> exact .sent hpc
  case h_8 hpc =>
    cases hs
    exact .erase hpc
  case h_9 => cases hs

/-! ### What the calls keep -/

/-- A step of a call that has its item already. -/
theorem Inv.move (h : s.Inv) {b : Backup} {pc : CallPc} (totalSend : ℕ) (hb : b.Inv)
    (htag : pc.tag? = (s.pc c).tag?) (hreturned : ∀ tag, s.pc c ≠ .returned tag false)
    (hok : pc.Ok b.ledger)
    (hkeeps : ∀ tag, (s.pc c).tag? ≠ some tag → Keeps s.backup.ledger b.ledger tag)
    (hfailed : ∀ tag, (s.pc c).tag? = some tag → (tag, Reason.failed) ∈ b.ledger.removed →
      pc = .returned (some tag) false) :
    Inv ({ s with backup := b, totalSend := totalSend }.setPc c pc) := by
  have hkeeps' : ∀ tag, Keeps s.backup.ledger b.ledger tag ∨ (s.pc c).tag? = some tag := by
    intro tag
    by_cases ht : (s.pc c).tag? = some tag
    · exact .inr ht
    · exact .inl (hkeeps tag ht)
  have htags := h.tagsOk.update htag
  refine ⟨hb, htags.numbered, htags.distinct, fun tag ha => ?_,
    (Function.forall_update_iff s.pc fun _ pc => pc.Ok b.ledger).mpr ⟨hok, fun c' hc => ?_⟩,
    fun tag hf => ?_⟩
  · rcases hkeeps' tag with hk | ht
    · obtain ⟨c', hc'⟩ := h.owned tag (hk.added_iff.mp ha)
      exact ⟨c', (TagsOk.tag?_update htag c').trans hc'⟩
    · exact ⟨c, (TagsOk.tag?_update htag c).trans ht⟩
  · exact (h.pcOk c').keeps fun tag ht => hkeeps tag fun ht' => hc (h.distinct c' c tag ht ht')
  · by_cases ht : (s.pc c).tag? = some tag
    · exact ⟨c, by rw [← hfailed tag ht hf]; exact Function.update_self ..⟩
    · obtain ⟨c', hc'⟩ := h.failed tag ((hkeeps tag ht).failed_iff.mp hf)
      have hne : c' ≠ c := by
        rintro rfl
        exact hreturned (some tag) hc'
      exact ⟨c', (Function.update_of_ne hne _ _).trans hc'⟩

/-- A step of a call that leaves the cache alone. -/
theorem Inv.stay (h : s.Inv) {pc : CallPc} (totalSend : ℕ) (htag : pc.tag? = (s.pc c).tag?)
    (hreturned : ∀ tag, s.pc c ≠ .returned tag false) (hok : pc.Ok s.backup.ledger)
    (hfailed : ∀ tag, (s.pc c).tag? = some tag →
      (tag, Reason.failed) ∉ s.backup.ledger.removed) :
    Inv ({ s with totalSend := totalSend }.setPc c pc) :=
  h.move totalSend h.backup htag hreturned hok (fun _ _ => ⟨Iff.rfl, Iff.rfl, id⟩)
    fun tag ht hf => absurd hf (hfailed tag ht)

/-- The tag of a call that has not added its item was not removed. -/
theorem Inv.not_removed (h : s.Inv) {tag : Bytes} {r : Reason} (ht : tag ∉ s.backup.ledger.added) :
    (tag, r) ∉ s.backup.ledger.removed := fun hr => ht (h.backup.sound tag r hr)

/-- The next tag was never added. -/
theorem Inv.new_tag (h : s.Inv) : toDec (s.counter + 1) ∉ s.backup.ledger.added := fun ha => by
  obtain ⟨c, hc⟩ := h.owned _ ha
  exact h.tagsOk.fresh c hc

/-- `SendDjson` builds its item. -/
theorem Inv.construct (h : s.Inv) {l : LogItem} (hidle : s.pc c = .idle)
    (hl : l.item.tag = toDec (s.counter + 1)) :
    Inv ({ s with counter := s.counter + 1 }.setPc c (.constructed l)) := by
  have htags := h.tagsOk.update_next (c := c) (p := .constructed l) (congrArg some hl)
  -- the call was idle: what is known of another call is not about it
  have hother : ∀ c', s.pc c' ≠ .idle → Function.update s.pc c (.constructed l) c' = s.pc c' := by
    intro c' hc'
    have hne : c' ≠ c := by
      rintro rfl
      exact hc' hidle
    exact Function.update_of_ne hne _ _
  refine ⟨h.backup, htags.numbered, htags.distinct, fun tag ha => ?_,
    (Function.forall_update_iff s.pc fun _ pc => pc.Ok s.backup.ledger).mpr
      ⟨?_, fun c' _ => h.pcOk c'⟩, fun tag hf => ?_⟩
  · obtain ⟨c', hc'⟩ := h.owned tag ha
    have hne : s.pc c' ≠ .idle := fun he => by simp [he, tag?] at hc'
    exact ⟨c', (congrArg tag? (hother c' hne)).trans hc'⟩
  · change l.item.tag ∉ _
    rw [hl]
    exact h.new_tag
  · obtain ⟨c', hc'⟩ := h.failed tag hf
    exact ⟨c', (hother c' (by simp [hc'])).trans hc'⟩

/-- The tags of the calls are not empty. -/
theorem Inv.tag_ne_nil (h : s.Inv) {tag : Bytes} (ht : (s.pc c).tag? = some tag) : tag ≠ [] := by
  obtain ⟨n, -, rfl⟩ := h.numbered c tag ht
  exact toDec_ne_nil n

/-- A tag of a call that `Get` does not find is not live. -/
theorem Inv.not_live_of_get (h : s.Inv) {tag : Bytes} {e : Exn} (ht : (s.pc c).tag? = some tag)
    (hg : ConcurrentMap.get s.backup.dataCache tag = .error e) : ¬ s.backup.ledger.Live tag := by
  rw [← h.backup.mem_iff]
  exact ConcurrentMap.notMem_of_get (h.tag_ne_nil ht) hg

/-- `Send`, whether it returns or throws, and whether or not the server gets the message. -/
theorem Inv.send (h : s.Inv) (totalSend : ℕ) {tag : Bytes} {l : LogItem} {delivered : Bool}
    {pc : CallPc} (hpc : s.pc c = .gotAgain tag l) (ht : pc.tag? = some tag)
    (hok : Held s.backup.ledger tag → pc.Ok s.backup.ledger) :
    Inv ({ s with
      backup := if delivered then s.backup.deliver l.item.tag else s.backup
      totalSend := totalSend }.setPc c pc) := by
  have hheld := h.pcOk c
  rw [hpc] at hheld
  have hl : (if delivered then s.backup.deliver l.item.tag else s.backup).ledger =
      s.backup.ledger := by cases delivered <;> rfl
  have hb : (if delivered then s.backup.deliver l.item.tag else s.backup).Inv := by
    cases delivered
    · exact h.backup
    · refine h.backup.deliver ?_
      rw [hheld.2]
      exact hheld.1.1
  refine h.move totalSend hb (by rw [hpc, ht]; rfl) (by simp [hpc]) (hl ▸ hok hheld.1) ?_ ?_
  · intro tag' _
    rw [hl]
    exact ⟨Iff.rfl, Iff.rfl, id⟩
  · intro tag' ht' hf
    rw [hpc] at ht'
    cases ht'
    rw [hl] at hf
    exact absurd hf hheld.1.2

theorem Inv.callStep (h : s.Inv) {a : CallStep} (hs : s.callStep c a = some s') : s'.Inv := by
  have hok := h.pcOk c
  cases callMove hs with
  | reject hpc =>
    exact h.stay s.totalSend (by rw [hpc]; rfl) (by simp [hpc]) trivial (by simp [hpc, tag?])
  | construct hpc => exact h.construct hpc rfl
  | notStarted hpc =>
    rw [hpc] at hok
    exact h.stay s.totalSend (by rw [hpc]; rfl) (by simp [hpc]) (fun hl => hok hl.1) (by
      simpa [hpc, tag?] using h.not_removed hok)
  | started hpc | touch hpc =>
    rw [hpc] at hok
    exact h.stay s.totalSend (by rw [hpc]; rfl) (by simp [hpc]) hok (by
      simpa [hpc, tag?] using h.not_removed hok)
  | notAdded hpc =>
    rw [hpc] at hok
    exact h.stay s.totalSend (by rw [hpc]; rfl) (by simp [hpc]) (fun hl => hok hl.1) (by
      simpa [hpc, tag?] using h.not_removed hok)
  | add hpc hb =>
    rw [hpc] at hok
    have hl := Backup.ledger_add hb
    refine h.move s.totalSend (h.backup.add hok hb) (by rw [hpc]; rfl)
      (by simp [hpc]) ?_ ?_ ?_
    · rw [hl]
      exact ⟨by simp, h.not_removed hok⟩
    · intro tag ht
      rw [hl]
      exact keeps_add fun e => ht (by rw [hpc, e]; rfl)
    · intro tag ht hf
      rw [hl] at hf
      rw [hpc] at ht
      cases ht
      exact absurd hf (h.not_removed hok)
  | notFound hpc hg =>
    rw [hpc] at hok
    exact h.stay s.totalSend (by rw [hpc]; rfl) (by simp [hpc])
      (h.not_live_of_get (c := c) (by rw [hpc]; rfl) hg) (by simpa [hpc, tag?] using hok.2)
  | get hpc | notFoundAgain hpc =>
    rw [hpc] at hok
    exact h.stay s.totalSend (by rw [hpc]; rfl) (by simp [hpc]) hok (by
      simpa [hpc, tag?] using hok.2)
  | getAgain hpc hg =>
    rw [hpc] at hok
    exact h.stay s.totalSend (by rw [hpc]; rfl) (by simp [hpc])
      ⟨hok, h.backup.tag_eq _ _ (ConcurrentMap.lookup_of_get hg)⟩ (by
        simpa [hpc, tag?] using hok.2)
  | sent hpc => exact h.send (s.totalSend + 1) hpc rfl fun hheld => hheld
  | threw hpc => exact h.send s.totalSend hpc rfl fun hheld => hheld
  | @erase tag hpc =>
    rw [hpc] at hok
    refine h.move s.totalSend
      (h.backup.eraseFailed hok.1 (h.tag_ne_nil (c := c) (by rw [hpc]; rfl))) (by rw [hpc]; rfl)
      (by simp [hpc]) ?_ ?_ ?_
    · intro hl
      exact Ledger.not_live_of_removed
        (List.mem_append_right _ (List.mem_singleton.mpr rfl)) hl
    · intro tag' ht
      refine keeps_removeAll fun hm => ht ?_
      rw [hpc, (Prod.mk.inj (List.mem_singleton.mp hm)).1]
      rfl
    · intro tag' ht _
      rw [hpc] at ht
      cases ht
      rfl

/-- **Every step keeps the invariant**, if the server is honest and no fragment meets a success
ack. -/
theorem Inv.step (h : s.Inv) {l : Label} (hh : s.Honest l) (hn : s.NoStale l)
    (hs : s.step l = some s') : s'.Inv := by
  cases l with
  | call c a => exact h.callStep hs
  | backup bs =>
    obtain ⟨b, hb, rfl⟩ := Option.map_eq_some_iff.mp hs
    obtain ⟨l, hl, hf⟩ := Backup.ledger_step hb
    have hk : ∀ tag, Keeps s.backup.ledger b.ledger tag := fun tag => by
      rw [hl]
      exact keeps_removeAll (hf tag)
    exact ⟨h.backup.step hh hn hb, h.numbered, h.distinct,
      fun tag ha => h.owned tag ((hk tag).added_iff.mp ha),
      fun c => (h.pcOk c).keeps fun tag _ => hk tag,
      fun tag hr => h.failed tag ((hk tag).failed_iff.mp hr)⟩
  | otherItems n =>
    cases hs
    refine ⟨h.backup, fun c tag ht => ?_, h.distinct, h.owned, h.pcOk, h.failed⟩
    obtain ⟨n', hn', he⟩ := h.numbered c tag ht
    exact ⟨n', Nat.le_add_right_of_le hn', he⟩

/-- What a step of a call does to the cache: nothing, or it adds or erases its own tag. -/
theorem backup_callStep {a : CallStep} (hs : s.callStep c a = some s') :
    (s'.backup.dataCache = s.backup.dataCache ∧ s'.backup.ledger = s.backup.ledger) ∨
      (∃ l, (s'.pc c).tag? = some l.item.tag ∧ s.backup.add l.item.tag l = .ok s'.backup) ∨
      ∃ tag, (s'.pc c).tag? = some tag ∧ s'.backup = s.backup.eraseFailed tag := by
  cases callMove hs with
  | @add l b hpc hb => exact .inr (.inl ⟨l, by simp [setPc, tag?], hb⟩)
  | @erase tag hpc => exact .inr (.inr ⟨tag, by simp [setPc, tag?], rfl⟩)
  | @sent tag l delivered hpc | @threw tag l delivered hpc =>
    cases delivered <;> exact .inl ⟨rfl, rfl⟩
  | _ => exact .inl ⟨rfl, rfl⟩

/-- A step forgets nothing of what was removed. -/
theorem removed_subset {l : Label} (hs : s.step l = some s') :
    s.backup.ledger.removed ⊆ s'.backup.ledger.removed := by
  cases l with
  | call c a =>
    rcases backup_callStep hs with ⟨-, hl⟩ | ⟨l, -, hb⟩ | ⟨tag, -, hb⟩
    · rw [hl]
      exact List.Subset.refl _
    · rw [Backup.ledger_add hb]
      exact List.Subset.refl _
    · rw [hb]
      exact List.subset_append_left _ _
  | backup bs =>
    obtain ⟨b, hb, rfl⟩ := Option.map_eq_some_iff.mp hs
    exact Backup.removed_step hb
  | otherItems n =>
    cases hs
    exact List.Subset.refl _

/-- A step of a call changes no entry but its own. -/
theorem lookup_callStep {a : CallStep} (hs : s.callStep c a = some s') {k : Bytes}
    (hk : (s'.pc c).tag? ≠ some k) :
    s'.backup.dataCache.lookup k = s.backup.dataCache.lookup k := by
  rcases backup_callStep hs with ⟨hm, -⟩ | ⟨l, ht, hb⟩ | ⟨tag, ht, hb⟩
  · rw [hm]
  · rw [Backup.dataCache_add hb, AList.lookup_insert_ne]
    rintro rfl
    exact hk ht
  · rw [hb]
    refine Backup.lookup_eraseFailed ?_
    rintro rfl
    exact hk ht

/-! ## Conservation -/

/-- The backup cache holds exactly what was added and not removed. A removal by age is of an item
older than the ack timeout. An item whose `SendDjson` returned `true` is in the cache unless it was
acked or too old; one whose `SendDjson` returned `false` is not. -/
structure Conserved (s : SocketLogger) : Prop where
  mem_iff : ∀ k, k ∈ s.backup.dataCache ↔ k ∈ s.backup.ledger.added ∧
    (k, .acked) ∉ s.backup.ledger.removed ∧
    (∀ age, (k, .expired age) ∉ s.backup.ledger.removed) ∧
    (k, .failed) ∉ s.backup.ledger.removed
  expired : ∀ k age, (k, Reason.expired age) ∈ s.backup.ledger.removed → s.backup.ackTimeoutMS < age
  returned_true : ∀ c tag, s.pc c = .returned (some tag) true → tag ∉ s.backup.dataCache →
    (tag, .acked) ∈ s.backup.ledger.removed ∨ ∃ age, (tag, .expired age) ∈ s.backup.ledger.removed
  returned_false : ∀ c tag, s.pc c = .returned (some tag) false → tag ∉ s.backup.dataCache

theorem live_iff {L : Ledger Bytes Reason} {k : Bytes} :
    L.Live k ↔ k ∈ L.added ∧ (k, .acked) ∉ L.removed ∧ (∀ age, (k, .expired age) ∉ L.removed) ∧
      (k, .failed) ∉ L.removed := by
  refine and_congr_right fun _ => ⟨fun h => ⟨h _, fun age => h _, h _⟩, ?_⟩
  rintro ⟨ha, he, hf⟩ (_ | age | _)
  · exact ha
  · exact he age
  · exact hf

theorem Inv.conserved (h : s.Inv) : s.Conserved where
  mem_iff k := (h.backup.mem_iff k).trans live_iff
  expired := h.backup.expired
  returned_true c tag hc hk := by
    have hok := h.pcOk c
    rw [hc] at hok
    by_contra hn
    rw [not_or, not_exists] at hn
    exact hk ((h.backup.mem_iff tag).mpr (live_iff.mpr ⟨hok.1, hn.1, hn.2, hok.2⟩))
  returned_false c tag hc hk := by
    have hok := h.pcOk c
    rw [hc] at hok
    exact hok ((h.backup.mem_iff tag).mp hk)

/-- The runs of the socket logger with an honest server in which no fragment of a cut line meets a
success ack. -/
abbrev Run (ackTimeoutMS : ℕ) : SocketLogger → Prop :=
  Reach step (fun s l => s.Honest l ∧ s.NoStale l) (init ackTimeoutMS)

theorem inv_of_run {ackTimeoutMS : ℕ} (h : Run ackTimeoutMS s) : s.Inv :=
  h.invariant (inv_init ackTimeoutMS) fun _ _ _ hi hok hs => hi.step hok.1 hok.2 hs

/-- **Conservation of the backup cache.** In every state of a run the cache is conserved, no step
of a call changes an entry of another item, and a tag that was acked is in no later cache. -/
theorem cache_conserved {ackTimeoutMS : ℕ} {s : SocketLogger} (h : Run ackTimeoutMS s) :
    s.Conserved ∧
      (∀ c a s', s.step (.call c a) = some s' → ∀ k, (s'.pc c).tag? ≠ some k →
        s'.backup.dataCache.lookup k = s.backup.dataCache.lookup k) ∧
      ∀ s', Reach step (fun s l => s.Honest l ∧ s.NoStale l) s s' → ∀ tag,
        (tag, Reason.acked) ∈ s.backup.ledger.removed → tag ∉ s'.backup.dataCache := by
  refine ⟨(inv_of_run h).conserved, fun c a s' hs k hk => lookup_callStep hs hk,
    fun s' hs tag ht htm => ?_⟩
  have hi := inv_of_run (h.trans hs)
  have hr : s.backup.ledger.removed ⊆ s'.backup.ledger.removed :=
    hs.invariant (I := fun s' => s.backup.ledger.removed ⊆ s'.backup.ledger.removed)
      (List.Subset.refl _) fun _ _ _ hi _ hs => List.Subset.trans hi (removed_subset hs)
  exact ((hi.backup.mem_iff tag).mp htm).2 _ (hr ht)

/-- The steps of a call of `SendDjson` whose message reaches the server. -/
def sentCall (c : ℕ) : List Label :=
  [.begin (lit "s") (lit "d"), .startWorkers true, .touch, .add, .get, .getAgain,
    .send true true].map (.call c)

/-- The guard of a run, as a test. -/
def guard (s : SocketLogger) (l : Label) : Bool := decide (s.Honest l ∧ s.NoStale l)

/-- One call, whose message is acked. -/
theorem cache_conserved_acked :
    ∃ s, (s.pc 0 = .returned (some (lit "1")) true ∧
        (lit "1", Reason.acked) ∈ s.backup.ledger.removed) ∧ s.Conserved ∧
      (∀ c a s', s.step (.call c a) = some s' → ∀ k, (s'.pc c).tag? ≠ some k →
        s'.backup.dataCache.lookup k = s.backup.dataCache.lookup k) ∧
      ∀ s', Reach step (fun s l => s.Honest l ∧ s.NoStale l) s s' → ∀ tag,
        (tag, Reason.acked) ∈ s.backup.ledger.removed → tag ∉ s'.backup.dataCache := by
  obtain ⟨s, hs, ht⟩ : ∃ s, Run 1000 s ∧ decide (s.pc 0 = .returned (some (lit "1")) true ∧
      (lit "1", Reason.acked) ∈ s.backup.ledger.removed) = true :=
    @Reach.exists_of_exec _ _ step _ _ guard _
      (sentCall 0 ++ [.backup (.reader (.line (.ofTag 1)))])
      (fun _ _ h => of_decide_eq_true h) (by decide) (by decide)
  exact ⟨s, of_decide_eq_true ht, cache_conserved hs⟩

/-- The acks of 1 and 2 are sent, the connection is cut inside the first: the reader processes the
line `12`. -/
def staleRun : List Label :=
  sentCall 0 ++ sentCall 1 ++ [.otherItems 9] ++ sentCall 2 ++
    [.backup (.reader (.cut (.ofTag 1) 1)), .backup (.reader (.line (.ofTag 2)))]

/-- With an honest server, the item 12 is gone from the cache after its `SendDjson` returned `true`,
neither acked nor too old. -/
theorem item_gone_without_ack :
    ∃ s, Reach step Honest (init 1000) s ∧ ¬ s.Conserved := by
  obtain ⟨s, hs, ht⟩ : ∃ s, Reach step Honest (init 1000) s ∧
      decide (s.pc 2 = .returned (some (lit "12")) true ∧ lit "12" ∉ s.backup.dataCache ∧
        ∀ e ∈ s.backup.ledger.removed, e.1 ≠ lit "12") = true :=
    @Reach.exists_of_exec _ _ step _ _ (fun s l => decide (s.Honest l)) _ staleRun
      (fun _ _ h => of_decide_eq_true h) (by decide) (by decide)
  obtain ⟨hpc, hm, hr⟩ := of_decide_eq_true ht
  refine ⟨s, hs, fun h => ?_⟩
  rcases h.returned_true 2 _ hpc hm with ha | ⟨age, ha⟩
  · exact hr _ ha rfl
  · exact hr _ ha rfl

end SocketLogger

end Outmdsd
