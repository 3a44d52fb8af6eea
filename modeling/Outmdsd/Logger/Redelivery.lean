import Outmdsd.Logger.SocketLogger
import Outmdsd.Logger.Wire

/-!
# Failed calls

`SendDjson` returns `false` so that its caller sends the record again, and `SendData` takes the item
out of the cache before. Here the answers of the socket decide what each `Send` puts on the wire and
whether it throws. As long as no round of the resender makes the copy it sends from while the call
of an item in the cache is still running, an item whose call returned `false` was never sent whole,
and never will be (`failed_not_delivered`). A round that makes its copy in the meantime breaks this
(`failed_but_delivered`).
-/

namespace Outmdsd

open SocketClient

/-- The item of the call may be in the cache. -/
def CallPc.cached : CallPc → Bool
  | .added _ => true
  | .got _ => true
  | .gotAgain _ _ => true
  | .failing _ => true
  | .returned _ result => result
  | _ => false

namespace SocketLogger

/-- A step, with the answers of the socket in place of the outcome of a `Send`. -/
inductive WireLabel
  | call (c : ℕ) (a : CallStep)
  | backup (b : BackupStep)
  /-- `Send` in `SendData`. -/
  | callSend (c : ℕ) (calls : Calls)
  /-- `Send` in `ResendData`, for an entry not visited yet. -/
  | resend (i : ℕ) (calls : Calls)
  | otherItems (n : ℕ)

/-- Whether a `Send` of a message returns, and whether the complete message is on the wire; `none`
while it goes on. -/
def outcome (message : Bytes) (calls : Calls) : Option (Bool × Bool) :=
  let r := sendText message calls
  match r.ending with
  | .running => none
  | .returned => some (true, r.accepted = message)
  | .threw _ => some (false, r.accepted = message)

/-- The step that a label stands for. -/
def wireLabel (s : SocketLogger) : WireLabel → Option Label
  | .call _ (.send _ _) => none
  | .call c a => some (.call c a)
  | .backup (.resender (.send _ _ _)) => none
  | .backup b => some (.backup b)
  | .callSend c calls =>
    match s.pc c with
    | .gotAgain _ l => (outcome l.item.message calls).map fun r => .call c (.send r.1 r.2)
    | _ => none
  | .resend i calls =>
    match s.backup.resender with
    | .send cacheCopy =>
      match cacheCopy[i]? with
      | none => none
      -- a NULL pointer is not sent
      | some (_, none) => some (.backup (.resender (.send i true false)))
      | some (_, some l) =>
        (outcome l.item.message calls).map fun r => .backup (.resender (.send i r.1 r.2))
    | _ => none
  | .otherItems n => some (.otherItems n)

/-- A step of the system. -/
def wireStep (s : SocketLogger) (w : WireLabel) : Option SocketLogger :=
  (s.wireLabel w).bind s.step

/-- The condition on a step: when a round of the resender makes the copy it sends from, the
`SendDjson` of every item in the cache has returned. -/
def Apart (s : SocketLogger) : WireLabel → Prop
  | .backup (.resender .copyAgain) => ∀ key l, s.backup.dataCache.lookup key = some (some l) →
      ∃ c result, s.pc c = .returned (some l.item.tag) result
  | _ => True

/-- The complete message of no item whose `SendDjson` has returned `false` is on the wire. -/
def FailedNotDelivered (s : SocketLogger) : Prop :=
  ∀ c tag, s.pc c = .returned (some tag) false → tag ∉ s.backup.received

/-! ## What a step does -/

variable {s s' : SocketLogger} {b b' : Backup} {c : ℕ} {a : CallStep} {tag : Bytes} {l : LogItem}

open CallPc

/-- A step of a call that has not returned moves the call alone; the call keeps its tag, or begins
with the next one. -/
theorem pc_callStep (hs : s.callStep c a = some s') :
    (∀ tag result, s.pc c ≠ .returned tag result) ∧ ∃ pc, s'.pc = Function.update s.pc c pc ∧
      (pc.tag? = (s.pc c).tag? ∧ s'.counter = s.counter ∨
        pc.tag? = some (toDec (s.counter + 1)) ∧ s'.counter = s.counter + 1) := by
  cases callMove hs with
  | construct hpc => exact ⟨by simp [hpc], _, rfl, .inr ⟨rfl, rfl⟩⟩
  | reject hpc | notStarted hpc | started hpc | touch hpc | notAdded hpc | add hpc | notFound hpc
  | get hpc | notFoundAgain hpc | getAgain hpc | sent hpc | threw hpc | erase hpc =>
    exact ⟨by simp [hpc], _, rfl, .inl ⟨by rw [hpc]; rfl, rfl⟩⟩

/-- The item a call gets the second time is in the cache. -/
theorem lookup_of_gotAgain (hs : s.callStep c a = some s') (hpc : s'.pc c = .gotAgain tag l) :
    s.backup.dataCache.lookup tag = some (some l) := by
  cases callMove hs with
  | getAgain hpc' hg =>
    simp only [setPc, Function.update_self, CallPc.gotAgain.injEq] at hpc
    obtain ⟨rfl, rfl⟩ := hpc
    exact ConcurrentMap.lookup_of_get hg
  | _ => simp [setPc] at hpc

/-- No call touches the round of the resender. -/
theorem resender_callStep (hs : s.callStep c a = some s') :
    s'.backup.resender = s.backup.resender := by
  cases callMove hs with
  | @add l b hpc hb =>
    unfold Backup.add at hb
    split at hb <;> cases hb
    rfl
  | @sent tag l delivered hpc | @threw tag l delivered hpc => cases delivered <;> rfl
  | _ => rfl

/-- A call puts a message on the wire with its `Send` only. -/
theorem received_callStep (hs : s.callStep c a = some s') :
    s'.backup.received = s.backup.received ∨
      ∃ tag l ok, a = .send ok true ∧ s.pc c = .gotAgain tag l ∧
        s'.backup.received = s.backup.received ++ [l.item.tag] ∧
        (ok = true → s'.pc c = .returned (some tag) true) := by
  cases callMove hs with
  | @add l b hpc hb =>
    left
    unfold Backup.add at hb
    split at hb <;> cases hb
    rfl
  | @sent tag l delivered hpc =>
    cases delivered
    · exact .inl rfl
    · exact .inr ⟨tag, l, true, rfl, hpc, rfl, fun _ => by simp [setPc]⟩
  | @threw tag l delivered hpc =>
    cases delivered
    · exact .inl rfl
    · exact .inr ⟨tag, l, false, rfl, hpc, rfl, fun he => by cases he⟩
  | _ => exact .inl rfl

/-- A background thread puts a message on the wire with `SendItem` only. -/
theorem received_step {bs : BackupStep} (hb : b.step bs = some b') :
    b'.received = b.received ∨
      ∃ i ok cacheCopy key l, bs = .resender (.send i ok true) ∧ b.resender = .send cacheCopy ∧
        cacheCopy[i]? = some (key, some l) ∧ b'.received = b.received ++ [l.item.tag] := by
  cases bs with
  | reader e =>
    cases hb
    cases e <;> exact .inl rfl
  | tick ns =>
    cases hb
    exact .inl rfl
  | resender r =>
    cases Backup.resenderMove hb with
    | @sent cacheCopy i delivered key l hpc hi =>
      cases delivered
      · exact .inl rfl
      · exact .inr ⟨i, true, cacheCopy, key, l, rfl, hpc, hi, rfl⟩
    | @threw cacheCopy i delivered key l hpc hi =>
      cases delivered
      · exact .inl rfl
      · exact .inr ⟨i, false, cacheCopy, key, l, rfl, hpc, hi, rfl⟩
    | _ => exact .inl rfl

/-! ## The calls and what is on the wire -/

/-- An item in the cache after a step of a call: it is the item of the call, or it was there before
as the item of another call. -/
theorem cached_callStep (hs : s.callStep c a = some s')
    (hne : ∀ tag, (s.pc c).tag? = some tag → tag ≠ []) {k : Bytes}
    (hl : s'.backup.dataCache.lookup k = some (some l)) :
    (s'.pc c).tag? = some k ∧ (s'.pc c).cached = true ∨
      s.backup.dataCache.lookup k = some (some l) ∧
        ¬ ((s.pc c).tag? = some k ∧ (s.pc c).cached = true) := by
  cases callMove hs with
  | @add l' b hpc hb =>
    replace hl : b.dataCache.lookup k = some (some l) := hl
    rw [Backup.dataCache_add hb] at hl
    rcases lookup_insert_cases hl with ⟨rfl, -⟩ | ⟨-, hl⟩
    · exact .inl (by simp [setPc, tag?, cached])
    · exact .inr ⟨hl, by simp [hpc, cached]⟩
  | @notFound tag e hpc hg =>
    have hn : tag ∉ s.backup.dataCache :=
      ConcurrentMap.notMem_of_get (hne tag (by rw [hpc]; rfl)) hg
    refine .inr ⟨hl, fun h => hn ?_⟩
    have ht : tag = k := by simpa [hpc, tag?] using h.1
    subst ht
    exact AList.lookup_isSome.mp (Option.isSome_iff_exists.mpr ⟨_, hl⟩)
  | @erase tag hpc =>
    have h0 : tag ≠ [] := hne tag (by rw [hpc]; rfl)
    by_cases hk : k = tag
    · subst hk
      simp [setPc, Backup.eraseFailed, ConcurrentMap.erase, h0] at hl
    · exact .inr ⟨(Backup.lookup_eraseFailed hk).symm.trans hl, by simp [hpc, tag?, Ne.symm hk]⟩
  | reject hpc | construct hpc | notStarted hpc | started hpc | touch hpc | notAdded hpc =>
    exact .inr ⟨hl, by simp [hpc, cached]⟩
  | @get tag hpc | @notFoundAgain tag hpc | @getAgain tag l hpc | @sent tag l d hpc
  | @threw tag l d hpc =>
    by_cases hk : tag = k
    · exact .inl (by simp [setPc, tag?, cached, hk])
    · refine .inr ⟨?_, by simp [hpc, tag?, hk]⟩
      first
      | exact hl
      | cases d <;> exact hl

/-- Every call has a tag of its own, and the cache holds items under their tags. An item in the
cache is of a call that still runs or has returned `true`; what a round sends, and what is on the
wire, is of calls that have returned `true`. -/
structure CallsInv (s : SocketLogger) : Prop where
  numbered : ∀ c tag, (s.pc c).tag? = some tag → ∃ n ≤ s.counter, tag = toDec n
  distinct : ∀ c c' tag, (s.pc c).tag? = some tag → (s.pc c').tag? = some tag → c = c'
  tag_eq : ∀ k l, s.backup.dataCache.lookup k = some (some l) → l.item.tag = k
  gotAgain : ∀ c tag l, s.pc c = .gotAgain tag l → l.item.tag = tag
  cached : ∀ k l, s.backup.dataCache.lookup k = some (some l) →
    ∃ c, (s.pc c).tag? = some k ∧ (s.pc c).cached = true
  copied : ∀ cacheCopy, s.backup.resender = .send cacheCopy → ∀ k l, (k, some l) ∈ cacheCopy →
    ∃ c, s.pc c = .returned (some l.item.tag) true
  received : ∀ tag ∈ s.backup.received, ∃ c, s.pc c = .returned (some tag) true

theorem callsInv_init (ackTimeoutMS : ℕ) : (init ackTimeoutMS).CallsInv where
  numbered := by simp [init, tag?]
  distinct := by simp [init, tag?]
  tag_eq := by simp [init, Backup.init]
  gotAgain := by simp [init]
  cached := by simp [init, Backup.init]
  copied := by simp [init, Backup.init]
  received := by simp [init, Backup.init]

theorem CallsInv.failedNotDelivered (h : s.CallsInv) : s.FailedNotDelivered := by
  intro c tag hc hr
  obtain ⟨c', hc'⟩ := h.received tag hr
  obtain rfl := h.distinct c c' tag (by rw [hc]; rfl) (by rw [hc']; rfl)
  rw [hc] at hc'
  cases hc'

/-- The tags of the calls after a step of one of them. -/
theorem CallsInv.tagsOk (h : s.CallsInv) (hs : s.callStep c a = some s') :
    TagsOk s'.pc s'.counter := by
  have hok : TagsOk s.pc s.counter := ⟨h.numbered, h.distinct⟩
  obtain ⟨-, pc, hpc, ⟨ht, hn⟩ | ⟨ht, hn⟩⟩ := pc_callStep hs
  · rw [hpc, hn]
    exact hok.update ht
  · rw [hpc, hn]
    exact hok.update_next ht

/-- A step of a call whose `Send`, if it puts the message on the wire, returns. -/
theorem CallsInv.callStep (h : s.CallsInv) (hs : s.callStep c a = some s')
    (hsend : ∀ ok, a = .send ok true → ok = true) : s'.CallsInv := by
  obtain ⟨hnum, hdist⟩ := h.tagsOk hs
  obtain ⟨hlive, pc, hpc, -⟩ := pc_callStep hs
  have hother : ∀ c', c' ≠ c → s'.pc c' = s.pc c' := fun c' hne => by
    rw [hpc, Function.update_of_ne hne]
  -- a call that has returned stays so
  have hkeep : ∀ tag, (∃ c', s.pc c' = .returned (some tag) true) →
      ∃ c', s'.pc c' = .returned (some tag) true := fun tag ⟨c', hc'⟩ => by
    refine ⟨c', (hother c' ?_).trans hc'⟩
    rintro rfl
    exact hlive _ _ hc'
  have hne : ∀ tag, (s.pc c).tag? = some tag → tag ≠ [] := fun tag ht => by
    obtain ⟨n, -, rfl⟩ := h.numbered c tag ht
    exact toDec_ne_nil n
  refine ⟨hnum, hdist, fun k l hl => ?_, fun c' tag l hc' => ?_, fun k l hl => ?_,
    fun cacheCopy hp k l hm => hkeep _ (h.copied cacheCopy ?_ k l hm), fun tag ht => ?_⟩
  · rcases backup_callStep hs with ⟨hm, -⟩ | ⟨l', -, hb⟩ | ⟨tag, -, hb⟩
    · rw [hm] at hl
      exact h.tag_eq k l hl
    · rw [Backup.dataCache_add hb] at hl
      exact Backup.tag_eq_insert h.tag_eq l' k l hl
    · by_cases hk : k = tag
      · subst hk
        simp only [hb, Backup.eraseFailed, ConcurrentMap.erase] at hl
        split at hl
        · exact h.tag_eq _ l hl
        · simp at hl
      · rw [hb, Backup.lookup_eraseFailed hk] at hl
        exact h.tag_eq k l hl
  · by_cases hc : c' = c
    · subst hc
      exact h.tag_eq tag l (lookup_of_gotAgain hs hc')
    · exact h.gotAgain c' tag l ((hother c' hc).symm.trans hc')
  · rcases cached_callStep hs hne hl with hc | ⟨hl, hc⟩
    · exact ⟨c, hc⟩
    · obtain ⟨c', hc'⟩ := h.cached k l hl
      refine ⟨c', ?_⟩
      rwa [hother c' fun he => hc (he ▸ hc')]
  · rwa [resender_callStep hs] at hp
  · rcases received_callStep hs with he | ⟨tag', l, ok, ha, hgot, he, hret⟩
    · rw [he] at ht
      exact hkeep tag (h.received tag ht)
    · rw [he] at ht
      rcases List.mem_append.mp ht with ht | ht
      · exact hkeep tag (h.received tag ht)
      · rw [List.mem_singleton.mp ht, h.gotAgain c tag' l hgot]
        exact ⟨c, hret (hsend ok ha)⟩

/-- What a round is about to send, after a step of a background thread. -/
theorem copied_step {bs : BackupStep} (hb : b.step bs = some b')
    {cacheCopy : List (Bytes × LogItemPtr)} (hp : b'.resender = .send cacheCopy) :
    bs = .resender .copyAgain ∧ cacheCopy = b.entries ∨
      ∃ cacheCopy', b.resender = .send cacheCopy' ∧ ∀ e ∈ cacheCopy, e ∈ cacheCopy' := by
  cases bs with
  | reader e =>
    cases hb
    refine .inr ⟨cacheCopy, ?_, fun _ => id⟩
    cases e <;> exact hp
  | tick ns =>
    cases hb
    exact .inr ⟨cacheCopy, hp, fun _ => id⟩
  | resender r =>
    cases Backup.resenderMove hb with
    | copyAgain =>
      cases hp
      exact .inl ⟨rfl, rfl⟩
    | sendNull hpc | sent hpc =>
      cases hp
      exact .inr ⟨_, hpc, fun _ => List.mem_of_mem_eraseIdx⟩
    | size =>
      simp only at hp
      split at hp <;> cases hp
    | wake | copy | checkNull | check | erase | threw | done => cases hp

/-- A step of a background thread that is apart from the calls. -/
theorem CallsInv.backupStep (h : s.CallsInv) {bs : BackupStep} (hb : s.backup.step bs = some b')
    (hapart : s.Apart (.backup bs)) : ({ s with backup := b' } : SocketLogger).CallsInv := by
  refine ⟨h.numbered, h.distinct, fun k l hl => ?_, h.gotAgain, fun k l hl => ?_,
    fun cacheCopy hp k l hm => ?_, fun tag ht => ?_⟩
  · rw [Backup.lookup_step hb] at hl
    split at hl
    · cases hl
    · exact h.tag_eq k l hl
  · rw [Backup.lookup_step hb] at hl
    split at hl
    · cases hl
    · exact h.cached k l hl
  · rcases copied_step hb hp with ⟨rfl, rfl⟩ | ⟨cacheCopy', hp', hsub⟩
    · -- the call of the item has returned, and the item is still in the cache
      have hl := Backup.lookup_of_mem_entries hm
      obtain ⟨c, result, hc⟩ := hapart k l hl
      obtain ⟨c', ht, hc'⟩ := h.cached k l hl
      rw [← h.tag_eq k l hl] at ht
      obtain rfl := h.distinct c c' l.item.tag (by rw [hc]; rfl) ht
      rw [hc] at hc'
      exact ⟨c, by rw [show result = true from hc'] at hc; exact hc⟩
    · exact h.copied cacheCopy' hp' k l (hsub _ hm)
  · rcases received_step hb with he | ⟨i, ok, cacheCopy, key, l, -, hpc, hi, he⟩
    · exact h.received tag (he ▸ ht)
    · have ht' : tag ∈ s.backup.received ++ [l.item.tag] := he ▸ ht
      rcases List.mem_append.mp ht' with ht' | ht'
      · exact h.received tag ht'
      · rw [List.mem_singleton.mp ht']
        exact h.copied cacheCopy hpc key l (List.mem_of_getElem? hi)

/-- A `Send` that puts the complete message on the wire returns. -/
theorem ok_of_outcome {message : Bytes} {calls : Calls} {ok : Bool}
    (h : outcome message calls = some (ok, true)) : ok = true := by
  simp only [outcome] at h
  split at h
  · cases h
  · simp only [Option.some.injEq, Prod.mk.injEq] at h
    exact h.1.symm
  · rename_i e he
    simp only [Option.some.injEq, Prod.mk.injEq, decide_eq_true_eq] at h
    exact absurd h.2 (accepted_ne_of_threw he)

/-- **Every step keeps the account**, if the copies of the rounds are apart from the calls. -/
theorem CallsInv.wireStep (h : s.CallsInv) {w : WireLabel} (hw : s.Apart w)
    (hs : s.wireStep w = some s') : s'.CallsInv := by
  obtain ⟨l, hl, hs⟩ := Option.bind_eq_some_iff.mp hs
  cases w with
  | call c a =>
    have hna : (∀ ok delivered, a ≠ .send ok delivered) ∧ l = .call c a := by
      cases a <;> simp_all [wireLabel]
    obtain ⟨hna, rfl⟩ := hna
    exact h.callStep hs fun ok ha => absurd ha (hna ok true)
  | backup bs =>
    have hnb : (∀ i ok delivered, bs ≠ .resender (.send i ok delivered)) ∧ l = .backup bs := by
      cases bs with
      | resender r => cases r <;> simp_all [wireLabel]
      | reader | tick => simp_all [wireLabel]
    obtain ⟨hnb, rfl⟩ := hnb
    obtain ⟨b', hb, rfl⟩ := Option.map_eq_some_iff.mp hs
    exact h.backupStep hb hw
  | callSend c calls =>
    simp only [wireLabel] at hl
    split at hl
    · obtain ⟨⟨ok, delivered⟩, ho, rfl⟩ := Option.map_eq_some_iff.mp hl
      refine h.callStep hs fun ok' ha => ?_
      cases ha
      exact ok_of_outcome ho
    · cases hl
  | resend i calls =>
    simp only [wireLabel] at hl
    split at hl
    · rename_i cacheCopy hpc
      split at hl
      · cases hl
      · -- a NULL pointer
        cases hl
        obtain ⟨b', hb, rfl⟩ := Option.map_eq_some_iff.mp hs
        exact h.backupStep hb trivial
      · rename_i key l' hi
        obtain ⟨⟨ok, delivered⟩, ho, rfl⟩ := Option.map_eq_some_iff.mp hl
        obtain ⟨b', hb, rfl⟩ := Option.map_eq_some_iff.mp hs
        exact h.backupStep hb trivial
    · cases hl
  | otherItems n =>
    cases hl
    cases hs
    refine ⟨fun c tag ht => ?_, h.distinct, h.tag_eq, h.gotAgain, h.cached, h.copied, h.received⟩
    obtain ⟨n', hn', he⟩ := h.numbered c tag ht
    exact ⟨n', Nat.le_add_right_of_le hn', he⟩

/-- **A failed call leaves nothing to deliver.** In every run in which no round of the resender
makes the copy it sends from while the call of an item in the cache is running, the complete message
of an item whose `SendDjson` has returned `false` is not on the wire, in every state reached. -/
theorem failed_not_delivered {ackTimeoutMS : ℕ}
    (h : Reach wireStep Apart (init ackTimeoutMS) s) : s.FailedNotDelivered :=
  (h.invariant (callsInv_init ackTimeoutMS) fun _ _ _ hi hw hs =>
    hi.wireStep hw hs).failedNotDelivered

/-! ## Runs -/

/-- The steps of a call up to its `Add`. -/
def adding (c : ℕ) : List WireLabel :=
  [.begin (lit "s") (lit "d"), .startWorkers true, .touch, .add].map (.call c)

/-- A round of the resender on one item, up to the copy it sends from. -/
def copying : List WireLabel :=
  [.wake, .size, .copy, .check 0, .erase, .copyAgain].map fun r => .backup (.resender r)

/-- A round of the resender on one item, whose message the socket accepts. -/
def resending : List WireLabel := copying ++ [.resend 0 (acceptingAll 11)]

/-- A socket that cannot be connected. -/
def failing : Calls := ⟨false, []⟩

/-- The call 0 has returned when a round makes the copy it sends from. -/
def apartFirst (s : SocketLogger) : WireLabel → Bool
  | .backup (.resender .copyAgain) => s.backup.dataCache.entries.all fun e => match e.2 with
    | some l => s.pc 0 = .returned (some l.item.tag) true
    | none => true
  | _ => true

theorem apart_of_apartFirst (w : WireLabel) (h : s.apartFirst w = true) : s.Apart w := by
  unfold Apart
  split
  · intro key l hl
    have := List.all_eq_true.mp h _ (AList.mem_lookup_iff.mp hl)
    exact ⟨0, true, of_decide_eq_true this⟩
  · trivial

/-- One call sends, and a round sends again what it has copied before the `Add` of another call,
which fails. -/
theorem failed_not_delivered_second :
    ∃ s : SocketLogger, (s.backup.received = [lit "1", lit "1"] ∧
        s.pc 1 = .returned (some (lit "2")) false) ∧ s.FailedNotDelivered := by
  obtain ⟨s, hs, ht⟩ : ∃ s, Reach wireStep Apart (init 1000) s ∧
      decide (s.backup.received = [lit "1", lit "1"] ∧
        s.pc 1 = .returned (some (lit "2")) false) = true :=
    @Reach.exists_of_exec _ _ wireStep _ _ apartFirst _
      (adding 0 ++ [.call 0 .get, .call 0 .getAgain, .callSend 0 (acceptingAll 11)] ++ copying ++
        adding 1 ++ [.call 1 .get, .resend 0 (acceptingAll 11), .call 1 .getAgain,
          .callSend 1 failing, .call 1 .erase])
      (fun _ w h => apart_of_apartFirst w h) (by decide) (by decide)
  exact ⟨s, of_decide_eq_true ht, failed_not_delivered hs⟩

/-- A round of the resender sends the item while its call is still before its own `Send`, which
fails; or the server acks the item that was sent by the round, and the call finds it gone. -/
theorem failed_but_delivered :
    (∃ s, Reach wireStep (fun _ _ => True) (init 1000) s ∧
      (s.pc 0 = .returned (some (lit "1")) false ∧ s.backup.received = [lit "1"]) ∧
      ¬ s.FailedNotDelivered) ∧
    ∃ s, Reach wireStep (fun _ _ => True) (init 1000) s ∧
      (s.pc 0 = .returned (some (lit "1")) false ∧ s.backup.received = [lit "1"] ∧
        s.backup.nTagsRead = 1) ∧ ¬ s.FailedNotDelivered := by
  constructor
  · obtain ⟨s, hs, ht⟩ : ∃ s, Reach wireStep (fun _ _ => True) (init 1000) s ∧
        decide (s.pc 0 = .returned (some (lit "1")) false ∧
          s.backup.received = [lit "1"]) = true :=
      @Reach.exists_of_exec _ _ wireStep _ _ (fun _ _ => true) _
        (adding 0 ++ [.call 0 .get] ++ resending ++
          [.call 0 .getAgain, .callSend 0 failing, .call 0 .erase])
        (fun _ _ _ => trivial) (by decide) (by decide)
    have hd := of_decide_eq_true ht
    exact ⟨s, hs, hd, fun hf => hf 0 _ hd.1 (by simp [hd.2])⟩
  · obtain ⟨s, hs, ht⟩ : ∃ s, Reach wireStep (fun _ _ => True) (init 1000) s ∧
        decide (s.pc 0 = .returned (some (lit "1")) false ∧ s.backup.received = [lit "1"] ∧
          s.backup.nTagsRead = 1) = true :=
      @Reach.exists_of_exec _ _ wireStep _ _ (fun _ _ => true) _
        (adding 0 ++ resending ++ [.backup (.reader (.line (.ofTag 1))), .call 0 .get])
        (fun _ _ _ => trivial) (by decide) (by decide)
    have hd := of_decide_eq_true ht
    exact ⟨s, hs, hd, fun hf => hf 0 _ hd.1 (by simp [hd.2.1])⟩

end SocketLogger

end Outmdsd
