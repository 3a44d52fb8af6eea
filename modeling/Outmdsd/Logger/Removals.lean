import Outmdsd.Logger.Backup

/-!
# What the background threads remove

A step of a background thread takes the keys that it erases out of the cache (`keys_step`). On its
own, without any assumption on the server, it erases with a line no other key than the one that the
line acks, if no fragment stands in front (`erases_reader`), and by age only what was seen older
than the ack timeout (`Aged.step`).
-/

namespace Outmdsd

open DataReader

namespace Backup

variable {b b' : Backup}

/-- A step of a background thread takes the keys it erases out of the cache. -/
theorem keys_step {bs : BackupStep} (hb : b.step bs = some b') :
    b.dataCache.keys.Perm
      (b.dataCache.keys.filter (fun k => k ∈ b.erases bs) ++ b'.dataCache.keys) := by
  have hmem : ∀ k, k ∈ b'.dataCache.keys ↔ k ∈ b.dataCache.keys ∧ k ∉ b.erases bs := by
    intro k
    rw [← AList.mem_keys, ← AList.mem_keys, ← AList.lookup_isSome, ← AList.lookup_isSome,
      Backup.lookup_step hb]
    by_cases hk : k ∈ b.erases bs
    · simp [hk]
    · simp [hk]
  refine (List.perm_ext_iff_of_nodup b.dataCache.keys_nodup ?_).mpr fun k => ?_
  · refine (b.dataCache.keys_nodup.filter _).append b'.dataCache.keys_nodup ?_
    intro k hk hk'
    exact ((hmem k).mp hk').2 (by simpa using (List.mem_filter.mp hk).2)
  · rw [List.mem_append, List.mem_filter, hmem]
    by_cases hk : k ∈ b.erases bs
    · simp [hk]
    · simp [hk]

/-- A line of which no fragment stands in front erases the tag that it acks. -/
theorem erases_reader {e : LineEvent} (hn : b.NoStale (.reader e)) :
    b.erases (.reader e) = e.acked.toList := by
  cases e with
  | cut l n => rfl
  | line l =>
    have ha : ackTag (b.fragment ++ l.text) = l.acked :=
      (l.ackTag_append_text_iff b.fragment).mpr hn
    simp [erases, LineEvent.item?, LineEvent.acked, ha]

/-- What was removed by age, and what the resender has noted for it, was older than the ack
timeout. -/
structure Aged (b : Backup) : Prop where
  removed : ∀ tag age, (tag, Reason.expired age) ∈ b.ledger.removed → b.ackTimeoutMS < age
  noted : ∀ cacheBak keysToRemove, b.resender = .filter cacheBak keysToRemove →
    ∀ k ∈ keysToRemove, b.ackTimeoutMS < k.2

/-- A step of the resender that removes nothing and notes nothing. -/
theorem Aged.move (h : b.Aged) {pc : ResenderPc} {totalSend : ℕ} {received : List Bytes}
    (hp : ∀ cacheBak keysToRemove, pc = .filter cacheBak keysToRemove →
      ∀ k ∈ keysToRemove, b.ackTimeoutMS < k.2) :
    Aged { b with resender := pc, totalSend := totalSend, received := received } :=
  ⟨h.removed, hp⟩

theorem Aged.resenderStep (h : b.Aged) {r : ResenderStep} (hb : b.resenderStep r = some b') :
    b'.Aged := by
  cases resenderMove hb with
  | size =>
    refine h.move fun _ _ he => ?_
    split at he <;> cases he
  | copy =>
    refine h.move fun _ _ he => ?_
    cases he
    simp
  | checkNull hpc =>
    refine h.move fun _ _ he => ?_
    cases he
    exact h.noted _ _ hpc
  | check hpc hi =>
    have hnoted := h.noted _ _ hpc
    refine h.move fun _ _ he => ?_
    cases he
    split
    · rename_i hage
      intro k hk
      rcases List.mem_append.mp hk with hk | hk
      · exact hnoted k hk
      · rw [List.mem_singleton.mp hk]
        exact LogItem.lt_ageMS_of_checkItemAge hage
    · exact hnoted
  | erase hpc =>
    refine ⟨fun tag age hr => ?_, fun _ _ he => by cases he⟩
    rcases List.mem_append.mp hr with hr | hr
    · exact h.removed tag age hr
    · obtain ⟨k, hk, he⟩ := List.mem_map.mp hr
      cases he
      exact h.noted _ _ hpc k hk
  | @sent _ _ delivered | @threw _ _ delivered =>
    cases delivered <;> exact h.move fun _ _ he => by cases he
  | _ => exact h.move fun _ _ he => by cases he

theorem Aged.step (h : b.Aged) {bs : BackupStep} (hb : b.step bs = some b') : b'.Aged := by
  cases bs with
  | reader e =>
    cases hb
    cases e with
    | cut l n => exact ⟨h.removed, h.noted⟩
    | line l =>
      refine ⟨fun tag age hr => ?_, h.noted⟩
      rcases List.mem_append.mp hr with hr | hr
      · exact h.removed tag age hr
      · obtain ⟨k, -, he⟩ := List.mem_map.mp hr
        cases he
  | resender r => exact h.resenderStep hb
  | tick ns =>
    cases hb
    exact ⟨h.removed, h.noted⟩

/-- What the resender erases is recorded with its age. -/
theorem exists_age_of_erases {r : ResenderStep} (hb : b.resenderStep r = some b') {tag : Bytes}
    (ht : tag ∈ b.erases (.resender r)) :
    ∃ age, (tag, Reason.expired age) ∈ b'.ledger.removed := by
  cases resenderMove hb with
  | erase hpc =>
    rw [erases, hpc] at ht
    obtain ⟨k, hk, rfl⟩ := List.mem_map.mp ht
    exact ⟨k.2, List.mem_append_right _ (List.mem_map.mpr ⟨k, hk, rfl⟩)⟩
  | _ => cases ht

/-- `SendItem` leaves the cache as it is. -/
theorem dataCache_send {i : ℕ} {ok delivered : Bool}
    (hb : b.resenderStep (.send i ok delivered) = some b') : b'.dataCache = b.dataCache := by
  cases resenderMove hb with
  | sendNull hpc => rfl
  | sent hpc hi | threw hpc hi => cases delivered <;> rfl

end Backup

end Outmdsd
