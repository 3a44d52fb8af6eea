import Outmdsd.Reader.Acks

/-!
# Batches of acks

`ProcessItem` on a list of lines leaves the entries of the cache whose tag no line acks, as they
were (`entries_eraseList_filterMap`). So the cache depends on which lines there are, not on their
order or repetition.
-/

namespace Outmdsd

namespace DataReader

variable {V : Type*}

/-- Some line acks the tag: it is the tag itself, or the tag with the status 0. -/
def Acked (lines : List Bytes) (tag : Bytes) : Prop :=
  tag ≠ [] ∧ colon ∉ tag ∧ (tag ∈ lines ∨ tag ++ lit ":0" ∈ lines)

instance (lines : List Bytes) (tag : Bytes) : Decidable (Acked lines tag) :=
  inferInstanceAs (Decidable (_ ∧ _ ∧ _))

/-- An item erases the tag that it acks. -/
theorem ackTag_eq_some_iff (item tag : Bytes) :
    ackTag item = some tag ↔
      tag ≠ [] ∧ colon ∉ tag ∧ (tag = item ∨ tag ++ lit ":0" = item) := by
  have h0 : lit ":0" = colon :: lit "0" := rfl
  by_cases h : colon ∈ item
  · obtain ⟨t, st, rfl, ht⟩ := List.eq_append_cons_of_mem h
    rw [ackTag_append ht, h0]
    constructor
    · intro ha
      split at ha
      · rename_i hst
        cases ha
        exact ⟨hst.1, ht, .inr (by rw [hst.2])⟩
      · cases ha
    · rintro ⟨hne, hc, he | he⟩
      · exact absurd h (he ▸ hc)
      · -- both are cut at the first colon
        have hs := congrArg (List.span (· ≠ colon)) he
        rw [span_ne_append hc, span_ne_append ht] at hs
        obtain ⟨rfl, hst⟩ := Prod.mk.inj hs
        rw [if_pos ⟨hne, (List.cons.inj hst).2.symm⟩]
  · rw [ackTag_of_notMem h]
    constructor
    · intro ha
      split at ha
      · cases ha
      · rename_i hne
        cases ha
        exact ⟨hne, h, .inl rfl⟩
    · rintro ⟨hne, hc, rfl | rfl⟩
      · rw [if_neg hne]
      · exact absurd (by simp [h0]) h

theorem acked_iff (lines : List Bytes) (tag : Bytes) :
    Acked lines tag ↔ ∃ line ∈ lines, ackTag line = some tag := by
  simp only [ackTag_eq_some_iff, Acked]
  constructor
  · rintro ⟨hne, hc, hm | hm⟩
    · exact ⟨tag, hm, hne, hc, .inl rfl⟩
    · exact ⟨_, hm, hne, hc, .inr rfl⟩
  · rintro ⟨line, hm, hne, hc, rfl | rfl⟩
    · exact ⟨hne, hc, .inl hm⟩
    · exact ⟨hne, hc, .inr hm⟩

/-- **A batch.** Only the entries whose tag some line acks are gone. -/
theorem entries_eraseList_filterMap (m : StringMap V) (lines : List Bytes) :
    (ConcurrentMap.eraseList m (lines.filterMap ackTag)).2.entries =
      m.entries.filter fun e => ¬ Acked lines e.1 := by
  rw [ConcurrentMap.entries_eraseList]
  refine List.filter_congr fun e _ => decide_eq_decide.mpr (not_congr ?_)
  rw [acked_iff, List.mem_filterMap]

/-- A line with another status, or without a tag, removes nothing. -/
theorem dataCache_processItem_of_status {tag : Bytes} (ht : colon ∉ tag) {ackStatus : Bytes}
    (h : tag = [] ∨ ackStatus ≠ lit "0") (s : State V) :
    (processItem s (tag ++ colon :: ackStatus)).dataCache = s.dataCache := by
  have hn : ackTag (tag ++ colon :: ackStatus) = none := by
    rw [ackTag_append ht, if_neg]
    rintro ⟨hne, he⟩
    exact h.elim hne fun hs => hs he
  rw [processItem_eq, hn]
  split <;> rfl

/-- **The effect of a batch.** Whatever the cache holds, the lines remove the entries whose tag `t`
is not empty and without a colon and for which `t` or `t:0` is a line; the other entries are as they
were. Each line that is not empty is counted, a line with another status or without a tag removes
nothing, and any lines with the same members leave the same cache. -/
theorem ackBatch_effect (m : StringMap V) (n : ℕ) (erased lines : List Bytes) :
    let s := lines.foldl processItem ⟨some m, n, erased⟩
    (∃ m', s.dataCache = some m' ∧
      (∀ k, m'.lookup k = if Acked lines k then none else m.lookup k) ∧
      ∀ lines' : List Bytes, (∀ line, line ∈ lines' ↔ line ∈ lines) →
        (lines'.foldl processItem ⟨some m, n, erased⟩).dataCache = some m') ∧
    s.nTagsRead = n + lines.countP (· ≠ []) ∧
    ∀ (s' : State V) (tag ackStatus : Bytes), colon ∉ tag → tag = [] ∨ ackStatus ≠ lit "0" →
      (processItem s' (tag ++ colon :: ackStatus)).dataCache = s'.dataCache := by
  have hm := entries_eraseList_filterMap m lines
  simp only [foldl_processItem]
  refine ⟨⟨_, rfl, fun k => StringMap.lookup_of_filter hm k, fun lines' hl => ?_⟩, trivial,
    fun s' tag st ht hs => dataCache_processItem_of_status ht hs s'⟩
  refine congrArg some (AList.ext ?_)
  rw [hm, entries_eraseList_filterMap]
  exact List.filter_congr fun e _ => decide_eq_decide.mpr (by simp only [Acked, hl])

end DataReader

end Outmdsd
