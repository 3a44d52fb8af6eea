import Outmdsd.Foundations.Streams
import Outmdsd.Item.Framing

/-!
# Receiving a stream

A server has only a part of the stream at any moment: `receive` takes the complete messages from the
front of it and leaves what follows them. The stream of a connection is complete messages and at
most a proper prefix of one; of such a stream it takes the payloads of the complete messages, in
order, and leaves that prefix (`receive_framed`).
-/

namespace Outmdsd

/-- A payload behind its length line. -/
def frame (p : Bytes) : Bytes := toDec p.length ++ newline :: p

/-- The payloads of the complete messages at the front of a stream, and what follows them. -/
def receive (s : Bytes) : List Bytes × Bytes :=
  match _h : decodeOne s with
  | none => ([], s)
  | some (m, r) => (m :: (receive r).1, (receive r).2)
termination_by s.length
decreasing_by all_goals exact length_of_decodeOne _h

theorem receive_of_none {s : Bytes} (h : decodeOne s = none) : receive s = ([], s) := by
  rw [receive]
  split
  · rfl
  · rename_i h'
    rw [h] at h'
    cases h'

theorem receive_frame (p s : Bytes) :
    receive (frame p ++ s) = (p :: (receive s).1, (receive s).2) := by
  have h : decodeOne (frame p ++ s) = some (p, s) := decodeOne_message p s
  rw [receive]
  split
  · rename_i h'
    rw [h] at h'
    cases h'
  · rename_i m r h'
    obtain ⟨rfl, rfl⟩ := Prod.mk.inj (Option.some.inj (h.symm.trans h'))
    rfl

/-- A stream without a newline holds no length line. -/
theorem decodeOne_of_notMem {r : Bytes} (h : newline ∉ r) : decodeOne r = none := by
  have hdrop : r.dropWhile (· ≠ newline) = [] := by
    rw [List.dropWhile_eq_nil_iff]
    intro b hb
    have hne : b ≠ newline := fun e => h (e ▸ hb)
    simpa using hne
  simp only [decodeOne, hdrop]

/-- A length line in front of too few bytes. -/
theorem decodeOne_of_short {n : ℕ} {body : Bytes} (h : body.length < n) :
    decodeOne (toDec n ++ newline :: body) = none := by
  have hd : ∀ b ∈ toDec n, decide (b ≠ newline) = true := fun b hb => by
    have hne : b ≠ newline := fun e => newline_notMem_toDec n (e ▸ hb)
    simpa using hne
  have ht : (toDec n ++ newline :: body).takeWhile (· ≠ newline) = toDec n := by
    rw [List.takeWhile_append_of_pos hd]
    simp
  have hr : (toDec n ++ newline :: body).dropWhile (· ≠ newline) = newline :: body := by
    rw [List.dropWhile_append_of_pos hd]
    simp
  simp only [decodeOne, ht, hr, ofDec_toDec]
  rw [if_neg]
  rintro ⟨-, -, hle⟩
  omega

/-- A proper prefix of a message is not read. -/
theorem decodeOne_of_part {p r : Bytes} (h : r <+: frame p) (hne : r ≠ frame p) :
    decodeOne r = none := by
  have hnot := newline_notMem_toDec p.length
  obtain ⟨t, ht⟩ := h
  rcases List.append_eq_append_iff.mp ht with ⟨d, hd, -⟩ | ⟨c, rfl, hc⟩
  · -- the prefix ends in the length line
    refine decodeOne_of_notMem fun hm => hnot ?_
    rw [hd]
    exact List.mem_append_left _ hm
  · cases c with
    | nil =>
      rw [List.append_nil]
      exact decodeOne_of_notMem hnot
    | cons b body =>
      obtain ⟨rfl, hp⟩ : newline = b ∧ p = body ++ t := List.cons_eq_cons.mp hc
      refine decodeOne_of_short ?_
      have hpos : 0 < t.length := List.length_pos_iff.mpr fun h0 => hne (by simp [frame, hp, h0])
      have hlen := congrArg List.length hp
      rw [List.length_append] at hlen
      omega

theorem receive_frames (ps : List Bytes) {r : Bytes} (h : decodeOne r = none) :
    receive (ps.flatMap frame ++ r) = (ps, r) := by
  induction ps with
  | nil => exact receive_of_none h
  | cons p ps ih => rw [List.flatMap_cons, List.append_assoc, receive_frame, ih]

/-- A stream that carries one message for each of some things is taken apart into the payloads of
these things. -/
theorem exists_receive_flatMap {ι : Type*} {wire : ι → Bytes} {R : ι → Bytes → Prop} {l : List ι}
    (h : ∀ x ∈ l, ∃ payload, wire x = frame payload ∧ R x payload) :
    ∃ payloads, receive (l.flatMap wire) = (payloads, []) ∧ List.Forall₂ R l payloads := by
  obtain ⟨payloads, hw, hr⟩ : ∃ payloads : List Bytes,
      l.flatMap wire = payloads.flatMap frame ∧ List.Forall₂ R l payloads := by
    induction l with
    | nil => exact ⟨[], rfl, .nil⟩
    | cons x l ih =>
      obtain ⟨payloads, hw, hr⟩ := ih fun y hy => h y (by simp [hy])
      obtain ⟨payload, hwx, hrx⟩ := h x (by simp)
      exact ⟨payload :: payloads, by rw [List.flatMap_cons, List.flatMap_cons, hwx, hw],
        .cons hrx hr⟩
  have hreceive := receive_frames payloads (decodeOne_of_notMem (r := []) List.not_mem_nil)
  rw [List.append_nil] at hreceive
  exact ⟨payloads, by rw [hw, hreceive], hr⟩

/-- **What a server takes from a framed stream.** If the messages of the stream are payloads in
`P` behind their length lines, then the server takes payloads in `P`, and leaves a proper prefix of
a message, if anything. -/
theorem receive_framed {M : Set Bytes} {P : Bytes → Prop} (hM : ∀ m ∈ M, ∃ p, P p ∧ m = frame p)
    {s : Bytes} (h : Frames.Framed M s) :
    (∀ p ∈ (receive s).1, P p) ∧
      s = (receive s).1.flatMap frame ++ (receive s).2 ∧
      ((receive s).2 = [] ∨ ∃ p, P p ∧ (receive s).2 <+: frame p ∧ (receive s).2 ≠ frame p) := by
  obtain ⟨done, r, hdone, rfl, hr⟩ := h
  obtain ⟨ps, hps, hflat⟩ :
      ∃ ps : List Bytes, (∀ p ∈ ps, P p) ∧ done.flatten = ps.flatMap frame := by
    clear hr
    induction done with
    | nil => exact ⟨[], by simp, rfl⟩
    | cons m done ih =>
      obtain ⟨ps, hps, hflat⟩ := ih fun d hd => hdone d (by simp [hd])
      obtain ⟨p, hp, rfl⟩ := hM m (hdone m (by simp))
      exact ⟨p :: ps, List.forall_mem_cons.mpr ⟨hp, hps⟩, by simp [hflat]⟩
  have hrest : r = [] ∨ ∃ p, P p ∧ r <+: frame p ∧ r ≠ frame p := by
    rcases hr with hr | ⟨m, hm, hpre, hne⟩
    · exact .inl hr
    · obtain ⟨p, hp, rfl⟩ := hM m hm
      exact .inr ⟨p, hp, hpre, hne⟩
  have hnone : decodeOne r = none := by
    rcases hrest with rfl | ⟨p, -, hpre, hne⟩
    · exact decodeOne_of_notMem List.not_mem_nil
    · exact decodeOne_of_part hpre hne
  rw [hflat, receive_frames ps hnone]
  exact ⟨hps, rfl, hrest⟩

end Outmdsd
