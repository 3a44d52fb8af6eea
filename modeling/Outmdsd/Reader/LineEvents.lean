import Outmdsd.Reader.Acks

/-!
# The reader, line by line

Between two lines the reader keeps only its fragment, the partial data of earlier connections. So
its reads amount to two kinds of events: a complete line arrives, and is processed with the
fragment in front; or a connection ends inside a line, whose first bytes join the fragment. Over
every list of connections the reads of `Run` process the same items as these events, and leave the
same partial data (`run_eq_items`).
-/

namespace Outmdsd

namespace DataReader

/-- What the reader sees of a line. -/
inductive LineEvent
  | line (l : AckLine)
  /-- The connection ends after `n` bytes of the line. -/
  | cut (l : AckLine) (n : ℕ)

namespace LineEvent

/-- The item an event gives to `ProcessItem`. -/
def item? (fragment : Bytes) : LineEvent → Option Bytes
  | line l => some (fragment ++ l.text)
  | cut _ _ => none

/-- The fragment an event leaves. -/
def next (fragment : Bytes) : LineEvent → Bytes
  | line _ => []
  | cut l n => fragment ++ l.text.take n

/-- The tag the line of an event, complete or cut, acks with success. -/
def ackedLine : LineEvent → Option Bytes
  | line l => l.acked
  | cut l _ => l.acked

/-- The tag an event acks with success, its line being complete. -/
def acked : LineEvent → Option Bytes
  | line l => l.acked
  | cut _ _ => none

/-- The items of a list of events, and the fragment they leave. -/
def items (fragment : Bytes) : List LineEvent → List Bytes × Bytes
  | [] => ([], fragment)
  | e :: es =>
    let r := items (e.next fragment) es
    ((e.item? fragment).toList ++ r.1, r.2)

theorem items_append (fragment : Bytes) (es es' : List LineEvent) :
    items fragment (es ++ es') =
      ((items fragment es).1 ++ (items (items fragment es).2 es').1,
        (items (items fragment es).2 es').2) := by
  induction es generalizing fragment with
  | nil => rfl
  | cons e es ih => rw [List.cons_append, items, items, ih, List.append_assoc]

/-- The events of a connection on which the lines are sent and the bytes received. -/
def ofReceived : List AckLine → Bytes → List LineEvent
  | [], _ => []
  | l :: ls, x =>
    if l.text.length < x.length then .line l :: ofReceived ls (x.drop (l.text.length + 1))
    else [.cut l x.length]

/-- The events of a connection process its lines, the fragment in front of the first one. -/
theorem items_ofReceived (sent : List AckLine) {p x : Bytes} (hp : newline ∉ p)
    (h : x <+: sent.flatMap fun l => l.text ++ [newline]) :
    items p (ofReceived sent x) = (lines (p ++ x), unfinished (p ++ x)) := by
  induction sent generalizing p x with
  | nil =>
    rw [List.flatMap_nil, List.prefix_nil] at h
    simp [h, ofReceived, items, lines_of_notMem hp, unfinished_of_notMem hp]
  | cons l ls ih =>
    rw [List.flatMap_cons, List.append_assoc, List.singleton_append] at h
    by_cases hlt : l.text.length < x.length
    · -- the line and its newline were received
      have hx : l.text ++ [newline] <+: x := by
        refine List.prefix_of_prefix_length_le ?_ h (by simp; omega)
        exact ⟨_, List.append_cons _ _ _ |>.symm⟩
      obtain ⟨s, rfl⟩ := hx
      rw [List.append_assoc, List.singleton_append, List.prefix_append_right_inj,
        List.cons_prefix_cons] at h
      have hn : newline ∉ p ++ l.text := by simp [hp, l.notMem_text.1]
      have hd : (l.text ++ [newline] ++ s).drop (l.text.length + 1) = s := by simp
      have hs : items [] (ofReceived ls s) = (lines s, unfinished s) :=
        @ih [] s (by simp) h.2
      rw [ofReceived, if_pos hlt, items, hd]
      simp only [item?, next, hs]
      rw [List.append_assoc l.text, ← List.append_assoc p, List.singleton_append,
        lines_append_newline hn, unfinished_append_newline hn]
      rfl
    · have hx : x <+: l.text :=
        List.prefix_of_prefix_length_le h (List.prefix_append _ _) (by omega)
      have hn : newline ∉ p ++ x := by
        simp only [List.mem_append, not_or]
        exact ⟨hp, fun hm => l.notMem_text.1 (hx.subset hm)⟩
      rw [ofReceived, if_neg hlt, lines_of_notMem hn, unfinished_of_notMem hn]
      simp only [items, item?, next, ← List.prefix_iff_eq_take.mp hx]
      rfl

/-- The events of a connection. -/
def ofConnection (c : Connection) : List LineEvent := ofReceived c.sent (received c.results)

theorem items_ofConnections (conns : List Connection) {p : Bytes} (hp : newline ∉ p) :
    items p (conns.flatMap ofConnection) =
      (lines (p ++ stream conns), unfinished (p ++ stream conns)) := by
  induction conns generalizing p with
  | nil => simp [stream, items, lines_of_notMem hp, unfinished_of_notMem hp]
  | cons c cs ih =>
    rw [List.flatMap_cons, items_append, ofConnection, items_ofReceived c.sent hp c.isPrefixOf]
    simp only [ih (newline_notMem_unfinished _)]
    rw [show stream (c :: cs) = received c.results ++ stream cs from rfl, ← List.append_assoc,
      lines_append (p ++ received c.results), ← unfinished_append]

end LineEvent

/-- **Refinement.** The reads of `Run` over a list of connections process the items of the line
events, and leave the same partial data. -/
theorem run_eq_items (conns : List Connection) :
    run [] (conns.flatMap fun c => c.results.map .ofResult) =
      LineEvent.items [] (conns.flatMap LineEvent.ofConnection) := by
  rw [run_connections, LineEvent.items_ofConnections conns (by simp)]
  simp

end DataReader

end Outmdsd
