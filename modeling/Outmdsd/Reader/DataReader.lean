import Outmdsd.Foundations.Cut
import Outmdsd.Foundations.Bytes
import Outmdsd.Foundations.Exceptions

/-!
# Reading the acks

`DoRead` puts the unprocessed part of earlier reads in front of what it reads, `ProcessData` gives
the lines of the result to `ProcessItem` and returns what follows the last newline. So the lines
of a stream do not depend on how it is cut into reads (`run_reads`).

`ProcessData` takes the lines off a `std::istringstream` with `std::getline` (`getline`), until a
call fails. Its last branch, for a text that ends with a newline and a non-empty `item`, is never
taken: the failing `getline` has cleared the item.
-/

namespace Outmdsd

/-! ## Lines -/

/-- The newline-terminated lines of a byte string, without their newlines. -/
def lines (s : Bytes) : List Bytes := ((Terminators.single newline).pieces s).map Prod.fst

/-- The bytes after the last newline. -/
def unfinished (s : Bytes) : Bytes := (Terminators.single newline).rest s

theorem lines_append (x y : Bytes) : lines (x ++ y) = lines x ++ lines (unfinished x ++ y) := by
  rw [lines, Terminators.pieces_append, List.map_append]
  rfl

theorem unfinished_append (x y : Bytes) : unfinished (x ++ y) = unfinished (unfinished x ++ y) :=
  Terminators.rest_append _ x y

theorem lines_of_notMem {s : Bytes} (h : newline ∉ s) : lines s = [] := by
  rw [lines, Terminators.pieces_single_of_notMem h, List.map_nil]

theorem unfinished_of_notMem {s : Bytes} (h : newline ∉ s) : unfinished s = s :=
  Terminators.rest_single_of_notMem h

theorem lines_append_newline {l : Bytes} (h : newline ∉ l) (s : Bytes) :
    lines (l ++ newline :: s) = l :: lines s := by
  rw [lines, Terminators.pieces, Terminators.cut_single_append h]
  rfl

theorem unfinished_append_newline {l : Bytes} (h : newline ∉ l) (s : Bytes) :
    unfinished (l ++ newline :: s) = unfinished s := by
  rw [unfinished, Terminators.rest, Terminators.cut_single_append h]
  rfl

theorem newline_notMem_unfinished (s : Bytes) : newline ∉ unfinished s :=
  Terminators.notMem_rest_single newline s

/-- Induction over the lines of a byte string. -/
theorem lines_induction {P : Bytes → Prop} (last : ∀ s, newline ∉ s → P s)
    (line : ∀ l s, newline ∉ l → P s → P (l ++ newline :: s)) (s : Bytes) : P s := by
  by_cases h : newline ∈ s
  · obtain ⟨l, s', rfl, hl⟩ := List.eq_append_cons_of_mem h
    exact line l s' hl (lines_induction last line s')
  · exact last s h
termination_by s.length
decreasing_by subst_vars; simp only [List.length_append, List.length_cons]; omega

/-- An unfinished line is continued by the first line of what follows it. -/
theorem lines_append_of_notMem {p : Bytes} (hp : newline ∉ p) (s : Bytes) :
    lines (p ++ s) = match lines s with
      | [] => []
      | l :: ls => (p ++ l) :: ls := by
  by_cases h : newline ∈ s
  · obtain ⟨l, s', rfl, hl⟩ := List.eq_append_cons_of_mem h
    rw [← List.append_assoc, lines_append_newline (by simp [hp, hl]), lines_append_newline hl]
  · rw [lines_of_notMem (by simp [hp, h]), lines_of_notMem h]

/-! ## `std::getline` -/

/-- A `std::istringstream`: the bytes not extracted yet and the state bits. -/
structure IStringStream where
  rest : Bytes
  eof : Bool
  fail : Bool

/-- `std::getline(iss, item, '\n')`. On a stream that is not good the item is left untouched; else
it is cleared, and the call fails if it extracts nothing. -/
def getline (iss : IStringStream) (item : Bytes) : IStringStream × Bytes :=
  if iss.eof || iss.fail then ({ iss with fail := true }, item)
  else match iss.rest.span (· ≠ newline) with
    | (line, []) => (⟨[], true, line.isEmpty⟩, line)
    | (line, _ :: rest) => (⟨rest, false, false⟩, line)

/-- The last line of a stream sets `eof`, and `fail` if it is empty. -/
theorem getline_last {s : Bytes} (h : newline ∉ s) (item : Bytes) :
    getline ⟨s, false, false⟩ item = (⟨[], true, s.isEmpty⟩, s) := by
  simp only [getline, Bool.or_self, Bool.false_eq_true, if_false, span_ne_of_notMem h]

theorem getline_line {l : Bytes} (h : newline ∉ l) (s item : Bytes) :
    getline ⟨l ++ newline :: s, false, false⟩ item = (⟨s, false, false⟩, l) := by
  simp only [getline, Bool.or_self, Bool.false_eq_true, if_false, span_ne_append h]

/-- Every successful `getline` extracts something. -/
theorem length_rest_getline {iss : IStringStream} {item : Bytes}
    (h : (getline iss item).1.fail = false) :
    (getline iss item).1.rest.length < iss.rest.length := by
  obtain ⟨s, eof, fail⟩ := iss
  cases eof <;> cases fail
  · by_cases hn : newline ∈ s
    · obtain ⟨l, s', rfl, hl⟩ := List.eq_append_cons_of_mem hn
      rw [getline_line hl]
      simp only [List.length_append, List.length_cons]
      omega
    · rw [getline_last hn] at h ⊢
      simpa [List.length_pos_iff] using h
  all_goals simp [getline] at h

/-- The loop of `ProcessData`: the items it processes, and the string left in `item`. -/
def getlineLoop (iss : IStringStream) (item : Bytes) : List Bytes × Bytes :=
  let r := getline iss item
  if _h : r.1.fail then ([], r.2)
  else
    let l := getlineLoop r.1 r.2
    (if r.1.eof then l.1 else r.2 :: l.1, l.2)
termination_by iss.rest.length
decreasing_by exact length_rest_getline (by simpa using _h)

/-- The loop processes the terminated lines, and leaves the unterminated one in `item`. -/
theorem getlineLoop_eq (s item : Bytes) :
    getlineLoop ⟨s, false, false⟩ item = (lines s, unfinished s) := by
  induction s using lines_induction generalizing item with
  | last s h =>
    rw [getlineLoop, getline_last h, lines_of_notMem h, unfinished_of_notMem h]
    cases s with
    | nil => rfl
    | cons b s =>
      -- the next call fails and leaves the item untouched
      rw [getlineLoop]
      simp [getline]
  | line l s h ih =>
    rw [getlineLoop, getline_line h, lines_append_newline h, unfinished_append_newline h]
    simp [ih]

namespace DataReader

/-! ## `ProcessData` -/

/-- `str.find_last_of(c)` -/
def findLastOf (c : Byte) : Bytes → Option ℕ
  | [] => none
  | b :: s =>
    match findLastOf c s with
    | some i => some (i + 1)
    | none => if b = c then some 0 else none

/-- `ProcessData`: the items given to `ProcessItem`, in order, and the partial data returned. -/
def processData (str : Bytes) : List Bytes × Bytes :=
  if str = [] then ([], [])
  else match findLastOf newline str with
    | none => ([], str)
    | some dPos =>
      let r := getlineLoop ⟨str, false, false⟩ []
      if r.2 ≠ [] ∧ dPos = str.length - 1 then (r.1 ++ [r.2], [])
      else (r.1, str.drop (dPos + 1))

theorem findLastOf_of_notMem {c : Byte} {s : Bytes} (h : c ∉ s) : findLastOf c s = none := by
  induction s with
  | nil => rfl
  | cons b s ih =>
    simp only [List.mem_cons, not_or] at h
    rw [findLastOf, ih h.2, if_neg (Ne.symm h.1)]

theorem findLastOf_append {c : Byte} {s : Bytes} (h : c ∉ s) (p : Bytes) :
    findLastOf c (p ++ c :: s) = some p.length := by
  induction p with
  | nil => simp [findLastOf, findLastOf_of_notMem h]
  | cons b p ih => simp [findLastOf, ih]

/-- A byte string with a newline is a part that ends with its last newline, and the rest. -/
theorem exists_eq_append_unfinished {s : Bytes} (h : newline ∈ s) :
    ∃ p, s = p ++ newline :: unfinished s := by
  induction s using lines_induction with
  | last s hs => exact absurd h hs
  | line l s hl ih =>
    rw [unfinished_append_newline hl]
    by_cases hs : newline ∈ s
    · obtain ⟨p, hp⟩ := ih hs
      refine ⟨l ++ newline :: p, ?_⟩
      rw [List.append_assoc, List.cons_append, ← hp]
    · exact ⟨l, by rw [unfinished_of_notMem hs]⟩

/-- **One call of `ProcessData`** gives the lines of its argument to `ProcessItem` and returns
what follows the last newline. -/
theorem processData_eq (str : Bytes) : processData str = (lines str, unfinished str) := by
  unfold processData
  by_cases h0 : str = []
  · rw [if_pos h0, h0, lines_of_notMem (by simp), unfinished_of_notMem (by simp)]
  rw [if_neg h0]
  by_cases hn : newline ∈ str
  · obtain ⟨p, hp⟩ := exists_eq_append_unfinished hn
    have hu := newline_notMem_unfinished str
    have hf : findLastOf newline str = some p.length := by
      conv_lhs => rw [hp]
      exact findLastOf_append hu p
    have hd : str.drop (p.length + 1) = unfinished str := by
      conv_lhs => rw [hp]
      simp
    have hlen : str.length = p.length + 1 + (unfinished str).length := by
      conv_lhs => rw [hp]
      simp only [List.length_append, List.length_cons]
      omega
    rw [hf]
    simp only [getlineLoop_eq, hd]
    -- the item is empty when the text ends with its last newline
    refine if_neg ?_
    rintro ⟨hne, hlast⟩
    have := List.length_pos_iff.mpr hne
    omega
  · rw [findLastOf_of_notMem hn, lines_of_notMem hn, unfinished_of_notMem hn]

/-! ## `DoRead` and `Run` -/

/-- The bytes a `read()` of at most `sizeof(buf)-1` bytes puts into the buffer. -/
structure Chunk where
  bytes : Bytes
  ne_nil : bytes ≠ []
  length_le : bytes.length ≤ 511

/-- How `SocketClient::Read` ends. -/
inductive ReadResult
  /-- `-1`: the client is stopped. -/
  | stopped
  /-- `0`: nothing to read, or end of file. -/
  | nothing
  | data (c : Chunk)
  /-- A `SocketException`. -/
  | exception (errnum : ℤ) (msg : Bytes)

/-- One turn of the reader: the flag `m_stopRead` at both interrupt points, and the read. -/
structure ReadStep where
  stopBefore : Bool
  result : ReadResult
  stopAfter : Bool

/-- How `DoRead` ends; `continued` carries the processed items and the partial data. -/
inductive DoReadResult
  | interrupted
  | stopped
  | continued (items : List Bytes) (partialData : Bytes)

/-- `DoRead` -/
def doRead (partialData : Bytes) (st : ReadStep) : DoReadResult :=
  if st.stopBefore then .interrupted
  else match st.result with
    | .stopped => .stopped
    | .nothing => .continued [] partialData
    | .exception _ _ => .continued [] partialData
    | .data c =>
      if st.stopAfter then .interrupted
      else
        let r := processData (partialData ++ cStr c.bytes)
        .continued r.1 r.2

/-- `Run`: the items processed in a list of turns, and the partial data they leave. -/
def run (partialData : Bytes) : List ReadStep → List Bytes × Bytes
  | [] => ([], partialData)
  | st :: sts =>
    match doRead partialData st with
    | .interrupted => ([], partialData)
    | .stopped => ([], partialData)
    | .continued items partialData =>
      let r := run partialData sts
      (items ++ r.1, r.2)

/-- A turn of a reader that is not told to stop. -/
def ReadStep.ofResult (result : ReadResult) : ReadStep := ⟨false, result, false⟩

/-- The bytes a read returns. -/
def ReadResult.bytes : ReadResult → Bytes
  | .data c => c.bytes
  | _ => []

/-- The bytes a list of reads returns. -/
def received (results : List ReadResult) : Bytes := results.flatMap ReadResult.bytes

theorem received_cons (result : ReadResult) (results : List ReadResult) :
    received (result :: results) = result.bytes ++ received results := rfl

/-- A turn that reads text processes the lines of the partial data with the text behind it. -/
theorem doRead_ofResult {p : Bytes} (hp : newline ∉ p) {result : ReadResult}
    (hr : result ≠ .stopped) (h0 : (0 : Byte) ∉ result.bytes) :
    doRead p (.ofResult result) =
      .continued (lines (p ++ result.bytes)) (unfinished (p ++ result.bytes)) := by
  cases result with
  | stopped => exact absurd rfl hr
  | data c => simp [doRead, ReadStep.ofResult, ReadResult.bytes, processData_eq,
      (cStr_eq_self_iff c.bytes).mpr h0]
  | nothing | exception => simp [doRead, ReadStep.ofResult, ReadResult.bytes,
      lines_of_notMem hp, unfinished_of_notMem hp]

/-- A reader that is not told to stop processes the lines of all it reads, the partial data it
starts with in front. -/
theorem run_ofResult {p : Bytes} (hp : newline ∉ p) {results : List ReadResult}
    (hr : .stopped ∉ results) (h0 : (0 : Byte) ∉ received results) :
    run p (results.map .ofResult) =
      (lines (p ++ received results), unfinished (p ++ received results)) := by
  induction results generalizing p with
  | nil => simp [run, received, lines_of_notMem hp, unfinished_of_notMem hp]
  | cons result results ih =>
    rw [received_cons, List.mem_append, not_or] at h0
    rw [List.mem_cons, not_or] at hr
    rw [List.map_cons, run, doRead_ofResult hp (Ne.symm hr.1) h0.1]
    simp only [ih (newline_notMem_unfinished _) hr.2 h0.2]
    rw [received_cons, ← List.append_assoc, lines_append (p ++ result.bytes), ← unfinished_append]

/-- **Ack framing.** However a stream without NUL bytes is cut into reads, the items processed are
its lines, and the partial data is what follows its last newline. -/
theorem run_reads (s : Bytes) (h0 : (0 : Byte) ∉ s) (chunks : List Chunk)
    (hs : (chunks.map Chunk.bytes).flatten = s) :
    run [] (chunks.map fun c => .ofResult (.data c)) = (lines s, unfinished s) := by
  have he : received (chunks.map .data) = s := by
    rw [← hs, received, List.flatMap_map, List.flatMap_def]
    rfl
  rw [← he] at h0 ⊢
  have h := @run_ofResult [] (by simp) (chunks.map .data) (by simp) h0
  rwa [List.map_map, List.nil_append] at h

/-- The line `123` in two reads, an empty line, and a rest. -/
theorem run_reads_123 :
    run [] ([⟨lit "12", by decide, by decide⟩, ⟨lit "3\n\n4", by decide, by decide⟩].map
        fun c => .ofResult (.data c)) =
      (lines (lit "123\n\n4"), unfinished (lit "123\n\n4")) :=
  run_reads (lit "123\n\n4") (by decide)
    [⟨lit "12", by decide, by decide⟩, ⟨lit "3\n\n4", by decide, by decide⟩] rfl

end DataReader

end Outmdsd
