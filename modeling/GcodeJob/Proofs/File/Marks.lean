import GcodeJob.Proofs.File.IndexedFile

/-!
# GcodeJob.Proofs.File.Marks

Which lines an index marks.  A chunk that ends a line is marked by the line
that starts behind its last terminator; a chunk inside a line is not.  After
each chunk the scan has made just these marks (`Scan.Marked`), since a chunk
without a terminator offers the mark of an earlier one again, and a chain does
not take the same line twice.

**Main result** (`IndexedFile.exact_marks`): the marks of a built index, chunk
by chunk.
-/

namespace GcodeJob

/-! ## What a chunk is marked by -/

section
variable (bytes : List UInt8)

/-- Whether the byte at an offset ends a line. -/
def endsAt (offset : Nat) : Bool := bytes[offset]?.any (endsLine (terminatorOf? bytes))

/-- The last of `count` offsets from `start` on at which a line ends. -/
def lastEnd? (start : Nat) : (count : Nat) → Option Nat
  | 0 => none
  | count + 1 => if endsAt bytes (start + count) then some (start + count) else lastEnd? start count

/-- The mark of a chunk in which a line ends: as many lines as have ended up to
the end of the chunk, and the offset behind the last terminator of the chunk. -/
def chunkMark? (size number : Nat) : Option Mark :=
  (lastEnd? bytes (number * size) size).map fun last =>
    ⟨(bytes.take ((number + 1) * size)).countP (endsLine (terminatorOf? bytes)), last + 1⟩

/-- The marks of the first `count` chunks. -/
def chunkMarks (size count : Nat) : List Mark :=
  (List.range count).filterMap (chunkMark? bytes size)

end

section
variable {bytes : List UInt8} {start count size number : Nat}

theorem lastEnd?_eq_none_iff : lastEnd? bytes start count = none ↔
    ∀ offset, start ≤ offset → offset < start + count → endsAt bytes offset = false := by
  induction count with
  | zero => simp [lastEnd?]; omega
  | succ count ih =>
    rw [lastEnd?]
    split
    next ends =>
      refine ⟨nofun, fun none => ?_⟩
      cases ends.symm.trans (none (start + count) (by omega) (by omega))
    next not_ends =>
      refine ih.trans ⟨fun none offset le lt => ?_, fun none offset le lt => none offset le (by omega)⟩
      by_cases last : offset = start + count
      · rw [last]
        simpa using not_ends
      · exact none offset le (by omega)

/-- The last end is one behind which no line ends. -/
theorem lastEnd?_eq_some {last : Nat} (le : start ≤ last) (lt : last < start + count)
    (ends : endsAt bytes last = true)
    (none : ∀ offset, last < offset → offset < start + count → endsAt bytes offset = false) :
    lastEnd? bytes start count = some last := by
  induction count with
  | zero => omega
  | succ count ih =>
    rw [lastEnd?]
    by_cases own : last = start + count
    · rw [← own, if_pos ends]
    · rw [if_neg (by simp [none (start + count) (by omega) (by omega)])]
      exact ih (by omega) fun offset lt lt' => none offset lt (by omega)

theorem chunkMarks_succ : chunkMarks bytes size (count + 1) =
    chunkMarks bytes size count ++ (chunkMark? bytes size count).toList := by
  rw [chunkMarks, List.range_succ, List.filterMap_append, ← chunkMarks]
  cases h : chunkMark? bytes size count <;> simp [h]

/-- The further some bytes go, the more lines end in them. -/
theorem countP_take_le (terminator : Option UInt8) (bytes : List UInt8) {upto upto' : Nat}
    (le : upto ≤ upto') :
    (bytes.take upto).countP (endsLine terminator) ≤
      (bytes.take upto').countP (endsLine terminator) :=
  (List.take_prefix_take_left le).sublist.countP_le

/-- Of two line starts the one of the earlier line comes first. -/
theorem LineStart.offset_lt {terminator : Option UInt8} {m m' : Mark}
    (h : LineStart terminator bytes m) (h' : LineStart terminator bytes m')
    (lt : m.line < m'.line) : m.offset < m'.offset := by
  refine Nat.lt_of_not_le fun le => ?_
  have := countP_take_le terminator bytes le
  rw [h.line, h'.line] at this
  omega

/-- Right before a line start a line ends. -/
theorem LineStart.endsAt_pred {m : Mark} (h : LineStart (terminatorOf? bytes) bytes m)
    (pos : 0 < m.offset) : endsAt bytes (m.offset - 1) = true := by
  have lt : m.offset - 1 < bytes.length := by have := h.offset_le; omega
  have last : (bytes.take m.offset).getLast? = bytes[m.offset - 1]? := by
    rw [List.getLast?_take, if_neg (by omega), List.getElem?_eq_getElem lt, Option.some_or]
  rw [List.getElem?_eq_getElem lt] at last
  rw [endsAt, List.getElem?_eq_getElem lt]
  exact h.behind _ last

theorem lt_of_endsAt {offset : Nat} (ends : endsAt bytes offset = true) :
    offset < bytes.length := by
  refine Nat.lt_of_not_le fun beyond => ?_
  simp [endsAt, List.getElem?_eq_none beyond] at ends

/-- A chunk in which a line ends has a mark. -/
theorem exists_chunkMark? {offset : Nat} (ends : endsAt bytes offset = true) (pos : 0 < size) :
    ∃ m, chunkMark? bytes size (offset / size) = some m ∧
      m.line =
        (bytes.take ((offset / size + 1) * size)).countP (endsLine (terminatorOf? bytes)) := by
  have within : offset / size * size ≤ offset := Nat.div_mul_le_self ..
  have upto : offset < (offset / size + 1) * size := Nat.lt_mul_of_div_lt (Nat.lt_succ_self _) pos
  have next : (offset / size + 1) * size = offset / size * size + size := Nat.succ_mul ..
  rw [chunkMark?]
  cases last : lastEnd? bytes (offset / size * size) size with
  | none => cases ends.symm.trans (lastEnd?_eq_none_iff.mp last offset within (by omega))
  | some last => exact ⟨_, Option.map_some .., rfl⟩

/-- Behind an end there is one line more. -/
theorem countP_take_lt {offset upto : Nat} (ends : endsAt bytes offset = true)
    (lt : offset < upto) :
    (bytes.take offset).countP (endsLine (terminatorOf? bytes)) <
      (bytes.take upto).countP (endsLine (terminatorOf? bytes)) := by
  rw [endsAt, Option.any_eq_true_iff_get] at ends
  obtain ⟨is_some, ends⟩ := ends
  have found : bytes[offset]? = some (bytes[offset]?.get is_some) := (Option.some_get is_some).symm
  have start := LineStart.of_getElem? found ends
  have more := countP_take_le (terminatorOf? bytes) bytes (Nat.succ_le_of_lt lt)
  rw [Nat.succ_eq_add_one, start.line] at more
  exact more

end

/-! ## A scan of whole chunks -/

namespace Chain

theorem lastLine_push (c : Chain) (m : Mark) : (c.push m).lastLine = max c.lastLine m.line := by
  unfold push accepts
  split
  next accepted =>
    rw [Nat.max_eq_right (Nat.le_of_lt (of_decide_eq_true accepted))]
    simp [lastLine]
  next refused =>
    rw [Nat.max_eq_left (Nat.le_of_not_lt fun lt => refused (decide_eq_true lt))]

end Chain

namespace Scan

@[simp] theorem chain_byte (s : Scan) (b : UInt8) : (s.byte b).chain = s.chain := by
  unfold byte
  dsimp only
  split <;> rfl

/-- Only at its end does a chunk add to the chain. -/
theorem chain_chunk (s : Scan) (chunk : List UInt8) :
    (s.chunk chunk).chain = s.chain.push (s.chunk chunk).lastStart := by
  have kept : (chunk.foldl byte s).chain = s.chain := by
    induction chunk generalizing s with
    | nil => rfl
    | cons b chunk ih => rw [List.foldl_cons, ih, chain_byte]
  rw [Scan.chunk, mark, kept]

namespace Covers
variable {bytes : List UInt8} {s : Scan}

/-- No line ends between the last line start and the place of the scan. -/
theorem endsAt_eq_false (h : s.Covers bytes) {offset : Nat} (le : s.lastStart.offset ≤ offset)
    (lt : offset < s.offset) : endsAt bytes offset = false := by
  cases found : bytes[offset]? with
  | none => simp [endsAt, found]
  | some b =>
    have mem : b ∈ (bytes.take s.offset).drop s.lastStart.offset := by
      refine List.mem_of_getElem? (i := offset - s.lastStart.offset) ?_
      rw [List.getElem?_drop, Nat.add_sub_cancel' le, List.getElem?_take_of_lt lt, found]
    simpa [endsAt, found] using h.inside b mem

/-- A chunk up to the place of a scan is marked by the last line start if this
is in the chunk. -/
theorem chunkMark?_eq (h : s.Covers bytes) {size number : Nat}
    (offset : s.offset = min ((number + 1) * size) bytes.length) :
    chunkMark? bytes size number =
      if number * size < s.lastStart.offset then some s.lastStart else none := by
  have upto : (number + 1) * size = number * size + size := Nat.succ_mul ..
  have no_end {at_ : Nat} (le : s.lastStart.offset ≤ at_) (lt : at_ < number * size + size) :
      endsAt bytes at_ = false := by
    by_cases inside : at_ < s.offset
    · exact h.endsAt_eq_false le inside
    · have beyond : bytes[at_]? = none := List.getElem?_eq_none (by omega)
      simp [endsAt, beyond]
  rw [chunkMark?]
  split
  next inside =>
    have ends := h.lastStart.endsAt_pred (by omega)
    have le := h.lastStart_le
    have last : lastEnd? bytes (number * size) size = some (s.lastStart.offset - 1) :=
      lastEnd?_eq_some (by omega) (by omega) ends fun _ lt lt' => no_end (by omega) lt'
    have count := h.countP_take
    rw [offset, ← List.take_eq_take_min] at count
    rw [last, Option.map_some, count, h.line, Nat.sub_add_cancel (by omega)]
  next outside =>
    rw [lastEnd?_eq_none_iff.mpr fun _ le lt => no_end (by omega) lt, Option.map_none]

end Covers

/-- A scan that has taken the first `count` chunks of some bytes. -/
structure Marked (bytes : List UInt8) (size count : Nat) (s : Scan) : Prop where
  covers : s.Covers bytes
  offset : s.offset = min (count * size) bytes.length
  begun : count * size < bytes.length + size
  lastLine : s.chain.lastLine = s.line
  marks : s.chain.toList = ⟨0, 0⟩ :: chunkMarks bytes size count

namespace Marked
variable {bytes : List UInt8} {size count number : Nat} {s : Scan}

theorem start (bytes : List UInt8) (pos : 0 < size) : Marked bytes size 0 {} where
  covers := .start bytes
  offset := by simp
  begun := by omega
  lastLine := rfl
  marks := rfl

/-- Taking the next chunk marks it as it is to be marked. -/
theorem chunk (h : Marked bytes size count s) (more : s.offset < bytes.length) :
    Marked bytes size (count + 1) (s.chunk ((bytes.drop s.offset).take size)) := by
  have here : s.offset = count * size := by have := h.offset; omega
  have upto : (count + 1) * size = count * size + size := Nat.succ_mul ..
  generalize taken : (bytes.drop s.offset).take size = chunk
  have covers : (s.chunk chunk).Covers bytes :=
    h.covers.chunk (taken ▸ List.take_prefix ..)
  have offset : (s.chunk chunk).offset = min ((count + 1) * size) bytes.length := by
    have moved : (s.chunk chunk).offset = s.offset + chunk.length := Covers.offset_foldl_byte ..
    rw [moved, ← taken, List.length_take, List.length_drop]
    omega
  have line := covers.line
  have ends_before := h.covers.countP_take
  have ends := covers.countP_take
  have line_le : s.line ≤ (s.chunk chunk).line := by
    rw [← ends_before, ← ends]
    exact countP_take_le _ bytes (by omega)
  refine ⟨covers, offset, by omega, ?_, ?_⟩
  · rw [chain_chunk, Chain.lastLine_push, h.lastLine, ← line, Nat.max_eq_right line_le]
  · rw [chain_chunk, Chain.toList_push, Chain.accepts, h.lastLine, h.marks, chunkMarks_succ,
      covers.chunkMark?_eq offset, ← here]
    -- The chain takes the mark just if a line has ended in this chunk.
    by_cases inside : s.offset < (s.chunk chunk).lastStart.offset
    · have last := covers.lastStart.endsAt_pred (by omega)
      have lt := countP_take_lt last (by omega : _ < (s.chunk chunk).lastStart.offset)
      have before := countP_take_le (terminatorOf? bytes) bytes
        (by omega : s.offset ≤ (s.chunk chunk).lastStart.offset - 1)
      rw [ends_before] at before
      rw [covers.lastStart.line] at lt
      rw [if_pos (decide_eq_true (by omega)), if_pos inside]
      rfl
    · have before := countP_take_le (terminatorOf? bytes) bytes
        (Nat.le_of_not_lt inside)
      rw [ends_before, covers.lastStart.line] at before
      rw [if_neg (by simpa using before), if_neg inside]
      exact (List.append_nil _).symm

/-- Where all bytes have been taken, so have all chunks. -/
theorem count_eq (h : Marked bytes size count s) (done : bytes.length ≤ s.offset) :
    count = (bytes.length + size - 1) / size := by
  have offset := h.offset
  have begun := h.begun
  have upto : (count + 1) * size = count * size + size := Nat.succ_mul ..
  exact (Nat.div_eq_of_lt_le (by omega) (by omega)).symm

/-- The marks of all chunks are among those that have been made. -/
theorem mem_of_chunkMark? (h : Marked bytes size count s) (done : bytes.length ≤ s.offset)
    {m : Mark} (mark : chunkMark? bytes size number = some m)
    (inside : number * size < bytes.length) : m ∈ s.chain.toList := by
  have before : number < count := by
    refine Nat.lt_of_not_le fun le => ?_
    have offset := h.offset
    have upto : count * size ≤ number * size := Nat.mul_le_mul_right size le
    omega
  rw [h.marks, List.mem_cons, chunkMarks, List.mem_filterMap]
  exact .inr ⟨number, List.mem_range.mpr before, mark⟩

/-- The marks of a chain go up in both ways. -/
theorem increasing (h : Marked bytes size count s) :
    s.chain.toList.Pairwise fun m m' => m.line < m'.line ∧ m.offset < m'.offset :=
  h.covers.ordered.increasing.imp_of_mem fun mem mem' lt =>
    ⟨lt, (h.covers.marks _ mem).offset_lt (h.covers.marks _ mem') lt⟩

end Marked

end Scan

/-! ## The marks of an index -/

namespace IndexedFile

/-- An index comes from a scan that has marked every chunk. -/
theorem exists_marked_of_index (path : String) (file : RegularFile) {chunkSize : Nat}
    {index : LineIndex}
    (own : (openAt path (.file file) chunkSize).build.index? = some index) :
    ∃ s count, Scan.Marked file.content (max chunkSize 1) count s ∧
      file.content.length ≤ s.offset ∧
      (openAt path (.file file) chunkSize).build.phase = .built s.index s.ending ∧
      s.index = index := by
  have room := (exists_index_build_iff path file chunkSize).mp ⟨index, own⟩
  obtain ⟨s, ⟨count, marked⟩, done, phase⟩ :=
    exists_scan_build (P := fun s => ∃ count, Scan.Marked file.content (max chunkSize 1) count s)
      path file room ⟨0, .start _ (Nat.le_max_right ..)⟩ fun ⟨count, marked⟩ more =>
        ⟨count + 1, marked.chunk more⟩
  have same : s.index = index := by simpa only [index?, phase, Option.some_inj] using own
  exact ⟨s, count, marked, done, phase, same⟩

/-- **Which lines an index marks.**  A file gets an index just if there can be
a buffer for a chunk of it.  Whatever it holds and however large the chunks,
the nodes of an index are the first line and, for each chunk in which a line
ends, as many lines as have ended up to the end of the chunk, at the offset
behind the last terminator of the chunk.  So lines and offsets go up from node
to node, and at each offset its line starts. -/
theorem exact_marks (path : String) (file : RegularFile) (chunkSize : Nat) :
    let bytes := file.content
    let size := max chunkSize 1
    let chunks := (bytes.length + size - 1) / size
    let f := (openAt path (.file file) chunkSize).build
    ((∃ index, f.index? = some index) ↔ (chunkSize : Int) ≤ Word.highest) ∧
      ∀ index, f.index? = some index →
        index.nodes = ⟨0, 0⟩ :: chunkMarks bytes size chunks ∧
        index.nodeCount = index.nodes.length ∧
        (index.nodes.Pairwise fun m m' => m.line < m'.line ∧ m.offset < m'.offset) ∧
        ∀ m ∈ index.nodes, LineStart (terminatorOf? bytes) bytes m ∧
          linesBy (terminatorOf? bytes) (bytes.drop m.offset) = (linesOf bytes).drop m.line := by
  intro bytes size chunks f
  refine ⟨exists_index_build_iff path file chunkSize, fun index own => ?_⟩
  obtain ⟨s, count, marked, done, -, rfl⟩ := exists_marked_of_index path file own
  have nodes : s.index.nodes = s.chain.toList :=
    s.index.nodes_eq_toList.trans (Tree.toList_ofList _)
  refine ⟨?_, ?_, ?_, ?_⟩
  · rw [nodes, marked.marks, marked.count_eq done]
  · rw [nodes]
    exact Array.length_toList.symm
  · exact nodes ▸ marked.increasing
  · intro m mem
    have start := marked.covers.marks m (nodes ▸ mem)
    exact ⟨start, start.linesBy_drop⟩

/-- Of three chunks the second lies within a line. -/
example : chunkMarks [97, 10, 98, 98, 98, 98, 10, 99] 3 3 = [⟨1, 2⟩, ⟨2, 7⟩] := by decide

end IndexedFile

end GcodeJob
