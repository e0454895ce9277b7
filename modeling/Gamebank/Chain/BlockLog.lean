import Gamebank.Chain.Block
import Gamebank.Lib.IndexedFile

/-!
# The block log and its index

`block_log.cpp` over byte files. The log holds every block, packed, with the
position where it starts behind it; the index holds the positions alone. On
`open` only the last positions of the two files are compared, and an index
that does not fit is built again by reading the log. How a block is packed is
a parameter.
-/

namespace Gamebank.Chain

open Gamebank.Lib

/-- `block_log_impl`. -/
structure BlockLog (Name Tx : Type) where
  blockStream : ByteStream
  indexStream : ByteStream
  head : Option (SignedBlock Name Tx)

variable {Name Tx : Type}

namespace BlockLog

/-- `block_log::npos`. -/
def npos : Nat := 18446744073709551615

/-- `read_block_helper`. -/
def readBlockHelper (c : Codec (SignedBlock Name Tx)) (l : BlockLog Name Tx) (pos : Nat) :
    Except String ((SignedBlock Name Tx × Nat) × BlockLog Name Tx) := do
  let (b, s) ← (l.blockStream.checkRead.seekg pos).unpack c
  return ((b, s.pos + 8), { l with blockStream := s })

/-- `read_head`. -/
def readHead (c : Codec (SignedBlock Name Tx)) (l : BlockLog Name Tx) :
    Except String (SignedBlock Name Tx × BlockLog Name Tx) := do
  let (pos, s) ← l.blockStream.checkRead.readLast
  let ((b, _), l) ← readBlockHelper c { l with blockStream := s } pos
  return (b, l)

/-- The loop of `construct_index`, from the beginning of the log and an empty index. -/
def fillIndex (c : Codec (SignedBlock Name Tx)) (endPos : Nat) (l : BlockLog Name Tx) :
    Except String (BlockLog Name Tx) :=
  match IndexedFile.indexLoop c endPos (l.blockStream.bytes.length + 1) 0
    (l.blockStream.seekg 0, .openWrite []) with
  | .ok _ streams => .ok { l with blockStream := streams.1, indexStream := streams.2 }
  | .error e _ => .error e

/-- `construct_index`. -/
def constructIndex (c : Codec (SignedBlock Name Tx)) (l : BlockLog Name Tx) :
    Except String (BlockLog Name Tx) := do
  let (endPos, s) ← l.blockStream.checkRead.readLast
  fillIndex c endPos { l with blockStream := s }

/-- The part of `open` for two files that are not empty. -/
def checkIndex (c : Codec (SignedBlock Name Tx)) (l : BlockLog Name Tx) :
    Except String (BlockLog Name Tx) := do
  let (blockPos, blockStream) ← l.blockStream.checkRead.readLast
  let (indexPos, indexStream) ← l.indexStream.checkRead.readLast
  let l := { l with blockStream := blockStream, indexStream := indexStream }
  if blockPos < indexPos then constructIndex c l
  else if indexPos < blockPos then constructIndex c l
  else return l

/-- `open` on the two files; one that is missing is created empty. -/
def openLog (c : Codec (SignedBlock Name Tx)) (blockFile indexFile : List UInt8) :
    Except String (BlockLog Name Tx) :=
  let l : BlockLog Name Tx := ⟨.openWrite blockFile, .openWrite indexFile, none⟩
  if 0 < blockFile.length then do
    let (b, l) ← readHead c l
    let l := { l with head := some b }
    if 0 < indexFile.length then checkIndex c l else constructIndex c l
  else if 0 < indexFile.length then .ok { l with indexStream := .openWrite [] }
  else .ok l

/-- `append`. -/
def append (c : Codec (SignedBlock Name Tx)) (l : BlockLog Name Tx) (b : SignedBlock Name Tx) :
    Except String (BlockLog Name Tx) := do
  let blockStream := l.blockStream.checkWrite
  let indexStream := l.indexStream.checkWrite
  let pos := blockStream.pos
  ensure (indexStream.pos = 8 * (b.blockNum - 1)) "Append to index file occuring at wrong position."
  return {
    blockStream := (blockStream.write (c.pack b)).write (encode64 pos)
    indexStream := indexStream.write (encode64 pos)
    head := some b }

/-- `get_block_pos_helper`. -/
def getBlockPos (l : BlockLog Name Tx) (blockNum : Nat) :
    Except String (Nat × BlockLog Name Tx) := do
  let s := l.indexStream.checkRead
  if l.head.any (fun head => blockNum ≤ head.id.num && 0 < blockNum) then
    let (pos, s) ← (s.seekg (8 * (blockNum - 1))).read64
    return (pos, { l with indexStream := s })
  else return (npos, { l with indexStream := s })

/-- `read_block_by_num`. -/
def readBlockByNum (c : Codec (SignedBlock Name Tx)) (l : BlockLog Name Tx) (blockNum : Nat) :
    Except String (Option (SignedBlock Name Tx) × BlockLog Name Tx) := do
  let (pos, l) ← l.getBlockPos blockNum
  if pos ≠ npos then
    let ((b, _), l) ← readBlockHelper c l pos
    ensure (b.blockNum = blockNum) "Wrong block was read from block log."
    return (some b, l)
  else return (none, l)

/-- The log written by appending the blocks to an empty one. -/
def written (c : Codec (SignedBlock Name Tx)) (blocks : List (SignedBlock Name Tx)) :
    Except String (BlockLog Name Tx) := do
  let l ← openLog c [] []
  blocks.foldlM (append c) l

/-! ## Logs in order -/

variable {c : Codec (SignedBlock Name Tx)} {blocks before rest : List (SignedBlock Name Tx)}
  {b : SignedBlock Name Tx} {l : BlockLog Name Tx}

/-- The log file holds the blocks, which are numbered from one on, and the last
one is known. -/
structure Logged (c : Codec (SignedBlock Name Tx)) (l : BlockLog Name Tx)
    (blocks : List (SignedBlock Name Tx)) : Prop where
  block : l.blockStream.bytes = IndexedFile.entries c 0 blocks
  good : l.blockStream.failed = false
  blockEnd : l.blockStream.AtEnd
  head : l.head = blocks.getLast?
  numbered : ∀ i b, blocks[i]? = some b → b.blockNum = i + 1

/-- And the index fits. -/
structure Holds (c : Codec (SignedBlock Name Tx)) (l : BlockLog Name Tx)
    (blocks : List (SignedBlock Name Tx)) : Prop extends Logged c l blocks where
  index : l.indexStream.bytes = IndexedFile.positions c 0 blocks
  indexGood : l.indexStream.failed = false
  indexEnd : l.indexStream.AtEnd

theorem Holds.empty (c : Codec (SignedBlock Name Tx)) :
    Holds c (⟨.openWrite [], .openWrite [], none⟩ : BlockLog Name Tx) [] where
  block := rfl
  good := rfl
  blockEnd _ := rfl
  head := rfl
  numbered := by simp
  index := rfl
  indexGood := rfl
  indexEnd _ := rfl

/-- The block stream has been read. -/
theorem Logged.reread (h : Logged c l blocks) {s s' : ByteStream}
    (hblock : s.bytes = l.blockStream.bytes) (hgood : s.failed = false) (hend : s.AtEnd) :
    Logged c { l with blockStream := s, indexStream := s' } blocks :=
  ⟨hblock.trans h.block, hgood, hend, h.head, h.numbered⟩

/-- Both streams have. -/
theorem Holds.reread (h : Holds c l blocks) {s s' : ByteStream}
    (hblock : s.bytes = l.blockStream.bytes) (hgood : s.failed = false) (hend : s.AtEnd)
    (hindex : s'.bytes = l.indexStream.bytes) (hgood' : s'.failed = false) (hend' : s'.AtEnd) :
    Holds c { l with blockStream := s, indexStream := s' } blocks :=
  ⟨h.toLogged.reread hblock hgood hend, hindex.trans h.index, hgood', hend'⟩

/-- A block is appended exactly if it has the next number. -/
theorem Holds.append (h : Holds c l blocks) (b : SignedBlock Name Tx) :
    (b.blockNum = blocks.length + 1 → ∃ l', append c l b = .ok l') ∧
      Returns (append c l b) fun l' => Holds c l' (blocks ++ [b]) := by
  have hindex : l.indexStream.checkWrite.pos = 8 * blocks.length := by
    rw [h.indexEnd.checkWrite_pos, h.index, IndexedFile.length_positions]
  have hblock : l.blockStream.checkWrite.pos = IndexedFile.size c blocks := by
    rw [h.blockEnd.checkWrite_pos, h.block, IndexedFile.length_entries]
  unfold BlockLog.append
  simp only [hindex, hblock]
  constructor
  · intro hnum
    exact ⟨_, ensure_bind_eq_ok.mpr ⟨by simp [hnum], rfl⟩⟩
  · refine .ensure fun hpos => .pure ?_
    have hnum : b.blockNum = blocks.length + 1 := by
      have hpos : 8 * blocks.length = 8 * (b.blockNum - 1) := of_decide_eq_true hpos
      have : 0 < b.blockNum := Nat.succ_pos _
      omega
    refine ⟨⟨?_, ByteStream.checkWrite_failed h.good, .write _ _, (by simp), fun i a ha => ?_⟩,
      ?_, ByteStream.checkWrite_failed h.indexGood, .write _ _⟩
    · simp only [ByteStream.write, ByteStream.checkWrite_bytes, h.block,
        IndexedFile.entries_append, IndexedFile.entries, Nat.zero_add, List.append_nil,
        List.append_assoc]
    · rw [List.getElem?_append] at ha
      by_cases hi : i < blocks.length
      · rw [if_pos hi] at ha
        exact h.numbered i a ha
      · rw [if_neg hi] at ha
        cases hk : i - blocks.length with
        | zero =>
            rw [hk, List.getElem?_cons_zero, Option.some.injEq] at ha
            subst ha
            omega
        | succ k =>
            rw [hk] at ha
            simp at ha
    · simp only [ByteStream.write, ByteStream.checkWrite_bytes, h.index,
        IndexedFile.positions_append, IndexedFile.positions, Nat.zero_add, List.append_nil]

theorem Holds.appendAll {done more : List (SignedBlock Name Tx)} (h : Holds c l done) :
    Returns (more.foldlM (BlockLog.append c) l) fun l' => Holds c l' (done ++ more) := by
  induction more generalizing l done with
  | nil =>
      rw [List.append_nil]
      exact .pure h
  | cons b more ih =>
      rw [List.foldlM_cons]
      refine .bind (h.append b).2 fun l' hl' => ?_
      rw [List.append_cons]
      exact ih hl'

/-- Every log that was written holds its blocks. -/
theorem holds_written : Returns (written c blocks) fun l => Holds c l blocks :=
  (Holds.empty c).appendAll

/-! ## Reading -/

/-- A block is read where it stands; only the block stream changes. -/
theorem readBlockHelper_completes
    (hbytes : l.blockStream.bytes = IndexedFile.entries c 0 (before ++ b :: rest))
    (hgood : l.blockStream.failed = false) :
    Completes (readBlockHelper c l (IndexedFile.size c before)) fun r => r.1.1 = b ∧
      ∃ s : ByteStream, s.bytes = l.blockStream.bytes ∧ s.writing = false ∧ s.failed = false ∧
        r.2 = { l with blockStream := s } := by
  have hunpack := ByteStream.unpack_of_bytes (c := c) (a := b)
    (s := l.blockStream.checkRead.seekg (IndexedFile.size c before))
    (by rw [ByteStream.seekg_bytes, ByteStream.checkRead_bytes, hbytes,
      IndexedFile.entries_around])
    (by rw [ByteStream.seekg_pos, IndexedFile.length_entries])
    (ByteStream.checkRead_failed hgood)
  unfold readBlockHelper
  rw [hunpack]
  refine .pure ⟨rfl, _, ?_, ?_, ?_, rfl⟩
  · simp
  · simp
  · exact ByteStream.checkRead_failed hgood

theorem readHead_completes (hbytes : l.blockStream.bytes = IndexedFile.entries c 0 blocks)
    (hgood : l.blockStream.failed = false) (hne : blocks ≠ [])
    (hsize : IndexedFile.size c blocks < 18446744073709551616) :
    Completes (readHead c l) fun r => r.1 = blocks.getLast hne ∧
      ∃ s : ByteStream, s.bytes = l.blockStream.bytes ∧ s.writing = false ∧ s.failed = false ∧
        r.2 = { l with blockStream := s } := by
  obtain ⟨q, hlast⟩ := IndexedFile.readLast_entries (c := c) (s := l.blockStream.checkRead)
    (by rw [ByteStream.checkRead_bytes, hbytes]) (ByteStream.checkRead_failed hgood) hne hsize
  have hsplit : { l with blockStream := l.blockStream.checkRead.seekg q }.blockStream.bytes =
      IndexedFile.entries c 0 (blocks.dropLast ++ blocks.getLast hne :: []) := by
    rw [List.dropLast_append_getLast]
    simp [hbytes]
  unfold readHead
  rw [hlast]
  refine .bind (.of_eq rfl rfl) fun r hr => ?_
  subst hr
  refine .bind (readBlockHelper_completes hsplit (ByteStream.checkRead_failed hgood)) ?_
  rintro ⟨⟨b, p⟩, l'⟩ ⟨hb, s, hs, hreading, hread, hl'⟩
  dsimp only at hb hl'
  subst hl'
  exact .pure ⟨hb, s, by rw [hs]; simp, hreading, hread, rfl⟩

/-- The test of `get_block_pos_helper`. -/
theorem Logged.inRange_iff (h : Logged c l blocks) {n : Nat} :
    l.head.any (fun head => n ≤ head.id.num && 0 < n) = true ↔ 0 < n ∧ n ≤ blocks.length := by
  rw [h.head]
  cases hlast : blocks.getLast? with
  | none =>
      rw [List.getLast?_eq_none_iff.mp hlast]
      simp only [Option.any_none, List.length_nil, Bool.false_eq_true, false_iff]
      omega
  | some last =>
      have hnum := h.numbered (blocks.length - 1) last
        (by rw [← List.getLast?_eq_getElem?, hlast])
      have hpos : 0 < blocks.length := by
        cases blocks with
        | nil => simp at hlast
        | cons => simp
      simp only [Option.any_some, Bool.and_eq_true, decide_eq_true_eq, SignedBlock.id_num, hnum]
      omega

/-- The position of a block in the index. -/
theorem Holds.getBlockPos_completes (h : Holds c l (before ++ b :: rest))
    (hsize : IndexedFile.size c (before ++ b :: rest) < 18446744073709551616) :
    Completes (l.getBlockPos (before.length + 1)) fun r => r.1 = IndexedFile.size c before ∧
      ∃ s : ByteStream, s.bytes = l.indexStream.bytes ∧ s.writing = false ∧ s.failed = false ∧
        r.2 = { l with indexStream := s } := by
  have hlt : IndexedFile.size c before < 18446744073709551616 := by
    rw [IndexedFile.size_append] at hsize
    omega
  have hin := h.inRange_iff.mpr ⟨Nat.succ_pos before.length, by
    rw [List.length_append, List.length_cons]; omega⟩
  have hread := ByteStream.read64_of_bytes
    (s := l.indexStream.checkRead.seekg (8 * (before.length + 1 - 1))) _ _
    (by rw [ByteStream.seekg_bytes, ByteStream.checkRead_bytes, h.index,
      IndexedFile.positions_around])
    (by rw [ByteStream.seekg_pos, IndexedFile.length_positions, Nat.add_sub_cancel]) hlt
    (ByteStream.checkRead_failed h.indexGood)
  unfold getBlockPos
  rw [if_pos hin, hread]
  refine .pure ⟨rfl, _, ?_, ?_, ?_, rfl⟩
  · simp
  · simp
  · exact ByteStream.checkRead_failed h.indexGood

/-- The `n`-th of the blocks, and none for a number that no block has. -/
def nth (blocks : List (SignedBlock Name Tx)) (n : Nat) : Option (SignedBlock Name Tx) :=
  if n = 0 then none else blocks[n - 1]?

theorem nth_none {n : Nat} (hn : ¬(0 < n ∧ n ≤ blocks.length)) : nth blocks n = none := by
  unfold nth
  by_cases h0 : n = 0
  · rw [if_pos h0]
  · rw [if_neg h0, List.getElem?_eq_none]
    omega

theorem nth_middle : nth (before ++ b :: rest) (before.length + 1) = some b := by
  simp [nth]

theorem exists_split {n : Nat} (hpos : 0 < n) (hle : n ≤ blocks.length) :
    ∃ before b rest, blocks = before ++ b :: rest ∧ before.length + 1 = n := by
  have hlt : n - 1 < blocks.length := by omega
  refine ⟨blocks.take (n - 1), blocks[n - 1], blocks.drop (n - 1 + 1), ?_, ?_⟩
  · rw [← List.drop_eq_getElem_cons hlt, List.take_append_drop]
  · rw [List.length_take]
    omega

theorem Holds.read_block (h : Holds c l (before ++ b :: rest))
    (hsize : IndexedFile.size c (before ++ b :: rest) < 18446744073709551616) :
    Completes (readBlockByNum c l (before.length + 1)) fun r =>
      r.1 = some b ∧ Holds c r.2 (before ++ b :: rest) := by
  unfold readBlockByNum
  refine .bind (h.getBlockPos_completes hsize) ?_
  rintro ⟨pos, l'⟩ ⟨hpos, s, hs, hreading, hgood, hl'⟩
  dsimp only at hpos hl'
  subst hpos
  subst hl'
  have hne : IndexedFile.size c before ≠ npos := by
    rw [IndexedFile.size_append, IndexedFile.size] at hsize
    rw [npos]
    omega
  dsimp only
  rw [if_pos hne]
  refine .bind (readBlockHelper_completes h.block h.good) ?_
  rintro ⟨⟨b', p⟩, l''⟩ ⟨hread, s', hs', hreading', hgood', hl''⟩
  dsimp only at hread hl''
  subst hread
  subst hl''
  have hnum := h.numbered before.length b' (by simp)
  have hcheck : decide (b'.blockNum = before.length + 1) = true := decide_eq_true hnum
  exact .ensure hcheck (.pure ⟨rfl, h.reread hs' hgood' (.of_reading hreading') hs hgood
    (.of_reading hreading)⟩)

/-- **Every block is read by its number.** -/
theorem Holds.read (h : Holds c l blocks)
    (hsize : IndexedFile.size c blocks < 18446744073709551616) (n : Nat) :
    Completes (readBlockByNum c l n) fun r => r.1 = nth blocks n ∧ Holds c r.2 blocks := by
  by_cases hn : 0 < n ∧ n ≤ blocks.length
  · obtain ⟨before, b, rest, rfl, rfl⟩ := exists_split hn.1 hn.2
    rw [nth_middle]
    exact h.read_block hsize
  · have hpos : l.getBlockPos n =
        .ok (npos, { l with indexStream := l.indexStream.checkRead }) := by
      unfold getBlockPos
      rw [if_neg fun hin => hn (h.inRange_iff.mp hin)]
      rfl
    rw [nth_none hn]
    unfold readBlockByNum
    rw [hpos]
    refine .bind (.of_eq rfl rfl) fun r hr => ?_
    subst hr
    dsimp only
    rw [if_neg (not_not.mpr rfl)]
    exact .pure ⟨rfl, h.reread rfl h.good h.blockEnd (ByteStream.checkRead_bytes _)
      (ByteStream.checkRead_failed h.indexGood) (.of_reading (ByteStream.checkRead_writing _))⟩

/-! ## Opening -/

/-- `construct_index` writes an empty index and goes into its loop. -/
theorem Logged.constructIndex_eq (h : Logged c l blocks) (hne : blocks ≠ [])
    (hsize : IndexedFile.size c blocks < 18446744073709551616) :
    ∃ s : ByteStream, s.bytes = IndexedFile.entries c 0 blocks ∧ s.writing = false ∧
      s.failed = false ∧ constructIndex c l =
        fillIndex c (IndexedFile.lastPos c blocks) { l with blockStream := s } := by
  obtain ⟨q, hread⟩ := IndexedFile.readLast_entries (c := c) (s := l.blockStream.checkRead)
    (by rw [ByteStream.checkRead_bytes, h.block]) (ByteStream.checkRead_failed h.good) hne hsize
  refine ⟨l.blockStream.checkRead.seekg q, by simp [h.block], by simp,
    ByteStream.checkRead_failed h.good, ?_⟩
  unfold constructIndex
  rw [hread]
  rfl

theorem fillIndex_eq {endPos : Nat} {streams : ByteStream × ByteStream}
    (hloop : IndexedFile.indexLoop c endPos (l.blockStream.bytes.length + 1) 0
      (l.blockStream.seekg 0, .openWrite []) = .ok () streams) :
    fillIndex c endPos l = .ok { l with blockStream := streams.1, indexStream := streams.2 } := by
  rw [fillIndex, hloop]

theorem Logged.constructIndex_completes (h : Logged c l blocks) (htwo : 2 ≤ blocks.length)
    (hsize : IndexedFile.size c blocks < 18446744073709551616) :
    Completes (constructIndex c l) fun l' => Holds c l' blocks := by
  have hne : blocks ≠ [] := by
    rintro rfl
    simp at htwo
  obtain ⟨s, hs, hreading, hgood, hconstruct⟩ := h.constructIndex_eq hne hsize
  have hstart : IndexedFile.Building c ([] ++ blocks) [] (s.seekg 0, .openWrite []) :=
    ⟨hs, hreading, hgood, rfl, rfl, rfl, fun _ => rfl⟩
  have hfuel : blocks.length < s.bytes.length + 1 := by
    have hlength := IndexedFile.length_le_size c blocks
    rw [hs, IndexedFile.length_entries]
    omega
  obtain ⟨⟨⟩, streams, hloop, hbuilt⟩ :=
    IndexedFile.indexLoop_finishes [] hstart htwo hsize hfuel
  rw [hconstruct, fillIndex_eq hloop]
  exact .ok ⟨⟨hbuilt.file, hbuilt.good, .of_reading hbuilt.reading, h.head, h.numbered⟩,
    hbuilt.index, hbuilt.indexGood, hbuilt.indexEnd⟩

/-- The last block of a log of one block starts at zero, so its index is left empty. -/
theorem Logged.constructIndex_single (h : Logged c l [b])
    (hsize : IndexedFile.size c [b] < 18446744073709551616) :
    Completes (constructIndex c l) fun l' => Logged c l' [b] ∧ l'.indexStream.bytes = [] := by
  obtain ⟨s, hs, hreading, hgood, hconstruct⟩ := h.constructIndex_eq (by simp) hsize
  have hstop : ¬0 < IndexedFile.lastPos c [b] := Nat.lt_irrefl 0
  have hloop : IndexedFile.indexLoop c (IndexedFile.lastPos c [b]) (s.bytes.length + 1) 0
      (s.seekg 0, .openWrite []) = .ok () (s.seekg 0, .openWrite []) := by
    rw [IndexedFile.indexLoop, if_neg hstop]
    rfl
  rw [hconstruct, fillIndex_eq hloop]
  exact .ok ⟨⟨hs, hgood, .of_reading hreading, h.head, h.numbered⟩, rfl⟩

/-- The head is read from a log that is not empty, whatever the index is. -/
theorem openLog_eq (hnum : ∀ i b, blocks[i]? = some b → b.blockNum = i + 1) (hne : blocks ≠ [])
    (hsize : IndexedFile.size c blocks < 18446744073709551616) (indexFile : List UInt8) :
    ∃ l, Logged c l blocks ∧ l.indexStream = .openWrite indexFile ∧
      openLog c (IndexedFile.entries c 0 blocks) indexFile =
        if 0 < indexFile.length then checkIndex c l else constructIndex c l := by
  let start : BlockLog Name Tx :=
    ⟨.openWrite (IndexedFile.entries c 0 blocks), .openWrite indexFile, none⟩
  have hnonempty : 0 < (IndexedFile.entries c 0 blocks).length := by
    have hlength := IndexedFile.length_le_size c blocks
    have := List.length_pos_iff.mpr hne
    rw [IndexedFile.length_entries]
    omega
  have hentries : start.blockStream.bytes = IndexedFile.entries c 0 blocks := rfl
  obtain ⟨⟨b, l⟩, hread, hb, s, hs, hreading, hgood, hl⟩ :=
    readHead_completes hentries rfl hne hsize
  dsimp only at hb hl
  subst hl
  refine ⟨{ start with blockStream := s, head := some b },
    ⟨hs, hgood, .of_reading hreading, ?_, hnum⟩, rfl, ?_⟩
  · rw [List.getLast?_eq_some_getLast hne, ← hb]
  · unfold openLog
    rw [if_pos hnonempty]
    show readHead c start >>= _ = _
    rw [hread]
    rfl

/-- The index is kept exactly if it ends with the position of the last block. -/
theorem Logged.checkIndex_eq {other : List (SignedBlock Name Tx)} (h : Logged c l blocks)
    (hindex : l.indexStream = .openWrite (IndexedFile.positions c 0 other)) (hne : blocks ≠ [])
    (hne' : other ≠ []) (hsize : IndexedFile.size c blocks < 18446744073709551616)
    (hsize' : IndexedFile.size c other < 18446744073709551616) :
    ∃ l', Logged c l' blocks ∧ l'.indexStream.bytes = IndexedFile.positions c 0 other ∧
      l'.indexStream.writing = false ∧ l'.indexStream.failed = false ∧
      checkIndex c l = if IndexedFile.lastPos c blocks = IndexedFile.lastPos c other then .ok l'
        else constructIndex c l' := by
  obtain ⟨q, hread⟩ := IndexedFile.readLast_entries (c := c) (s := l.blockStream.checkRead)
    (by rw [ByteStream.checkRead_bytes, h.block]) (ByteStream.checkRead_failed h.good) hne hsize
  have hbytes : l.indexStream.checkRead.bytes = IndexedFile.positions c 0 other := by
    rw [ByteStream.checkRead_bytes, hindex]
    rfl
  have hgood : l.indexStream.checkRead.failed = false := by
    rw [hindex]
    rfl
  have hlong : 8 ≤ l.indexStream.checkRead.bytes.length := by
    have := List.length_pos_iff.mpr hne'
    rw [hbytes, IndexedFile.length_positions]
    omega
  have hread' := ByteStream.readLast_eq hgood hlong
  rw [hbytes, IndexedFile.lastNumber_positions hne' hsize'] at hread'
  let l' : BlockLog Name Tx := { l with
    blockStream := l.blockStream.checkRead.seekg q
    indexStream := l.indexStream.checkRead.seekg (IndexedFile.positions c 0 other).length }
  refine ⟨l', h.reread (by simp) (ByteStream.checkRead_failed h.good) (.of_reading (by simp)),
    hbytes, ByteStream.checkRead_writing _, hgood, ?_⟩
  have hcheck : checkIndex c l =
      if IndexedFile.lastPos c blocks < IndexedFile.lastPos c other then constructIndex c l'
      else if IndexedFile.lastPos c other < IndexedFile.lastPos c blocks then constructIndex c l'
      else .ok l' := by
    unfold checkIndex
    rw [hread]
    show l.indexStream.checkRead.readLast >>= _ = _
    rw [hread']
    rfl
  rw [hcheck]
  rcases Nat.lt_trichotomy (IndexedFile.lastPos c blocks) (IndexedFile.lastPos c other) with
    hlt | heq | hgt
  · rw [if_pos hlt, if_neg (by omega)]
  · rw [if_neg (by omega), if_neg (by omega), if_pos heq]
  · rw [if_neg (by omega), if_pos hgt, if_neg (by omega)]

/-- A log that was opened serves its blocks: after any reads, every number is
read right and the next block can be appended. -/
def Recovers (c : Codec (SignedBlock Name Tx)) (blocks : List (SignedBlock Name Tx))
    (opened : Except String (BlockLog Name Tx)) : Prop :=
  ∃ l, opened = .ok l ∧ ∀ reads : List Nat,
    ∃ l', reads.foldlM (fun l n => do return (← readBlockByNum c l n).2) l = .ok l' ∧
      (∀ n, Completes (readBlockByNum c l' n) fun r => r.1 = nth blocks n) ∧
      ∀ b, b.blockNum = blocks.length + 1 → ∃ l'', append c l' b = .ok l''

theorem Holds.recovers (h : Holds c l blocks)
    (hsize : IndexedFile.size c blocks < 18446744073709551616) : Recovers c blocks (.ok l) := by
  refine ⟨l, rfl, fun reads => ?_⟩
  have hreads : Completes
      (reads.foldlM (fun l n => do return (← readBlockByNum c l n).2) l)
      fun l' => Holds c l' blocks := by
    refine Completes.foldlM (I := fun _ l' => Holds c l' blocks) (fun n rest l' hl' => ?_) h
    exact .bind (hl'.read hsize n) fun r hr => .pure hr.2
  obtain ⟨l', hl', hholds⟩ := hreads
  exact ⟨l', hl', fun n => (hholds.read hsize n).mono fun r hr => hr.1, fun b hb =>
    (hholds.append b).1 hb⟩

/-- No block is read from a log whose index is empty. -/
theorem Logged.not_recovers (h : Logged c l [b]) (hempty : l.indexStream.bytes = []) :
    ¬Recovers c [b] (.ok l) := by
  rintro ⟨l', hl', hreads⟩
  obtain rfl : l = l' := Except.ok.inj hl'
  obtain ⟨l', hl', hread, -⟩ := hreads []
  obtain rfl : l = l' := Except.ok.inj hl'
  obtain ⟨r, hr, -⟩ := hread 1
  have hshort : (l.indexStream.checkRead.seekg (8 * (1 - 1))).read64 = .error "failbit" :=
    ByteStream.read64_of_short (by simp [ByteStream.remaining, hempty])
  unfold readBlockByNum getBlockPos at hr
  rw [if_pos (h.inRange_iff.mpr ⟨Nat.one_pos, Nat.le_refl 1⟩), hshort] at hr
  exact absurd hr (by simp [bind, Except.bind])

/-- The part of `open` that is about the index: one that fits is kept, any
other part of the entries and any longer index is built again. -/
theorem openLog_index {other : List (SignedBlock Name Tx)}
    (hnum : ∀ i b, blocks[i]? = some b → b.blockNum = i + 1) (hne : blocks ≠ [])
    (hone : other <+: blocks ∨ blocks <+: other)
    (hsize : IndexedFile.size c blocks < 18446744073709551616)
    (hsize' : IndexedFile.size c other < 18446744073709551616) :
    ∃ l, Logged c l blocks ∧
      (other = blocks → Holds c l blocks ∧
        openLog c (IndexedFile.entries c 0 blocks) (IndexedFile.positions c 0 other) = .ok l) ∧
      (other ≠ blocks →
        openLog c (IndexedFile.entries c 0 blocks) (IndexedFile.positions c 0 other) =
          constructIndex c l) := by
  obtain ⟨l, hlogged, hindex, hopen⟩ :=
    openLog_eq (c := c) hnum hne hsize (IndexedFile.positions c 0 other)
  rw [IndexedFile.length_positions] at hopen
  have hposBlocks := List.length_pos_iff.mpr hne
  by_cases hne' : other = []
  · subst hne'
    rw [if_neg (by simp)] at hopen
    exact ⟨l, hlogged, fun heq => absurd heq.symm hne, fun _ => hopen⟩
  · have hposOther := List.length_pos_iff.mpr hne'
    obtain ⟨l', hlogged', hbytes, hreading, hgood, hcheck⟩ :=
      hlogged.checkIndex_eq hindex hne hne' hsize hsize'
    rw [if_pos (by omega), hcheck] at hopen
    refine ⟨l', hlogged', fun heq => ⟨⟨hlogged', heq ▸ hbytes, hgood, .of_reading hreading⟩, ?_⟩,
      fun hdiff => ?_⟩
    · rw [hopen, heq, if_pos rfl]
    · -- the longer of the two has its last block further on
      have hpos : IndexedFile.lastPos c blocks ≠ IndexedFile.lastPos c other := by
        rcases hone with hp | hp
        · have hlt : other.length < blocks.length :=
            Nat.lt_of_le_of_ne hp.length_le fun hlen => hdiff (hp.eq_of_length hlen)
          exact Nat.ne_of_gt (IndexedFile.lastPos_lt hp hlt (by omega))
        · have hlt : blocks.length < other.length :=
            Nat.lt_of_le_of_ne hp.length_le fun hlen => hdiff (hp.eq_of_length hlen).symm
          exact Nat.ne_of_lt (IndexedFile.lastPos_lt hp hlt (by omega))
      rw [hopen, if_neg hpos]

/-- **Opening a log recovers it** from an index that holds a part of its
entries or those of a longer log, unless it has a single block: a missing or
longer index of such a log is replaced by an empty one. -/
theorem open_recovers_iff {other : List (SignedBlock Name Tx)} {l' : BlockLog Name Tx}
    (hl : written c blocks = .ok l) (hl' : written c other = .ok l') (hne : blocks ≠ [])
    (hone : other <+: blocks ∨ blocks <+: other)
    (hsize : IndexedFile.size c blocks < 18446744073709551616)
    (hsize' : IndexedFile.size c other < 18446744073709551616) :
    Recovers c blocks (openLog c l.blockStream.bytes l'.indexStream.bytes) ↔
      2 ≤ blocks.length ∨ other = blocks := by
  have hholds := holds_written l hl
  rw [hholds.block, (holds_written l' hl').index]
  obtain ⟨l₁, hlogged, hkept, hbuilt⟩ := openLog_index hholds.numbered hne hone hsize hsize'
  by_cases heq : other = blocks
  · obtain ⟨hholds₁, hopen⟩ := hkept heq
    rw [hopen]
    exact iff_of_true (hholds₁.recovers hsize) (.inr heq)
  · rw [hbuilt heq]
    by_cases htwo : 2 ≤ blocks.length
    · obtain ⟨l₂, hconstruct, hholds₂⟩ := hlogged.constructIndex_completes htwo hsize
      rw [hconstruct]
      exact iff_of_true (hholds₂.recovers hsize) (.inl htwo)
    · obtain ⟨b, rfl⟩ : ∃ b, blocks = [b] := by
        rw [← List.length_eq_one_iff]
        have := List.length_pos_iff.mpr hne
        omega
      obtain ⟨l₂, hconstruct, hlogged₂, hempty⟩ := hlogged.constructIndex_single hsize
      rw [hconstruct]
      exact iff_of_false (hlogged₂.not_recovers hempty) (by simp [heq])

/-! ## Two small logs -/

/-- A number as so many ones and a zero. -/
def packUnary (n : Nat) : List UInt8 := List.replicate n 1 ++ [0]

def unpackUnary : List UInt8 → Option (Nat × List UInt8)
  | [] => none
  | b :: rest =>
      if b = 0 then some (0, rest) else (unpackUnary rest).map fun r => (r.1 + 1, r.2)

theorem unpackUnary_packUnary (n : Nat) (rest : List UInt8) :
    unpackUnary (packUnary n ++ rest) = some (n, rest) := by
  induction n with
  | zero => rfl
  | succ n ih =>
      simp only [packUnary, List.replicate_succ, List.cons_append] at ih ⊢
      rw [unpackUnary, if_neg (by decide), ih]
      rfl

/-- Blocks without names and transactions, packed field by field. -/
def unaryCodec : Codec (SignedBlock Unit Unit) where
  pack b := packUnary b.previous.num ++ (packUnary b.previous.hash ++ (packUnary b.timestamp ++
    (packUnary b.transactions.length ++ packUnary b.hash)))
  unpack bytes := do
    let (num, bytes) ← unpackUnary bytes
    let (hash, bytes) ← unpackUnary bytes
    let (timestamp, bytes) ← unpackUnary bytes
    let (count, bytes) ← unpackUnary bytes
    let (own, bytes) ← unpackUnary bytes
    return (⟨⟨num, hash⟩, timestamp, (), List.replicate count (), own⟩, bytes)
  unpack_pack b rest := by
    have hunits : List.replicate b.transactions.length () = b.transactions :=
      List.eq_replicate_iff.mpr ⟨rfl, fun _ _ => rfl⟩ |>.symm
    simp [unpackUnary_packUnary, hunits]

/-- The first two blocks of a chain. -/
def firstBlocks : List (SignedBlock Unit Unit) :=
  [⟨⟨0, 0⟩, 3, (), [], 7⟩, ⟨⟨1, 7⟩, 6, (), [()], 9⟩]

/-- A log of two blocks whose index has only the first entry. -/
theorem open_recovers_two : ∃ l l' : BlockLog Unit Unit,
    written unaryCodec firstBlocks = .ok l ∧ written unaryCodec (firstBlocks.take 1) = .ok l' ∧
      (Recovers unaryCodec firstBlocks
        (openLog unaryCodec l.blockStream.bytes l'.indexStream.bytes) ↔
          2 ≤ firstBlocks.length ∨ firstBlocks.take 1 = firstBlocks) :=
  ⟨_, _, rfl, rfl, open_recovers_iff rfl rfl (by decide) (.inl (List.take_prefix _ _))
    (by decide) (by decide)⟩

/-- The index of a log of one block is missing. -/
theorem open_single_fails : ∃ l : BlockLog Unit Unit,
    written unaryCodec (firstBlocks.take 1) = .ok l ∧
      ¬Recovers unaryCodec (firstBlocks.take 1) (openLog unaryCodec l.blockStream.bytes []) := by
  refine ⟨_, rfl, ?_⟩
  rintro ⟨l', hopen, hreads⟩
  obtain ⟨l'', hnone, hread, -⟩ := hreads []
  obtain rfl : l' = l'' := Except.ok.inj hnone
  obtain ⟨r, hr, -⟩ := hread 1
  have hfail : Except.error "failbit" = readBlockByNum unaryCodec l' 1 :=
    congrArg (fun opened => opened >>= fun l => readBlockByNum unaryCodec l 1) hopen
  rw [← hfail] at hr
  exact absurd hr (by simp)

end BlockLog

end Gamebank.Chain
