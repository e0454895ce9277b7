import Gamebank.Chain.Block
import Gamebank.Lib.IndexedFile

/-!
# The contract log

`contract_log.cpp`: the operations of the contracts, an entry for every block
from the first one on that was logged. As in the block log each entry is
followed by its position, and an index holds the positions; numbers are looked
up relative to `start_num`, the number before that of the first entry, in
32-bit arithmetic. How an entry is packed is a parameter.
-/

namespace Gamebank.Chain

open Gamebank.Lib

/-- `num_from_id`. -/
def numFromId (id : BlockId) : UInt32 := UInt32.ofNat id.num

/-- `signed_contract`, as it is logged: with the operations of its transactions. -/
structure ContractEntry (Tx : Type) where
  previous : BlockId
  blockId : BlockId
  transactions : List Tx
  signingKey : Nat
deriving DecidableEq

/-- `signed_contract::block_num`, the number in the id. -/
def ContractEntry.blockNum {Tx : Type} (b : ContractEntry Tx) : UInt32 := numFromId b.blockId

/-- `contract_log_impl`. -/
structure ContractLog (Tx : Type) where
  blockStream : ByteStream
  indexStream : ByteStream
  head : Option (ContractEntry Tx)
  headId : BlockId
  startNum : UInt32

namespace ContractLog

variable {Tx : Type}

/-- `contract_log::npos`. -/
def npos : Nat := 18446744073709551615

/-- A member function of the log; when it throws, what it has done stays done. -/
abbrev LogM (Tx : Type) := EStateM String (ContractLog Tx)

/-- An operation of `block_stream`. -/
def onBlockStream {α : Type} (f : ByteStream → Except String (α × ByteStream)) : LogM Tx α :=
  ByteStream.on ContractLog.blockStream (fun s l => { l with blockStream := s }) f

/-- An operation of `index_stream`. -/
def onIndexStream {α : Type} (f : ByteStream → Except String (α × ByteStream)) : LogM Tx α :=
  ByteStream.on ContractLog.indexStream (fun s l => { l with indexStream := s }) f

/-- `check_block_read`. -/
def checkBlockRead : LogM Tx Unit :=
  modify fun l => { l with blockStream := l.blockStream.checkRead }

/-- `check_index_read`. -/
def checkIndexRead : LogM Tx Unit :=
  modify fun l => { l with indexStream := l.indexStream.checkRead }

/-- `check_block_write`. -/
def checkBlockWrite : LogM Tx Unit :=
  modify fun l => { l with blockStream := l.blockStream.checkWrite }

/-- `check_index_write`. -/
def checkIndexWrite : LogM Tx Unit :=
  modify fun l => { l with indexStream := l.indexStream.checkWrite }

/-- `read_start`, with a stream of its own. -/
def readStart (c : Codec (ContractEntry Tx)) : LogM Tx Unit := fun l =>
  match (ByteStream.openRead l.blockStream.bytes).unpack c with
  | .ok (tmp, _) => .ok () { l with startNum := tmp.blockNum - 1 }
  | .error e => .error e l

/-- `read_block_helper`. -/
def readBlockHelper (c : Codec (ContractEntry Tx)) (pos : Nat) :
    LogM Tx (ContractEntry Tx × Nat) := do
  checkBlockRead
  let b ← onBlockStream fun s => (s.seekg pos).unpack c
  let l ← get
  return (b, l.blockStream.pos + 8)

/-- `read_head`. -/
def readHead (c : Codec (ContractEntry Tx)) : LogM Tx (ContractEntry Tx) := do
  checkBlockRead
  let pos ← onBlockStream ByteStream.readLast
  let (b, _) ← readBlockHelper c pos
  return b

/-- The loop of `construct_index`, on the two streams. -/
def fillIndex (c : Codec (ContractEntry Tx)) (endPos : Nat) : LogM Tx Unit := fun l =>
  match IndexedFile.indexLoop c endPos (l.blockStream.bytes.length + 1) 0
    (l.blockStream, l.indexStream) with
  | .ok _ streams => .ok () { l with blockStream := streams.1, indexStream := streams.2 }
  | .error e streams => .error e { l with blockStream := streams.1, indexStream := streams.2 }

/-- `construct_index`. -/
def constructIndex (c : Codec (ContractEntry Tx)) : LogM Tx Unit := do
  modify fun l => { l with indexStream := .openWrite [] }
  checkBlockRead
  let endPos ← onBlockStream ByteStream.readLast
  modify fun l => { l with blockStream := l.blockStream.seekg 0 }
  fillIndex c endPos

/-- The part of `open` for two files that are not empty. -/
def checkIndex (c : Codec (ContractEntry Tx)) : LogM Tx Unit := do
  checkBlockRead
  checkIndexRead
  let blockPos ← onBlockStream ByteStream.readLast
  let indexPos ← onIndexStream ByteStream.readLast
  if blockPos < indexPos then constructIndex c
  else if indexPos < blockPos then constructIndex c
  else return ()

/-- `open` on the two files; one that is missing is created empty. -/
def openLog (c : Codec (ContractEntry Tx)) (blockFile indexFile : List UInt8) : LogM Tx Unit := do
  modify fun l =>
    { l with blockStream := .openWrite blockFile, indexStream := .openWrite indexFile }
  if 0 < blockFile.length then
    readStart c
    let b ← readHead c
    modify fun l => { l with head := some b, headId := b.blockId }
    if 0 < indexFile.length then checkIndex c else constructIndex c
  else if 0 < indexFile.length then
    modify fun l => { l with indexStream := .openWrite [] }
  else return ()

/-- `append`; the first entry of a log sets `start_num`. -/
def append (c : Codec (ContractEntry Tx)) (b : ContractEntry Tx) : LogM Tx Nat := do
  checkBlockWrite
  checkIndexWrite
  -- a stream that stands at zero is that of a log without entries
  modify fun l =>
    { l with startNum := if l.blockStream.pos = 0 then b.blockNum - 1 else l.startNum }
  let l ← get
  let pos := l.blockStream.pos
  check (l.indexStream.pos = 8 * (b.blockNum - l.startNum - 1).toNat)
    "Append to index file occuring at wrong position."
  set { l with
    blockStream := (l.blockStream.write (c.pack b)).write (encode64 pos)
    indexStream := l.indexStream.write (encode64 pos)
    head := some b
    headId := b.blockId }
  return pos

/-- `get_block_pos_helper`. -/
def getBlockPos (blockNum : UInt32) : LogM Tx Nat := do
  checkIndexRead
  let l ← get
  if l.head.isSome && blockNum ≤ numFromId l.headId && 0 < blockNum - l.startNum then
    onIndexStream fun s => (s.seekg (8 * (blockNum - l.startNum - 1).toNat)).read64
  else return npos

/-- `read_block_by_num`. -/
def readBlockByNum (c : Codec (ContractEntry Tx)) (blockNum : UInt32) :
    LogM Tx (Option (ContractEntry Tx)) := do
  let pos ← getBlockPos blockNum
  if pos ≠ npos then
    let (b, _) ← readBlockHelper c pos
    check (b.blockNum = blockNum) "Wrong block was read from block log."
    return some b
  else return none

/-- A log that has not been opened; `unset` is the `start_num` of an object that
has not set it. -/
def new (unset : UInt32) : ContractLog Tx := ⟨.openWrite [], .openWrite [], none, .zero, unset⟩

/-! ## The entries of a log -/

/-- The entry of a block. -/
def entryOf (es : List (ContractEntry Tx)) (n : UInt32) : Option (ContractEntry Tx) :=
  es.find? fun b => b.blockNum = n

/-- The number before that of the first entry. -/
def startOf : List (ContractEntry Tx) → Nat
  | [] => 0
  | b :: _ => b.blockNum.toNat - 1

/-- The entries are those of one block after the other; block zero is none of them. -/
def Numbered (es : List (ContractEntry Tx)) : Prop :=
  ∀ i b, es[i]? = some b → b.blockNum.toNat = startOf es + i + 1

variable {c : Codec (ContractEntry Tx)} {l : ContractLog Tx}
  {es before rest : List (ContractEntry Tx)} {b : ContractEntry Tx} {n : UInt32}

/-- What `start_num` is. -/
theorem toNat_pred {m : UInt32} (h : m ≠ 0) : (m - 1).toNat = m.toNat - 1 := by
  have hpos : m.toNat ≠ 0 := fun h0 => h (UInt32.toNat_inj.mp h0)
  have hlt := m.toNat_lt
  rw [UInt32.toNat_sub]
  have hone : (1 : UInt32).toNat = 1 := rfl
  omega

theorem startOf_append (h : es ≠ []) (b : ContractEntry Tx) :
    startOf (es ++ [b]) = startOf es := by
  cases es with
  | nil => exact absurd rfl h
  | cons a rest => rfl

namespace Numbered

theorem mem (h : Numbered es) (hb : b ∈ es) :
    startOf es < b.blockNum.toNat ∧ b.blockNum.toNat ≤ startOf es + es.length := by
  obtain ⟨i, hi, rfl⟩ := List.mem_iff_getElem.mp hb
  have hnum := h i _ (List.getElem?_eq_getElem hi)
  omega

theorem last (h : Numbered es) (hb : es.getLast? = some b) :
    b.blockNum.toNat = startOf es + es.length := by
  rw [List.getLast?_eq_getElem?] at hb
  have hnum := h _ b hb
  have hlt := (List.getElem?_eq_some_iff.mp hb).choose
  omega

/-- The entry of a number between the first and the last. -/
theorem exists_entry (h : Numbered es) (hlow : startOf es < n.toNat)
    (hhigh : n.toNat ≤ startOf es + es.length) :
    ∃ before b rest, es = before ++ b :: rest ∧ b.blockNum = n ∧
      before.length = n.toNat - startOf es - 1 := by
  have hlt : n.toNat - startOf es - 1 < es.length := by omega
  refine ⟨es.take (n.toNat - startOf es - 1), es[n.toNat - startOf es - 1],
    es.drop (n.toNat - startOf es - 1 + 1), ?_, ?_, ?_⟩
  · rw [List.getElem_cons_drop, List.take_append_drop]
  · have hnum := h _ _ (List.getElem?_eq_getElem hlt)
    exact UInt32.toNat_inj.mp (by omega)
  · rw [List.length_take]
    omega

theorem entryOf_middle (h : Numbered (before ++ b :: rest)) :
    entryOf (before ++ b :: rest) b.blockNum = some b := by
  have hb := h before.length b (by simp)
  have hnone : before.find? (fun a => decide (a.blockNum = b.blockNum)) = none := by
    rw [List.find?_eq_none]
    intro a ha
    obtain ⟨i, hi, rfl⟩ := List.mem_iff_getElem.mp ha
    have hnum := h i before[i] (by rw [List.getElem?_append_left hi, List.getElem?_eq_getElem hi])
    rw [decide_eq_true_eq]
    intro heq
    rw [heq] at hnum
    omega
  rw [entryOf, List.find?_append, hnone]
  simp

theorem entryOf_outside (h : Numbered es)
    (hout : n.toNat ≤ startOf es ∨ startOf es + es.length < n.toNat) : entryOf es n = none := by
  rw [entryOf, List.find?_eq_none]
  intro b hb
  have hmem := h.mem hb
  rw [decide_eq_true_eq]
  rintro rfl
  omega

end Numbered

/-! ## Logs in order -/

/-- The log file holds the entries, and its stream has not failed; the first and
the last entry are known, and `start_num` is the number before the first. -/
structure Logged (c : Codec (ContractEntry Tx)) (l : ContractLog Tx)
    (es : List (ContractEntry Tx)) : Prop where
  block : l.blockStream.bytes = IndexedFile.entries c 0 es
  good : l.blockStream.failed = false
  blockEnd : l.blockStream.AtEnd
  head : l.head = es.getLast?
  headId : ∀ b ∈ es.getLast?, l.headId = b.blockId
  start : ∀ b ∈ es.head?, l.startNum = b.blockNum - 1
  numbered : Numbered es

/-- And the index holds the positions; its stream may have failed. -/
structure Holds (c : Codec (ContractEntry Tx)) (l : ContractLog Tx) (es : List (ContractEntry Tx)) :
    Prop extends Logged c l es where
  index : l.indexStream.bytes = IndexedFile.positions c 0 es
  indexEnd : l.indexStream.AtEnd

theorem Holds.empty (c : Codec (ContractEntry Tx)) (unset : UInt32) : Holds c (new unset) [] where
  block := rfl
  good := rfl
  blockEnd _ := rfl
  head := rfl
  headId b hb := by cases hb
  start b hb := by cases hb
  numbered i b hb := by simp at hb
  index := rfl
  indexEnd _ := rfl

/-- The streams have been used; the log file is the same. -/
theorem Logged.reread (h : Logged c l es) {s s' : ByteStream}
    (hblock : s.bytes = l.blockStream.bytes) (hgood : s.failed = false) (hblockEnd : s.AtEnd) :
    Logged c { l with blockStream := s, indexStream := s' } es :=
  ⟨hblock.trans h.block, hgood, hblockEnd, h.head, h.headId, h.start, h.numbered⟩

/-- And the index. -/
theorem Holds.reread (h : Holds c l es) {s s' : ByteStream}
    (hblock : s.bytes = l.blockStream.bytes) (hgood : s.failed = false) (hblockEnd : s.AtEnd)
    (hindex : s'.bytes = l.indexStream.bytes) (hindexEnd : s'.AtEnd) :
    Holds c { l with blockStream := s, indexStream := s' } es :=
  ⟨h.toLogged.reread hblock hgood hblockEnd, hindex.trans h.index, hindexEnd⟩

/-- The index stream has failed, and is not going to be opened again to be read. -/
def failing (l : ContractLog Tx) : Bool := l.indexStream.checkRead.failed

/-- What `start_num` is worth. -/
theorem Logged.toNat_startNum (h : Logged c l es) (hne : es ≠ []) :
    l.startNum.toNat = startOf es := by
  cases es with
  | nil => exact absurd rfl hne
  | cons b rest =>
      have hfirst := h.numbered 0 b rfl
      have hzero : b.blockNum ≠ 0 := by
        intro h0
        rw [h0] at hfirst
        exact absurd hfirst (by simp)
      rw [h.start b rfl, toNat_pred hzero]
      rfl

theorem Logged.toNat_head (h : Logged c l es) (hne : es ≠ []) :
    (numFromId l.headId).toNat = startOf es + es.length := by
  have hlast := List.getLast?_eq_some_getLast hne
  rw [h.headId _ hlast]
  exact h.numbered.last hlast

theorem numbered_single (h : b.blockNum.toNat ≠ 0) : Numbered [b] := by
  intro i a ha
  cases i with
  | zero =>
      obtain rfl : b = a := by simpa using ha
      simp only [startOf]
      omega
  | succ i => simp at ha

theorem Numbered.concat (h : Numbered es) (hne : es ≠ [])
    (hb : b.blockNum.toNat = startOf es + es.length + 1) : Numbered (es ++ [b]) := by
  intro i a ha
  rw [startOf_append hne]
  by_cases hi : i < es.length
  · rw [List.getElem?_append_left hi] at ha
    exact h i a ha
  · rw [List.getElem?_append_right (by omega)] at ha
    obtain ⟨hlt, hget⟩ := List.getElem?_eq_some_iff.mp ha
    have hi' : i = es.length := by
      simp only [List.length_singleton] at hlt
      omega
    subst hi'
    obtain rfl : b = a := by simpa using ha
    exact hb

/-- The position that `append` expects tells the number, if that is not zero. -/
theorem toNat_of_offset {m start : UInt32} {k : Nat} (hm : m.toNat ≠ 0)
    (hfits : start.toNat + k < 4294967296) (h : (m - start - 1).toNat = k) :
    m.toNat = start.toNat + k + 1 := by
  have hlt := m.toNat_lt
  have hlt' := start.toNat_lt
  have hone : (1 : UInt32).toNat = 1 := rfl
  rw [UInt32.toNat_sub, UInt32.toNat_sub] at h
  omega

/-- And where the entry of a number is looked up. -/
theorem toNat_offset {m start : UInt32} (h : start.toNat < m.toNat) :
    (m - start - 1).toNat = m.toNat - start.toNat - 1 := by
  have hlt := m.toNat_lt
  have hlt' := start.toNat_lt
  have hone : (1 : UInt32).toNat = 1 := rfl
  rw [UInt32.toNat_sub, UInt32.toNat_sub]
  omega

/-- What is written by an append that passes its check. -/
theorem Holds.write (h : Holds c l es) (startNum : UInt32) (hnumbered : Numbered (es ++ [b]))
    (hstart : ∀ a ∈ (es ++ [b]).head?, startNum = a.blockNum - 1) :
    Holds c {
      blockStream := (l.blockStream.checkWrite.write (c.pack b)).write
        (encode64 (IndexedFile.size c es))
      indexStream := l.indexStream.checkWrite.write (encode64 (IndexedFile.size c es))
      head := some b
      headId := b.blockId
      startNum := startNum } (es ++ [b]) where
  block := by
    simp only [ByteStream.write, ByteStream.checkWrite_bytes, h.block, IndexedFile.entries_append,
      IndexedFile.entries, Nat.zero_add, List.append_nil, List.append_assoc]
  index := by
    simp only [ByteStream.write, ByteStream.checkWrite_bytes, h.index,
      IndexedFile.positions_append, IndexedFile.positions, Nat.zero_add, List.append_nil]
  good := ByteStream.checkWrite_failed h.good
  blockEnd := .write _ _
  indexEnd := .write _ _
  head := by simp
  headId a ha := by
    obtain rfl : b = a := by simpa using ha
    rfl
  start := hstart
  numbered := hnumbered

/-- What has been opened for appending is opened again to be read. -/
theorem failing_of_writing (h : l.indexStream.writing = true) : l.failing = false := by
  rw [failing, ByteStream.checkRead_of_writing h]
  rfl

/-- An entry is appended if it is the first, or for the next block; the number
zero apart, only then. Either way the index stream is opened again. -/
theorem Holds.append (h : Holds c l es) (hb : b.blockNum ≠ 0) :
    (Finishes (append c b) l fun _ l' => Holds c l' (es ++ [b]) ∧ l'.failing = false) ∨
      (es ≠ [] ∧ Throws (append c b) l fun l' => Holds c l' es ∧ l'.failing = false) := by
  have hindex : l.indexStream.checkWrite.pos = 8 * es.length := by
    rw [h.indexEnd.checkWrite_pos, h.index, IndexedFile.length_positions]
  have hblock : l.blockStream.checkWrite.pos = IndexedFile.size c es := by
    rw [h.blockEnd.checkWrite_pos, h.block, IndexedFile.length_entries]
  have hpos : b.blockNum.toNat ≠ 0 := fun h0 => hb (UInt32.toNat_inj.mp h0)
  by_cases hne : es = []
  · -- the first entry sets `start_num` to the number before its own
    have hfirst : (b.blockNum - (b.blockNum - 1) - 1).toNat = 0 := by
      have hpred := toNat_pred hb
      rw [toNat_offset (by omega)]
      omega
    have hzero : l.blockStream.checkWrite.pos = 0 := by rw [hblock, hne, IndexedFile.size]
    have hholds := h.write (b := b) (b.blockNum - 1)
      (by rw [hne]; exact numbered_single hpos) (by rw [hne]; simp)
    left
    refine .bind_eq rfl (.bind_eq rfl (.bind_eq rfl (.bind_eq rfl (.check ?_ (.bind_eq rfl
      (.pure ⟨?_, failing_of_writing ?_⟩))))))
    · refine decide_eq_true ?_
      dsimp only
      rw [hindex, if_pos hzero, hfirst, hne]
      rfl
    · dsimp only
      rw [if_pos hzero, hblock]
      exact hholds
    · exact ByteStream.checkWrite_writing _
  · -- any other has to be the one that the end of the index is for
    have hsize : l.blockStream.checkWrite.pos ≠ 0 := by
      have hlen := IndexedFile.length_le_size c es
      have := List.length_pos_iff.mpr hne
      omega
    by_cases hcheck : 8 * es.length = 8 * (b.blockNum - l.startNum - 1).toNat
    · have hhead := h.toNat_head hne
      have hlt := (numFromId l.headId).toNat_lt
      have hnum := toNat_of_offset hpos (k := es.length)
        (by rw [h.toNat_startNum hne]; omega) (by omega)
      rw [h.toNat_startNum hne] at hnum
      have hstart : ∀ a ∈ (es ++ [b]).head?, l.startNum = a.blockNum - 1 := by
        cases es with
        | nil => exact absurd rfl hne
        | cons a rest =>
            intro a' ha'
            exact h.start a' ha'
      have hholds := h.write l.startNum (h.numbered.concat hne hnum) hstart
      left
      refine .bind_eq rfl (.bind_eq rfl (.bind_eq rfl (.bind_eq rfl (.check ?_ (.bind_eq rfl
        (.pure ⟨?_, failing_of_writing ?_⟩))))))
      · refine decide_eq_true ?_
        dsimp only
        rw [hindex, if_neg hsize]
        exact hcheck
      · dsimp only
        rw [if_neg hsize, hblock]
        exact hholds
      · exact ByteStream.checkWrite_writing _
    · right
      refine ⟨hne, .bind_eq rfl (.bind_eq rfl (.bind_eq rfl (.bind_eq rfl (.check ?_
        ⟨?_, failing_of_writing ?_⟩))))⟩
      · refine decide_eq_false ?_
        dsimp only
        rw [hindex, if_neg hsize]
        exact hcheck
      · dsimp only
        rw [if_neg hsize]
        exact h.reread (ByteStream.checkWrite_bytes _) (ByteStream.checkWrite_failed h.good)
          h.blockEnd.checkWrite (ByteStream.checkWrite_bytes _) h.indexEnd.checkWrite
      · exact ByteStream.checkWrite_writing _

/-! ## Reading -/

/-- An entry is read where it stands. -/
theorem readBlockHelper_finishes
    (hbytes : l.blockStream.bytes = IndexedFile.entries c 0 (before ++ b :: rest))
    (hgood : l.blockStream.failed = false) :
    Finishes (readBlockHelper c (IndexedFile.size c before)) l fun r l' => r.1 = b ∧
      ∃ s, s.bytes = l.blockStream.bytes ∧ s.writing = false ∧ s.failed = false ∧
        l' = { l with blockStream := s } := by
  have hunpack := ByteStream.unpack_of_bytes (c := c) (a := b)
    (s := l.blockStream.checkRead.seekg (IndexedFile.size c before))
    (by rw [ByteStream.seekg_bytes, ByteStream.checkRead_bytes, hbytes,
      IndexedFile.entries_around])
    (by rw [ByteStream.seekg_pos, IndexedFile.length_entries])
    (ByteStream.checkRead_failed hgood)
  refine .bind_eq rfl (.bind_eq (ByteStream.on_eq hunpack) (.bind_eq rfl (.pure ⟨rfl, _, ?_, ?_,
    ?_, rfl⟩)))
  · simp
  · simp
  · exact ByteStream.checkRead_failed hgood

/-- The test of `get_block_pos_helper`. -/
theorem Logged.inRange_iff (h : Logged c l es) (hne : es ≠ []) :
    (l.head.isSome && n ≤ numFromId l.headId && 0 < n - l.startNum) = true ↔
      n.toNat ≤ startOf es + es.length ∧ n.toNat ≠ startOf es := by
  have hstart := h.toNat_startNum hne
  have hlast := h.toNat_head hne
  have hsome : l.head.isSome = true := by
    rw [h.head, List.getLast?_eq_some_getLast hne]
    rfl
  have hdiff : 0 < n - l.startNum ↔ n.toNat ≠ startOf es := by
    have hlt := n.toNat_lt
    have hlt' := l.startNum.toNat_lt
    have hzero : (0 : UInt32).toNat = 0 := rfl
    rw [UInt32.lt_iff_toNat_lt, UInt32.toNat_sub]
    omega
  simp only [hsome, Bool.true_and, Bool.and_eq_true, decide_eq_true_eq, UInt32.le_iff_toNat_le,
    hlast, hdiff]

/-- The log after the index stream has been looked at. -/
theorem Holds.lookedAt (h : Holds c l es) {s : ByteStream} (hs : s.bytes = l.indexStream.bytes)
    (hreading : s.writing = false) :
    Holds c { l with indexStream := s } es ∧
      ({ l with indexStream := s } : ContractLog Tx).failing = s.failed := by
  refine ⟨h.reread rfl h.good h.blockEnd hs (.of_reading hreading), ?_⟩
  rw [failing, ByteStream.checkRead_of_reading hreading]

/-- A number in range is looked up in the index. -/
theorem getBlockPos_inRange
    (hin : (l.head.isSome && n ≤ numFromId l.headId && 0 < n - l.startNum) = true) :
    getBlockPos n l = onIndexStream (fun s => (s.seekg (8 * (n - l.startNum - 1).toNat)).read64)
      { l with indexStream := l.indexStream.checkRead } := by
  show (if (l.head.isSome && n ≤ numFromId l.headId && 0 < n - l.startNum) = true then
    onIndexStream fun s => (s.seekg (8 * (n - l.startNum - 1).toNat)).read64
    else (pure npos : LogM Tx Nat)) { l with indexStream := l.indexStream.checkRead } = _
  rw [if_pos hin]

/-- The position of an entry, from the index. -/
theorem Holds.getBlockPos_finishes (h : Holds c l (before ++ b :: rest))
    (hgood : l.failing = false)
    (hsize : IndexedFile.size c (before ++ b :: rest) < 18446744073709551616) :
    Finishes (getBlockPos b.blockNum) l fun r l' => r = IndexedFile.size c before ∧
      ∃ s, s.bytes = l.indexStream.bytes ∧ s.writing = false ∧ s.failed = false ∧
        l' = { l with indexStream := s } := by
  have hne : before ++ b :: rest ≠ [] := by simp
  have hnum := h.numbered before.length b (by simp)
  have hstart := h.toNat_startNum hne
  have hin := (h.inRange_iff (n := b.blockNum) hne).mpr
    ⟨by rw [List.length_append, List.length_cons]; omega, by omega⟩
  have hlt : IndexedFile.size c before < 18446744073709551616 := by
    rw [IndexedFile.size_append] at hsize
    omega
  have hoffset : (b.blockNum - l.startNum - 1).toNat = before.length := by
    rw [toNat_offset (by omega)]
    omega
  have hread := ByteStream.read64_of_bytes
    (s := l.indexStream.checkRead.seekg (8 * (b.blockNum - l.startNum - 1).toNat)) _ _
    (by rw [ByteStream.seekg_bytes, ByteStream.checkRead_bytes, h.index,
      IndexedFile.positions_around])
    (by rw [ByteStream.seekg_pos, IndexedFile.length_positions, hoffset]) hlt hgood
  have hpos : getBlockPos b.blockNum l = .ok (IndexedFile.size c before)
      { l with indexStream := (l.indexStream.checkRead.seekg
        (8 * (b.blockNum - l.startNum - 1).toNat)).seekg _ } :=
    (getBlockPos_inRange hin).trans (ByteStream.on_eq hread)
  refine .of_eq hpos ⟨rfl, _, ?_, ?_, ?_, rfl⟩
  · simp
  · simp
  · exact hgood

/-- A lookup that fails leaves the index stream failed. -/
theorem lookup_throws {e : String}
    (hin : (l.head.isSome && n ≤ numFromId l.headId && 0 < n - l.startNum) = true)
    (hread : (l.indexStream.checkRead.seekg (8 * (n - l.startNum - 1).toNat)).read64 = .error e) :
    Throws (readBlockByNum c n) l fun l' =>
      l' = { l with indexStream := l.indexStream.checkRead.fail } := by
  have hthrow : Throws (getBlockPos n) l fun l' =>
      l' = { l with indexStream := l.indexStream.checkRead.fail } := by
    rw [Throws, getBlockPos_inRange hin]
    exact ByteStream.on_throws hread rfl
  exact .bind_left hthrow

theorem Holds.failed (h : Holds c l es) :
    Holds c { l with indexStream := l.indexStream.checkRead.fail } es ∧
      failing { l with indexStream := l.indexStream.checkRead.fail } = true :=
  h.lookedAt (s := l.indexStream.checkRead.fail) (ByteStream.checkRead_bytes _)
    (ByteStream.checkRead_writing _)

/-- The entry of a block that is logged. -/
theorem Holds.read_entry (h : Holds c l es) (hgood : l.failing = false)
    (hsize : IndexedFile.size c es < 18446744073709551616)
    (hlow : startOf es < n.toNat) (hhigh : n.toNat ≤ startOf es + es.length) :
    Finishes (readBlockByNum c n) l fun r l' => r = entryOf es n ∧ Holds c l' es ∧
      l'.failing = false := by
  obtain ⟨before, b, rest, rfl, rfl, hbefore⟩ := h.numbered.exists_entry hlow hhigh
  refine .bind (h.getBlockPos_finishes hgood hsize) ?_
  rintro pos l' ⟨rfl, s, hs, hreading, hread, rfl⟩
  have hne : IndexedFile.size c before ≠ npos := by
    rw [IndexedFile.size_append, IndexedFile.size] at hsize
    rw [npos]
    omega
  rw [if_pos hne]
  refine .bind (readBlockHelper_finishes h.block h.good) ?_
  rintro ⟨b', p⟩ l'' ⟨hb', s', hs', hreading', hgood', rfl⟩
  dsimp only at hb'
  subst hb'
  refine .check (decide_eq_true rfl) (.pure ⟨?_, ?_, ?_⟩)
  · exact h.numbered.entryOf_middle.symm
  · exact h.reread hs' hgood' (.of_reading hreading') hs (.of_reading hreading)
  · show s.checkRead.failed = false
    rw [ByteStream.checkRead_of_reading hreading, hread]

/-- An index stream that has failed gives no position. -/
theorem Holds.read_failing (h : Holds c l es) (hfailing : l.failing = true)
    (hlow : startOf es < n.toNat) (hhigh : n.toNat ≤ startOf es + es.length) :
    Throws (readBlockByNum c n) l fun l' => Holds c l' es ∧ l'.failing = true := by
  have hne : es ≠ [] := by
    rintro rfl
    simp only [List.length_nil] at hhigh
    omega
  have hin := (h.inRange_iff (n := n) hne).mpr ⟨hhigh, by omega⟩
  exact (lookup_throws hin (ByteStream.read64_of_failed hfailing)).mono
    fun l' hl' => hl' ▸ h.failed

/-- No entry for the number before the first, and for those after the last. -/
theorem Holds.read_outside (h : Holds c l es)
    (hout : es = [] ∨ n.toNat = startOf es ∨ startOf es + es.length < n.toNat) :
    Finishes (readBlockByNum c n) l fun r l' => r = entryOf es n ∧ Holds c l' es ∧
      l'.failing = l.failing := by
  have hnone : entryOf es n = none := by
    rcases hout with rfl | hout
    · rfl
    · exact h.numbered.entryOf_outside (by omega)
  have hnot : ¬(l.head.isSome && n ≤ numFromId l.headId && 0 < n - l.startNum) = true := by
    by_cases hne : es = []
    · rw [h.head, hne]
      simp
    · rw [h.inRange_iff hne]
      have := hout.resolve_left hne
      omega
  have hpos : getBlockPos n l = .ok npos { l with indexStream := l.indexStream.checkRead } := by
    have hunfold : getBlockPos n l =
        (if (l.head.isSome && n ≤ numFromId l.headId && 0 < n - l.startNum) = true then
          onIndexStream fun s => (s.seekg (8 * (n - l.startNum - 1).toNat)).read64
        else (pure npos : LogM Tx Nat)) { l with indexStream := l.indexStream.checkRead } := rfl
    rw [hunfold, if_neg hnot]
    rfl
  rw [hnone]
  refine .bind_eq hpos ?_
  rw [if_neg (not_not.mpr rfl)]
  exact .pure ⟨rfl, h.lookedAt (ByteStream.checkRead_bytes _) (ByteStream.checkRead_writing _)⟩

/-- A number below the start is looked up behind the end of the index. -/
theorem Holds.read_below (h : Holds c l es) (hbelow : n.toNat < startOf es) :
    Throws (readBlockByNum c n) l fun l' => Holds c l' es ∧ l'.failing = true := by
  have hne : es ≠ [] := by
    rintro rfl
    simp [startOf] at hbelow
  have hin := (h.inRange_iff (n := n) hne).mpr ⟨by omega, by omega⟩
  have hstart := h.toNat_startNum hne
  have hlast := h.toNat_head hne
  have hlt := (numFromId l.headId).toNat_lt
  -- the difference wraps round, to more than there are entries
  have hoffset : es.length ≤ (n - l.startNum - 1).toNat := by
    have hlt := n.toNat_lt
    have hone : (1 : UInt32).toNat = 1 := rfl
    rw [UInt32.toNat_sub, UInt32.toNat_sub]
    omega
  have hshort : (l.indexStream.checkRead.seekg
      (8 * (n - l.startNum - 1).toNat)).remaining.length < 8 := by
    rw [ByteStream.remaining, List.length_drop, ByteStream.seekg_bytes,
      ByteStream.checkRead_bytes, h.index, IndexedFile.length_positions, ByteStream.seekg_pos]
    omega
  exact (lookup_throws hin (ByteStream.read64_of_short hshort)).mono
    fun l' hl' => hl' ▸ h.failed

/-- Whatever number is read, the log stays in order; the index stream fails at one
below the start. -/
theorem Holds.read (h : Holds c l es) (hsize : IndexedFile.size c es < 18446744073709551616) :
    Holds c (after (readBlockByNum c n) l) es ∧
      ((after (readBlockByNum c n) l).failing = true ↔
        l.failing = true ∨ n.toNat < startOf es) := by
  by_cases hbelow : n.toNat < startOf es
  · obtain ⟨hholds, hfails⟩ := (h.read_below hbelow (c := c)).after
    exact ⟨hholds, iff_of_true hfails (.inr hbelow)⟩
  · by_cases hin : startOf es < n.toNat ∧ n.toNat ≤ startOf es + es.length
    · cases hfailing : l.failing with
      | false =>
          obtain ⟨r, -, hholds, hgood⟩ := (h.read_entry hfailing hsize hin.1 hin.2).after
          exact ⟨hholds, by simp [hgood, hbelow]⟩
      | true =>
          obtain ⟨hholds, hfails⟩ := (h.read_failing hfailing hin.1 hin.2).after
          exact ⟨hholds, by simp [hfails]⟩
    · obtain ⟨r, -, hholds, hsame⟩ := (h.read_outside (n := n) (by omega)).after
      exact ⟨hholds, by simp [hsame, hbelow]⟩

/-- The answer to a number: its entry, if it has one. -/
def Answers (c : Codec (ContractEntry Tx)) (l : ContractLog Tx) (es : List (ContractEntry Tx))
    (n : UInt32) : Prop :=
  Finishes (readBlockByNum c n) l fun r _ => r = entryOf es n

/-- **A log in order answers** the number before its first entry and those after
its last, and unless its index stream has failed those between; never one
below. -/
theorem Holds.answers_iff (h : Holds c l es)
    (hsize : IndexedFile.size c es < 18446744073709551616) :
    Answers c l es n ↔ startOf es ≤ n.toNat ∧
      (l.failing = true → n.toNat = startOf es ∨ startOf es + es.length < n.toNat) := by
  by_cases hbelow : n.toNat < startOf es
  · exact iff_of_false (h.read_below hbelow).not_finishes (by omega)
  · by_cases hin : startOf es < n.toNat ∧ n.toNat ≤ startOf es + es.length
    · cases hfailing : l.failing with
      | false =>
          refine iff_of_true ?_ ⟨Nat.le_of_lt hin.1, by simp⟩
          exact (h.read_entry hfailing hsize hin.1 hin.2).mono fun r l' hr => hr.1
      | true =>
          refine iff_of_false (h.read_failing hfailing hin.1 hin.2).not_finishes ?_
          rintro ⟨-, hout⟩
          have := hout rfl
          omega
    · refine iff_of_true ?_ ⟨by omega, fun _ => by omega⟩
      exact (h.read_outside (by omega)).mono fun r l' hr => hr.1

/-- Without its position in the index the last entry is not read. -/
theorem Logged.unanswered (h : Logged c l es) (hne : es ≠ [])
    (hindex : l.failing = true ∨ l.indexStream.bytes.length < 8 * es.length) :
    ∃ n, ¬Answers c l es n := by
  refine ⟨numFromId l.headId, ?_⟩
  have hhead := h.toNat_head hne
  have hstart := h.toNat_startNum hne
  have hpos := List.length_pos_iff.mpr hne
  have hin := (h.inRange_iff (n := numFromId l.headId) hne).mpr ⟨by omega, by omega⟩
  have hread : (l.indexStream.checkRead.seekg
      (8 * (numFromId l.headId - l.startNum - 1).toNat)).read64 = .error "failbit" := by
    rcases hindex with hfailing | hshort
    · exact ByteStream.read64_of_failed hfailing
    · refine ByteStream.read64_of_short ?_
      rw [ByteStream.remaining, List.length_drop, ByteStream.seekg_bytes,
        ByteStream.checkRead_bytes, ByteStream.seekg_pos, toNat_offset (by omega)]
      omega
  exact (lookup_throws hin hread).not_finishes

end ContractLog

end Gamebank.Chain
