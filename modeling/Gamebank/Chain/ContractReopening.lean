import Gamebank.Chain.BlockLog
import Gamebank.Chain.ContractLog
import Gamebank.Lib.Runs

/-!
# Opening the contract log

An index that is missing or incomplete is built again on `open`, as that of the
block log is: the index of a single entry is left empty, and one that is cut
inside its first position makes `open` throw. A run of the log is in order as
long as neither happens. It then answers every number from the start on; a
number below it is looked up behind the end of the index, and from then on the
index stream fails for the numbers between the first and the last entry too,
until the log is opened or written to again.
-/

namespace Gamebank.Chain

open Gamebank.Lib

namespace ContractLog

variable {Tx : Type} {c : Codec (ContractEntry Tx)} {l : ContractLog Tx}
  {es rest : List (ContractEntry Tx)} {b : ContractEntry Tx}

/-! ## Opening -/

/-- `construct_index` goes through its loop from an empty index. -/
theorem Logged.constructIndex_eq (h : Logged c l es) (hne : es ≠ [])
    (hsize : IndexedFile.size c es < 18446744073709551616) :
    ∃ s : ByteStream, s.bytes = IndexedFile.entries c 0 es ∧ s.writing = false ∧
      s.failed = false ∧ constructIndex c l = fillIndex c (IndexedFile.lastPos c es)
        { l with blockStream := s.seekg 0, indexStream := .openWrite [] } := by
  obtain ⟨q, hread⟩ := IndexedFile.readLast_entries (c := c) (s := l.blockStream.checkRead)
    (by rw [ByteStream.checkRead_bytes, h.block]) (ByteStream.checkRead_failed h.good) hne hsize
  refine ⟨l.blockStream.checkRead.seekg q, by simp [h.block], by simp,
    ByteStream.checkRead_failed h.good, ?_⟩
  let opened : ContractLog Tx :=
    { l with blockStream := l.blockStream.checkRead, indexStream := .openWrite [] }
  have hend : onBlockStream ByteStream.readLast opened = .ok (IndexedFile.lastPos c es)
      { opened with blockStream := l.blockStream.checkRead.seekg q } := ByteStream.on_eq hread
  exact (bind_of_ok rfl).trans ((bind_of_ok rfl).trans ((bind_of_ok hend).trans (bind_of_ok rfl)))

theorem fillIndex_eq {endPos : Nat} {streams : ByteStream × ByteStream}
    (hloop : IndexedFile.indexLoop c endPos (l.blockStream.bytes.length + 1) 0
      (l.blockStream, l.indexStream) = .ok () streams) :
    fillIndex c endPos l =
      .ok () { l with blockStream := streams.1, indexStream := streams.2 } := by
  rw [fillIndex, hloop]

/-- The index of two entries at least is built. -/
theorem Logged.constructIndex_finishes (h : Logged c l es) (htwo : 2 ≤ es.length)
    (hsize : IndexedFile.size c es < 18446744073709551616) :
    Finishes (constructIndex c) l fun _ l' => Holds c l' es ∧ l'.failing = false := by
  have hne : es ≠ [] := by
    rintro rfl
    simp at htwo
  obtain ⟨s, hs, hreading, hgood, hconstruct⟩ := h.constructIndex_eq hne hsize
  have hstart : IndexedFile.Building c ([] ++ es) [] (s.seekg 0, .openWrite []) :=
    ⟨hs, hreading, hgood, rfl, rfl, rfl, fun _ => rfl⟩
  have hfuel : es.length < (s.seekg 0).bytes.length + 1 := by
    have hlength := IndexedFile.length_le_size c es
    rw [ByteStream.seekg_bytes, hs, IndexedFile.length_entries]
    omega
  obtain ⟨⟨⟩, streams, hloop, hbuilt⟩ :=
    IndexedFile.indexLoop_finishes [] hstart htwo hsize hfuel
  refine .of_eq (hconstruct.trans (fillIndex_eq hloop)) ⟨⟨⟨hbuilt.file, hbuilt.good,
    .of_reading hbuilt.reading, h.head, h.headId, h.start, h.numbered⟩, hbuilt.index,
    hbuilt.indexEnd⟩, ?_⟩
  exact ByteStream.checkRead_failed hbuilt.indexGood

/-- That of a single entry is left empty: the entry starts at zero. -/
theorem Logged.constructIndex_single (h : Logged c l [b])
    (hsize : IndexedFile.size c [b] < 18446744073709551616) :
    Finishes (constructIndex c) l fun _ l' => Logged c l' [b] ∧ l'.indexStream.bytes = [] := by
  obtain ⟨s, hs, hreading, hgood, hconstruct⟩ := h.constructIndex_eq (by simp) hsize
  have hstop : ¬0 < IndexedFile.lastPos c [b] := Nat.lt_irrefl 0
  have hloop : IndexedFile.indexLoop c (IndexedFile.lastPos c [b])
      ((s.seekg 0).bytes.length + 1) 0 (s.seekg 0, .openWrite []) =
        .ok () (s.seekg 0, .openWrite []) := by
    rw [IndexedFile.indexLoop, if_neg hstop]
    rfl
  exact .of_eq (hconstruct.trans (fillIndex_eq hloop))
    ⟨⟨hs, hgood, .of_reading hreading, h.head, h.headId, h.start, h.numbered⟩, rfl⟩

/-- `read_start` sets the number before the first entry. -/
theorem readStart_eq (hbytes : l.blockStream.bytes = IndexedFile.entries c 0 (b :: rest)) :
    readStart c l = .ok () { l with startNum := b.blockNum - 1 } := by
  have hfirst : (ByteStream.openRead l.blockStream.bytes).bytes =
      [] ++ IndexedFile.entries c 0 (b :: rest) := hbytes
  rw [readStart, ByteStream.unpack_of_bytes (a := b) hfirst rfl rfl]

/-- `read_head` reads the last entry. -/
theorem readHead_finishes (hbytes : l.blockStream.bytes = IndexedFile.entries c 0 es)
    (hgood : l.blockStream.failed = false) (hne : es ≠ [])
    (hsize : IndexedFile.size c es < 18446744073709551616) :
    Finishes (readHead c) l fun r l' => r = es.getLast hne ∧
      ∃ s, s.bytes = l.blockStream.bytes ∧ s.writing = false ∧ s.failed = false ∧
        l' = { l with blockStream := s } := by
  obtain ⟨q, hlast⟩ := IndexedFile.readLast_entries (c := c) (s := l.blockStream.checkRead)
    (by rw [ByteStream.checkRead_bytes, hbytes]) (ByteStream.checkRead_failed hgood) hne hsize
  have hsplit : { l with blockStream := l.blockStream.checkRead.seekg q }.blockStream.bytes =
      IndexedFile.entries c 0 (es.dropLast ++ es.getLast hne :: []) := by
    rw [List.dropLast_append_getLast]
    simp [hbytes]
  refine .bind_eq rfl (.bind_eq (ByteStream.on_eq hlast) ?_)
  refine .bind (readBlockHelper_finishes hsplit (ByteStream.checkRead_failed hgood)) ?_
  rintro ⟨b, p⟩ l' ⟨hb, s, hs, hreading, hread, rfl⟩
  exact .pure ⟨hb, s, by rw [hs]; simp, hreading, hread, rfl⟩

/-- The log file is read, whatever the index is. -/
theorem openLog_eq (unset : UInt32) (hnum : Numbered es) (hne : es ≠ [])
    (hsize : IndexedFile.size c es < 18446744073709551616) (indexFile : List UInt8) :
    ∃ l, Logged c l es ∧ l.indexStream = .openWrite indexFile ∧
      openLog c (IndexedFile.entries c 0 es) indexFile (new unset) =
        (if 0 < indexFile.length then checkIndex c else constructIndex c) l := by
  have hpos : 0 < (IndexedFile.entries c 0 es).length := by
    have hlen := IndexedFile.length_le_size c es
    have := List.length_pos_iff.mpr hne
    rw [IndexedFile.length_entries]
    omega
  cases es with
  | nil => exact absurd rfl hne
  | cons first rest =>
      let opened : ContractLog Tx := { new unset with
        blockStream := .openWrite (IndexedFile.entries c 0 (first :: rest))
        indexStream := .openWrite indexFile }
      let started : ContractLog Tx := { opened with startNum := first.blockNum - 1 }
      have hstart : readStart c opened = .ok () started := readStart_eq rfl
      have hentries : started.blockStream.bytes = IndexedFile.entries c 0 (first :: rest) := rfl
      obtain ⟨last, l₁, hread, hlast, s, hs, hreading, hgood, rfl⟩ :=
        readHead_finishes hentries rfl hne hsize
      refine ⟨{ started with
        blockStream := s
        head := some last
        headId := last.blockId }, ⟨hs, hgood, .of_reading hreading, ?_, ?_, ?_, hnum⟩, rfl, ?_⟩
      · rw [List.getLast?_eq_some_getLast hne, hlast]
      · intro b hb
        rw [List.getLast?_eq_some_getLast hne, ← hlast] at hb
        rw [Option.some.inj hb]
      · intro b hb
        rw [← Option.some.inj hb]
      · refine (bind_of_ok (t := opened) rfl).trans ?_
        rw [if_pos hpos]
        exact (bind_of_ok hstart).trans ((bind_of_ok hread).trans (bind_of_ok rfl))

section

variable {index : List UInt8}

/-- An index that is cut inside its first position has no last one. -/
theorem Logged.checkIndex_short (h : Logged c l es) (hne : es ≠ [])
    (hsize : IndexedFile.size c es < 18446744073709551616)
    (hindex : l.indexStream = .openWrite index) (hshort : index.length < 8) :
    Throws (checkIndex c) l fun l' => Logged c l' es ∧ l'.failing = true := by
  obtain ⟨q, hread⟩ := IndexedFile.readLast_entries (c := c) (s := l.blockStream.checkRead)
    (by rw [ByteStream.checkRead_bytes, h.block]) (ByteStream.checkRead_failed h.good) hne hsize
  have hnone : l.indexStream.checkRead.readLast = .error "failbit" := by
    refine ByteStream.readLast_of_short ?_
    rw [ByteStream.checkRead_bytes, hindex]
    exact hshort
  refine .bind_eq rfl (.bind_eq rfl (.bind_eq (ByteStream.on_eq hread)
    (.bind_left (ByteStream.on_throws hnone ⟨?_, ?_⟩))))
  · exact h.reread (ByteStream.checkRead_bytes _) (ByteStream.checkRead_failed h.good)
      (.of_reading (ByteStream.checkRead_writing _))
  · show l.indexStream.checkRead.fail.checkRead.failed = true
    rw [ByteStream.checkRead_of_reading (s := l.indexStream.checkRead.fail)
      (ByteStream.checkRead_writing _)]
    rfl

/-- Any other is kept if it ends with the position of the last entry, and replaced
if not. -/
theorem Logged.checkIndex_eq (h : Logged c l es) (hne : es ≠ [])
    (hsize : IndexedFile.size c es < 18446744073709551616)
    (hindex : l.indexStream = .openWrite index) (hlong : 8 ≤ index.length) :
    ∃ l', Logged c l' es ∧ l'.indexStream.bytes = index ∧ l'.indexStream.writing = false ∧
      l'.indexStream.failed = false ∧ checkIndex c l =
        if ByteStream.lastNumber index = IndexedFile.lastPos c es then .ok () l'
        else constructIndex c l' := by
  obtain ⟨q, hread⟩ := IndexedFile.readLast_entries (c := c) (s := l.blockStream.checkRead)
    (by rw [ByteStream.checkRead_bytes, h.block]) (ByteStream.checkRead_failed h.good) hne hsize
  have hbytes : l.indexStream.checkRead.bytes = index := by
    rw [ByteStream.checkRead_bytes, hindex]
    rfl
  have hgood : l.indexStream.checkRead.failed = false := by
    rw [hindex]
    rfl
  have hread' := ByteStream.readLast_eq hgood (by rw [hbytes]; exact hlong)
  rw [hbytes] at hread'
  let l' : ContractLog Tx := { l with
    blockStream := l.blockStream.checkRead.seekg q
    indexStream := l.indexStream.checkRead.seekg index.length }
  refine ⟨l', h.reread (by simp) (ByteStream.checkRead_failed h.good) (.of_reading (by simp)),
    hbytes, ByteStream.checkRead_writing _, hgood, ?_⟩
  let opened : ContractLog Tx :=
    { l with blockStream := l.blockStream.checkRead, indexStream := l.indexStream.checkRead }
  let behind : ContractLog Tx := { opened with blockStream := l.blockStream.checkRead.seekg q }
  have hblockPos : onBlockStream ByteStream.readLast opened =
      .ok (IndexedFile.lastPos c es) behind := ByteStream.on_eq hread
  have hindexPos : onIndexStream ByteStream.readLast behind =
      .ok (ByteStream.lastNumber index) l' := ByteStream.on_eq hread'
  have hcheck : checkIndex c l =
      (if IndexedFile.lastPos c es < ByteStream.lastNumber index then constructIndex c
      else if ByteStream.lastNumber index < IndexedFile.lastPos c es then constructIndex c
      else pure ()) l' :=
    (bind_of_ok rfl).trans ((bind_of_ok rfl).trans ((bind_of_ok hblockPos).trans
      (bind_of_ok hindexPos)))
  rw [hcheck]
  rcases Nat.lt_trichotomy (ByteStream.lastNumber index) (IndexedFile.lastPos c es) with
    hlt | heq | hgt
  · rw [if_neg (by omega), if_pos hlt, if_neg (by omega)]
  · rw [if_neg (by omega), if_neg (by omega), if_pos heq]
    rfl
  · rw [if_pos hgt, if_neg (by omega)]

end

/-- The first `cut` bytes of its index are enough for a log to be put in order when
it is opened: they are all of it, or there are two entries at least, and no byte
is left or a number that is not the position of the last entry. -/
def Recovers (c : Codec (ContractEntry Tx)) (es : List (ContractEntry Tx)) (cut : Nat) : Prop :=
  8 * es.length ≤ cut ∨ (2 ≤ es.length ∧ (cut = 0 ∨ (8 ≤ cut ∧
    ByteStream.lastNumber ((IndexedFile.positions c 0 es).take cut) ≠ IndexedFile.lastPos c es)))

/-- The log is opened again with such a part of its index. -/
theorem Holds.reopen (h : Holds c l es) (unset : UInt32) {cut : Nat}
    (hsize : IndexedFile.size c es < 18446744073709551616) (hcut : Recovers c es cut) :
    Finishes (openLog c l.blockStream.bytes ((IndexedFile.positions c 0 es).take cut))
      (new unset) fun _ l' => Holds c l' es ∧ l'.failing = false := by
  rw [h.block]
  by_cases hne : es = []
  · subst hne
    refine .of_eq (b := ()) (t := new unset) ?_ ⟨Holds.empty c unset, rfl⟩
    rw [IndexedFile.positions, List.take_nil]
    rfl
  · have hpos := List.length_pos_iff.mpr hne
    have hlength : ((IndexedFile.positions c 0 es).take cut).length =
        min cut (8 * es.length) := by
      rw [List.length_take, IndexedFile.length_positions]
    obtain ⟨l₁, hlogged, hindex, hopen⟩ := openLog_eq (c := c) unset h.numbered hne hsize
      ((IndexedFile.positions c 0 es).take cut)
    rw [Finishes, hopen]
    by_cases hzero : cut = 0
    · have htwo : 2 ≤ es.length := by
        rcases hcut with hall | ⟨htwo, -⟩
        · omega
        · exact htwo
      rw [if_neg (by rw [hlength]; omega)]
      exact hlogged.constructIndex_finishes htwo hsize
    · -- what is left of the index has a last position
      have hlong : 8 ≤ ((IndexedFile.positions c 0 es).take cut).length := by
        rw [hlength]
        rcases hcut with hall | ⟨htwo, hcut⟩ <;> omega
      obtain ⟨l₂, hlogged₂, hbytes, hreading, hgood, hcheck⟩ :=
        hlogged.checkIndex_eq hne hsize hindex hlong
      rw [if_pos (by omega), hcheck]
      rcases hcut with hall | ⟨htwo, hcut⟩
      · -- it is whole, and kept
        have hwhole : (IndexedFile.positions c 0 es).take cut = IndexedFile.positions c 0 es := by
          rw [List.take_of_length_le]
          rw [IndexedFile.length_positions]
          exact hall
        rw [hwhole] at hbytes ⊢
        rw [if_pos (IndexedFile.lastNumber_positions hne hsize)]
        refine ⟨(), l₂, rfl, ⟨hlogged₂, hbytes, .of_reading hreading⟩, ?_⟩
        rw [failing, ByteStream.checkRead_of_reading hreading, hgood]
      · -- it is a part that is told from the whole one, and replaced
        have hdiff := (hcut.resolve_left hzero).2
        rw [if_neg hdiff]
        exact hlogged₂.constructIndex_finishes htwo hsize

/-- With any other part the last entry is not answered. -/
theorem Holds.reopen_unanswered (h : Holds c l es) (unset : UInt32) {cut : Nat}
    (hsize : IndexedFile.size c es < 18446744073709551616) (hcut : ¬Recovers c es cut) :
    ∃ n, ¬Answers c (after (openLog c l.blockStream.bytes
      ((IndexedFile.positions c 0 es).take cut)) (new unset)) es n := by
  obtain ⟨hpart, hcut⟩ := not_or.mp hcut
  have hne : es ≠ [] := by
    rintro rfl
    simp at hpart
  have hpos := List.length_pos_iff.mpr hne
  have hlength : ((IndexedFile.positions c 0 es).take cut).length = cut := by
    rw [List.length_take, IndexedFile.length_positions]
    omega
  obtain ⟨l₁, hlogged, hindex, hopen⟩ := openLog_eq (c := c) unset h.numbered hne hsize
    ((IndexedFile.positions c 0 es).take cut)
  rw [h.block, after, hopen, ← after]
  by_cases hzero : cut = 0
  · -- the index of the only entry is built, and left empty
    obtain ⟨b, rfl⟩ : ∃ b, es = [b] := by
      rw [← List.length_eq_one_iff]
      omega
    rw [if_neg (by omega)]
    obtain ⟨u, hlogged', hempty⟩ := (hlogged.constructIndex_single hsize).after
    exact hlogged'.unanswered hne (.inr (by rw [hempty]; simp))
  · rw [if_pos (by omega)]
    by_cases hshort : cut < 8
    · obtain ⟨hlogged', hfails⟩ :=
        (hlogged.checkIndex_short hne hsize hindex (by omega)).after
      exact hlogged'.unanswered hne (.inl hfails)
    · -- there are two entries, and the index ends as the whole one does
      obtain ⟨l₂, hlogged₂, hbytes, -, -, hcheck⟩ :=
        hlogged.checkIndex_eq hne hsize hindex (by omega)
      have heq : ByteStream.lastNumber ((IndexedFile.positions c 0 es).take cut) =
          IndexedFile.lastPos c es := by
        by_contra hdiff
        exact hcut ⟨by omega, .inr ⟨by omega, hdiff⟩⟩
      rw [if_pos heq] at hcheck
      rw [after, hcheck]
      exact hlogged₂.unanswered hne (.inr (by rw [hbytes]; omega))

/-! ## Runs -/

/-- A log, what has been appended to it, and the numbers read since it was opened
or written to last. -/
structure LogRun (Tx : Type) where
  log : ContractLog Tx
  logged : List (ContractEntry Tx)
  numbersRead : List UInt32

/-- What is done with a log: entries are appended, none of them for block zero;
it is opened by a new object with the first `cut` bytes of its index, that is
with a correct index, a part of one, or none; and numbers are read. -/
inductive LogEvent (Tx : Type) where
  | append (b : ContractEntry Tx) (hb : b.blockNum ≠ 0)
  | reopen (unset : UInt32) (cut : Nat)
  | read (n : UInt32)

/-- What a call that throws has done to the log stays done. -/
def LogRun.step (c : Codec (ContractEntry Tx)) (r : LogRun Tx) : LogEvent Tx → LogRun Tx
  | .append b _ =>
      match append c b r.log with
      | .ok _ l => ⟨l, r.logged ++ [b], []⟩
      | .error _ l => ⟨l, r.logged, []⟩
  | .reopen unset cut =>
      ⟨after (openLog c r.log.blockStream.bytes
        ((IndexedFile.positions c 0 r.logged).take cut)) (new unset), r.logged, []⟩
  | .read n => ⟨after (readBlockByNum c n) r.log, r.logged, n :: r.numbersRead⟩

/-- A new log. -/
def LogRun.start (unset : UInt32) : LogRun Tx := ⟨new unset, [], []⟩

namespace LogRun

/-- The position of every entry fits its eight bytes. -/
def Fits (c : Codec (ContractEntry Tx)) (r : LogRun Tx) : LogEvent Tx → Prop
  | .append b _ => IndexedFile.size c (r.logged ++ [b]) < 18446744073709551616
  | _ => True

/-- The log is not opened with a part of its index that is kept, or replaced by
none. -/
def KeepsIndex (c : Codec (ContractEntry Tx)) (r : LogRun Tx) : LogEvent Tx → Prop
  | .reopen _ cut => Recovers c r.logged cut
  | _ => True

/-- The first entry is for block one. -/
def StartsAtOne (r : LogRun Tx) : LogEvent Tx → Prop
  | .append b _ => r.logged = [] → b.blockNum = 1
  | _ => True

/-- A number below the start has been read since the log was opened or written to. -/
def ReadBelow (r : LogRun Tx) : Prop := ∃ m ∈ r.numbersRead, m.toNat < startOf r.logged

/-- The log is in order, its file has fewer than 2 ^ 64 bytes, and its index stream
fails after a number below the start. -/
structure InOrder (c : Codec (ContractEntry Tx)) (r : LogRun Tx) : Prop where
  holds : Holds c r.log r.logged
  size : IndexedFile.size c r.logged < 18446744073709551616
  failing : r.log.failing = true ↔ r.ReadBelow

variable {r : LogRun Tx} {e : LogEvent Tx}

theorem inOrder_start (c : Codec (ContractEntry Tx)) (unset : UInt32) :
    InOrder c (LogRun.start unset) where
  holds := Holds.empty c unset
  size := by simp [LogRun.start, IndexedFile.size]
  failing := by
    have hgood : (new unset : ContractLog Tx).failing = false := rfl
    simp [LogRun.start, ReadBelow, hgood]

/-- Nothing has been read from a stream that was opened. -/
theorem inOrder_of_good {l : ContractLog Tx} (hholds : Holds c l es)
    (hsize : IndexedFile.size c es < 18446744073709551616) (hgood : l.failing = false) :
    InOrder c ⟨l, es, []⟩ :=
  ⟨hholds, hsize, by simp [ReadBelow, hgood]⟩

theorem InOrder.step (h : InOrder c r) (hfits : Fits c r e) (hkeeps : KeepsIndex c r e) :
    InOrder c (r.step c e) := by
  cases e with
  | append b hb =>
      simp only [LogRun.step]
      rcases h.holds.append hb with ⟨pos, l, happend, hholds, hgood⟩ |
        ⟨-, message, l, happend, hholds, hgood⟩
      · rw [happend]
        exact inOrder_of_good hholds hfits hgood
      · rw [happend]
        exact inOrder_of_good hholds h.size hgood
  | reopen unset cut =>
      obtain ⟨u, hholds, hgood⟩ := (h.holds.reopen unset h.size hkeeps).after
      exact inOrder_of_good hholds h.size hgood
  | read n =>
      obtain ⟨hholds, hfailing⟩ := h.holds.read (n := n) h.size
      refine ⟨hholds, h.size, hfailing.trans ?_⟩
      rw [h.failing]
      simp only [LogRun.step, ReadBelow, List.mem_cons, exists_eq_or_imp]
      exact Or.comm

/-- Only an append adds to what is logged. -/
theorem logged_step (c : Codec (ContractEntry Tx)) (r : LogRun Tx) (e : LogEvent Tx) :
    (r.step c e).logged = r.logged ∨
      ∃ b hb, e = .append b hb ∧ (r.step c e).logged = r.logged ++ [b] := by
  cases e with
  | append b hb =>
      simp only [LogRun.step]
      cases ContractLog.append c b r.log with
      | error m l => exact .inl rfl
      | ok pos l => exact .inr ⟨b, hb, rfl, rfl⟩
  | reopen unset cut => exact .inl rfl
  | read n => exact .inl rfl

/-- The log answers every number. -/
def AnswersAll (c : Codec (ContractEntry Tx)) (r : LogRun Tx) : Prop :=
  ∀ n, Answers c r.log r.logged n

theorem InOrder.answers_iff (h : InOrder c r) (n : UInt32) :
    Answers c r.log r.logged n ↔ startOf r.logged ≤ n.toNat ∧
      (r.ReadBelow → n.toNat = startOf r.logged ∨
        startOf r.logged + r.logged.length < n.toNat) := by
  rw [h.holds.answers_iff h.size, h.failing]

theorem InOrder.answersAll_iff (h : InOrder c r) : AnswersAll c r ↔ startOf r.logged = 0 := by
  constructor
  · intro hall
    have hzero := ((h.answers_iff 0).mp (hall 0)).1
    exact Nat.le_zero.mp hzero
  · intro hzero n
    rw [h.answers_iff]
    refine ⟨by omega, ?_⟩
    rintro ⟨m, -, hm⟩
    omega

/-- A first entry that leaves the start at zero is for block one. -/
theorem blockNum_eq_one (hb : b.blockNum ≠ 0) (h : startOf [b] = 0) : b.blockNum = 1 := by
  have hpos : b.blockNum.toNat ≠ 0 := fun h0 => hb (UInt32.toNat_inj.mp h0)
  simp only [startOf] at h
  have hone : (1 : UInt32).toNat = 1 := rfl
  exact UInt32.toNat_inj.mp (by omega)

/-- What an event needs for every number to be answered after it. -/
theorem InOrder.needs (h : InOrder c r) (hfits : Fits c r e) (hall : AnswersAll c (r.step c e)) :
    KeepsIndex c r e ∧ StartsAtOne r e := by
  cases e with
  | append b hb =>
      refine ⟨trivial, ?_⟩
      intro hempty
      have hinOrder := h.step (e := .append b hb) hfits trivial
      have hlogged : (r.step c (.append b hb)).logged = [b] := by
        obtain ⟨pos, l, happend, -⟩ | ⟨hne, -⟩ := h.holds.append hb
        · simp only [LogRun.step, happend, hempty, List.nil_append]
        · exact absurd hempty hne
      rw [hinOrder.answersAll_iff, hlogged] at hall
      exact blockNum_eq_one hb hall
  | reopen unset cut =>
      refine ⟨?_, trivial⟩
      by_contra hcut
      obtain ⟨n, hnot⟩ := h.holds.reopen_unanswered unset h.size hcut
      exact hnot (hall n)
  | read n => exact ⟨trivial, trivial⟩

/-- Every number is answered in all states of a run exactly if the log starts at
block one and its index is kept. -/
theorem answersAll_iff_along (unset : UInt32) {events : List (LogEvent Tx)}
    (hfits : Along (LogRun.step c) (Fits c) (LogRun.start unset) events) :
    (∀ k, AnswersAll c ((events.take k).foldl (LogRun.step c) (LogRun.start unset))) ↔
      Along (LogRun.step c) (fun r e => KeepsIndex c r e ∧ StartsAtOne r e) (LogRun.start unset)
        events := by
  refine along_iff_of (I := fun r => InOrder c r ∧ startOf r.logged = 0) ?_ ?_ ?_
    ⟨inOrder_start c unset, rfl⟩ hfits
  · rintro r e ⟨h, hzero⟩ hfits ⟨hkeeps, hone⟩
    refine ⟨h.step hfits hkeeps, ?_⟩
    rcases logged_step c r e with hsame | ⟨b, hb, rfl, hmore⟩
    · rw [hsame]
      exact hzero
    · rw [hmore]
      by_cases hempty : r.logged = []
      · rw [hempty, List.nil_append, startOf, hone hempty]
        rfl
      · rw [startOf_append hempty]
        exact hzero
  · rintro r ⟨h, hzero⟩
    exact h.answersAll_iff.mpr hzero
  · rintro r e ⟨h, -⟩ hfits hall
    exact h.needs hfits hall

/-- **The contract log**: a run answers every number in all its states if and only
if the log starts at block one and is not opened with a part of its index that
is kept or replaced by none. From whatever block it starts, with its index kept
it answers exactly the numbers that are not below the start; but once one below
has been read, until the log is opened or written to again, none of those
between the first entry and the last. -/
theorem contract_log_answers_iff (unset : UInt32) (events : List (LogEvent Tx))
    (hfits : Along (LogRun.step c) (Fits c) (LogRun.start unset) events) :
    ((∀ k, AnswersAll c ((events.take k).foldl (LogRun.step c) (LogRun.start unset))) ↔
      Along (LogRun.step c) (fun r e => KeepsIndex c r e ∧ StartsAtOne r e) (LogRun.start unset)
        events) ∧
    (Along (LogRun.step c) (KeepsIndex c) (LogRun.start unset) events →
      ∀ n,
        let r := events.foldl (LogRun.step c) (LogRun.start unset)
        Answers c r.log r.logged n ↔ startOf r.logged ≤ n.toNat ∧
          (r.ReadBelow → n.toNat = startOf r.logged ∨
            startOf r.logged + r.logged.length < n.toNat)) := by
  refine ⟨answersAll_iff_along unset hfits, fun hgood n => ?_⟩
  have hinOrder : InOrder c (events.foldl (LogRun.step c) (LogRun.start unset)) :=
    (hfits.and hgood).keeps (fun r e h hboth => h.step hboth.1 hboth.2) (inOrder_start c unset)
  exact hinOrder.answers_iff n

/-! ### Small logs -/

open BlockLog in
/-- Entries without transactions of their own, packed field by field. -/
def unaryEntryCodec : Codec (ContractEntry Unit) where
  pack b := packUnary b.previous.num ++ (packUnary b.previous.hash ++ (packUnary b.blockId.num ++
    (packUnary b.blockId.hash ++ (packUnary b.transactions.length ++ packUnary b.signingKey))))
  unpack bytes := do
    let (num, bytes) ← unpackUnary bytes
    let (hash, bytes) ← unpackUnary bytes
    let (ownNum, bytes) ← unpackUnary bytes
    let (ownHash, bytes) ← unpackUnary bytes
    let (count, bytes) ← unpackUnary bytes
    let (key, bytes) ← unpackUnary bytes
    return (⟨⟨num, hash⟩, ⟨ownNum, ownHash⟩, List.replicate count (), key⟩, bytes)
  unpack_pack b rest := by
    have hunits : List.replicate b.transactions.length () = b.transactions :=
      List.eq_replicate_iff.mpr ⟨rfl, fun _ _ => rfl⟩ |>.symm
    simp [unpackUnary_packUnary, hunits]

/-- The entry of a block. -/
def smallEntry (num : Nat) : ContractEntry Unit := ⟨⟨num - 1, 5⟩, ⟨num, 5⟩, [], 1⟩

/-- Two entries from block one on, and an index of the first one only. -/
def twoEntries : List (LogEvent Unit) :=
  [.append (smallEntry 1) (by decide), .append (smallEntry 2) (by decide), .reopen 0 8, .read 2]

/-- Two from block six on, and a number below them. -/
def laterEntries : List (LogEvent Unit) :=
  [.append (smallEntry 6) (by decide), .append (smallEntry 7) (by decide), .reopen 0 8, .read 3]

/-- The first log answers every number. The second one answers five, the number
before its first entry, and not six. -/
theorem contract_log_answers_iff_two :
    AnswersAll unaryEntryCodec
      (twoEntries.foldl (LogRun.step unaryEntryCodec) (LogRun.start 0)) ∧
    (let r := laterEntries.foldl (LogRun.step unaryEntryCodec) (LogRun.start 0)
     Answers unaryEntryCodec r.log r.logged 5 ∧ ¬Answers unaryEntryCodec r.log r.logged 6) := by
  have hfits : Along (LogRun.step unaryEntryCodec) (Fits unaryEntryCodec) (LogRun.start 0)
      twoEntries := by
    have hone : IndexedFile.size unaryEntryCodec [smallEntry 1] < 18446744073709551616 := by decide
    have htwo : IndexedFile.size unaryEntryCodec [smallEntry 1, smallEntry 2] <
        18446744073709551616 := by
      decide
    exact ⟨hone, htwo, trivial, trivial, trivial⟩
  have hfits' : Along (LogRun.step unaryEntryCodec) (Fits unaryEntryCodec) (LogRun.start 0)
      laterEntries := by
    have hone : IndexedFile.size unaryEntryCodec [smallEntry 6] < 18446744073709551616 := by decide
    have htwo : IndexedFile.size unaryEntryCodec [smallEntry 6, smallEntry 7] <
        18446744073709551616 := by
      decide
    exact ⟨hone, htwo, trivial, trivial, trivial⟩
  have hcut : Recovers unaryEntryCodec [smallEntry 1, smallEntry 2] 8 :=
    .inr ⟨by decide, .inr ⟨by decide, by decide⟩⟩
  have hcut' : Recovers unaryEntryCodec [smallEntry 6, smallEntry 7] 8 :=
    .inr ⟨by decide, .inr ⟨by decide, by decide⟩⟩
  have hbelow : (laterEntries.foldl (LogRun.step unaryEntryCodec) (LogRun.start 0)).ReadBelow :=
    ⟨3, List.mem_cons_self, by decide⟩
  have hlater := (contract_log_answers_iff 0 laterEntries hfits').2
    ⟨trivial, trivial, hcut', trivial, trivial⟩
  refine ⟨(contract_log_answers_iff 0 twoEntries hfits).1.mpr
    ⟨⟨trivial, fun _ => rfl⟩, ⟨trivial, fun h => absurd h (by decide)⟩, ⟨hcut, trivial⟩,
      ⟨trivial, trivial⟩, trivial⟩ 4, ?_, ?_⟩
  · exact (hlater 5).mpr ⟨by decide, fun _ => .inl rfl⟩
  · intro hsix
    exact absurd (((hlater 6).mp hsix).2 hbelow) (by decide)

/-- A log that starts at block six throws for block three, and after that for block
six. One of a single entry that is opened without its index throws for that
entry, and so does one of two whose index is cut inside its first position. -/
theorem contract_log_throws :
    ¬AnswersAll unaryEntryCodec ([LogEvent.append (smallEntry 6) (by decide)].foldl
      (LogRun.step unaryEntryCodec) (LogRun.start 0)) ∧
    (let r := laterEntries.foldl (LogRun.step unaryEntryCodec) (LogRun.start 0)
     ¬Answers unaryEntryCodec r.log r.logged 6) ∧
    ¬AnswersAll unaryEntryCodec ([LogEvent.append (smallEntry 1) (by decide), .reopen 0 0].foldl
      (LogRun.step unaryEntryCodec) (LogRun.start 0)) ∧
    ¬AnswersAll unaryEntryCodec ((twoEntries.take 2 ++ [LogEvent.reopen 0 5]).foldl
      (LogRun.step unaryEntryCodec) (LogRun.start 0)) := by
  have hbelow : throws (readBlockByNum unaryEntryCodec 3)
      ([LogEvent.append (smallEntry 6) (by decide)].foldl (LogRun.step unaryEntryCodec)
        (LogRun.start 0)).log = true := by
    decide +kernel
  have hsticky : throws (readBlockByNum unaryEntryCodec 6)
      (laterEntries.foldl (LogRun.step unaryEntryCodec) (LogRun.start 0)).log = true := by
    decide +kernel
  have hmissing : throws (readBlockByNum unaryEntryCodec 1)
      ([LogEvent.append (smallEntry 1) (by decide), .reopen 0 0].foldl
        (LogRun.step unaryEntryCodec) (LogRun.start 0)).log = true := by
    decide +kernel
  have htorn : throws (readBlockByNum unaryEntryCodec 2)
      ((twoEntries.take 2 ++ [LogEvent.reopen 0 5]).foldl
        (LogRun.step unaryEntryCodec) (LogRun.start 0)).log = true := by
    decide +kernel
  exact ⟨fun hall => (Throws.of_throws hbelow).not_finishes (hall 3),
    (Throws.of_throws hsticky).not_finishes,
    fun hall => (Throws.of_throws hmissing).not_finishes (hall 1),
    fun hall => (Throws.of_throws htorn).not_finishes (hall 2)⟩

end LogRun

end ContractLog

end Gamebank.Chain
