import Gamebank.Lib.ByteStream
import Gamebank.Lib.Checked

/-!
# Files of entries with an index

A file holds entries, packed one behind the other, each followed by the
position where it starts; an index holds the positions alone, eight bytes each.
How an entry is packed is a parameter. The index of a file of two entries at
least can be built by reading the file.
-/

namespace Gamebank.Lib

universe u

/-- `pack` and `unpack` of a type; `unpack` gives the bytes it left. -/
structure Codec (α : Type u) where
  pack : α → List UInt8
  unpack : List UInt8 → Option (α × List UInt8)
  unpack_pack : ∀ a rest, unpack (pack a ++ rest) = some (a, rest)

variable {α : Type}

/-- An entry is unpacked where the stream stands. -/
def ByteStream.unpack (c : Codec α) (s : ByteStream) : Except String (α × ByteStream) :=
  if s.failed then .error "failbit"
  else
    match c.unpack s.remaining with
    | none => .error "unpack"
    | some (a, rest) => .ok (a, s.seekg (s.bytes.length - rest.length))

/-- The last number of a file. -/
def ByteStream.readLast (s : ByteStream) : Except String (Nat × ByteStream) := do
  let s ← s.seekLast8
  s.read64

/-- An entry is unpacked where it stands. -/
theorem ByteStream.unpack_of_bytes {c : Codec α} {a : α} {s : ByteStream} {front back : List UInt8}
    (hbytes : s.bytes = front ++ (c.pack a ++ back)) (hpos : s.pos = front.length)
    (hgood : s.failed = false) :
    s.unpack c = .ok (a, s.seekg (front.length + (c.pack a).length)) := by
  have hrest : s.remaining = c.pack a ++ back := by
    rw [remaining, hbytes, hpos, List.drop_left]
  have hend : s.bytes.length - back.length = front.length + (c.pack a).length := by
    rw [hbytes]
    simp only [List.length_append]
    omega
  rw [ByteStream.unpack, hgood, if_neg Bool.false_ne_true, hrest, c.unpack_pack]
  simp only [hend]

theorem ByteStream.readLast_eq {s : ByteStream} (hgood : s.failed = false)
    (hlong : 8 ≤ s.bytes.length) :
    s.readLast = .ok (lastNumber s.bytes, s.seekg s.bytes.length) := by
  have hseek : s.seekLast8 = .ok (s.seekg (s.bytes.length - 8)) := by
    rw [seekLast8, hgood, Bool.false_or, if_neg (by simpa using hlong)]
  have hrest : ¬(s.seekg (s.bytes.length - 8)).remaining.length < 8 := by
    rw [remaining, List.length_drop, seekg_bytes, seekg_pos]
    omega
  rw [readLast, hseek]
  show (s.seekg (s.bytes.length - 8)).read64 = _
  rw [read64, seekg_failed, hgood, Bool.false_or, if_neg (by simpa using hrest)]
  have hend : (s.seekg (s.bytes.length - 8)).pos + 8 = s.bytes.length := by
    rw [seekg_pos]
    omega
  rw [hend]
  rfl

/-- There is no last number in a file of less than eight bytes. -/
theorem ByteStream.readLast_of_short {s : ByteStream} (hshort : s.bytes.length < 8) :
    s.readLast = .error "failbit" := by
  rw [readLast, seekLast8, decide_eq_true hshort, Bool.or_true]
  rfl

theorem ByteStream.readLast_of_bytes {s : ByteStream} {front : List UInt8} {n : Nat}
    (hbytes : s.bytes = front ++ encode64 n) (hn : n < 18446744073709551616)
    (hgood : s.failed = false) : ∃ q, s.readLast = .ok (n, s.seekg q) := by
  refine ⟨s.bytes.length, ?_⟩
  have hlong : 8 ≤ s.bytes.length := by
    rw [hbytes, List.length_append, length_encode64]
    exact Nat.le_add_left _ _
  have hlast : lastNumber s.bytes = n := by
    rw [hbytes]
    exact lastNumber_append front hn
  rw [readLast_eq hgood hlong, hlast]

namespace IndexedFile

/-- The file of the entries, from the position `start` on. -/
def entries (c : Codec α) (start : Nat) : List α → List UInt8
  | [] => []
  | a :: rest => c.pack a ++ (encode64 start ++ entries c (start + (c.pack a).length + 8) rest)

/-- The index of the entries. -/
def positions (c : Codec α) (start : Nat) : List α → List UInt8
  | [] => []
  | a :: rest => encode64 start ++ positions c (start + (c.pack a).length + 8) rest

/-- How long the file is. -/
def size (c : Codec α) : List α → Nat
  | [] => 0
  | a :: rest => (c.pack a).length + 8 + size c rest

/-- Where the last entry starts. -/
def lastPos (c : Codec α) (l : List α) : Nat := size c l.dropLast

section

variable (c : Codec α) (start : Nat) (l l' : List α) (a : α)

@[simp] theorem length_entries : (entries c start l).length = size c l := by
  induction l generalizing start with
  | nil => rfl
  | cons a rest ih =>
      simp only [entries, List.length_append, length_encode64, ih, size]
      omega

@[simp] theorem length_positions : (positions c start l).length = 8 * l.length := by
  induction l generalizing start with
  | nil => rfl
  | cons a rest ih =>
      simp only [positions, List.length_append, length_encode64, ih, List.length_cons]
      omega

theorem size_append : size c (l ++ l') = size c l + size c l' := by
  induction l with
  | nil => simp [size]
  | cons a rest ih =>
      simp only [List.cons_append, size, ih]
      omega

theorem entries_append :
    entries c start (l ++ l') = entries c start l ++ entries c (start + size c l) l' := by
  induction l generalizing start with
  | nil => rfl
  | cons a rest ih =>
      simp only [List.cons_append, entries, ih, size, List.append_assoc, Nat.add_assoc]

theorem positions_append :
    positions c start (l ++ l') = positions c start l ++ positions c (start + size c l) l' := by
  induction l generalizing start with
  | nil => rfl
  | cons a rest ih =>
      simp only [List.cons_append, positions, ih, size, List.append_assoc, Nat.add_assoc]

/-- The file around one of its entries. -/
theorem entries_around : entries c 0 (l ++ a :: l') =
    entries c 0 l ++ (c.pack a ++ (encode64 (size c l) ++
      entries c (size c l + (c.pack a).length + 8) l')) := by
  rw [entries_append, Nat.zero_add, entries]

theorem positions_around : positions c 0 (l ++ a :: l') =
    positions c 0 l ++ (encode64 (size c l) ++
      positions c (size c l + (c.pack a).length + 8) l') := by
  rw [positions_append, Nat.zero_add, positions]

theorem size_concat : size c (l ++ [a]) = size c l + (c.pack a).length + 8 := by
  simp only [size_append, size]
  omega

theorem length_le_size : l.length ≤ size c l := by
  induction l with
  | nil => exact Nat.le_refl 0
  | cons a rest ih =>
      simp only [List.length_cons, size]
      omega

end

variable {c : Codec α} {l before : List α}

theorem size_lt (h : before <+: l) (hlt : before.length < l.length) : size c before < size c l := by
  obtain ⟨rest, rfl⟩ := h
  cases rest with
  | nil => simp at hlt
  | cons a rest =>
      rw [size_append, size]
      omega

/-- Of two files the longer one has its last entry further on, when it has two
entries at least. -/
theorem lastPos_lt (h : before <+: l) (hlt : before.length < l.length) (htwo : 2 ≤ l.length) :
    lastPos c before < lastPos c l := by
  refine size_lt ?_ ?_
  · obtain ⟨rest, rfl⟩ := h
    cases hr : rest with
    | nil => simp [hr] at hlt
    | cons a rest' =>
        rw [List.dropLast_append_of_ne_nil (by simp)]
        exact (List.dropLast_prefix before).trans (List.prefix_append _ _)
  · simp only [List.length_dropLast]
    omega

theorem lastPos_le (c : Codec α) (l : List α) : lastPos c l ≤ size c l := by
  rcases Nat.eq_or_lt_of_le (List.dropLast_prefix l).length_le with heq | hlt
  · exact Nat.le_of_eq (by rw [lastPos, (List.dropLast_prefix l).eq_of_length heq])
  · exact Nat.le_of_lt (size_lt (List.dropLast_prefix l) hlt)

/-- The last number of the file is the position of the last entry. -/
theorem readLast_entries {s : ByteStream} (hbytes : s.bytes = entries c 0 l)
    (hgood : s.failed = false) (hne : l ≠ []) (hsize : size c l < 18446744073709551616) :
    ∃ q, s.readLast = .ok (lastPos c l, s.seekg q) := by
  have hlast := List.dropLast_append_getLast hne
  have hsplit : s.bytes =
      (entries c 0 l.dropLast ++ c.pack (l.getLast hne)) ++ encode64 (lastPos c l) := by
    rw [hbytes]
    conv_lhs => rw [← hlast, entries_around, entries, List.append_nil]
    rw [List.append_assoc, lastPos]
  exact ByteStream.readLast_of_bytes hsplit (Nat.lt_of_le_of_lt (lastPos_le c l) hsize) hgood

/-- The index ends with the position of the last entry. -/
theorem lastNumber_positions (hne : l ≠ []) (hsize : size c l < 18446744073709551616) :
    ByteStream.lastNumber (positions c 0 l) = lastPos c l := by
  have hsplit : positions c 0 l = positions c 0 l.dropLast ++ encode64 (lastPos c l) := by
    conv_lhs => rw [← List.dropLast_append_getLast hne, positions_around, positions,
      List.append_nil]
    rw [lastPos]
  rw [hsplit]
  exact ByteStream.lastNumber_append _ (Nat.lt_of_le_of_lt (lastPos_le c l) hsize)

/-! ## Building the index -/

/-- The entries are read from the first stream until the position of one is
`endPos`, and the positions are written to the second; every turn reads an
entry, so the length of the file bounds it. -/
def indexLoop (c : Codec α) (endPos : Nat) :
    Nat → Nat → EStateM String (ByteStream × ByteStream) Unit
  | 0, _ => throw "end_pos"
  | fuel + 1, pos =>
      if pos < endPos then do
        let _ ← ByteStream.on Prod.fst (fun s streams => (s, streams.2)) (ByteStream.unpack c)
        let pos ← ByteStream.on Prod.fst (fun s streams => (s, streams.2)) ByteStream.read64
        modify fun streams => (streams.1, streams.2.write (encode64 pos))
        indexLoop c endPos fuel pos
      else pure ()

/-- The entries `done` have been read, and their positions written. -/
structure Building (c : Codec α) (l done : List α) (streams : ByteStream × ByteStream) : Prop where
  file : streams.1.bytes = entries c 0 l
  reading : streams.1.writing = false
  good : streams.1.failed = false
  pos : streams.1.pos = size c done
  index : streams.2.bytes = positions c 0 done
  indexGood : streams.2.failed = false
  indexEnd : streams.2.AtEnd

/-- The loop reaches the end of a file of two entries at least: short of it, the
last position read is before the last entry. -/
theorem indexLoop_finishes (done : List α) {todo : List α} {streams : ByteStream × ByteStream}
    {fuel : Nat} (h : Building c (done ++ todo) done streams) (htwo : 2 ≤ (done ++ todo).length)
    (hsize : size c (done ++ todo) < 18446744073709551616) (hfuel : todo.length < fuel) :
    Finishes (indexLoop c (lastPos c (done ++ todo)) fuel (lastPos c done)) streams
      fun _ => Building c (done ++ todo) (done ++ todo) := by
  induction todo generalizing done fuel streams with
  | nil =>
      cases fuel with
      | zero => omega
      | succ fuel =>
          rw [List.append_nil] at h ⊢
          rw [indexLoop, if_neg (Nat.lt_irrefl _)]
          exact .pure h
  | cons a todo ih =>
      cases fuel with
      | zero => omega
      | succ fuel =>
          obtain ⟨file, index⟩ := streams
          have hbefore : lastPos c done < lastPos c (done ++ a :: todo) :=
            lastPos_lt (List.prefix_append _ _) (by simp) htwo
          have hlt : size c done < 18446744073709551616 := by
            rw [size_append] at hsize
            omega
          have hbytes := h.file.trans (entries_around c done todo a)
          have hunpack := ByteStream.unpack_of_bytes hbytes (by rw [h.pos, length_entries]) h.good
          have hread := ByteStream.read64_of_bytes
            (s := file.seekg ((entries c 0 done).length + (c.pack a).length))
            (entries c 0 done ++ c.pack a) _
            (by rw [ByteStream.seekg_bytes, hbytes, List.append_assoc])
            (by rw [ByteStream.seekg_pos, List.length_append]) hlt h.good
          have hlast : size c done = lastPos c (done ++ [a]) := by
            rw [lastPos, List.dropLast_concat]
          rw [indexLoop, if_pos hbefore]
          refine .bind_eq (ByteStream.on_eq hunpack) (.bind_eq (ByteStream.on_eq hread) ?_)
          refine .bind_eq (a := ()) rfl ?_
          -- the number behind the entry is where it starts, not where the next one does
          rw [List.append_cons] at h htwo hsize ⊢
          rw [hlast]
          refine ih _ ⟨h.file, h.reading, h.good, ?_, ?_, h.indexGood, .write _ _⟩ htwo hsize ?_
          · rw [ByteStream.seekg_pos, ByteStream.seekg_pos, length_entries, size_concat]
          · have hindex : index.bytes = positions c 0 done := h.index
            simp only [ByteStream.write, hindex, positions_append, positions, Nat.zero_add,
              List.append_nil, ← hlast]
          · rw [List.length_cons] at hfuel
            omega

end IndexedFile

end Gamebank.Lib
