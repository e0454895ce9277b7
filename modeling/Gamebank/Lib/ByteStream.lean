import Gamebank.Lib.Stateful
import Mathlib.Algebra.Group.Nat.Defs
import Mathlib.Data.List.Basic

/-!
# Byte files

A file is a list of bytes. A stream on it is open for reading, at a position,
or for appending; a stream that is opened again starts at the beginning, and
what is appended goes to the end of the file wherever the stream stands. When
an operation of a stream fails its failbit is set, and until the stream is
opened again every operation on it fails. Numbers are stored in eight bytes,
least significant first.
-/

namespace Gamebank.Lib

/-! ## Numbers as bytes -/

/-- The `w` bytes of `n`, least significant first. -/
def encodeLE : Nat → Nat → List UInt8
  | 0, _ => []
  | w + 1, n => UInt8.ofNat n :: encodeLE w (n / 256)

def decodeLE : List UInt8 → Nat
  | [] => 0
  | b :: rest => b.toNat + 256 * decodeLE rest

/-- `uint64_t` in a file. -/
def encode64 (n : Nat) : List UInt8 := encodeLE 8 n

@[simp] theorem length_encodeLE (w n : Nat) : (encodeLE w n).length = w := by
  induction w generalizing n with
  | zero => rfl
  | succ w ih => rw [encodeLE, List.length_cons, ih]

@[simp] theorem length_encode64 (n : Nat) : (encode64 n).length = 8 := length_encodeLE 8 n

theorem decodeLE_encodeLE {w n : Nat} (h : n < 256 ^ w) : decodeLE (encodeLE w n) = n := by
  induction w generalizing n with
  | zero =>
      rw [Nat.pow_zero] at h
      simp only [encodeLE, decodeLE]
      omega
  | succ w ih =>
      have hrest : n / 256 < 256 ^ w := by
        rw [Nat.pow_succ] at h
        exact Nat.div_lt_of_lt_mul (by omega)
      rw [encodeLE, decodeLE, ih hrest, UInt8.toNat_ofNat']
      omega

theorem decodeLE_encode64 {n : Nat} (h : n < 18446744073709551616) :
    decodeLE (encode64 n) = n :=
  decodeLE_encodeLE (w := 8) h

/-! ## Streams -/

structure ByteStream where
  bytes : List UInt8
  pos : Nat
  writing : Bool
  failed : Bool

namespace ByteStream

/-- `open` with `std::ios::in`. -/
def openRead (bytes : List UInt8) : ByteStream := ⟨bytes, 0, false, false⟩

/-- `open` with `std::ios::out | std::ios::app`. -/
def openWrite (bytes : List UInt8) : ByteStream := ⟨bytes, 0, true, false⟩

/-- The failbit is set. -/
def fail (s : ByteStream) : ByteStream := { s with failed := true }

def seekg (s : ByteStream) (pos : Nat) : ByteStream := { s with pos := pos }

/-- `seekg( -8, std::ios::end )`, which fails on a file of less than eight bytes. -/
def seekLast8 (s : ByteStream) : Except String ByteStream :=
  if s.failed || s.bytes.length < 8 then .error "failbit" else .ok (s.seekg (s.bytes.length - 8))

/-- Everything from the position on. -/
def remaining (s : ByteStream) : List UInt8 := s.bytes.drop s.pos

/-- Eight bytes are read as a number. -/
def read64 (s : ByteStream) : Except String (Nat × ByteStream) :=
  if s.failed || s.remaining.length < 8 then .error "failbit"
  else .ok (decodeLE (s.remaining.take 8), s.seekg (s.pos + 8))

def write (s : ByteStream) (data : List UInt8) : ByteStream :=
  { s with bytes := s.bytes ++ data, pos := s.bytes.length + data.length }

/-- The stream is open for reading, opened again if need be. -/
def checkRead (s : ByteStream) : ByteStream := if s.writing then openRead s.bytes else s

/-- The stream is open for appending and stands at the end, opened again if need be. -/
def checkWrite (s : ByteStream) : ByteStream :=
  if s.writing then s else (openWrite s.bytes).seekg s.bytes.length

/-- An operation of the stream that `get` finds in an object and `put` replaces;
one that fails sets the failbit of the stream. -/
def on {σ α : Type} (get : σ → ByteStream) (put : ByteStream → σ → σ)
    (f : ByteStream → Except String (α × ByteStream)) : EStateM String σ α := fun l =>
  match f (get l) with
  | .ok (a, s) => .ok a (put s l)
  | .error e => .error e (put (get l).fail l)

@[simp] theorem seekg_bytes (s : ByteStream) (pos : Nat) : (s.seekg pos).bytes = s.bytes := rfl
@[simp] theorem seekg_pos (s : ByteStream) (pos : Nat) : (s.seekg pos).pos = pos := rfl
@[simp] theorem seekg_writing (s : ByteStream) (pos : Nat) :
    (s.seekg pos).writing = s.writing := rfl
@[simp] theorem seekg_failed (s : ByteStream) (pos : Nat) :
    (s.seekg pos).failed = s.failed := rfl

@[simp] theorem checkRead_bytes (s : ByteStream) : s.checkRead.bytes = s.bytes := by
  unfold checkRead
  split <;> rfl

@[simp] theorem checkRead_writing (s : ByteStream) : s.checkRead.writing = false := by
  unfold checkRead
  by_cases h : s.writing = true
  · rw [if_pos h]
    rfl
  · rw [if_neg h]
    simpa using h

@[simp] theorem checkWrite_bytes (s : ByteStream) : s.checkWrite.bytes = s.bytes := by
  unfold checkWrite
  split <;> rfl

@[simp] theorem checkWrite_writing (s : ByteStream) : s.checkWrite.writing = true := by
  unfold checkWrite
  by_cases h : s.writing = true
  · rw [if_pos h, h]
  · rw [if_neg h]
    rfl

theorem checkRead_failed {s : ByteStream} (h : s.failed = false) : s.checkRead.failed = false := by
  unfold checkRead
  split
  · rfl
  · exact h

theorem checkWrite_failed {s : ByteStream} (h : s.failed = false) :
    s.checkWrite.failed = false := by
  unfold checkWrite
  split
  · exact h
  · rfl

/-- A stream that is open for appending stands at the end. -/
def AtEnd (s : ByteStream) : Prop := s.writing = true → s.pos = s.bytes.length

theorem AtEnd.of_reading {s : ByteStream} (h : s.writing = false) : s.AtEnd := by
  intro hw
  rw [h] at hw
  simp at hw

theorem AtEnd.write (s : ByteStream) (data : List UInt8) : (s.write data).AtEnd := by
  intro _
  simp [ByteStream.write]

theorem AtEnd.checkWrite_pos {s : ByteStream} (h : s.AtEnd) :
    s.checkWrite.pos = s.bytes.length := by
  unfold checkWrite
  by_cases hw : s.writing = true
  · rw [if_pos hw]
    exact h hw
  · rw [if_neg hw]
    rfl

theorem checkRead_of_reading {s : ByteStream} (h : s.writing = false) : s.checkRead = s := by
  rw [checkRead, h]
  rfl

/-- What is open for appending is opened again to be read. -/
theorem checkRead_of_writing {s : ByteStream} (h : s.writing = true) :
    s.checkRead = openRead s.bytes := by
  rw [checkRead, h]
  rfl

/-- Nothing is read from a stream that has failed. -/
theorem read64_of_failed {s : ByteStream} (h : s.failed = true) : s.read64 = .error "failbit" := by
  rw [read64, h]
  rfl

theorem read64_of_short {s : ByteStream} (h : s.remaining.length < 8) :
    s.read64 = .error "failbit" := by
  rw [read64, decide_eq_true h, Bool.or_true]
  rfl

theorem AtEnd.checkWrite {s : ByteStream} (h : s.AtEnd) : s.checkWrite.AtEnd := by
  intro _
  rw [h.checkWrite_pos, checkWrite_bytes]

/-- A number that was written is read again where it stands. -/
theorem read64_of_bytes {s : ByteStream} (before after : List UInt8) {n : Nat}
    (hbytes : s.bytes = before ++ (encode64 n ++ after)) (hpos : s.pos = before.length)
    (hn : n < 18446744073709551616) (hgood : s.failed = false) :
    s.read64 = .ok (n, s.seekg (s.pos + 8)) := by
  have hrest : s.remaining = encode64 n ++ after := by
    rw [remaining, hbytes, hpos, List.drop_left]
  have hlong : ¬s.remaining.length < 8 := by
    rw [hrest, List.length_append, length_encode64]
    omega
  have htake : s.remaining.take 8 = encode64 n := by
    rw [hrest, ← length_encode64 n, List.take_left]
  rw [read64, hgood, Bool.false_or, if_neg (by simpa using hlong), htake, decodeLE_encode64 hn]

/-- The last eight bytes as a number. -/
def lastNumber (bytes : List UInt8) : Nat := decodeLE ((bytes.drop (bytes.length - 8)).take 8)

theorem lastNumber_append (before : List UInt8) {n : Nat} (hn : n < 18446744073709551616) :
    lastNumber (before ++ encode64 n) = n := by
  have hlength : (before ++ encode64 n).length - 8 = before.length := by
    rw [List.length_append, length_encode64, Nat.add_sub_cancel]
  rw [lastNumber, hlength, List.drop_left, ← length_encode64 n, List.take_length,
    decodeLE_encode64 hn]

/-! ## Streams of an object -/

variable {σ α : Type} {get : σ → ByteStream} {put : ByteStream → σ → σ}
  {f : ByteStream → Except String (α × ByteStream)} {l : σ}

theorem on_eq {a : α} {s : ByteStream} (h : f (get l) = .ok (a, s)) :
    on get put f l = .ok a (put s l) := by
  rw [on, h]

theorem on_throws {e : String} {P : σ → Prop} (h : f (get l) = .error e)
    (hP : P (put (get l).fail l)) : Throws (on get put f) l P := by
  refine ⟨e, _, ?_, hP⟩
  rw [on, h]

end ByteStream

end Gamebank.Lib
