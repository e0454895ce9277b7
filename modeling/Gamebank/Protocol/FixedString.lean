import Gamebank.Lib.PaddedBytes
import Gamebank.Protocol.Validation

/-!
# Account names in sixteen bytes

`fixed_string.hpp` for `account_name_type`, and the raw serialization of
strings in `raw.hpp`. Values are compared by their storage, while printing,
packing and validation stop at the first zero byte.
-/

namespace Gamebank.Protocol

open Gamebank.Lib

/-- `MAX_ARRAY_ALLOC_SIZE`. -/
def maxArrayAllocSize : Nat := 10485760

/-! ## Strings on the wire -/

/-- `pack` of an `unsigned_int`. -/
def packUnsigned (val : Nat) : List UInt8 :=
  if val / 128 = 0 then [UInt8.ofNat val]
  else UInt8.ofNat (val % 128 + 128) :: packUnsigned (val / 128)
termination_by val
decreasing_by omega

/-- The loop of `unpack` of an `unsigned_int`. Seven bits are shifted in with
every byte; a shift count past the width counts modulo 32. -/
def unpackUnsignedLoop (shift : UInt8) (v : UInt32) :
    List UInt8 → Except String (UInt32 × List UInt8)
  | [] => .error "get"
  | b :: rest =>
      let v := v ||| ((b &&& 0x7f).toUInt32 <<< shift.toUInt32)
      if b &&& 0x80 = 0 then .ok (v, rest) else unpackUnsignedLoop (shift + 7) v rest

/-- `unpack` of an `unsigned_int`. -/
def unpackUnsigned (s : List UInt8) : Except String (UInt32 × List UInt8) :=
  unpackUnsignedLoop 0 0 s

/-- `pack` of a `std::string`. -/
def packString (text : List UInt8) : List UInt8 :=
  packUnsigned (text.length % 4294967296) ++ text

/-- `unpack` of a `std::string`, by way of a vector of bytes. -/
def unpackString (s : List UInt8) : Except String (List UInt8 × List UInt8) := do
  let (size, s) ← unpackUnsigned s
  ensure (size.toNat < maxArrayAllocSize) "size.value < MAX_ARRAY_ALLOC_SIZE"
  ensure (size.toNat ≤ s.length) "read"
  return (s.take size.toNat, s.drop size.toNat)

/-! ## Names -/

/-- `fc::uint128`. -/
structure UInt128 where
  hi : UInt64
  lo : UInt64
deriving DecidableEq

/-- `fixed_string<16>`. -/
structure FixedString where
  data : UInt128
deriving DecidableEq

namespace FixedString

/-- The sixteen bytes of `native_to_big( data )`, in memory order. -/
def bytes (x : FixedString) : List UInt8 :=
  encodeBE 8 x.data.hi.toNat ++ encodeBE 8 x.data.lo.toNat

/-- The constructor from a `std::string`. -/
def ofString (text : List UInt8) : FixedString :=
  let d := padTo 16 (text.take 16)
  ⟨⟨UInt64.ofNat (decodeBE (d.take 8)), UInt64.ofNat (decodeBE (d.drop 8))⟩⟩

/-- `operator std::string`. -/
def string (x : FixedString) : List UInt8 := untilZero x.bytes

/-- `operator <`, which is that of `fc::uint128`. -/
instance : LT FixedString where
  lt a b := a.data.hi < b.data.hi ∨ a.data.hi = b.data.hi ∧ a.data.lo < b.data.lo

/-- `fc::raw::pack`. -/
def pack (x : FixedString) : List UInt8 := packString x.string

/-- `fc::raw::unpack`. -/
def unpack (s : List UInt8) : Except String (FixedString × List UInt8) := do
  let (text, s) ← unpackString s
  return (ofString text, s)

/-- `validate_account_name` of the value, which prints it; a character is a byte. -/
def validate (x : FixedString) : Except String Unit :=
  validateAccountName (String.ofList (x.string.map fun b => Char.ofNat b.toNat))

/-! ## The storage -/

@[simp] theorem length_bytes (x : FixedString) : x.bytes.length = 16 := by
  rw [bytes, List.length_append, length_encodeBE, length_encodeBE]

/-- The storage as one number. -/
theorem decodeBE_bytes (x : FixedString) :
    decodeBE x.bytes = x.data.hi.toNat * 256 ^ 8 + x.data.lo.toNat := by
  have hhi : x.data.hi.toNat < 256 ^ 8 := x.data.hi.toNat_lt
  have hlo : x.data.lo.toNat < 256 ^ 8 := x.data.lo.toNat_lt
  rw [bytes, decodeBE_append, length_encodeBE, decodeBE_encodeBE hhi, decodeBE_encodeBE hlo]

theorem lt_iff_bytes (x y : FixedString) : x < y ↔ x.bytes < y.bytes := by
  have hx : x.data.lo.toNat < 256 ^ 8 := x.data.lo.toNat_lt
  have hy : y.data.lo.toNat < 256 ^ 8 := y.data.lo.toNat_lt
  rw [← decodeBE_lt_iff (by simp), decodeBE_bytes, decodeBE_bytes, digit_lt_iff hx hy,
    UInt64.toNat_inj, ← UInt64.lt_iff_toNat_lt, ← UInt64.lt_iff_toNat_lt]
  rfl

theorem bytes_inj {x y : FixedString} (h : x.bytes = y.bytes) : x = y := by
  have hx : x.data.lo.toNat < 256 ^ 8 := x.data.lo.toNat_lt
  have hy : y.data.lo.toNat < 256 ^ 8 := y.data.lo.toNat_lt
  have hdecode := congrArg decodeBE h
  rw [decodeBE_bytes, decodeBE_bytes] at hdecode
  obtain ⟨⟨xhi, xlo⟩⟩ := x
  obtain ⟨⟨yhi, ylo⟩⟩ := y
  dsimp only at hx hy hdecode
  have hhi : xhi = yhi := UInt64.toNat_inj.mp (by omega)
  have hlo : xlo = ylo := UInt64.toNat_inj.mp (by omega)
  rw [hhi, hlo]

theorem bytes_ofString (text : List UInt8) :
    (ofString text).bytes = padTo 16 (text.take 16) := by
  have hlength : (padTo 16 (text.take 16)).length = 16 := length_padTo (List.length_take_le _ _)
  have hfront : ((padTo 16 (text.take 16)).take 8).length = 8 := by
    rw [List.length_take, hlength]
    decide
  have hback : ((padTo 16 (text.take 16)).drop 8).length = 8 := by
    rw [List.length_drop, hlength]
  have hkeep : ∀ {half : List UInt8}, half.length = 8 →
      encodeBE 8 (UInt64.ofNat (decodeBE half)).toNat = half := by
    intro half hhalf
    have hlt := decodeBE_lt half
    rw [hhalf] at hlt
    rw [UInt64.toNat_ofNat_of_lt' hlt, ← hhalf, encodeBE_decodeBE]
  simp only [bytes, ofString, hkeep hfront, hkeep hback, List.take_append_drop]

theorem zero_not_mem_string (x : FixedString) : (0 : UInt8) ∉ x.string :=
  zero_not_mem_untilZero x.bytes

theorem length_string_le (x : FixedString) : x.string.length ≤ 16 := by
  have h := length_untilZero_le x.bytes
  rwa [length_bytes] at h

/-- What is printed of a string that was received. -/
theorem string_ofString (text : List UInt8) :
    (ofString text).string = untilZero (text.take 16) := by
  rw [string, bytes_ofString, untilZero_padTo]

/-- A value is the one that its printed string makes exactly if the string it
was made from has nothing behind its first zero. -/
theorem ofString_string_iff (text : List UInt8) :
    ofString (ofString text).string = ofString text ↔ ZeroTail (text.take 16) := by
  have hshort : (text.take 16).length ≤ 16 := List.length_take_le _ _
  have hprinted : (ofString text).string.take 16 = untilZero (text.take 16) := by
    rw [List.take_of_length_le (length_string_le _), string_ofString]
  rw [← padTo_untilZero_iff hshort]
  constructor
  · intro h
    have hbytes := congrArg bytes h
    rwa [bytes_ofString, bytes_ofString, hprinted] at hbytes
  · intro h
    apply bytes_inj
    rw [bytes_ofString, bytes_ofString, hprinted, h]

/-- Values that come back from their printed strings compare as these do. -/
theorem lt_iff_string {x y : FixedString} (hx : ofString x.string = x)
    (hy : ofString y.string = y) :
    x < y ↔ x.string < y.string := by
  have hbytes : ∀ {z : FixedString}, ofString z.string = z → z.bytes = padTo 16 z.string := by
    intro z hz
    conv_lhs => rw [← hz]
    rw [bytes_ofString, List.take_of_length_le (length_string_le z)]
  rw [lt_iff_bytes, hbytes hx, hbytes hy, padTo_lt_iff (zero_not_mem_string x)
    (zero_not_mem_string y) (length_string_le x) (length_string_le y)]

/-! ## Packing again -/

/-- A short string is read back. -/
theorem unpackString_packString {text : List UInt8} (h : text.length ≤ 16) :
    unpackString (packString text) = .ok (text, []) := by
  have hsize : text.length % 4294967296 = text.length := Nat.mod_eq_of_lt (by omega)
  have hpacked : packString text = UInt8.ofNat text.length :: text := by
    rw [packString, hsize, packUnsigned, if_pos (by omega)]
    rfl
  have hunsigned : unpackUnsigned (UInt8.ofNat text.length :: text) =
      .ok (UInt32.ofNat text.length, text) := by
    have hall : ∀ n ≤ 16, (UInt8.ofNat n &&& 0x80 = 0) ∧
        (0 ||| ((UInt8.ofNat n &&& 0x7f).toUInt32 <<< (0 : UInt8).toUInt32)) = UInt32.ofNat n := by
      decide
    obtain ⟨hlast, hvalue⟩ := hall text.length h
    simp only [unpackUnsigned, unpackUnsignedLoop, if_pos hlast, hvalue]
  have hnat : (UInt32.ofNat text.length).toNat = text.length :=
    UInt32.toNat_ofNat_of_lt' (by show _ < 4294967296; omega)
  rw [hpacked, unpackString, hunsigned]
  refine bind_eq_ok.mpr ⟨_, rfl, ensure_bind_eq_ok.mpr ⟨?_, ensure_bind_eq_ok.mpr ⟨?_, ?_⟩⟩⟩
  · rw [hnat, decide_eq_true_eq, maxArrayAllocSize]
    omega
  · rw [hnat, decide_eq_true_eq]
  · rw [hnat, List.take_length, List.drop_length]
    rfl

theorem unpack_pack (x : FixedString) : unpack (pack x) = .ok (ofString x.string, []) := by
  rw [unpack, pack, unpackString_packString (length_string_le x)]
  rfl

/-- The value is the same after it was packed and unpacked, so that an
operation has the same effect when it is replayed, and it is the value of its
printed string. -/
structure Survives (x : FixedString) : Prop where
  repacked : unpack (pack x) = .ok (x, [])
  replayed : ∀ {State : Type} (effect : FixedString → State),
    (unpack (pack x)).map (fun r => effect r.1) = .ok (effect x)
  printed : x = ofString x.string

theorem survives_iff (x : FixedString) : Survives x ↔ ofString x.string = x := by
  constructor
  · intro h
    exact h.printed.symm
  · intro h
    have hrepacked : unpack (pack x) = .ok (x, []) := by rw [unpack_pack, h]
    refine ⟨hrepacked, fun effect => ?_, h.symm⟩
    rw [hrepacked]
    rfl

/-- Two names that were received are faithful: both survive packing, they are
the same if they print the same, and they compare as their strings do. -/
structure NamesAgree (x y : FixedString) : Prop where
  left : Survives x
  right : Survives y
  same : x.string = y.string → x = y
  order : x < y ↔ x.string < y.string

/-- Among the first sixteen bytes of the string that is read from the stream,
no other byte stands behind a zero. -/
def CleanName (s : List UInt8) : Prop :=
  ∀ text rest, unpackString s = .ok (text, rest) → ZeroTail (text.take 16)

/-- **Names survive serialization** exactly if no byte stands behind a zero. -/
theorem namesAgree_iff {s s' rest rest' : List UInt8} {x y : FixedString}
    (hx : unpack s = .ok (x, rest)) (hy : unpack s' = .ok (y, rest')) :
    NamesAgree x y ↔ CleanName s ∧ CleanName s' := by
  have hclean : ∀ {s rest : List UInt8} {x : FixedString}, unpack s = .ok (x, rest) →
      (ofString x.string = x ↔ CleanName s) := by
    intro s rest x h
    obtain ⟨⟨text, left⟩, htext, hvalue⟩ := bind_eq_ok.mp h
    obtain ⟨rfl, -⟩ := Prod.mk.inj (Except.ok.inj hvalue)
    rw [ofString_string_iff]
    constructor
    · intro htail text' left' htext'
      obtain ⟨rfl, -⟩ := Prod.mk.inj (Except.ok.inj (htext.symm.trans htext'))
      exact htail
    · exact fun hs => hs text left htext
  rw [← hclean hx, ← hclean hy]
  constructor
  · intro h
    exact ⟨(survives_iff x).mp h.left, (survives_iff y).mp h.right⟩
  · rintro ⟨hleft, hright⟩
    refine ⟨(survives_iff x).mpr hleft, (survives_iff y).mpr hright, fun hsame => ?_,
      lt_iff_string hleft hright⟩
    rw [← hleft, hsame, hright]

/-- The names "abc" and "abd", as they are received. -/
theorem namesAgree_letters :
    NamesAgree (ofString [97, 98, 99]) (ofString [97, 98, 100]) ↔
      CleanName [3, 97, 98, 99] ∧ CleanName [3, 97, 98, 100] := by
  have hleft : unpack [3, 97, 98, 99] = .ok (ofString [97, 98, 99], []) := rfl
  have hright : unpack [3, 97, 98, 100] = .ok (ofString [97, 98, 100], []) := rfl
  exact namesAgree_iff hleft hright

/-- The name "abc" with a byte behind its zero passes validation and is not
the account "abc"; packed again it is. -/
theorem hidden_byte_is_lost : ∃ x,
    unpack [5, 97, 98, 99, 0, 120] = .ok (x, []) ∧ x.validate = .ok () ∧
      x ≠ ofString [97, 98, 99] ∧ unpack (pack x) = .ok (ofString [97, 98, 99], []) :=
  ⟨ofString [97, 98, 99, 0, 120], rfl, by decide +kernel, by decide +kernel, by decide +kernel⟩

end FixedString

end Gamebank.Protocol
