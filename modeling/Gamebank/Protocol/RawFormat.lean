import Gamebank.Lib.Wire
import Gamebank.Protocol.BlockPacking
import Gamebank.Protocol.SymbolType

/-!
# The raw format

`raw.hpp`: how the types that are not built from others are packed. A count is
an `unsigned_int`, seven bits in a byte; more bytes than needed are accepted,
and what does not fit in 32 bits is lost. An account name is read up to
sixteen bytes and written up to its first zero. An asset symbol may be read
from four bytes that is written in eight.
-/

namespace Gamebank.Protocol

open Gamebank.Lib

/-! ## Counts -/

/-- The last byte of an `unsigned_int`. -/
theorem last_iff : ∀ n < 256, (UInt8.ofNat n &&& 0x80 = 0 ↔ n < 128) := by decide +kernel

/-- Seven bits are put above the `7 * k` bits there are. -/
theorem toNat_or_shift {k : Nat} (hk : k ≤ 4) {v : UInt32} (hv : v.toNat < 128 ^ k) {b : UInt8}
    (hfit : b.toNat % 128 * 128 ^ k < 4294967296) :
    (v ||| ((b &&& 0x7f).toUInt32 <<< (UInt8.ofNat (7 * k)).toUInt32)).toNat =
      v.toNat + b.toNat % 128 * 128 ^ k := by
  have hshift : (UInt8.ofNat (7 * k)).toUInt32.toNat % 32 = 7 * k := by
    rw [UInt8.toNat_toUInt32, UInt8.toNat_ofNat']
    omega
  have hpow : (128 : Nat) ^ k = 2 ^ (7 * k) := by rw [Nat.pow_mul]
  have hlow : (b &&& 0x7f).toUInt32.toNat = b.toNat % 128 := by
    rw [UInt8.toNat_toUInt32, UInt8.toNat_and]
    exact Nat.and_two_pow_sub_one_eq_mod b.toNat 7
  rw [UInt32.toNat_or, UInt32.toNat_shiftLeft, hshift, hlow, Nat.shiftLeft_eq, ← hpow,
    Nat.mod_eq_of_lt hfit, Nat.or_comm, hpow, ← Nat.shiftLeft_eq,
    ← Nat.shiftLeft_add_eq_or_of_lt (by rwa [← hpow]), Nat.add_comm]

theorem reads_unpackUnsignedLoop {n : Nat} (k : Nat) (hk : k ≤ 4) {v : UInt32}
    (hv : v.toNat < 128 ^ k) (hfit : v.toNat + n * 128 ^ k < 4294967296) :
    Reads (unpackUnsignedLoop (UInt8.ofNat (7 * k)) v) (packUnsigned n)
      (UInt32.ofNat (v.toNat + n * 128 ^ k)) := by
  induction n using packUnsigned.induct generalizing k v with
  | case1 n hn =>
      intro rest
      have hlow : (UInt8.ofNat n).toNat % 128 = n := by
        rw [UInt8.toNat_ofNat']
        omega
      have hvalue := toNat_or_shift hk hv (b := UInt8.ofNat n) (by rw [hlow]; omega)
      rw [hlow] at hvalue
      rw [packUnsigned, if_pos hn, List.singleton_append, unpackUnsignedLoop,
        if_pos ((last_iff n (by omega)).mpr (by omega)), ← hvalue, UInt32.ofNat_toNat]
  | case2 n hn ih =>
      intro rest
      have hpos : 0 < 128 ^ k := Nat.pow_pos (by decide)
      have hlt : k < 4 := by
        refine lt_of_le_of_ne hk fun hfour => ?_
        rw [hfour] at hfit
        omega
      have hlow : (UInt8.ofNat (n % 128 + 128)).toNat % 128 = n % 128 := by
        rw [UInt8.toNat_ofNat']
        omega
      have hdigit : n % 128 * 128 ^ k ≤ n * 128 ^ k := Nat.mul_le_mul_right _ (Nat.mod_le n 128)
      have hvalue := toNat_or_shift hk hv (b := UInt8.ofNat (n % 128 + 128)) (by rw [hlow]; omega)
      rw [hlow] at hvalue
      have hsplit : n * 128 ^ k = n % 128 * 128 ^ k + n / 128 * 128 ^ (k + 1) := by
        conv_lhs => rw [← Nat.mod_add_div n 128]
        rw [Nat.add_mul, Nat.pow_succ, Nat.mul_comm 128, Nat.mul_assoc, Nat.mul_comm 128]
      have hless : v.toNat + n % 128 * 128 ^ k < 128 ^ (k + 1) := by
        have : n % 128 * 128 ^ k ≤ 127 * 128 ^ k := Nat.mul_le_mul_right _ (by omega)
        rw [Nat.pow_succ]
        omega
      have hshift : UInt8.ofNat (7 * k) + 7 = UInt8.ofNat (7 * (k + 1)) := by
        rw [Nat.mul_add, UInt8.ofNat_add]
        rfl
      rw [packUnsigned, if_neg hn, List.cons_append, unpackUnsignedLoop,
        if_neg (fun h => absurd ((last_iff _ (by omega)).mp h) (by omega)), hshift,
        ih (k + 1) hlt (by rwa [hvalue]) (by rw [hvalue]; omega) rest, hvalue, hsplit,
        Nat.add_assoc]

/-- A count of 32 bits comes back. -/
theorem reads_packUnsigned {n : Nat} (h : n < 4294967296) :
    Reads unpackUnsigned (packUnsigned n) (UInt32.ofNat n) := by
  have hread := reads_unpackUnsignedLoop (n := n) 0 (by decide) (v := 0) (by decide)
    (by simpa using h)
  show Reads (unpackUnsignedLoop 0 0) _ _
  simpa using hread

theorem local_unpackUnsignedLoop (shift : UInt8) (v : UInt32) :
    Reader.Local (unpackUnsignedLoop shift v) := by
  intro s w rest h
  induction s generalizing shift v with
  | nil => cases h
  | cons b s ih =>
      unfold unpackUnsignedLoop at h
      dsimp only at h
      split at h
      next hlast =>
        obtain ⟨rfl, rfl⟩ := Prod.mk.inj (Except.ok.inj h)
        refine ⟨[b], rfl, fun more => ?_⟩
        rw [List.singleton_append, unpackUnsignedLoop, if_pos hlast]
      next hmore =>
        obtain ⟨front, rfl, hfront⟩ := ih _ _ h
        refine ⟨b :: front, rfl, fun more => ?_⟩
        rw [List.cons_append, unpackUnsignedLoop, if_neg hmore]
        exact hfront more

/-- A number below `128 ^ (m + 1)` takes at most `m + 1` bytes. -/
theorem length_packUnsigned_le {m n : Nat} (h : n < 128 ^ (m + 1)) :
    (packUnsigned n).length ≤ m + 1 := by
  induction m generalizing n with
  | zero =>
      rw [length_packUnsigned_of_lt h]
  | succ m ih =>
      rw [packUnsigned]
      split
      · exact Nat.le_add_left 1 (m + 1)
      · have hrest := ih (n := n / 128) (Nat.div_lt_of_lt_mul (by rw [Nat.pow_succ] at h; omega))
        rw [List.length_cons]
        omega

/-- However many bytes a count was read from, it packs to no more. -/
theorem length_packUnsigned_loop_le {front : List UInt8} {k : Nat} (hk : k ≤ 4) {v w : UInt32}
    (hv : v.toNat < 128 ^ k) (h : Reads (unpackUnsignedLoop (UInt8.ofNat (7 * k)) v) front w) :
    (packUnsigned w.toNat).length ≤ k + front.length := by
  have hfive : (packUnsigned w.toNat).length ≤ 5 :=
    length_packUnsigned_le (m := 4) (w.toNat_lt.trans (by decide))
  induction front generalizing k v with
  | nil => cases h []
  | cons b front ih =>
      rw [List.length_cons]
      by_cases hfour : k = 4
      · omega
      · have hread := h []
        have hdigit : b.toNat % 128 * 128 ^ k ≤ 127 * 128 ^ k := Nat.mul_le_mul_right _ (by omega)
        have hbound : 127 * 128 ^ k < 4294967296 := by
          have : 128 ^ k ≤ 128 ^ 3 := Nat.pow_le_pow_right (by decide) (by omega)
          omega
        have hvalue := toNat_or_shift hk hv (b := b) (by omega)
        have hless : v.toNat + b.toNat % 128 * 128 ^ k < 128 ^ (k + 1) := by
          rw [Nat.pow_succ]
          omega
        have hshift : UInt8.ofNat (7 * k) + 7 = UInt8.ofNat (7 * (k + 1)) := by
          rw [Nat.mul_add, UInt8.ofNat_add]
          rfl
        rw [List.append_nil, unpackUnsignedLoop] at hread
        split at hread
        next =>
          obtain ⟨rfl, -⟩ := Prod.mk.inj (Except.ok.inj hread)
          have := length_packUnsigned_le (m := k) (hvalue ▸ hless)
          omega
        next hmore =>
          have hrest : Reads (unpackUnsignedLoop (UInt8.ofNat (7 * (k + 1)))
              (v ||| ((b &&& 0x7f).toUInt32 <<< (UInt8.ofNat (7 * k)).toUInt32))) front w := by
            intro more
            have hmany := h more
            rw [List.cons_append, unpackUnsignedLoop, if_neg hmore, hshift] at hmany
            exact hmany
          have := ih (by omega) (by rwa [hvalue]) hrest
          omega

/-- `raw.hpp`. -/
def raw : Format where
  bound := 4294967296
  packCount := packUnsigned
  unpackCount := Reader.map UInt32.toNat unpackUnsigned
  maxAlloc := maxArrayAllocSize
  vectorMessage := "size.value*sizeof(T) < MAX_ARRAY_ALLOC_SIZE"
  mapMessage := "size.value*(sizeof(K)+sizeof(V)) < MAX_ARRAY_ALLOC_SIZE"
  tagMessage := "w < count() && w >= 0"
  flagMessage := "(b & ~1) == 0"
  readMessage := "read datastream of length ${len} over by ${over}"
  reads_count := by
    intro n h
    have hread := (reads_packUnsigned h).map UInt32.toNat
    rwa [UInt32.toNat_ofNat_of_lt' h] at hread
  local_count := (local_unpackUnsignedLoop 0 0).map UInt32.toNat
  count_lt := by
    intro front n h
    obtain ⟨w, -, rfl⟩ := Reads.of_map (local_unpackUnsignedLoop 0 0) h
    exact w.toNat_lt
  count_le := by
    intro front n h
    obtain ⟨w, hw, rfl⟩ := Reads.of_map (local_unpackUnsignedLoop 0 0) h
    have hle := length_packUnsigned_loop_le (k := 0) (by decide) (v := 0) (by decide) hw
    omega
  count_mono := length_packUnsigned_mono

/-! ## Leaves -/

/-- Byte strings compare by their first difference. -/
theorem less_trans_bytes (a b c : List UInt8) (hab : decide (a < b) = true)
    (hbc : decide (b < c) = true) : decide (a < c) = true :=
  decide_eq_true (List.lt_trans (of_decide_eq_true hab) (of_decide_eq_true hbc))

/-- An integer of `w` bytes, as its bits. -/
def integer (w : Nat) : Leaf 2 where
  Val := BitVec (8 * w)
  pack v := .ok (encodeLE w v.toNat)
  unpack := (Reader.bytes raw.readMessage w).map fun bytes => BitVec.ofNat (8 * w) (decodeLE bytes)
  less a b := a.toNat < b.toNat
  Bounded _ := True
  Faithful _ := True
  reads := by
    intro v _ _
    have hv : v.toNat < 256 ^ w := by
      have := v.isLt
      rwa [Nat.pow_mul] at this
    have hread := (Reads.bytes raw.readMessage (encodeLE w v.toNat)).map fun bytes =>
      BitVec.ofNat (8 * w) (decodeLE bytes)
    rw [length_encodeLE, decodeLE_encodeLE hv, BitVec.ofNat_toNat, BitVec.setWidth_eq] at hread
    exact Completes.ok hread
  local_unpack := (Reader.Local.bytes _ w).map _
  bounded := fun _ => trivial
  pack_le := by
    intro front v h
    obtain ⟨bytes, hbytes, rfl⟩ := Reads.of_map (Reader.Local.bytes _ w) h
    obtain ⟨-, hlength⟩ := Reads.of_bytes hbytes
    refine Returns.ok ?_
    rw [length_encodeLE]
    omega
  less_trans := fun a b c hab hbc =>
    decide_eq_true (Nat.lt_trans (of_decide_eq_true hab) (of_decide_eq_true hbc))

/-- A `bool`. -/
def flag : Leaf 2 where
  Val := Bool
  pack b := .ok [if b then 1 else 0]
  unpack := Ty.unpackFlag raw
  less a b := !a && b
  Bounded _ := True
  Faithful _ := True
  reads := by
    intro b _ _
    cases b with
    | false => exact Completes.ok (Ty.reads_false raw)
    | true => exact Completes.ok (Ty.reads_true raw)
  local_unpack := Ty.local_unpackFlag raw
  bounded := fun _ => trivial
  pack_le := by
    intro front b h
    refine Returns.ok ?_
    rw [Ty.length_of_unpackFlag raw h]
    exact Nat.le_succ 1
  less_trans := by decide

/-- `n` bytes as an array. -/
def unpackArray (n : Nat) : Reader (Vector UInt8 n) := fun s =>
  if h : n ≤ s.length then
    .ok (⟨(s.take n).toArray, by rw [List.size_toArray, List.length_take, Nat.min_eq_left h]⟩,
      s.drop n)
  else .error raw.readMessage

theorem unpackArray_append {n : Nat} {front : List UInt8} (h : front.length = n)
    (rest : List UInt8) : unpackArray n (front ++ rest) = .ok (⟨front.toArray, h⟩, rest) := by
  have hle : n ≤ (front ++ rest).length := by
    rw [List.length_append]
    omega
  unfold unpackArray
  rw [dif_pos hle]
  simp only [List.take_left' h, List.drop_left' h]

theorem of_unpackArray {n : Nat} {s rest : List UInt8} {v : Vector UInt8 n}
    (h : unpackArray n s = .ok (v, rest)) :
    ∃ front, ∃ hlength : front.length = n, s = front ++ rest ∧ v = ⟨front.toArray, hlength⟩ := by
  unfold unpackArray at h
  split at h
  next hle =>
    obtain ⟨rfl, rfl⟩ := Prod.mk.inj (Except.ok.inj h)
    exact ⟨s.take n, by rw [List.length_take, Nat.min_eq_left hle],
      (List.take_append_drop n s).symm, rfl⟩
  next => cases h

/-- An array of `n` bytes: a hash, a key or a signature. -/
def byteArray (n : Nat) : Leaf 2 where
  Val := Vector UInt8 n
  pack v := .ok v.toList
  unpack := unpackArray n
  less a b := a.toList < b.toList
  Bounded _ := True
  Faithful _ := True
  reads := fun {v} _ _ => Completes.ok fun rest => unpackArray_append Vector.length_toList rest
  local_unpack := by
    intro s v rest h
    obtain ⟨front, hlength, rfl, rfl⟩ := of_unpackArray h
    exact ⟨front, rfl, unpackArray_append hlength⟩
  bounded := fun _ => trivial
  pack_le := by
    intro front v h
    obtain ⟨front', hlength, hfront, -⟩ := of_unpackArray (h [])
    rw [List.append_nil, List.append_nil] at hfront
    refine Returns.ok ?_
    rw [Vector.length_toList, hfront, hlength]
    omega
  less_trans := fun a b c => less_trans_bytes a.toList b.toList c.toList

/-! ### Strings -/

theorem reads_unpackString {text : List UInt8} (h : text.length < maxArrayAllocSize) :
    Reads unpackString (packString text) text := by
  have hsize : text.length < 4294967296 := h.trans (by decide)
  intro rest
  have hnat : (UInt32.ofNat text.length).toNat = text.length := UInt32.toNat_ofNat_of_lt' hsize
  rw [packString, unpackString, Nat.mod_eq_of_lt hsize, List.append_assoc]
  refine bind_eq_ok.mpr ⟨_, reads_packUnsigned hsize (text ++ rest),
    ensure_bind_eq_ok.mpr ⟨?_, ensure_bind_eq_ok.mpr ⟨?_, ?_⟩⟩⟩
  · rw [hnat]
    exact decide_eq_true h
  · rw [hnat, decide_eq_true_eq, List.length_append]
    omega
  · rw [hnat, List.take_left, List.drop_left]
    rfl

/-- What is known of a string that was read. -/
theorem of_unpackString {s text rest : List UInt8} (h : unpackString s = .ok (text, rest)) :
    text.length < maxArrayAllocSize ∧ ∃ count, s = count ++ (text ++ rest) ∧
      (packUnsigned text.length).length ≤ count.length ∧
      ∀ more, unpackString (count ++ (text ++ more)) = .ok (text, more) := by
  obtain ⟨⟨size, s'⟩, hcount, h⟩ := bind_eq_ok.mp h
  obtain ⟨hsmall, h⟩ := ensure_bind_eq_ok.mp h
  obtain ⟨hlong, h⟩ := ensure_bind_eq_ok.mp h
  obtain ⟨rfl, rfl⟩ := Prod.mk.inj (Except.ok.inj h)
  rw [decide_eq_true_eq] at hsmall hlong
  obtain ⟨count, rfl, hreads⟩ := local_unpackUnsignedLoop 0 0 s size s' hcount
  have hlength : (s'.take size.toNat).length = size.toNat := by
    rw [List.length_take, Nat.min_eq_left hlong]
  refine ⟨by rwa [hlength], count, by rw [List.take_append_drop], ?_, fun more => ?_⟩
  · rw [hlength]
    have := length_packUnsigned_loop_le (k := 0) (by decide) (v := 0) (by decide) hreads
    omega
  · refine bind_eq_ok.mpr ⟨_, hreads _, ensure_bind_eq_ok.mpr ⟨decide_eq_true hsmall,
      ensure_bind_eq_ok.mpr ⟨?_, ?_⟩⟩⟩
    · rw [decide_eq_true_eq, List.length_append, hlength]
      omega
    · rw [List.take_left' hlength, List.drop_left' hlength]
      rfl

theorem local_unpackString : Reader.Local unpackString := by
  intro s text rest h
  obtain ⟨-, count, rfl, -, hreads⟩ := of_unpackString h
  refine ⟨count ++ text, (List.append_assoc count text rest).symm, fun more => ?_⟩
  rw [List.append_assoc]
  exact hreads more

/-- No string that was read, and none of its parts, packs to more bytes. -/
theorem length_packString_le {front text : List UInt8} (h : Reads unpackString front text)
    {part : List UInt8} (hpart : part.length ≤ text.length) :
    (packString part).length ≤ front.length := by
  have hread := h []
  rw [List.append_nil] at hread
  obtain ⟨hsmall, count, rfl, hcount, -⟩ := of_unpackString hread
  have hmono := length_packUnsigned_mono ((Nat.mod_le part.length 4294967296).trans hpart)
  rw [length_packString, List.append_nil, List.length_append]
  omega

/-- A `std::string` or a vector of bytes. -/
def string : Leaf 2 where
  Val := List UInt8
  pack text := .ok (packString text)
  unpack := unpackString
  less a b := a < b
  Bounded text := text.length < maxArrayAllocSize
  Faithful _ := True
  reads := fun h _ => Completes.ok (reads_unpackString h)
  local_unpack := local_unpackString
  bounded := by
    intro front text h
    have hread := h []
    exact (of_unpackString hread).1
  pack_le := by
    intro front text h
    have := length_packString_le h (Nat.le_refl text.length)
    exact Returns.ok (by omega)
  less_trans := less_trans_bytes

/-! ### Account names -/

instance (x y : FixedString) : Decidable (x < y) := inferInstanceAs (Decidable (_ ∨ _))

theorem local_unpackName : Reader.Local FixedString.unpack :=
  local_unpackString.map FixedString.ofString

theorem of_unpackName {front : List UInt8} {x : FixedString}
    (h : Reads FixedString.unpack front x) :
    ∃ text, Reads unpackString front text ∧ x = FixedString.ofString text :=
  Reads.of_map (g := FixedString.ofString) local_unpackString h

theorem reads_name {x : FixedString} (hx : FixedString.ofString x.string = x) :
    Reads FixedString.unpack x.pack x := by
  have hshort : x.string.length < maxArrayAllocSize :=
    (FixedString.length_string_le x).trans_lt (by decide)
  have hread := (reads_unpackString hshort).map FixedString.ofString
  rw [hx] at hread
  exact hread

theorem length_packName_le {front : List UInt8} {x : FixedString}
    (h : Reads FixedString.unpack front x) : x.pack.length ≤ 2 * front.length := by
  obtain ⟨text, htext, rfl⟩ := of_unpackName h
  have hpart : (FixedString.ofString text).string.length ≤ text.length := by
    rw [FixedString.string_ofString]
    exact (length_untilZero_le _).trans (List.length_take_le' _ _)
  have := length_packString_le htext hpart
  rw [FixedString.pack]
  omega

theorem less_trans_names (x y z : FixedString) (hxy : decide (x < y) = true)
    (hyz : decide (y < z) = true) : decide (x < z) = true := by
  have hxy := (FixedString.lt_iff_bytes x y).mp (of_decide_eq_true hxy)
  have hyz := (FixedString.lt_iff_bytes y z).mp (of_decide_eq_true hyz)
  exact decide_eq_true ((FixedString.lt_iff_bytes x z).mpr (List.lt_trans hxy hyz))

/-- `account_name_type`. A name comes back that has no bytes behind its first zero. -/
def accountName : Leaf 2 where
  Val := FixedString
  pack x := .ok x.pack
  unpack := FixedString.unpack
  less x y := x < y
  Bounded _ := True
  Faithful x := FixedString.ofString x.string = x
  reads := fun _ hx => Completes.ok (reads_name hx)
  local_unpack := local_unpackName
  bounded := fun _ => trivial
  pack_le := fun h => Returns.ok (length_packName_le h)
  less_trans := less_trans_names

/-! ### Asset symbols -/

namespace AssetSymbolType

/-- The reader of the symbol once its first four bytes are known. -/
def unpackRest (low : List UInt8) : Reader AssetSymbolType :=
  match legacy? (decodeLE low) with
  | some s => (Reader.bytes raw.readMessage 4).bind fun high =>
      (Reader.check (decodeLE (low ++ high) = s.symbolSer) "invalid asset bits").map fun _ =>
        ofCore s
  | none => Reader.pure ⟨UInt32.ofNat (decodeLE low)⟩

theorem unpackNum_eq :
    unpackNum = (Reader.bytes raw.readMessage 4).bind unpackRest := by
  funext s
  refine congrArg (Except.bind _) (funext fun front => ?_)
  obtain ⟨low, rest⟩ := front
  show _ = unpackRest low rest
  unfold unpackRest
  dsimp only
  cases legacy? (decodeLE low) with
  | none => rfl
  | some s =>
      refine congrArg (Except.bind _) (funext fun back => ?_)
      obtain ⟨high, rest⟩ := back
      dsimp only [Reader.map, Reader.bind, Reader.check]
      rw [bind_assoc]
      rfl

theorem local_unpackRest (low : List UInt8) : (unpackRest low).Local := by
  unfold unpackRest
  split
  · exact (Reader.Local.bytes _ 4).bind fun high => (Reader.Local.check _ _).map _
  · exact Reader.Local.pure _

theorem local_unpackNum : Reader.Local unpackNum := by
  rw [unpackNum_eq]
  exact (Reader.Local.bytes _ 4).bind local_unpackRest

theorem local_unpack : Reader.Local unpack := by
  intro s sym rest h
  obtain ⟨⟨sym', s'⟩, hnum, h⟩ := bind_eq_ok.mp h
  obtain ⟨u, hvalid, h⟩ := bind_eq_ok.mp h
  obtain ⟨rfl, rfl⟩ := Prod.mk.inj (pure_eq_ok.mp h)
  obtain ⟨front, rfl, hfront⟩ := local_unpackNum s sym' s' hnum
  exact ⟨front, rfl, fun more => bind_eq_ok.mpr ⟨_, hfront more, bind_eq_ok.mpr ⟨u, hvalid, rfl⟩⟩⟩

/-- Four bytes are read at least. -/
theorem four_le_of_unpack {front : List UInt8} {sym : AssetSymbolType}
    (h : Reads unpack front sym) : 4 ≤ front.length := by
  have hread := h []
  obtain ⟨⟨sym', s'⟩, hnum, -⟩ := bind_eq_ok.mp hread
  rw [unpackNum_eq] at hnum
  obtain ⟨⟨low, s''⟩, hlow, -⟩ := bind_eq_ok.mp hnum
  obtain ⟨hlength, -⟩ := ensure_bind_eq_ok.mp hlow
  rw [decide_eq_true_eq, List.append_nil] at hlength
  exact hlength

/-- What is packed are eight bytes. -/
theorem length_pack (sym : AssetSymbolType) : Returns sym.pack fun bytes => bytes.length = 8 := by
  cases hcore : sym.core? with
  | none =>
      rw [pack_of_core?_eq_none hcore]
      exact Returns.error
  | some s =>
      rw [core?_eq_some.mp hcore, pack_ofCore]
      exact Returns.ok (length_encodeLE 8 _)

end AssetSymbolType

/-- `asset_symbol_type`. Core symbols come back. -/
def assetSymbol : Leaf 2 where
  Val := AssetSymbolType
  pack := AssetSymbolType.pack
  unpack := AssetSymbolType.unpack
  less a b := a.assetNum < b.assetNum
  Bounded _ := True
  Faithful sym := ∃ s, sym = AssetSymbolType.ofCore s
  reads := by
    rintro sym - ⟨s, rfl⟩
    exact ⟨_, AssetSymbolType.pack_ofCore s, AssetSymbolType.unpack_symbolSer s⟩
  local_unpack := AssetSymbolType.local_unpack
  bounded := fun _ => trivial
  pack_le := by
    intro front sym h
    have hfour := AssetSymbolType.four_le_of_unpack h
    refine (AssetSymbolType.length_pack sym).mono fun bytes hbytes => ?_
    omega
  less_trans := fun a b c hab hbc =>
    decide_eq_true (UInt32.lt_trans (of_decide_eq_true hab) (of_decide_eq_true hbc))

/-- `GAMEBANK_SYMBOL_LEGACY_SER_1` to `GAMEBANK_SYMBOL_LEGACY_SER_5`, and `GBC_SYMBOL_SER`. -/
def legacySer : List Nat := [
  1 ||| AssetSymbol.symbolU64 .gbc <<< 8,
  2 ||| AssetSymbol.symbolU64 .gbc <<< 8,
  5 ||| AssetSymbol.symbolU64 .gbc <<< 8,
  3 ||| '0'.toNat <<< 8 ||| '.'.toNat <<< 16 ||| '0'.toNat <<< 24 ||| '0'.toNat <<< 32 |||
    '1'.toNat <<< 40,
  3 ||| '6'.toNat <<< 8 ||| '.'.toNat <<< 16 ||| '0'.toNat <<< 24 ||| '0'.toNat <<< 32 |||
    '0'.toNat <<< 40,
  AssetSymbol.symbolSer .gbc]

/-- `legacy_gamebank_asset_symbol_type`. -/
def legacySymbol : Leaf 2 where
  Val := BitVec (8 * 8)
  pack ser :=
    if ser.toNat ∈ legacySer then .ok (encodeLE 8 ser.toNat)
    else .error "Cannot serialize legacy symbol ${s}"
  unpack := (integer 8).unpack.bind fun ser =>
    (Reader.check (ser.toNat ∈ legacySer) "Cannot deserialize legacy symbol ${s}").map fun _ => ser
  less a b := a.toNat < b.toNat
  Bounded ser := ser.toNat ∈ legacySer
  Faithful _ := True
  reads := by
    intro ser hser _
    rw [if_pos hser]
    have hread : Reads (integer 8).unpack (encodeLE 8 ser.toNat) ser := by
      obtain ⟨bytes, hpack, hbytes⟩ := (integer 8).reads (a := ser) trivial trivial
      rwa [← Except.ok.inj hpack] at hbytes
    have hcheck : Reads ((Reader.check (ser.toNat ∈ legacySer)
        "Cannot deserialize legacy symbol ${s}").map fun _ => ser) [] ser :=
      (Reads.check (decide_eq_true hser)).map _
    rw [← List.append_nil (encodeLE 8 ser.toNat)]
    exact Completes.ok (hread.bind hcheck)
  local_unpack := (integer 8).local_unpack.bind fun ser => (Reader.Local.check _ _).map _
  bounded := by
    intro front ser h
    obtain ⟨ser', first, second, rfl, -, hrest⟩ := Reads.of_bind (integer 8).local_unpack
      (fun ser => (Reader.Local.check _ _).map _) h
    obtain ⟨u, hcheck, rfl⟩ := Reads.of_map (Reader.Local.check _ _) hrest
    exact of_decide_eq_true (Reads.of_check hcheck).1
  pack_le := by
    intro front ser h
    obtain ⟨ser', first, second, rfl, hfirst, -⟩ := Reads.of_bind (integer 8).local_unpack
      (fun ser => (Reader.Local.check _ _).map _) h
    have hlength := (integer 8).pack_le hfirst _ rfl
    simp only [length_encodeLE] at hlength
    split
    · refine Returns.ok ?_
      rw [length_encodeLE, List.length_append]
      omega
    · exact Returns.error
  less_trans := (integer 8).less_trans

end Gamebank.Protocol
