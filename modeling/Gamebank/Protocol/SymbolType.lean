import Gamebank.Lib.ByteStream
import Gamebank.Protocol.Asset

/-!
# Asset symbols

`asset_symbol_type`: a number of 32 bits. Three numbers are the core symbols,
which are packed in eight bytes; the others hold an identifier of up to eight
digits (a "NAI") and the decimals, and are read in four. In JSON a symbol is
meant to be the pair of its decimals and the identifier with a check digit.
-/

namespace Gamebank.Protocol

open Gamebank.Lib

/-! ## The core symbols -/

namespace AssetSymbol

/-- `GAMEBANK_NAI_GBD` and the others. -/
def naiData : AssetSymbol → Nat
  | .gbd => 1
  | .gbc => 2
  | .gbs => 3

/-- `GAMEBANK_PRECISION_GBD` and the others. -/
def precision : AssetSymbol → Nat
  | .gbd => 3
  | .gbc => 3
  | .gbs => 6

/-- `GBD_SYMBOL_U64` and the others. -/
def symbolU64 : AssetSymbol → Nat
  | .gbs => 'G'.toNat ||| 'B'.toNat <<< 8 ||| 'P'.toNat <<< 16
  | .gbc => 'G'.toNat ||| 'B'.toNat <<< 8
  | .gbd => 'G'.toNat ||| 'B'.toNat <<< 8 ||| 'D'.toNat <<< 16

/-- `GBD_SYMBOL_SER` and the others. -/
def symbolSer (s : AssetSymbol) : Nat := s.precision ||| s.symbolU64 <<< 8

end AssetSymbol

/-- `GB_MIN_NAI` -/
def minNai : Nat := 1

/-- `GB_MAX_NAI` -/
def maxNai : Nat := 99999999

/-- `GAMEBANK_ASSET_MAX_DECIMALS` -/
def assetMaxDecimals : Nat := 12

/-- `asset_symbol_type`. -/
structure AssetSymbolType where
  assetNum : UInt32
deriving DecidableEq, Repr

namespace AssetSymbolType

/-- The number of a core symbol, `GAMEBANK_ASSET_NUM_GBD` and the others. -/
def ofCore (s : AssetSymbol) : AssetSymbolType :=
  ⟨UInt32.ofNat ((maxNai + s.naiData) <<< 4 ||| s.precision)⟩

/-- It is the number by which assets are ordered. -/
theorem ofCore_assetNum (s : AssetSymbol) : (ofCore s).assetNum.toNat = s.assetNum := by
  cases s <;> rfl

theorem ofCore_injective {s s' : AssetSymbol} (h : ofCore s = ofCore s') : s = s' := by
  have hnum := congrArg (fun sym => sym.assetNum.toNat) h
  simp only [ofCore_assetNum] at hnum
  cases s <;> cases s' <;> simp_all [AssetSymbol.assetNum]

/-- The case of the core symbols that the switches on `asset_num` take; `none`
is the default. -/
def core? (sym : AssetSymbolType) : Option AssetSymbol :=
  if sym = ofCore .gbc then some .gbc
  else if sym = ofCore .gbd then some .gbd
  else if sym = ofCore .gbs then some .gbs
  else none

@[simp] theorem core?_ofCore (s : AssetSymbol) : (ofCore s).core? = some s := by
  cases s <;> rfl

theorem core?_eq_some {sym : AssetSymbolType} {s : AssetSymbol} :
    sym.core? = some s ↔ sym = ofCore s := by
  constructor
  · intro h
    unfold core? at h
    split at h
    next hsym => rw [hsym, Option.some.inj h]
    next =>
      split at h
      next hsym => rw [hsym, Option.some.inj h]
      next =>
        split at h
        next hsym => rw [hsym, Option.some.inj h]
        next => cases h
  · rintro rfl
    exact core?_ofCore s

/-- `asset_symbol_space`. -/
inductive AssetSymbolSpace where
  | legacySpace

def space (sym : AssetSymbolType) : Except String AssetSymbolSpace :=
  match sym.core? with
  | some _ => .ok .legacySpace
  | none => .error "Unknown space"

def decimals (sym : AssetSymbolType) : Nat := (sym.assetNum &&& 0x0F).toNat

/-- The identifier, the bit that marks it and the decimals. -/
def validNai (sym : AssetSymbolType) : Bool :=
  let naiDataDigits := (sym.assetNum >>> 5).toNat
  let nai1bit := sym.assetNum &&& 0x10
  minNai ≤ naiDataDigits ∧ naiDataDigits ≤ maxNai ∧ nai1bit = 0x10 ∧
    sym.decimals ≤ assetMaxDecimals

/-- `asset_symbol_type::validate`. -/
def validate (sym : AssetSymbolType) : Except String Unit :=
  match sym.core? with
  | some _ => .ok ()
  | none => ensure sym.validNai "Cannot determine space for asset ${n}"

/-! ## Bytes -/

/-- `datastream::read`. -/
def read (n : Nat) (bytes : List UInt8) : Except String (List UInt8 × List UInt8) := do
  ensure (n ≤ bytes.length) "read datastream of length ${len} over by ${over}"
  return (bytes.take n, bytes.drop n)

def pack (sym : AssetSymbolType) : Except String (List UInt8) := do
  let .legacySpace ← sym.space
  match sym.core? with
  | some s => return encodeLE 8 s.symbolSer
  | none => .error "Cannot serialize unknown asset symbol"

/-- The case that the first four bytes select. -/
def legacy? (ser : Nat) : Option AssetSymbol :=
  if ser = AssetSymbol.symbolSer .gbc % 4294967296 then some .gbc
  else if ser = AssetSymbol.symbolSer .gbd % 4294967296 then some .gbd
  else if ser = AssetSymbol.symbolSer .gbs % 4294967296 then some .gbs
  else none

/-- The symbol that is read, before it is validated. -/
def unpackNum (bytes : List UInt8) : Except String (AssetSymbolType × List UInt8) := do
  let (low, rest) ← read 4 bytes
  match legacy? (decodeLE low) with
  | some s => do
      let (high, rest) ← read 4 rest
      ensure (decodeLE (low ++ high) = s.symbolSer) "invalid asset bits"
      return (ofCore s, rest)
  | none => return (⟨UInt32.ofNat (decodeLE low)⟩, rest)

def unpack (bytes : List UInt8) : Except String (AssetSymbolType × List UInt8) := do
  let (sym, rest) ← unpackNum bytes
  sym.validate
  return (sym, rest)

/-! ## Identifiers with a check digit -/

/-- `t` of `damm_checksum_8digit`, ten times the table of the algorithm. -/
def dammTable : List Nat := [
   0, 30, 10, 70, 50, 90, 80, 60, 40, 20,
  70,  0, 90, 20, 10, 50, 40, 80, 60, 30,
  40, 20,  0, 60, 80, 70, 10, 30, 50, 90,
  10, 70, 50,  0, 90, 80, 30, 40, 20, 60,
  60, 10, 20, 30,  0, 40, 50, 90, 70, 80,
  30, 60, 70, 40, 20,  0, 90, 50, 80, 10,
  50, 80, 60, 90, 70, 20,  0, 10, 30, 40,
  80, 90, 40, 50, 30, 60, 20,  0, 10, 70,
  90, 40, 30, 80, 60, 10, 70, 20,  0, 50,
  20, 50, 80, 10, 40, 30, 60, 70, 90,  0]

/-- The `n` digits of a number, the first one first. -/
def digits : Nat → Nat → List Nat
  | 0, _ => []
  | n + 1, value => digits n (value / 10) ++ [value % 10]

/-- `damm_checksum_8digit`. -/
def dammChecksum8digit (value : Nat) : Except String Nat := do
  ensure (value < 100000000) "value < 100000000"
  let x := (digits 8 value).foldl (fun x d => dammTable.getD (x + d) 0) 0
  return x / 10

/-- The case of the core symbols that `asset_num_from_nai` takes. -/
def coreOfNai? (naiDataDigits : Nat) : Option AssetSymbol :=
  if naiDataDigits = AssetSymbol.naiData .gbc then some .gbc
  else if naiDataDigits = AssetSymbol.naiData .gbd then some .gbd
  else if naiDataDigits = AssetSymbol.naiData .gbs then some .gbs
  else none

/-- `asset_num_from_nai`. -/
def assetNumFromNai (nai decimalPlaces : Nat) : Except String AssetSymbolType := do
  let naiCheckDigit := nai % 10
  let naiDataDigits := nai / 10
  ensure (minNai ≤ naiDataDigits ∧ naiDataDigits ≤ maxNai) "NAI out of range"
  let checksum ← dammChecksum8digit naiDataDigits
  ensure (naiCheckDigit = checksum) "Invalid check digit"
  match coreOfNai? naiDataDigits with
  | some s => do
      ensure (decimalPlaces = s.precision) "decimal_places == GAMEBANK_PRECISION"
      return ofCore s
  | none => do
      ensure (decimalPlaces ≤ assetMaxDecimals) "Invalid decimal_places"
      return ⟨UInt32.ofNat (naiDataDigits <<< 5 ||| 0x10 ||| decimalPlaces)⟩

/-- `to_nai`; only the core symbols have one. -/
def toNai (sym : AssetSymbolType) : Except String Nat :=
  match sym.core? with
  | some s => do
      let naiCheckDigit ← dammChecksum8digit s.naiData
      return s.naiData * 10 + naiCheckDigit
  | none => .error "false"

def digitChar (d : Nat) : Char := Char.ofNat (d + '0'.toNat)

/-- `to_nai_string`: eight digits, and what is left in front of them. -/
def toNaiString (sym : AssetSymbolType) : Except String (List Char) := do
  let x ← sym.toNai
  return '@' :: '@' :: digitChar (x / 100000000) :: (digits 8 x).map digitChar

def isBlank (c : Char) : Bool := c = ' ' ∨ c = '\t' ∨ c = '\n' ∨ c = '\r'

/-- The loop over the digits: the number, how many there were, and what follows. -/
def readDigits (nai digitCount : Nat) : List Char → Except String (Nat × Nat × List Char)
  | [] => .ok (nai, digitCount, [])
  | c :: rest =>
      if c.isDigit then do
        let newNai := nai * 10 + (c.toNat - '0'.toNat)
        ensure (nai ≤ newNai) "Cannot parse asset amount"
        ensure (newNai ≤ maxNai) "Cannot parse asset amount"
        readDigits newNai (digitCount + 1) rest
      else .ok (nai, digitCount, c :: rest)

/-- `from_nai_string`, on the characters before the first zero. -/
def fromNaiString (p : List Char) (decimalPlaces : Nat) : Except String AssetSymbolType :=
  match p.dropWhile isBlank with
  | '@' :: '@' :: p => do
      let (nai, digitCount, p) ← readDigits 0 0 p
      ensure (digitCount = 9) "digit_count == 9"
      let sym ← assetNumFromNai nai decimalPlaces
      ensure (p.all isBlank) "Cannot parse asset symbol"
      return sym
  | _ => .error "Cannot parse asset symbol"

/-! ## Variants -/

/-- `fc::variant`, without fractions and blobs. -/
inductive Variant where
  | null
  | int64 (n : Int)
  | uint64 (n : Nat)
  | bool (b : Bool)
  | string (text : List Char)
  | array (elements : List Variant)
  | object (entries : List (List Char × Variant))

namespace Variant

def getArray : Variant → Except String (List Variant)
  | array elements => .ok elements
  | _ => .error "Invalid cast from ${type} to Array"

/-- `as_uint64`; `toUint64` reads a number from a string. -/
def asUint64 (toUint64 : List Char → Except String Nat) : Variant → Except String Nat
  | string text => toUint64 text
  | int64 n => .ok (toUInt64 n).toNat
  | uint64 n => .ok n
  | bool b => .ok b.toNat
  | null => .ok 0
  | _ => .error "Invalid cast from ${type} to uint64"

def asString : Variant → Except String (List Char)
  | string text => .ok text
  | int64 n => .ok (toString n).toList
  | uint64 n => .ok (toString n).toList
  | bool b => .ok (toString b).toList
  | null => .ok []
  | _ => .error "Invalid cast from ${type} to string"

end Variant

/-- `to_variant`: what `var` is afterwards. -/
def toVariant (sym : AssetSymbolType) (var : Variant) : Except String Variant := do
  let text ← sym.toNaiString
  -- the pair is a local variable, which nothing reads
  let _v : List Variant := [.uint64 sym.decimals, .string text]
  return var

/-- `from_variant`. -/
def fromVariant (toUint64 : List Char → Except String Nat) (var : Variant) :
    Except String AssetSymbolType := do
  match ← var.getArray with
  | [v0, v1] => do
      let text ← v1.asString
      let decimalPlaces ← v0.asUint64 toUint64
      fromNaiString (text.takeWhile (· ≠ '\x00')) (decimalPlaces % 256)
  | _ => .error "Expected tuple of length 2."

/-! ## What is read back -/

theorem read_append {n : Nat} {low : List UInt8} (h : low.length = n) (rest : List UInt8) :
    read n (low ++ rest) = .ok (low, rest) := by
  subst h
  simp [read, ensure, bind, Except.bind, pure, Except.pure]

theorem validate_ofCore (s : AssetSymbol) : (ofCore s).validate = .ok () := by
  simp [validate]

/-- What `unpack` returns is valid. -/
theorem unpack_valid (bytes : List UInt8) :
    Returns (unpack bytes) fun r => r.1.validate = .ok () := by
  intro r h
  obtain ⟨⟨sym, rest⟩, -, h⟩ := bind_eq_ok.mp h
  obtain ⟨⟨⟩, hvalid, h⟩ := bind_eq_ok.mp h
  rw [← pure_eq_ok.mp h]
  exact hvalid

/-- A core symbol is packed in eight bytes, which are read back. -/
theorem pack_ofCore (s : AssetSymbol) : (ofCore s).pack = .ok (encodeLE 8 s.symbolSer) := by
  simp [pack, space, bind, Except.bind, pure, Except.pure]

theorem unpack_symbolSer (s : AssetSymbol) (rest : List UInt8) :
    unpack (encodeLE 8 s.symbolSer ++ rest) = .ok (ofCore s, rest) := by
  have hsplit : encodeLE 8 s.symbolSer =
      encodeLE 4 s.symbolSer ++ encodeLE 4 (s.symbolSer / 4294967296) := by
    cases s <;> rfl
  have hlegacy : legacy? (decodeLE (encodeLE 4 s.symbolSer)) = some s := by
    cases s <;> rfl
  have hser : decodeLE (encodeLE 4 s.symbolSer ++ encodeLE 4 (s.symbolSer / 4294967296)) =
      s.symbolSer := by
    cases s <;> rfl
  have hnum : unpackNum (encodeLE 8 s.symbolSer ++ rest) = .ok (ofCore s, rest) := by
    rw [hsplit, List.append_assoc, unpackNum, read_append (length_encodeLE 4 _)]
    simp only [bind, Except.bind, hlegacy, read_append (length_encodeLE 4 _), hser]
    rfl
  rw [unpack, hnum]
  simp [bind, Except.bind, validate_ofCore, pure, Except.pure]

/-- The first bytes of a core symbol are no valid number. -/
theorem legacy?_eq_none {sym : AssetSymbolType} (h : sym.validNai = true) :
    legacy? sym.assetNum.toNat = none := by
  have hser : ∀ s : AssetSymbol, sym.assetNum.toNat ≠ s.symbolSer % 4294967296 := by
    intro s hnum
    have hsym : sym = ⟨UInt32.ofNat (s.symbolSer % 4294967296)⟩ := by
      rw [← hnum, UInt32.ofNat_toNat]
    rw [hsym] at h
    cases s <;> exact absurd h (by decide)
  simp [legacy?, hser]

/-- Any other valid symbol is read from its four bytes. -/
theorem unpack_assetNum {sym : AssetSymbolType} (hcore : sym.core? = none)
    (h : sym.validate = .ok ()) (rest : List UInt8) :
    unpack (encodeLE 4 sym.assetNum.toNat ++ rest) = .ok (sym, rest) := by
  have hvalid : sym.validNai = true := by
    rw [validate, hcore] at h
    exact ensure_eq_ok.mp h
  have hnum : decodeLE (encodeLE 4 sym.assetNum.toNat) = sym.assetNum.toNat :=
    decodeLE_encodeLE sym.assetNum.toNat_lt
  have hread : unpackNum (encodeLE 4 sym.assetNum.toNat ++ rest) = .ok (sym, rest) := by
    rw [unpackNum, read_append (length_encodeLE 4 _)]
    simp [bind, Except.bind, hnum, legacy?_eq_none hvalid, pure, Except.pure]
  rw [unpack, hread]
  simp [bind, Except.bind, h, pure, Except.pure]

theorem pack_of_core?_eq_none {sym : AssetSymbolType} (h : sym.core? = none) :
    sym.pack = .error "Unknown space" := by
  simp [pack, space, h, bind, Except.bind]

/-! ### Identifiers -/

theorem digits_succ (n value : Nat) :
    digits (n + 1) value = value / 10 ^ n % 10 :: digits n value := by
  induction n generalizing value with
  | zero => simp [digits]
  | succ n ih =>
      rw [digits, ih, digits, List.cons_append, Nat.div_div_eq_div_mul, ← Nat.pow_succ']

theorem digitChar_digit : ∀ d < 10,
    (digitChar d).isDigit = true ∧ (digitChar d).toNat - '0'.toNat = d := by
  decide

/-- The loop over the digits of a number that is small enough. -/
theorem readDigits_digits (n value : Nat) {nai : Nat} (count : Nat) (rest : List Char)
    (hvalue : value < 10 ^ n) (h : nai * 10 ^ n + value ≤ maxNai) :
    readDigits nai count ((digits n value).map digitChar ++ rest) =
      readDigits (nai * 10 ^ n + value) (count + n) rest := by
  induction n generalizing value rest with
  | zero =>
      obtain rfl : value = 0 := by simpa using hvalue
      simp [digits]
  | succ n ih =>
      have hpow : nai * 10 ^ (n + 1) = nai * 10 ^ n * 10 := by
        rw [Nat.pow_succ, Nat.mul_assoc]
      rw [hpow] at h ⊢
      have hnext : (nai * 10 ^ n + value / 10) * 10 + value % 10 = nai * 10 ^ n * 10 + value := by
        omega
      have hfirst := ih (value / 10) (digitChar (value % 10) :: rest)
        (by rw [Nat.pow_succ] at hvalue; omega) (by omega)
      obtain ⟨hdigit, hval⟩ := digitChar_digit (value % 10) (Nat.mod_lt _ (by decide))
      rw [digits, List.map_append, List.append_assoc, List.map_singleton, List.singleton_append,
        hfirst, readDigits, if_pos hdigit, hval, hnext]
      have hmono : nai * 10 ^ n + value / 10 ≤ nai * 10 ^ n * 10 + value := by omega
      simp [ensure, hmono, h, bind, Except.bind, Nat.add_assoc]

/-- The nine digits of an identifier are read as that identifier. -/
theorem fromNaiString_digits {nai : Nat} (h : nai ≤ maxNai) (decimalPlaces : Nat) :
    fromNaiString ('@' :: '@' :: digitChar (nai / 100000000) :: (digits 8 nai).map digitChar)
      decimalPlaces = assetNumFromNai nai decimalPlaces := by
  have hfits : nai < 10 ^ 9 := by
    rw [maxNai] at h
    omega
  have hnine : digitChar (nai / 100000000) :: (digits 8 nai).map digitChar =
      (digits 9 nai).map digitChar := by
    have hfirst : nai / 10 ^ 8 % 10 = nai / 100000000 := by omega
    rw [digits_succ 8, List.map_cons, hfirst]
  have hread : readDigits 0 0 ((digits 9 nai).map digitChar) = .ok (nai, 9, []) := by
    have hloop := readDigits_digits 9 nai 0 [] hfits (by rw [Nat.zero_mul, Nat.zero_add]; exact h)
    simpa [readDigits] using hloop
  have hblank : ∀ p, ('@' :: p).dropWhile isBlank = '@' :: p := fun _ => rfl
  rw [hnine, fromNaiString, hblank]
  simp only [hread, bind, Except.bind, ensure, decide_true, if_true]
  cases assetNumFromNai nai decimalPlaces with
  | error e => rfl
  | ok sym => rfl

theorem toNai_le (sym : AssetSymbolType) : Returns sym.toNai fun nai => nai ≤ maxNai := by
  intro nai h
  unfold toNai at h
  cases hcore : sym.core? with
  | none => simp [hcore] at h
  | some s =>
      rw [hcore] at h
      cases s <;> cases h <;> decide

/-- The pair that `to_variant` builds would be read as the same symbol. -/
theorem fromNaiString_toNaiString (sym : AssetSymbolType) :
    Returns sym.toNaiString fun text => fromNaiString text sym.decimals = .ok sym := by
  intro text h
  obtain ⟨nai, hnai, htext⟩ := bind_eq_ok.mp h
  rw [← pure_eq_ok.mp htext, fromNaiString_digits (toNai_le sym nai hnai)]
  unfold toNai at hnai
  cases hcore : sym.core? with
  | none => simp [hcore] at hnai
  | some s =>
      rw [hcore] at hnai
      rw [core?_eq_some.mp hcore]
      cases s <;> cases hnai <;> rfl

/-! ## Round trips -/

/-- The symbol is packed, and unpacked as itself. -/
def PackRoundTrips (sym : AssetSymbolType) : Prop :=
  ∃ bytes, sym.pack = .ok bytes ∧ ∀ rest, unpack (bytes ++ rest) = .ok (sym, rest)

/-- The symbol is read back from the variant that is made of it. -/
def VariantRoundTrips (toUint64 : List Char → Except String Nat) (sym : AssetSymbolType) : Prop :=
  ∃ var, sym.toVariant .null = .ok var ∧ fromVariant toUint64 var = .ok sym

/-- Both, as for every symbol that `validate` accepts. -/
structure RoundTrips (toUint64 : List Char → Except String Nat) (sym : AssetSymbolType) :
    Prop where
  pack : sym.PackRoundTrips
  variant : sym.VariantRoundTrips toUint64

/-- `to_variant` leaves a new variant as it was. -/
theorem toVariant_eq (sym : AssetSymbolType) (var : Variant) :
    Returns (sym.toVariant var) fun var' => var' = var := by
  intro var' h
  obtain ⟨text, -, h⟩ := bind_eq_ok.mp h
  exact (pure_eq_ok.mp h).symm

theorem not_variantRoundTrips (toUint64 : List Char → Except String Nat) (sym : AssetSymbolType) :
    ¬sym.VariantRoundTrips toUint64 := by
  rintro ⟨var, hto, hfrom⟩
  rw [toVariant_eq sym .null var hto] at hfrom
  cases hfrom

/-- The bytes round-trip for the core symbols only. -/
theorem packRoundTrips_iff (sym : AssetSymbolType) :
    sym.PackRoundTrips ↔ ∃ s, sym = ofCore s := by
  constructor
  · rintro ⟨bytes, hpack, -⟩
    cases hcore : sym.core? with
    | none => simp [pack_of_core?_eq_none hcore] at hpack
    | some s => exact ⟨s, core?_eq_some.mp hcore⟩
  · rintro ⟨s, rfl⟩
    exact ⟨_, pack_ofCore s, unpack_symbolSer s⟩

/-- **Round trips**: no symbol comes back from its variant; the bytes of a valid
symbol come back if and only if it is a core symbol, and every other valid
symbol is one that `unpack` returns and `pack` refuses. -/
theorem symbol_round_trips (toUint64 : List Char → Except String Nat) (sym : AssetSymbolType)
    (h : sym.validate = .ok ()) :
    ¬sym.RoundTrips toUint64 ∧ ¬sym.VariantRoundTrips toUint64 ∧
      (sym.PackRoundTrips ↔ ∃ s, sym = ofCore s) ∧
      ((∀ s, sym ≠ ofCore s) → sym.pack = .error "Unknown space" ∧
        ∀ rest, unpack (encodeLE 4 sym.assetNum.toNat ++ rest) = .ok (sym, rest)) := by
  have hvariant := not_variantRoundTrips toUint64 sym
  refine ⟨fun hboth => hvariant hboth.variant, hvariant, packRoundTrips_iff sym, ?_⟩
  intro hother
  have hcore : sym.core? = none := by
    rw [Option.eq_none_iff_forall_ne_some]
    intro s hs
    exact hother s (core?_eq_some.mp hs)
  exact ⟨pack_of_core?_eq_none hcore, unpack_assetNum hcore h⟩

/-- The identifier 10000000 with three decimals. -/
def tokenSymbol : AssetSymbolType := ⟨(10000000 : UInt32) <<< 5 ||| 0x10 ||| 3⟩

theorem symbol_round_trips_token :
    tokenSymbol.pack = .error "Unknown space" ∧
    ∀ rest, unpack ([19, 208, 18, 19] ++ rest) = .ok (tokenSymbol, rest) := by
  have hother : ∀ s, tokenSymbol ≠ ofCore s := by
    intro s
    cases s <;> decide
  exact (symbol_round_trips (fun _ => .ok 0) tokenSymbol rfl).2.2.2 hother

/-- A valid symbol that does not come back either way. -/
theorem token_round_trip_fails :
    tokenSymbol.validate = .ok () ∧ ¬tokenSymbol.PackRoundTrips ∧
      ¬tokenSymbol.RoundTrips fun _ => .ok 0 := by
  have hpack : ¬tokenSymbol.PackRoundTrips := by
    rintro ⟨bytes, hpack, -⟩
    cases hpack
  exact ⟨rfl, hpack, fun h => hpack h.pack⟩

end AssetSymbolType

end Gamebank.Protocol
