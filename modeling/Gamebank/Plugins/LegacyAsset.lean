import Gamebank.Lib.Checked
import Gamebank.Lib.Decimal
import Gamebank.Protocol.SymbolType

/-!
# Assets in legacy writing

`condenser_api_legacy_asset.cpp`, with what it calls of `fc`. A character
stands for a byte. Assignments to the amount wrap, as they do where the program
runs; the language leaves them undefined.
-/

namespace Gamebank.Plugins

open Gamebank.Lib Gamebank.Protocol
open Gamebank.Protocol.AssetSymbolType (isBlank)

/-- `legacy_asset`. -/
structure LegacyAsset where
  amount : Int
  symbol : AssetSymbolType
deriving DecidableEq, Repr

namespace LegacyAsset

/-! ## Texts -/

/-- What `c_str` shows of a string. -/
def cText (text : List Char) : List Char := text.takeWhile (· ≠ '\x00')

/-- `std::isspace`. -/
def isSpace (c : Char) : Bool := isBlank c || c = '\x0b' || c = '\x0c'

/-- `fc::trim`. -/
def trim (s : List Char) : List Char :=
  ((s.dropWhile isSpace).reverse.dropWhile isSpace).reverse

/-- `fc::to_string` of an `int64_t`. -/
def int64ToString (n : Int) : List Char :=
  if n < 0 then '-' :: Nat.toDigits 10 n.natAbs else Nat.toDigits 10 n.natAbs

/-- The digits that `boost::lexical_cast` reads. -/
def unsigned (digits : List Char) (limit : Nat) : Except String Nat := do
  ensure (digits ≠ [] ∧ digits.all Char.isDigit) "Couldn't parse int64_t"
  ensure (number digits ≤ limit) "Couldn't parse int64_t"
  return number digits

/-- `fc::to_int64`. -/
def toInt64 (i : List Char) : Except String Int := do
  let start := cText i
  let hasMinus := start.head? = some '-'
  let digits := if hasMinus ∨ start.head? = some '+' then start.tail else start
  if hasMinus then
    let n ← unsigned digits 9223372036854775808
    return -n
  else
    let n ← unsigned digits 9223372036854775807
    return n

/-- What an `int64_t` holds of a number. -/
def wrap (n : Int) : Int := Protocol.toInt64 (toUInt64 n)

/-! ## Symbols -/

/-- The loop over `[A-Z]`: the name and what is left. -/
def scanName (shift nameU64 : Nat) : List Char → Except String (Nat × List Char)
  | [] => .ok (nameU64, [])
  | c :: p =>
      if 'A' ≤ c ∧ c ≤ 'Z' then do
        ensure (shift < 64) "Cannot parse asset symbol"
        scanName (shift + 8) (nameU64 ||| c.toNat <<< shift) p
      else .ok (nameU64, c :: p)

/-- `switch( name_u64 )`. -/
def assetNumOfName (nameU64 decimals : Nat) : Except String AssetSymbolType :=
  if nameU64 = AssetSymbol.symbolU64 .gbc then do
    ensure (decimals = 3) "Incorrect decimal places"
    return .ofCore .gbc
  else if nameU64 = AssetSymbol.symbolU64 .gbd then do
    ensure (decimals = 3) "Incorrect decimal places"
    return .ofCore .gbd
  else if nameU64 = AssetSymbol.symbolU64 .gbs then do
    ensure (decimals = 6) "Incorrect decimal places"
    return .ofCore .gbs
  else .error "Cannot parse asset symbol"

/-- `string_to_asset_num`, of what `c_str` shows. -/
def stringToAssetNum (text : List Char) (decimals : Nat) : Except String AssetSymbolType := do
  let p := (cText text).dropWhile isBlank
  ensure (p.head?.any fun c => 'A' ≤ c ∧ c ≤ 'Z') "Cannot parse asset symbol"
  let (nameU64, p) ← scanName 0 0 p
  let assetNum ← assetNumOfName nameU64 decimals
  ensure (p.dropWhile isBlank).isEmpty "Cannot parse asset symbol"
  return assetNum

/-- `asset_num_to_string`. -/
def assetNumToString (symbol : AssetSymbolType) : List Char :=
  match symbol.core? with
  | some .gbc => ['G', 'B']
  | some .gbd => ['G', 'B', 'D']
  | some .gbs => ['G', 'B', 'P']
  | none => ['U', 'N', 'K', 'N']

/-- `table`. -/
def precisionTable : List Int := [1, 10, 100, 1000, 10000, 100000, 1000000, 10000000, 100000000,
  1000000000, 10000000000, 100000000000, 1000000000000, 10000000000000, 100000000000000]

/-- `precision`; fifteen decimals are not in the table. -/
def precision (symbol : AssetSymbolType) : Except String Int :=
  match precisionTable[symbol.decimals]? with
  | some prec => .ok prec
  | none => .error "table[ d ]"

/-! ## Assets -/

/-- `legacy_asset::to_string`. Dropping the first character drops the one that
the precision adds. -/
def toString (a : LegacyAsset) : Except String (List Char) := do
  let prec ← precision a.symbol
  let result := int64ToString (a.amount.tdiv prec)
  let result :=
    if 1 < prec then result ++ '.' :: (int64ToString (prec + a.amount.tmod prec)).drop 1
    else result
  return result ++ ' ' :: assetNumToString a.symbol

/-- `legacy_asset::from_string`. -/
def fromString (text : List Char) : Except String LegacyAsset :=
  let s := trim text
  match s.idxOf? ' ' with
  | none => .error "space_pos != std::string::npos"
  | some spacePos =>
      let strSymbol := s.drop (spacePos + 1)
      match s.idxOf? '.' with
      | some dotPos => do
          ensure (dotPos < spacePos) "space_pos > dot_pos"
          let intpart := s.take dotPos
          let fractpart := '1' :: (s.drop (dotPos + 1)).take (spacePos - dotPos - 1)
          let decimals := (fractpart.length - 1) % 256
          let symbol ← stringToAssetNum strSymbol decimals
          let prec ← precision symbol
          let amount ← toInt64 intpart
          let amount := wrap (amount * prec)
          let fract ← toInt64 fractpart
          let amount := wrap (amount + fract)
          return ⟨wrap (amount - prec), symbol⟩
      | none => do
          let amount ← toInt64 (s.take spacePos)
          let symbol ← stringToAssetNum strSymbol 0
          return ⟨amount, symbol⟩

/-! ## What the parts read -/

variable {text digits : List Char} {n a b : Int} {k limit decimals : Nat}

theorem unsigned_eq_ok : unsigned digits limit = .ok k ↔
    (digits ≠ [] ∧ Digits digits ∧ number digits ≤ limit) ∧ k = number digits := by
  simp only [unsigned, ensure_bind_eq_ok, decide_eq_true_eq, pure_eq_ok, List.all_eq_true, Digits,
    Bool.decide_and, Bool.and_eq_true, and_assoc, @eq_comm _ k]

/-- A number that `to_int64` reads: a sign or none, and digits up to the first zero byte. -/
inductive Reads (text : List Char) : Int → Prop
  | plain {digits : List Char} : cText text = digits ∨ cText text = '+' :: digits → digits ≠ [] →
      Digits digits → number digits ≤ 9223372036854775807 → Reads text (number digits)
  | minus {digits : List Char} : cText text = '-' :: digits → digits ≠ [] → Digits digits →
      number digits ≤ 9223372036854775808 → Reads text (-number digits)

theorem Reads.of_toInt64 (h : toInt64 text = .ok n) : Reads text n := by
  unfold toInt64 at h
  by_cases hminus : (cText text).head? = some '-'
  · obtain ⟨digits, hdigits⟩ := List.head?_eq_some_iff.mp hminus
    simp only [hdigits, List.head?_cons, List.tail_cons, true_or, if_true, bind_eq_ok,
      unsigned_eq_ok, pure_eq_ok] at h
    obtain ⟨k, ⟨⟨hne, hall, hle⟩, rfl⟩, rfl⟩ := h
    exact .minus hdigits hne hall hle
  · simp only [hminus, false_or, if_false, bind_eq_ok, unsigned_eq_ok, pure_eq_ok] at h
    obtain ⟨k, ⟨⟨hne, hall, hle⟩, rfl⟩, rfl⟩ := h
    by_cases hplus : (cText text).head? = some '+'
    · obtain ⟨digits, hdigits⟩ := List.head?_eq_some_iff.mp hplus
      rw [if_pos hplus, hdigits, List.tail_cons] at hne hall hle ⊢
      exact .plain (.inr hdigits) hne hall hle
    · rw [if_neg hplus] at hne hall hle ⊢
      exact .plain (.inl rfl) hne hall hle

theorem Reads.toInt64_eq (h : Reads text n) : toInt64 text = .ok n := by
  unfold toInt64
  cases h with
  | @plain digits htext hne hall hle =>
      have hunsigned := unsigned_eq_ok.mpr ⟨⟨hne, hall, hle⟩, rfl⟩
      rcases htext with htext | htext
      · have hminus := hall.head?_ne (show '-'.isDigit = false by decide)
        have hplus := hall.head?_ne (show '+'.isDigit = false by decide)
        simp only [htext, hminus, hplus, or_self, if_false, hunsigned]
        rfl
      · simp only [htext, List.head?_cons, List.tail_cons, or_true, if_true, hunsigned,
          Option.some.injEq, show ('+' : Char) ≠ '-' by decide, if_false]
        rfl
  | minus htext hne hall hle =>
      have hunsigned := unsigned_eq_ok.mpr ⟨⟨hne, hall, hle⟩, rfl⟩
      simp only [htext, List.head?_cons, List.tail_cons, true_or, if_true, hunsigned]
      rfl

/-! ### Symbols -/

theorem assetNumOfName_eq_ok {nameU64 : Nat} {symbol : AssetSymbolType}
    (h : assetNumOfName nameU64 decimals = .ok symbol) :
    ∃ s : AssetSymbol, symbol = .ofCore s ∧ decimals = s.precision := by
  unfold assetNumOfName at h
  split at h
  next =>
    simp only [ensure_bind_eq_ok, decide_eq_true_eq, pure_eq_ok] at h
    exact ⟨.gbc, h.2.symm, h.1⟩
  next =>
    split at h
    next =>
      simp only [ensure_bind_eq_ok, decide_eq_true_eq, pure_eq_ok] at h
      exact ⟨.gbd, h.2.symm, h.1⟩
    next =>
      split at h
      next =>
        simp only [ensure_bind_eq_ok, decide_eq_true_eq, pure_eq_ok] at h
        exact ⟨.gbs, h.2.symm, h.1⟩
      next => cases h

/-- A symbol is one of the three, and its decimals are those of the fraction. -/
theorem stringToAssetNum_eq_ok {symbol : AssetSymbolType}
    (h : stringToAssetNum text decimals = .ok symbol) :
    ∃ s : AssetSymbol, symbol = .ofCore s ∧ decimals = s.precision := by
  unfold stringToAssetNum at h
  obtain ⟨-, h⟩ := ensure_bind_eq_ok.mp h
  obtain ⟨name, -, h⟩ := bind_eq_ok.mp h
  obtain ⟨assetNum, hname, h⟩ := bind_eq_ok.mp h
  obtain ⟨-, h⟩ := ensure_bind_eq_ok.mp h
  rw [← pure_eq_ok.mp h]
  exact assetNumOfName_eq_ok hname

theorem precision_ofCore (s : AssetSymbol) : precision (.ofCore s) = .ok (10 ^ s.precision) := by
  cases s <;> decide

theorem assetNumOfName_symbolU64 (s : AssetSymbol) :
    assetNumOfName s.symbolU64 decimals =
      if decimals = s.precision then .ok (.ofCore s) else .error "Incorrect decimal places" := by
  have hchecked : ∀ (precision : Nat) (symbol : AssetSymbolType),
      (do ensure (decimals = precision) "Incorrect decimal places"
          return symbol : Except String AssetSymbolType) =
        if decimals = precision then .ok symbol else .error "Incorrect decimal places" := by
    intro precision symbol
    by_cases h : decimals = precision <;> simp [ensure, h, bind, Except.bind, pure, Except.pure]
  cases s with
  | gbc => rw [assetNumOfName, if_pos rfl, hchecked, AssetSymbol.precision]
  | gbd => rw [assetNumOfName, if_neg (by decide), if_pos rfl, hchecked, AssetSymbol.precision]
  | gbs =>
      rw [assetNumOfName, if_neg (by decide), if_neg (by decide), if_pos rfl, hchecked,
        AssetSymbol.precision]

/-- The three symbols as they are printed. -/
theorem stringToAssetNum_assetNumToString (s : AssetSymbol) :
    stringToAssetNum (assetNumToString (.ofCore s)) decimals =
      if decimals = s.precision then .ok (.ofCore s) else .error "Incorrect decimal places" := by
  have htext : (cText (assetNumToString (.ofCore s))).dropWhile isBlank =
      assetNumToString (.ofCore s) := by
    cases s <;> decide
  have hstart : ((assetNumToString (.ofCore s)).head?.any fun c => 'A' ≤ c ∧ c ≤ 'Z') = true := by
    cases s <;> decide
  have hscan : scanName 0 0 (assetNumToString (.ofCore s)) = .ok (s.symbolU64, []) := by
    cases s <;> decide
  simp only [stringToAssetNum, htext, hstart, hscan]
  by_cases h : decimals = s.precision <;>
    simp [assetNumOfName_symbolU64, ensure, h, bind, Except.bind, pure, Except.pure]

/-! ### Wrapping -/

theorem wrap_eq (n : Int) : ∃ k, wrap n = n + 18446744073709551616 * k ∧
    -9223372036854775808 ≤ wrap n ∧ wrap n < 9223372036854775808 := by
  refine ⟨(wrap n - n) / 18446744073709551616, ?_⟩
  unfold wrap Protocol.toInt64 toUInt64
  split <;> omega

theorem wrap_of_fits (h : -9223372036854775808 ≤ n ∧ n < 9223372036854775808) : wrap n = n := by
  obtain ⟨k, hk, hrange⟩ := wrap_eq n
  omega

/-- Only the last assignment counts. -/
theorem wrap_steps (p : Int) : wrap (wrap (wrap a + b) - p) = wrap (a + b - p) := by
  obtain ⟨k, hk, -⟩ := wrap_eq a
  obtain ⟨k', hk', -⟩ := wrap_eq (wrap a + b)
  obtain ⟨m, hm, hmrange⟩ := wrap_eq (wrap (wrap a + b) - p)
  obtain ⟨m', hm', hmrange'⟩ := wrap_eq (a + b - p)
  omega

/-! ## What `from_string` reads -/

/-- The parts of a string that `from_string` returns an asset for: the text of
the whole part, that of the fraction, and what the parts were read as. -/
structure Reading where
  whole : List Char
  fraction : List Char
  symbol : AssetSymbolType
  units : Int
  fract : Int

namespace Reading

/-- It is what `from_string` finds. -/
structure Of (text : List Char) (r : Reading) : Prop where
  noPoint : '.' ∉ r.whole
  noSpace : ' ' ∉ r.whole
  oneWord : ' ' ∉ r.fraction
  split : ∃ rest, trim text = r.whole ++ '.' :: (r.fraction ++ ' ' :: rest) ∧
    stringToAssetNum rest (r.fraction.length % 256) = .ok r.symbol
  whole : Reads r.whole r.units
  fraction : Reads ('1' :: r.fraction) r.fract

/-- The amount before it is wrapped. -/
def amount (r : Reading) : Int :=
  r.units * 10 ^ r.symbol.decimals + r.fract - 10 ^ r.symbol.decimals

end Reading

theorem idxOf?_append_cons {c : Char} {l rest : List Char} (h : c ∉ l) :
    (l ++ c :: rest).idxOf? c = some l.length := by
  induction l with
  | nil => simp [List.idxOf?_cons]
  | cons d l ih =>
      have hne : ¬d = c := fun heq => h (heq ▸ List.mem_cons_self)
      rw [List.cons_append, List.idxOf?_cons, ih fun hmem => h (List.mem_cons_of_mem d hmem)]
      simp [hne]

/-- `from_string` after it has found the point and the space. -/
theorem fromString_of_split {whole fraction rest : List Char} (hpoint : '.' ∉ whole)
    (hspace : ' ' ∉ whole) (hword : ' ' ∉ fraction)
    (h : trim text = whole ++ '.' :: (fraction ++ ' ' :: rest)) :
    fromString text = (do
      let symbol ← stringToAssetNum rest (fraction.length % 256)
      let prec ← precision symbol
      let amount ← toInt64 whole
      let fract ← toInt64 ('1' :: fraction)
      return ⟨wrap (wrap (wrap (amount * prec) + fract) - prec), symbol⟩) := by
  have hdotPos : (whole ++ '.' :: (fraction ++ ' ' :: rest)).idxOf? '.' = some whole.length :=
    idxOf?_append_cons hpoint
  have harrange : whole ++ '.' :: (fraction ++ ' ' :: rest) =
      (whole ++ '.' :: fraction) ++ ' ' :: rest := by simp
  have hspacePos : (whole ++ '.' :: (fraction ++ ' ' :: rest)).idxOf? ' ' =
      some (whole.length + 1 + fraction.length) := by
    rw [harrange, idxOf?_append_cons]
    · simp
      omega
    · simp [hspace, hword]
  have hsymbol : (whole ++ '.' :: (fraction ++ ' ' :: rest)).drop
      (whole.length + 1 + fraction.length + 1) = rest := by
    have hfront : whole ++ '.' :: (fraction ++ ' ' :: rest) =
        (whole ++ '.' :: fraction ++ [' ']) ++ rest := by simp
    rw [hfront, List.drop_left']
    simp
    omega
  have hfraction : ((whole ++ '.' :: (fraction ++ ' ' :: rest)).drop (whole.length + 1)).take
      (whole.length + 1 + fraction.length - whole.length - 1) = fraction := by
    rw [show whole.length + 1 + fraction.length - whole.length - 1 = fraction.length by omega]
    simp
  have hlt : whole.length < whole.length + 1 + fraction.length := by omega
  simp only [fromString, h, hdotPos, hspacePos, hsymbol, hfraction, hlt, List.take_left,
    List.length_cons, Nat.add_sub_cancel, decide_true]
  rfl

theorem precision_of_stringToAssetNum {symbol : AssetSymbolType}
    (h : stringToAssetNum text decimals = .ok symbol) :
    decimals = symbol.decimals ∧ precision symbol = .ok (10 ^ symbol.decimals) := by
  obtain ⟨s, rfl, rfl⟩ := stringToAssetNum_eq_ok h
  have hdecimals : (AssetSymbolType.ofCore s).decimals = s.precision := by cases s <;> decide
  rw [hdecimals]
  exact ⟨rfl, precision_ofCore s⟩

/-- No symbol has no decimals, so a number without a point is not read. -/
theorem stringToAssetNum_zero (symbol : AssetSymbolType) :
    stringToAssetNum text 0 ≠ .ok symbol := by
  intro h
  obtain ⟨s, -, hzero⟩ := stringToAssetNum_eq_ok h
  cases s <;> cases hzero

theorem fromString_of_noPoint {front rest : List Char} {a : LegacyAsset} (hword : ' ' ∉ front)
    (hpoint : '.' ∉ front) (h : trim text = front ++ ' ' :: rest) : fromString text ≠ .ok a := by
  intro hok
  have hspacePos : (front ++ ' ' :: rest).idxOf? ' ' = some front.length :=
    idxOf?_append_cons hword
  simp only [fromString, h, hspacePos] at hok
  by_cases hrest : '.' ∈ rest
  · -- the point stands behind the space
    obtain ⟨middle, tail, rfl, hnot⟩ := List.eq_append_cons_of_mem hrest
    have harrange : front ++ ' ' :: (middle ++ '.' :: tail) =
        (front ++ ' ' :: middle) ++ '.' :: tail := by simp
    rw [harrange, idxOf?_append_cons (by simp [hpoint, hnot])] at hok
    have hlt := (ensure_bind_eq_ok.mp hok).1
    simp at hlt
  · have hnone : (front ++ ' ' :: rest).idxOf? '.' = none := by
      rw [List.idxOf?_eq_none_iff]
      simp [hpoint, hrest]
    rw [hnone] at hok
    obtain ⟨amount, -, hok⟩ := bind_eq_ok.mp hok
    obtain ⟨symbol, hsymbol, -⟩ := bind_eq_ok.mp hok
    exact stringToAssetNum_zero symbol hsymbol

/-- What `from_string` returns, and when it returns. -/
theorem fromString_eq_ok {a : LegacyAsset} : fromString text = .ok a ↔
    ∃ r : Reading, r.Of text ∧ a = ⟨wrap r.amount, r.symbol⟩ := by
  constructor
  · intro h
    by_cases hspace : ' ' ∈ trim text
    · obtain ⟨front, rest, hfront, hword⟩ := List.eq_append_cons_of_mem hspace
      by_cases hpoint : '.' ∈ front
      · obtain ⟨whole, fraction, rfl, hnot⟩ := List.eq_append_cons_of_mem hpoint
        have hsplit : trim text = whole ++ '.' :: (fraction ++ ' ' :: rest) := by
          rw [hfront]
          simp
        simp only [List.mem_append, List.mem_cons, not_or] at hword
        rw [fromString_of_split hnot hword.1 hword.2.2 hsplit] at h
        obtain ⟨symbol, hsymbol, h⟩ := bind_eq_ok.mp h
        obtain ⟨prec, hprec, h⟩ := bind_eq_ok.mp h
        obtain ⟨units, hunits, h⟩ := bind_eq_ok.mp h
        obtain ⟨fract, hfract, h⟩ := bind_eq_ok.mp h
        rw [(precision_of_stringToAssetNum hsymbol).2, Except.ok.injEq] at hprec
        refine ⟨⟨whole, fraction, symbol, units, fract⟩, ⟨hnot, hword.1, hword.2.2,
          ⟨rest, hsplit, hsymbol⟩, .of_toInt64 hunits, .of_toInt64 hfract⟩, ?_⟩
        rw [← pure_eq_ok.mp h, wrap_steps, ← hprec]
        rfl
      · exact absurd h (fromString_of_noPoint hword hpoint hfront)
    -- without a space the source throws before it reads a number
    · exfalso
      unfold fromString at h
      simp only [List.idxOf?_eq_none_iff.mpr hspace] at h
      cases h
  · rintro ⟨r, hr, rfl⟩
    obtain ⟨rest, hsplit, hsymbol⟩ := hr.split
    rw [fromString_of_split hr.noPoint hr.noSpace hr.oneWord hsplit, hsymbol, hr.whole.toInt64_eq,
      hr.fraction.toInt64_eq]
    show (precision r.symbol >>= fun prec => _) = _
    rw [(precision_of_stringToAssetNum hsymbol).2]
    show Except.ok _ = _
    rw [wrap_steps]
    rfl

end LegacyAsset

end Gamebank.Plugins
