import Mathlib.Data.List.Basic
import Mathlib.Data.List.TakeWhile
import Mathlib.Tactic.FieldSimp
import Mathlib.Tactic.Linarith
import Gamebank.Plugins.LegacyAsset

/-!
# Which legacy assets are read as they are written

The fraction is added to the whole part whatever the sign, a zero byte ends the
text of a number, and the amount wraps. What `from_string` returns is what is
written exactly if none of this makes a difference. What `to_string` prints is
read back unless the amount is negative and has a fraction.
-/

namespace Gamebank.Plugins.LegacyAsset

open Gamebank.Lib Gamebank.Protocol

/-! ## What is written -/

/-- The text of the number: what stands before the first space. -/
def numberText (text : List Char) : List Char := (trim text).takeWhile (· ≠ ' ')

/-- If `from_string` returns an asset, its amount is the number that is written
times the precision. -/
def Exact (text : List Char) : Prop :=
  ∀ a, fromString text = .ok a → ∃ v prec, Writes (numberText text) v ∧
    precision a.symbol = .ok prec ∧ (a.amount : ℚ) = v * prec

/-- Neither a zero byte nor the sign nor the size of the amount matters. -/
structure Reading.Sound (r : Reading) : Prop where
  noZero : '\x00' ∉ r.whole ∧ '\x00' ∉ r.fraction
  sign : r.whole.head? = some '-' → ∀ c ∈ r.fraction, c = '0'
  fits : -9223372036854775808 ≤ r.amount ∧ r.amount < 9223372036854775808

variable {text : List Char} {r : Reading} {v : ℚ}

theorem Reading.Of.numberText_eq (h : r.Of text) :
    numberText text = r.whole ++ '.' :: r.fraction := by
  obtain ⟨rest, hsplit, -⟩ := h.split
  have harrange : r.whole ++ '.' :: (r.fraction ++ ' ' :: rest) =
      (r.whole ++ '.' :: r.fraction) ++ ' ' :: rest := by simp
  have hnone : ∀ c ∈ r.whole ++ '.' :: r.fraction, decide (c ≠ ' ') = true := by
    intro c hc
    rw [decide_eq_true_eq]
    rintro rfl
    simp [h.noSpace, h.oneWord] at hc
  rw [numberText, hsplit, harrange, List.takeWhile_append_of_pos hnone]
  simp

theorem cText_of_not_mem {text : List Char} (h : '\x00' ∉ text) : cText text = text := by
  rw [cText, List.takeWhile_eq_self_iff]
  intro c hc
  rw [decide_eq_true_eq]
  rintro rfl
  exact h hc

/-- The digits of the fraction, behind the one that is put in front. -/
theorem Reads.fraction {fraction : List Char} {n : Int} (h : Reads ('1' :: fraction) n)
    (hzero : '\x00' ∉ fraction) :
    Digits fraction ∧ n = 10 ^ fraction.length + number fraction ∧ fraction.length ≤ 18 := by
  have htext : cText ('1' :: fraction) = '1' :: fraction :=
    cText_of_not_mem (by simp [hzero])
  cases h with
  | @plain digits hdigits hne hall hle =>
      rw [htext] at hdigits
      rcases hdigits with hdigits | hdigits
      · subst hdigits
        rw [number_one_cons] at hle ⊢
        refine ⟨fun c hc => hall c (List.mem_cons_of_mem _ hc), by push_cast; rfl, ?_⟩
        by_contra hlong
        have hpow : 10 ^ 19 ≤ 10 ^ fraction.length := Nat.pow_le_pow_right (by decide) (by omega)
        omega
      · cases hdigits
  | minus hdigits hne hall hle =>
      rw [htext] at hdigits
      cases hdigits

/-- The whole part of a number that is read to its end. -/
theorem Reads.whole {whole : List Char} {n : Int} (h : Reads whole n) (hzero : '\x00' ∉ whole) :
    ∃ digits, Digits digits ∧ digits ≠ [] ∧
      ((whole = '-' :: digits ∧ n = -number digits) ∨
        ((whole = digits ∨ whole = '+' :: digits) ∧ n = number digits)) := by
  have htext := cText_of_not_mem hzero
  cases h with
  | @plain digits hdigits hne hall hle => exact ⟨digits, hall, hne, .inr ⟨htext ▸ hdigits, rfl⟩⟩
  | @minus digits hdigits hne hall hle => exact ⟨digits, hall, hne, .inl ⟨htext ▸ hdigits, rfl⟩⟩

namespace Reading

/-- What is added twice to a negative number. -/
def slip (r : Reading) : Int := if r.whole.head? = some '-' then 2 * number r.fraction else 0

theorem Of.decimals_eq (h : r.Of text) (hshort : r.fraction.length ≤ 18) :
    r.symbol.decimals = r.fraction.length ∧
      precision r.symbol = .ok (10 ^ r.fraction.length) := by
  obtain ⟨rest, -, hsymbol⟩ := h.split
  obtain ⟨hdecimals, hprec⟩ := precision_of_stringToAssetNum hsymbol
  rw [Nat.mod_eq_of_lt (by omega)] at hdecimals
  exact ⟨hdecimals.symm, hdecimals ▸ hprec⟩

/-- A number without a zero byte is a number in writing. -/
theorem Of.written (h : r.Of text) (hzero : '\x00' ∉ r.whole ∧ '\x00' ∉ r.fraction) :
    ∃ v : ℚ, Writes (numberText text) v ∧
      v * (10 ^ r.fraction.length : Int) = (r.amount - r.slip : Int) := by
  obtain ⟨hfraction, hfract, hshort⟩ := h.fraction.fraction hzero.2
  obtain ⟨digits, hdigits, hne, hwhole⟩ := h.whole.whole hzero.1
  have hpoint := WritesUnsigned.point hdigits hne hfraction
  have hpow : (10 ^ r.fraction.length : ℚ) ≠ 0 := by positivity
  rw [h.numberText_eq, amount, (h.decimals_eq hshort).1, hfract]
  rcases hwhole with ⟨hwhole, hunits⟩ | ⟨hwhole, hunits⟩
  · refine ⟨_, by rw [hwhole, List.cons_append]; exact .minus hpoint, ?_⟩
    rw [slip, hunits, if_pos (by rw [hwhole]; rfl)]
    push_cast
    field_simp
    ring
  · have hsign : r.whole.head? ≠ some '-' := by
      rcases hwhole with hwhole | hwhole
      · rw [hwhole]
        exact hdigits.head?_ne (by decide)
      · simp [hwhole]
    have hwrites : Writes (r.whole ++ '.' :: r.fraction)
        (number digits + number r.fraction / 10 ^ r.fraction.length) := by
      rcases hwhole with hwhole | hwhole
      · rw [hwhole]
        exact .plain hpoint
      · rw [hwhole, List.cons_append]
        exact .plus hpoint
    refine ⟨_, hwrites, ?_⟩
    rw [slip, hunits, if_neg hsign]
    push_cast
    field_simp
    ring

theorem Of.number_fraction_lt (h : r.Of text) (hzero : '\x00' ∉ r.fraction) :
    number r.fraction < 1000000000000000000 := by
  obtain ⟨hfraction, -, hshort⟩ := h.fraction.fraction hzero
  exact (number_lt hfraction).trans_le (Nat.pow_le_pow_right (by decide) hshort)

theorem slip_range (h : r.Of text) (hzero : '\x00' ∉ r.fraction) :
    0 ≤ r.slip ∧ r.slip < 2000000000000000000 := by
  have hlt := h.number_fraction_lt hzero
  unfold slip
  split <;> omega

theorem slip_eq_zero_iff (h : r.Of text) (hzero : '\x00' ∉ r.fraction) :
    r.slip = 0 ↔ (r.whole.head? = some '-' → ∀ c ∈ r.fraction, c = '0') := by
  obtain ⟨hfraction, -, -⟩ := h.fraction.fraction hzero
  rw [← number_eq_zero_iff hfraction, slip]
  split
  next hsign => simp [hsign]
  next hsign => simp [hsign]

/-- A slip of less than 2 ^ 64 is not made up for by wrapping. -/
theorem wrap_eq_sub_iff {n e : Int} (he : 0 ≤ e ∧ e < 18446744073709551616) :
    wrap n = n - e ↔ e = 0 ∧ -9223372036854775808 ≤ n ∧ n < 9223372036854775808 := by
  obtain ⟨k, hk, hrange⟩ := wrap_eq n
  omega

end Reading

/-- A string is read as it is written exactly if its reading is sound. -/
theorem exact_iff (text : List Char) : Exact text ↔ ∀ r : Reading, r.Of text → r.Sound := by
  constructor
  · intro h r hr
    obtain ⟨v, prec, hwrites, hprec, hamount⟩ := h _ (fromString_eq_ok.mpr ⟨r, hr, rfl⟩)
    have hzero : '\x00' ∉ r.whole ∧ '\x00' ∉ r.fraction := by
      have hnot := hwrites.not_mem_zero
      rw [hr.numberText_eq] at hnot
      simp only [List.mem_append, List.mem_cons, not_or] at hnot
      exact ⟨hnot.1, hnot.2.2⟩
    obtain ⟨w, hw, hvalue⟩ := hr.written hzero
    obtain ⟨-, -, hshort⟩ := hr.fraction.fraction hzero.2
    have hprec' := (hr.decimals_eq hshort).2
    rw [hprec, Except.ok.injEq] at hprec'
    rw [hwrites.unique hw, hprec', hvalue] at hamount
    have hwrap : wrap r.amount = r.amount - r.slip := by exact_mod_cast hamount
    have hrange := Reading.slip_range hr hzero.2
    rw [Reading.wrap_eq_sub_iff ⟨hrange.1, by omega⟩] at hwrap
    exact ⟨hzero, (Reading.slip_eq_zero_iff hr hzero.2).mp hwrap.1, hwrap.2⟩
  · intro h a ha
    obtain ⟨r, hr, rfl⟩ := fromString_eq_ok.mp ha
    have hsound := h r hr
    obtain ⟨v, hv, hvalue⟩ := hr.written hsound.noZero
    obtain ⟨-, -, hshort⟩ := hr.fraction.fraction hsound.noZero.2
    refine ⟨v, _, hv, (hr.decimals_eq hshort).2, ?_⟩
    rw [hvalue, (Reading.slip_eq_zero_iff hr hsound.noZero.2).mpr hsound.sign, sub_zero,
      wrap_of_fits hsound.fits]

/-! ## What is printed -/

theorem reads_int64ToString {n : Int}
    (h : -9223372036854775808 ≤ n ∧ n < 9223372036854775808) : Reads (int64ToString n) n := by
  have hdigits := digits_toDigits n.natAbs
  have hnumber := number_toDigits n.natAbs
  have hzero : '\x00' ∉ Nat.toDigits 10 n.natAbs := hdigits.not_mem (by decide)
  unfold int64ToString
  split
  next hneg =>
    have hsigned : '\x00' ∉ '-' :: Nat.toDigits 10 n.natAbs := by simpa using hzero
    have hread := Reads.minus (cText_of_not_mem hsigned) Nat.toDigits_ne_nil hdigits (by omega)
    rwa [hnumber, show (-(n.natAbs : Int)) = n by omega] at hread
  next hpos =>
    have hread := Reads.plain (.inl (cText_of_not_mem hzero)) Nat.toDigits_ne_nil hdigits (by omega)
    rwa [hnumber, show (n.natAbs : Int) = n by omega] at hread

theorem not_mem_int64ToString {n : Int} {c : Char} (hdigit : c.isDigit = false) (hc : c ≠ '-') :
    c ∉ int64ToString n := by
  have hnot := (digits_toDigits n.natAbs).not_mem hdigit
  unfold int64ToString
  split
  next => simp [hc, hnot]
  next => exact hnot

/-- Nothing is trimmed from a text that neither starts nor ends with a space. -/
theorem trim_eq_self {text : List Char} (hfirst : text.head?.any isSpace = false)
    (hlast : text.getLast?.any isSpace = false) : trim text = text := by
  have hkeep : ∀ l : List Char, l.head?.any isSpace = false → l.dropWhile isSpace = l := by
    intro l hl
    cases l with
    | nil => rfl
    | cons c rest =>
        rw [List.dropWhile_cons_of_neg]
        simpa using hl
  rw [trim, hkeep text hfirst, hkeep text.reverse (by rwa [List.head?_reverse]),
    List.reverse_reverse]

variable {s : AssetSymbol} {amount : Int}

/-- The fraction that is printed. -/
def printedFraction (s : AssetSymbol) (amount : Int) : List Char :=
  (int64ToString (10 ^ s.precision + amount.tmod (10 ^ s.precision))).drop 1

/-- All that is printed. -/
def printed (s : AssetSymbol) (amount : Int) : List Char :=
  int64ToString (amount.tdiv (10 ^ s.precision)) ++
    '.' :: (printedFraction s amount ++ ' ' :: assetNumToString (.ofCore s))

theorem toString_eq (s : AssetSymbol) (amount : Int) :
    toString ⟨amount, .ofCore s⟩ = .ok (printed s amount) := by
  have hlt : 1 < (10 ^ s.precision : Int) := by cases s <;> decide
  unfold toString
  simp only [precision_ofCore]
  show Except.ok _ = _
  rw [if_pos hlt, List.append_assoc, List.cons_append]
  rfl

theorem isSpace_of_isDigit {c : Char} (h : c.isDigit = true) : isSpace c = false := by
  by_contra hspace
  simp only [isSpace, AssetSymbolType.isBlank, Bool.not_eq_false, Bool.or_eq_true,
    decide_eq_true_eq] at hspace
  rcases hspace with ((rfl | rfl | rfl | rfl) | rfl) | rfl <;> exact absurd h (by decide)

theorem trim_printed (s : AssetSymbol) (amount : Int) :
    trim (printed s amount) = printed s amount := by
  apply trim_eq_self
  · have hdigits := digits_toDigits (amount.tdiv (10 ^ s.precision)).natAbs
    obtain ⟨c, rest, hc⟩ := List.exists_cons_of_ne_nil
      (Nat.toDigits_ne_nil (n := (amount.tdiv (10 ^ s.precision)).natAbs) (b := 10))
    rw [hc] at hdigits
    unfold printed int64ToString
    split
    next => rfl
    next =>
      rw [hc]
      exact isSpace_of_isDigit (hdigits c List.mem_cons_self)
  · have hsymbol : ∃ c, (assetNumToString (.ofCore s)).getLast? = some c ∧ isSpace c = false := by
      cases s with
      | gbc => exact ⟨'B', by decide⟩
      | gbd => exact ⟨'D', by decide⟩
      | gbs => exact ⟨'P', by decide⟩
    obtain ⟨c, hc, hspace⟩ := hsymbol
    simp [printed, List.getLast?_append, List.getLast?_cons, hc, hspace]

theorem not_mem_printedFraction {c : Char} (hdigit : c.isDigit = false) (hc : c ≠ '-') :
    c ∉ printedFraction s amount :=
  fun hmem => not_mem_int64ToString hdigit hc (List.mem_of_mem_drop hmem)

/-- `from_string` of what is printed. -/
theorem fromString_printed (s : AssetSymbol) (amount : Int) :
    fromString (printed s amount) = (do
      let symbol ← stringToAssetNum (assetNumToString (.ofCore s))
        ((printedFraction s amount).length % 256)
      let prec ← precision symbol
      let units ← toInt64 (int64ToString (amount.tdiv (10 ^ s.precision)))
      let fract ← toInt64 ('1' :: printedFraction s amount)
      return ⟨wrap (wrap (wrap (units * prec) + fract) - prec), symbol⟩) :=
  fromString_of_split (not_mem_int64ToString (by decide) (by decide))
    (not_mem_int64ToString (by decide) (by decide))
    (not_mem_printedFraction (by decide) (by decide)) (trim_printed s amount)

theorem pow_precision_pos (s : AssetSymbol) : (0 : Int) < 10 ^ s.precision := by
  cases s <;> decide

/-- With a one in front, the fraction is what was printed. -/
theorem printedFraction_of_nonneg (h : 0 ≤ amount.tmod (10 ^ s.precision)) :
    '1' :: printedFraction s amount =
        int64ToString (10 ^ s.precision + amount.tmod (10 ^ s.precision)) ∧
      (printedFraction s amount).length = s.precision := by
  have hpos := pow_precision_pos s
  have hlt : amount.tmod (10 ^ s.precision) < 10 ^ s.precision := Int.tmod_lt_of_pos _ hpos
  have hcast : ((10 ^ s.precision : Nat) : Int) = 10 ^ s.precision := by push_cast; rfl
  obtain ⟨rest, hrest, hlength⟩ := toDigits_leading_one (k := s.precision)
    (n := (10 ^ s.precision + amount.tmod (10 ^ s.precision)).natAbs) (by omega) (by omega)
  unfold printedFraction int64ToString
  rw [if_neg (by omega), hrest]
  exact ⟨rfl, hlength⟩

theorem printedFraction_of_neg (h : amount.tmod (10 ^ s.precision) < 0) :
    (printedFraction s amount).length < s.precision := by
  have hpos := pow_precision_pos s
  have hcast : ((10 ^ s.precision : Nat) : Int) = 10 ^ s.precision := by push_cast; rfl
  have hprec : 0 < s.precision := by cases s <;> decide
  have hlow := Int.lt_tmod_of_pos amount hpos
  have hlength := (Nat.length_toDigits_le_iff (b := 10)
    (n := (10 ^ s.precision + amount.tmod (10 ^ s.precision)).natAbs) (by decide) hprec).mpr
      (by omega)
  unfold printedFraction int64ToString
  rw [if_neg (by omega), List.length_drop]
  omega

theorem tmod_nonneg_iff (s : AssetSymbol) (amount : Int) :
    0 ≤ amount.tmod (10 ^ s.precision) ↔ 0 ≤ amount ∨ (10 ^ s.precision : Int) ∣ amount := by
  constructor
  · intro h
    by_cases hamount : 0 ≤ amount
    · exact .inl hamount
    · -- a remainder has the sign of the amount, so this one is zero
      have hneg := Int.tmod_nonneg (a := -amount) (10 ^ s.precision) (by omega)
      rw [Int.neg_tmod] at hneg
      exact .inr (Int.dvd_of_tmod_eq_zero (by omega))
  · rintro (h | h)
    · exact Int.tmod_nonneg _ h
    · exact (Int.tmod_eq_zero_of_dvd h).ge

/-- An amount comes back exactly if it is not negative or has no fraction. -/
theorem fromString_toString_iff (s : AssetSymbol)
    (hamount : -9223372036854775808 ≤ amount ∧ amount < 9223372036854775808) :
    (toString ⟨amount, .ofCore s⟩ >>= fromString) = .ok ⟨amount, .ofCore s⟩ ↔
      0 ≤ amount ∨ (10 ^ s.precision : Int) ∣ amount := by
  have hpos := pow_precision_pos s
  have hle : (10 ^ s.precision : Int) ≤ 1000000 := by cases s <;> decide
  have hmod : s.precision % 256 = s.precision := by cases s <;> rfl
  have hdivmod := Int.mul_tdiv_add_tmod amount (10 ^ s.precision)
  rw [← tmod_nonneg_iff, toString_eq]
  show fromString (printed s amount) = _ ↔ _
  rw [fromString_printed, stringToAssetNum_assetNumToString]
  by_cases h : 0 ≤ amount.tmod (10 ^ s.precision)
  · obtain ⟨hone, hlength⟩ := printedFraction_of_nonneg h
    have hlt := Int.tmod_lt_of_pos amount hpos
    have hunits : -9223372036854775808 ≤ amount.tdiv (10 ^ s.precision) ∧
        amount.tdiv (10 ^ s.precision) < 9223372036854775808 := by
      cases s <;> (simp only [AssetSymbol.precision] at hdivmod h hlt ⊢; omega)
    rw [hlength, hmod, if_pos rfl, hone, (reads_int64ToString hunits).toInt64_eq,
      (reads_int64ToString (by omega)).toInt64_eq]
    show (precision (.ofCore s) >>= fun prec => _) = _ ↔ _
    rw [precision_ofCore]
    show Except.ok _ = _ ↔ _
    rw [wrap_steps, mul_comm, show 10 ^ s.precision * amount.tdiv (10 ^ s.precision) +
      (10 ^ s.precision + amount.tmod (10 ^ s.precision)) - 10 ^ s.precision = amount by omega,
      wrap_of_fits hamount]
    simp [h]
  -- a negative fraction is printed with fewer digits than the precision has
  · have hlength := printedFraction_of_neg (not_le.mp h)
    have hne : ¬(printedFraction s amount).length % 256 = s.precision := by
      have := Nat.mod_le (printedFraction s amount).length 256
      omega
    rw [if_neg hne]
    simp only [h, iff_false]
    intro hok
    cases hok

/-- **Legacy assets**: what is printed comes back exactly if the amount is not
negative or has no fraction, and a string is read as it is written exactly if
its reading is sound. -/
theorem legacyAsset_strings (s : AssetSymbol)
    (h : -9223372036854775808 ≤ amount ∧ amount < 9223372036854775808) (text : List Char) :
    ((toString ⟨amount, .ofCore s⟩ >>= fromString) = .ok ⟨amount, .ofCore s⟩ ↔
      0 ≤ amount ∨ (10 ^ s.precision : Int) ∣ amount) ∧
    (Exact text ↔ ∀ r : Reading, r.Of text → r.Sound) :=
  ⟨fromString_toString_iff s h, exact_iff text⟩

def sevenAndFive : List Char := ['7', '.', '0', '0', '5', ' ', 'G', 'B', 'D']

theorem legacyAsset_strings_seven :
    (toString ⟨7005, .ofCore .gbd⟩ >>= fromString) = .ok ⟨7005, .ofCore .gbd⟩ ∧
      Exact sevenAndFive := by
  obtain ⟨hback, hexact⟩ := legacyAsset_strings .gbd (show -9223372036854775808 ≤ (7005 : Int) ∧
    (7005 : Int) < 9223372036854775808 by decide) sevenAndFive
  refine ⟨hback.mpr (.inl (by decide)), hexact.mpr ?_⟩
  intro r hr
  have htext : numberText sevenAndFive = ['7'] ++ '.' :: ['0', '0', '5'] := by decide
  rw [hr.numberText_eq, eq_comm] at htext
  obtain ⟨hwhole, -, hfraction⟩ :=
    (List.append_cons_inj_of_notMem (by decide) (by decide)).mp htext
  have hunits : toInt64 ['7'] = .ok r.units := hwhole ▸ hr.whole.toInt64_eq
  have hfract : toInt64 ['1', '0', '0', '5'] = .ok r.fract := hfraction ▸ hr.fraction.toInt64_eq
  have hseven : toInt64 ['7'] = .ok 7 := by decide
  have hfive : toInt64 ['1', '0', '0', '5'] = .ok 1005 := by decide
  rw [hseven, Except.ok.injEq] at hunits
  rw [hfive, Except.ok.injEq] at hfract
  have hdecimals := (hr.decimals_eq (by rw [← hfraction]; decide)).1
  rw [← hfraction] at hdecimals
  have hamount : r.amount = 7005 := by
    rw [Reading.amount, hdecimals, ← hunits, ← hfract]
    decide
  constructor
  · rw [← hwhole, ← hfraction]
    decide
  · rw [← hwhole]
    intro hsign
    cases hsign
  · rw [hamount]
    decide

/-! ### Where they fail -/

/-- Half a token that is owed, printed by hand. -/
def minusHalf : List Char := ['-', '0', '.', '5', '0', '0', ' ', 'G', 'B']

/-- A fraction with zero bytes. -/
def cutFraction : List Char := ['1', '.', '5', '\x00', '\x00', ' ', 'G', 'B']

/-- A thousand times more than fits. -/
def largest : List Char :=
  Nat.toDigits 10 9223372036854775807 ++ ['.', '0', '0', '0', ' ', 'G', 'B']

/-- A fraction below a negative number of units is not read back, one behind a
minus sign is added, a zero byte ends it, and large amounts wrap. -/
theorem legacyAsset_strings_fail :
    (toString ⟨-5500, .ofCore .gbc⟩ >>= fromString) = .error "Incorrect decimal places" ∧
    (fromString minusHalf = .ok ⟨500, .ofCore .gbc⟩ ∧ ¬Exact minusHalf) ∧
    (fromString cutFraction = .ok ⟨15, .ofCore .gbc⟩ ∧ ¬Exact cutFraction) ∧
    fromString largest = .ok ⟨-1000, .ofCore .gbc⟩ ∧ ¬Exact largest := by
  refine ⟨by decide, ⟨by decide, ?_⟩, ⟨by decide, ?_⟩, by decide, ?_⟩
  · intro h
    have hof : (Reading.mk ['-', '0'] ['5', '0', '0'] (.ofCore .gbc) 0 1500).Of minusHalf :=
      ⟨by decide, by decide, by decide, ⟨['G', 'B'], by decide, by decide⟩,
        .of_toInt64 (by decide), .of_toInt64 (by decide)⟩
    exact absurd (((exact_iff _).mp h _ hof).sign rfl '5' (by decide)) (by decide)
  · intro h
    have hof : (Reading.mk ['1'] ['5', '\x00', '\x00'] (.ofCore .gbc) 1 15).Of cutFraction :=
      ⟨by decide, by decide, by decide, ⟨['G', 'B'], by decide, by decide⟩,
        .of_toInt64 (by decide), .of_toInt64 (by decide)⟩
    exact absurd ((exact_iff _).mp h _ hof).noZero.2 (by decide)
  · intro h
    have hof : (Reading.mk (Nat.toDigits 10 9223372036854775807) ['0', '0', '0'] (.ofCore .gbc)
        9223372036854775807 1000).Of largest :=
      ⟨by decide, by decide, by decide, ⟨['G', 'B'], by decide, by decide⟩,
        .of_toInt64 (by decide), .of_toInt64 (by decide)⟩
    exact absurd ((exact_iff _).mp h _ hof).fits.2 (by decide)

end Gamebank.Plugins.LegacyAsset
