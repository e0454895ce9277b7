import Mathlib.Data.ZMod.Basic
import Mathlib.Tactic.LinearCombination
import Mathlib.Tactic.Ring
import Gamebank.Protocol.FixedString

/-!
# Numbers of 128 bits

`fc::uint128`, operator by operator on its two words: the carry of `+=`, the
masks of the shifts, the sixteen products of 32 bits of `*=`. As numbers, they
are the operations modulo 2 ^ 128.
-/

namespace Gamebank.Protocol.UInt128

/-- The constructor from an `int64_t`, which fills the high word with the sign. -/
def ofInt64 (l : Int) : UInt128 :=
  ⟨if l < 0 then 0xffffffffffffffff else 0, UInt64.ofNat (l % 18446744073709551616).toNat⟩

/-- The constructor from a `uint64_t`. -/
def ofUInt64 (l : UInt64) : UInt128 := ⟨0, l⟩

/-- `operator <`. -/
def lt (a b : UInt128) : Bool := if a.hi = b.hi then a.lo < b.lo else a.hi < b.hi

/-- `operator >`. -/
def gt (a b : UInt128) : Bool := b.lt a

/-- `operator <=`. -/
def le (a b : UInt128) : Bool := a = b || a.lt b

/-- `operator >=`. -/
def ge (a b : UInt128) : Bool := a = b || a.gt b

/-- `operator ++`. -/
def succ (a : UInt128) : UInt128 :=
  let lo := a.lo + 1
  ⟨a.hi + (if lo = 0 then 1 else 0), lo⟩

/-- `operator -`, of one number. -/
def neg (a : UInt128) : UInt128 := succ ⟨~~~a.hi, ~~~a.lo⟩

/-- `operator +=`. -/
def add (a b : UInt128) : UInt128 :=
  let old := a.lo
  let lo := a.lo + b.lo
  ⟨a.hi + (b.hi + (if lo < old then 1 else 0)), lo⟩

/-- `operator -=`. -/
def sub (a b : UInt128) : UInt128 := a.add b.neg

/-- `operator &=`. -/
def and (a b : UInt128) : UInt128 := ⟨a.hi &&& b.hi, a.lo &&& b.lo⟩

/-- `operator <<=`. -/
def shiftLeft (a : UInt128) (n : Nat) : UInt128 :=
  if 128 ≤ n then ⟨0, 0⟩
  else
    let (a, n) := if 64 ≤ n then ((⟨a.lo, 0⟩ : UInt128), n - 64) else (a, n)
    if n ≠ 0 then
      let mask := ~~~((0xffffffffffffffff : UInt64) >>> UInt64.ofNat n)
      ⟨(a.hi <<< UInt64.ofNat n) ||| ((a.lo &&& mask) >>> UInt64.ofNat (64 - n)),
        a.lo <<< UInt64.ofNat n⟩
    else a

/-- `operator >>=`. -/
def shiftRight (a : UInt128) (n : Nat) : UInt128 :=
  if 128 ≤ n then ⟨0, 0⟩
  else
    let (a, n) := if 64 ≤ n then ((⟨0, a.hi⟩ : UInt128), n - 64) else (a, n)
    if n ≠ 0 then
      let mask := ~~~((0xffffffffffffffff : UInt64) <<< UInt64.ofNat n)
      ⟨a.hi >>> UInt64.ofNat n,
        (a.lo >>> UInt64.ofNat n) ||| ((a.hi &&& mask) <<< UInt64.ofNat (64 - n))⟩
    else a

/-- `( uint32_t )x`, in a word. -/
def low32 (x : UInt64) : UInt64 := x.toUInt32.toUInt64

/-- `operator *=`. -/
def mul (a b : UInt128) : UInt128 :=
  let a0 := low32 a.lo
  let a1 := low32 (a.lo >>> 0x20)
  let a2 := low32 a.hi
  let a3 := low32 (a.hi >>> 0x20)
  let b0 := low32 b.lo
  let b1 := low32 (b.lo >>> 0x20)
  let b2 := low32 b.hi
  let b3 := low32 (b.hi >>> 0x20)
  let x : UInt128 := ⟨0, a3 * b0⟩
  let x := x.add (ofUInt64 (a2 * b1))
  let x := x.add (ofUInt64 (a1 * b2))
  let x := x.add (ofUInt64 (a0 * b3))
  let x := x.shiftLeft 0x20
  let x := x.add (ofUInt64 (a2 * b0))
  let x := x.add (ofUInt64 (a1 * b1))
  let x := x.add (ofUInt64 (a0 * b2))
  let x := x.shiftLeft 0x20
  let x := x.add (ofUInt64 (a1 * b0))
  let x := x.add (ofUInt64 (a0 * b1))
  let x := x.shiftLeft 0x20
  x.add (ofUInt64 (a0 * b0))

/-- The number of two words. -/
def toNat (a : UInt128) : Nat := a.hi.toNat * 18446744073709551616 + a.lo.toNat

/-- The words of a number. -/
def ofNat (n : Nat) : UInt128 :=
  ⟨UInt64.ofNat (n / 18446744073709551616), UInt64.ofNat (n % 18446744073709551616)⟩

/-- `operator /=`, the division of `boost::multiprecision`. -/
def div (a b : UInt128) : Except String UInt128 :=
  if b.toNat = 0 then .error "Integer division by zero" else .ok (ofNat (a.toNat / b.toNat))

/-! ## As numbers -/

variable {a b : UInt128} {n : Nat}

theorem toNat_lt (a : UInt128) : a.toNat < 340282366920938463463374607431768211456 := by
  have hhi := a.hi.toNat_lt
  have hlo := a.lo.toNat_lt
  unfold toNat
  omega

theorem toNat_inj : a.toNat = b.toNat ↔ a = b := by
  constructor
  · intro h
    have ha := a.lo.toNat_lt
    have hb := b.lo.toNat_lt
    unfold toNat at h
    obtain ⟨ahi, alo⟩ := a
    obtain ⟨bhi, blo⟩ := b
    simp only at h ha hb
    have hhi : ahi = bhi := UInt64.toNat_inj.mp (by omega)
    have hlo : alo = blo := UInt64.toNat_inj.mp (by omega)
    rw [hhi, hlo]
  · intro h
    rw [h]

theorem toNat_ofNat (h : n < 340282366920938463463374607431768211456) : (ofNat n).toNat = n := by
  simp only [ofNat, toNat, UInt64.toNat_ofNat']
  omega

theorem div_eq (h : b.toNat ≠ 0) : a.div b = .ok (ofNat (a.toNat / b.toNat)) := by
  rw [div, if_neg h]

@[simp] theorem toNat_ofUInt64 (l : UInt64) : (ofUInt64 l).toNat = l.toNat := by
  simp [ofUInt64, toNat]

theorem lo_toNat (h : a.toNat < 18446744073709551616) : a.lo.toNat = a.toNat := by
  have hlo := a.lo.toNat_lt
  unfold toNat at *
  omega

theorem hi_eq_zero (h : a.toNat < 18446744073709551616) : a.hi = 0 := by
  apply UInt64.toNat_inj.mp
  unfold toNat at h
  rw [UInt64.toNat_zero]
  omega

theorem lt_iff : a.lt b = true ↔ a.toNat < b.toNat := by
  have ha := a.lo.toNat_lt
  have hb := b.lo.toNat_lt
  unfold lt toNat
  split
  next h =>
    rw [decide_eq_true_eq, UInt64.lt_iff_toNat_lt, h]
    omega
  next h =>
    have hne : a.hi.toNat ≠ b.hi.toNat := fun h' => h (UInt64.toNat_inj.mp h')
    rw [decide_eq_true_eq, UInt64.lt_iff_toNat_lt]
    omega

theorem le_iff : a.le b = true ↔ a.toNat ≤ b.toNat := by
  rw [le, Bool.or_eq_true, decide_eq_true_eq, lt_iff, ← toNat_inj]
  omega

theorem le_eq_not_lt : a.le b = !b.lt a := by
  rw [Bool.eq_iff_iff, le_iff, Bool.not_eq_true', ← Bool.not_eq_true, lt_iff, Nat.not_lt]

theorem ge_eq_not_lt : a.ge b = !a.lt b := by
  rw [← le_eq_not_lt, ge, le, gt]
  congr 1
  exact decide_eq_decide.mpr eq_comm

theorem add_toNat :
    (a.add b).toNat = (a.toNat + b.toNat) % 340282366920938463463374607431768211456 := by
  have ha := a.lo.toNat_lt
  have hb := b.lo.toNat_lt
  have ha' := a.hi.toNat_lt
  have hb' := b.hi.toNat_lt
  simp only [add, toNat, UInt64.lt_iff_toNat_lt, UInt64.toNat_add]
  split
  next h =>
    simp only [UInt64.reduceToNat]
    omega
  next h =>
    simp only [UInt64.reduceToNat]
    omega

theorem succ_toNat :
    a.succ.toNat = (a.toNat + 1) % 340282366920938463463374607431768211456 := by
  have ha := a.lo.toNat_lt
  have ha' := a.hi.toNat_lt
  simp only [succ, toNat, ← UInt64.toNat_inj, UInt64.toNat_add]
  split
  next h =>
    simp only [UInt64.reduceToNat] at h ⊢
    omega
  next h =>
    simp only [UInt64.reduceToNat] at h ⊢
    omega

theorem neg_toNat : a.neg.toNat = (340282366920938463463374607431768211456 - a.toNat) %
    340282366920938463463374607431768211456 := by
  have ha := a.lo.toNat_lt
  have ha' := a.hi.toNat_lt
  rw [neg, succ_toNat]
  simp only [toNat, UInt64.toNat_not]
  simp [UInt64.size]
  omega

theorem sub_toNat (h : b.toNat ≤ a.toNat) : (a.sub b).toNat = a.toNat - b.toNat := by
  have ha := a.toNat_lt
  rw [sub, add_toNat, neg_toNat]
  omega

/-! ### Shifts -/

section

variable {k : Nat}

theorem toNat_shiftLeft_word (x : UInt64) (hk : k < 64) :
    (x <<< UInt64.ofNat k).toNat = x.toNat % 2 ^ (64 - k) * 2 ^ k := by
  have hpow : 2 ^ 64 = 2 ^ (64 - k) * 2 ^ k := by
    rw [← Nat.pow_add]
    congr 1
    omega
  simp only [UInt64.toNat_shiftLeft, UInt64.toNat_ofNat']
  rw [Nat.mod_eq_of_lt (show k < 2 ^ 64 by omega), Nat.mod_eq_of_lt hk, Nat.shiftLeft_eq, hpow,
    Nat.mul_mod_mul_right]

theorem toNat_shiftRight_word (x : UInt64) (hk : k < 64) :
    (x >>> UInt64.ofNat k).toNat = x.toNat / 2 ^ k := by
  simp only [UInt64.toNat_shiftRight, UInt64.toNat_ofNat']
  rw [Nat.mod_eq_of_lt (show k < 2 ^ 64 by omega), Nat.mod_eq_of_lt hk, Nat.shiftRight_eq_div_pow]

/-- The mask of `<<=` takes away only what the shift drops. -/
theorem mask_high (x : UInt64) (h0 : 0 < k) (hk : k < 64) :
    (x &&& ~~~((0xffffffffffffffff : UInt64) >>> UInt64.ofNat k)) >>> UInt64.ofNat (64 - k) =
      x >>> UInt64.ofNat (64 - k) := by
  apply UInt64.toBitVec_inj.mp
  ext i hi
  have hcount : (64 - k) % 64 = 64 - k := by omega
  simp [BitVec.getLsbD_ushiftRight, hk, Nat.mod_eq_of_lt, hcount]
  intro h
  have hlt := BitVec.lt_of_getLsbD h
  exact ⟨hlt, BitVec.getLsbD_of_ge _ _ (by omega)⟩

/-- So does that of `>>=`. -/
theorem mask_low (x : UInt64) (h0 : 0 < k) (hk : k < 64) :
    (x &&& ~~~((0xffffffffffffffff : UInt64) <<< UInt64.ofNat k)) <<< UInt64.ofNat (64 - k) =
      x <<< UInt64.ofNat (64 - k) := by
  apply UInt64.toBitVec_inj.mp
  ext i hi
  have hcount : (64 - k) % 64 = 64 - k := by omega
  have hlow : i - (64 - k) < k := by omega
  simp [BitVec.getElem_shiftLeft, hk, Nat.mod_eq_of_lt, hcount, hlow]

/-- A shift of two words by less than one. -/
theorem shiftLeft_words {h l p q : Nat} (hp : 0 < p) (hq : 0 < q) (hl : l < q * p) :
    (h % q * p + l / q) * (q * p) + l % q * p = (h * (q * p) + l) * p % (q * p * (q * p)) := by
  have hlow : l / q < p := (Nat.div_lt_iff_lt_mul hq).mpr (by rwa [Nat.mul_comm])
  have hhigh : h % q < q := Nat.mod_lt h hq
  have hrest : l % q < q := Nat.mod_lt l hq
  have hsmall : (h % q * p + l / q) * (q * p) + l % q * p < q * p * (q * p) := by
    have hword : h % q * p + l / q + 1 ≤ q * p := by
      have := Nat.mul_le_mul_right p (Nat.succ_le_of_lt hhigh)
      rw [Nat.succ_mul] at this
      omega
    have hback : l % q * p < q * p := Nat.mul_lt_mul_of_pos_right hrest hp
    have := Nat.mul_le_mul_right (q * p) hword
    rw [Nat.add_mul, Nat.one_mul] at this
    omega
  have hsum : (h * (q * p) + l) * p =
      (h % q * p + l / q) * (q * p) + l % q * p + q * p * (q * p) * (h / q) := by
    have hh := Nat.div_add_mod h q
    have hll := Nat.div_add_mod l q
    calc (h * (q * p) + l) * p
        = ((q * (h / q) + h % q) * (q * p) + (q * (l / q) + l % q)) * p := by rw [hh, hll]
      _ = _ := by ring
  rw [hsum, Nat.add_mul_mod_self_left, Nat.mod_eq_of_lt hsmall]

theorem shiftRight_words {h l p q : Nat} (hp : 0 < p) :
    h / p * (q * p) + (h % p * q + l / p) = (h * (q * p) + l) / p := by
  have hsum : h * (q * p) + l = l + p * (h * q) := by ring
  have hh := Nat.div_add_mod h p
  rw [hsum, Nat.add_mul_div_left _ _ hp]
  calc h / p * (q * p) + (h % p * q + l / p) = l / p + (p * (h / p) + h % p) * q := by ring
    _ = l / p + h * q := by rw [hh]

theorem shiftLeft_word (hi lo : UInt64) (h0 : 0 < k) (hk : k < 64) :
    (UInt128.mk ((hi <<< UInt64.ofNat k) |||
        ((lo &&& ~~~((0xffffffffffffffff : UInt64) >>> UInt64.ofNat k)) >>> UInt64.ofNat (64 - k)))
      (lo <<< UInt64.ofNat k)).toNat =
      (UInt128.mk hi lo).toNat * 2 ^ k % 340282366920938463463374607431768211456 := by
  have hpow : 2 ^ (64 - k) * 2 ^ k = 18446744073709551616 := by
    rw [← Nat.pow_add, show 64 - k + k = 64 by omega]
  have hlow : lo.toNat / 2 ^ (64 - k) < 2 ^ k := by
    rw [Nat.div_lt_iff_lt_mul (Nat.two_pow_pos _), Nat.mul_comm, hpow]
    exact lo.toNat_lt
  have hwords := shiftLeft_words (h := hi.toNat) (l := lo.toNat) (p := 2 ^ k) (q := 2 ^ (64 - k))
    (Nat.two_pow_pos _) (Nat.two_pow_pos _) (by rw [hpow]; exact lo.toNat_lt)
  rw [hpow] at hwords
  rw [mask_high lo h0 hk, toNat, toNat, UInt64.toNat_or, toNat_shiftLeft_word hi hk,
    toNat_shiftLeft_word lo hk, toNat_shiftRight_word lo (by omega), Nat.mul_comm _ (2 ^ k),
    ← Nat.two_pow_add_eq_or_of_lt hlow, Nat.mul_comm (2 ^ k), hwords]

theorem shiftRight_word (hi lo : UInt64) (h0 : 0 < k) (hk : k < 64) :
    (UInt128.mk (hi >>> UInt64.ofNat k) ((lo >>> UInt64.ofNat k) |||
        ((hi &&& ~~~((0xffffffffffffffff : UInt64) <<< UInt64.ofNat k)) <<<
          UInt64.ofNat (64 - k)))).toNat =
      (UInt128.mk hi lo).toNat / 2 ^ k := by
  have hpow : 2 ^ (64 - k) * 2 ^ k = 18446744073709551616 := by
    rw [← Nat.pow_add, show 64 - k + k = 64 by omega]
  have hlow : lo.toNat / 2 ^ k < 2 ^ (64 - k) := by
    rw [Nat.div_lt_iff_lt_mul (Nat.two_pow_pos _), hpow]
    exact lo.toNat_lt
  have hwords := shiftRight_words (h := hi.toNat) (l := lo.toNat) (p := 2 ^ k) (q := 2 ^ (64 - k))
    (Nat.two_pow_pos _)
  rw [hpow] at hwords
  rw [mask_low hi h0 hk, toNat, toNat, UInt64.toNat_or, toNat_shiftLeft_word hi (by omega),
    toNat_shiftRight_word hi hk, toNat_shiftRight_word lo hk, show 64 - (64 - k) = k by omega,
    Nat.or_comm, Nat.mul_comm _ (2 ^ (64 - k)), ← Nat.two_pow_add_eq_or_of_lt hlow,
    Nat.mul_comm (2 ^ (64 - k)), hwords]

end

theorem shiftLeft_toNat (a : UInt128) (n : Nat) :
    (a.shiftLeft n).toNat = a.toNat * 2 ^ n % 340282366920938463463374607431768211456 := by
  unfold shiftLeft
  by_cases h128 : 128 ≤ n
  · obtain ⟨m, rfl⟩ := Nat.exists_eq_add_of_le h128
    rw [if_pos h128, Nat.pow_add, Nat.mul_left_comm, Nat.mul_mod_right]
    rfl
  · rw [if_neg h128]
    by_cases h64 : 64 ≤ n
    · obtain ⟨m, rfl⟩ := Nat.exists_eq_add_of_le h64
      -- the low word becomes the high one
      have hmoved : (UInt128.mk a.lo 0).toNat * 2 ^ m % 340282366920938463463374607431768211456 =
          a.toNat * 2 ^ (64 + m) % 340282366920938463463374607431768211456 := by
        have harrange : a.toNat * 2 ^ (64 + m) =
            (UInt128.mk a.lo 0).toNat * 2 ^ m +
              340282366920938463463374607431768211456 * (a.hi.toNat * 2 ^ m) := by
          rw [toNat, toNat, Nat.pow_add, UInt64.toNat_zero]
          ring
        rw [harrange, Nat.add_mul_mod_self_left]
      simp only [h64, if_true, Nat.add_sub_cancel_left]
      by_cases h0 : m = 0
      · rw [if_neg (not_not.mpr h0), ← hmoved, h0, Nat.pow_zero, Nat.mul_one,
          Nat.mod_eq_of_lt (toNat_lt _)]
      · rw [if_pos h0, shiftLeft_word a.lo 0 (Nat.pos_of_ne_zero h0) (by omega), hmoved]
    · simp only [h64, if_false]
      by_cases h0 : n = 0
      · rw [if_neg (not_not.mpr h0), h0, Nat.pow_zero, Nat.mul_one, Nat.mod_eq_of_lt (toNat_lt _)]
      · rw [if_pos h0, shiftLeft_word a.hi a.lo (Nat.pos_of_ne_zero h0) (by omega)]

theorem shiftRight_toNat (a : UInt128) (n : Nat) : (a.shiftRight n).toNat = a.toNat / 2 ^ n := by
  unfold shiftRight
  by_cases h128 : 128 ≤ n
  · have hpow : 2 ^ 128 ≤ 2 ^ n := Nat.pow_le_pow_right (by decide) h128
    rw [if_pos h128, Nat.div_eq_of_lt (Nat.lt_of_lt_of_le a.toNat_lt hpow)]
    rfl
  · rw [if_neg h128]
    by_cases h64 : 64 ≤ n
    · obtain ⟨m, rfl⟩ := Nat.exists_eq_add_of_le h64
      -- the high word becomes the low one
      have hmoved : (UInt128.mk 0 a.hi).toNat = a.toNat / 2 ^ 64 := by
        have hlo := a.lo.toNat_lt
        simp only [toNat, UInt64.toNat_zero]
        omega
      simp only [h64, if_true, Nat.add_sub_cancel_left]
      by_cases h0 : m = 0
      · rw [if_neg (not_not.mpr h0), h0, hmoved]
      · rw [if_pos h0, shiftRight_word 0 a.hi (Nat.pos_of_ne_zero h0) (by omega), hmoved,
          Nat.pow_add, Nat.div_div_eq_div_mul]
    · simp only [h64, if_false]
      by_cases h0 : n = 0
      · rw [if_neg (not_not.mpr h0), h0, Nat.pow_zero, Nat.div_one]
      · rw [if_pos h0, shiftRight_word a.hi a.lo (Nat.pos_of_ne_zero h0) (by omega)]

/-- A mask of the low bits. -/
theorem and_toNat (hb : b.toNat + 1 = 2 ^ n) : (a.and b).toNat = a.toNat % 2 ^ n := by
  have hbits : (a.and b).toNat = a.toNat &&& b.toNat := by
    have hword : ∀ x : UInt128, x.toNat = x.hi.toNat <<< 64 ||| x.lo.toNat := by
      intro x
      rw [← Nat.shiftLeft_add_eq_or_of_lt x.lo.toNat_lt, Nat.shiftLeft_eq, toNat]
    have hclear : ∀ (x : UInt64) (i : Nat), 64 ≤ i → x.toNat.testBit i = false := by
      intro x i hi
      apply Nat.testBit_lt_two_pow
      exact Nat.lt_of_lt_of_le x.toNat_lt (Nat.pow_le_pow_right (by decide) hi)
    rw [hword (a.and b), hword a, hword b, and, UInt64.toNat_and, UInt64.toNat_and]
    apply Nat.eq_of_testBit_eq
    intro i
    by_cases hi : 64 ≤ i
    · simp [Nat.testBit_shiftLeft, hi, hclear]
    · simp [Nat.testBit_shiftLeft, hi]
  rw [hbits, show b.toNat = 2 ^ n - 1 by omega, Nat.and_two_pow_sub_one_eq_mod]

/-! ### Products -/

theorem low32_toNat (x : UInt64) : (low32 x).toNat = x.toNat % 4294967296 := by
  simp [low32]

/-- The numbers modulo 2 ^ 128. -/
abbrev Residue : Type := ZMod 340282366920938463463374607431768211456

def residue (a : UInt128) : Residue := a.toNat

def wordResidue (x : UInt64) : Residue := x.toNat

/-- What a shift by half a word multiplies by. -/
def half : Residue := (4294967296 : Nat)

theorem residue_add : (a.add b).residue = a.residue + b.residue := by
  rw [residue, add_toNat, ZMod.natCast_mod, Nat.cast_add, residue, residue]

theorem residue_shiftLeft : (a.shiftLeft 0x20).residue = a.residue * half := by
  rw [residue, shiftLeft_toNat, ZMod.natCast_mod, Nat.cast_mul, residue]
  rfl

theorem residue_ofUInt64 (x : UInt64) : (ofUInt64 x).residue = wordResidue x := by
  rw [residue, toNat_ofUInt64, wordResidue]

/-- Products of half words do not wrap. -/
theorem wordResidue_mul (x y : UInt64) :
    wordResidue (low32 x * low32 y) = wordResidue (low32 x) * wordResidue (low32 y) := by
  rw [wordResidue, wordResidue, wordResidue, ← Nat.cast_mul, UInt64.toNat_mul, Nat.mod_eq_of_lt]
  rw [low32_toNat, low32_toNat]
  calc x.toNat % 4294967296 * (y.toNat % 4294967296) < 4294967296 * 4294967296 :=
        Nat.mul_lt_mul'' (Nat.mod_lt _ (by decide)) (Nat.mod_lt _ (by decide))
    _ = 2 ^ 64 := by decide

/-- Four pieces of 32 bits. -/
theorem residue_pieces (a : UInt128) :
    a.residue = wordResidue (low32 a.lo) + wordResidue (low32 (a.lo >>> 0x20)) * half +
      wordResidue (low32 a.hi) * half ^ 2 + wordResidue (low32 (a.hi >>> 0x20)) * half ^ 3 := by
  have hpieces : a.toNat = (low32 a.lo).toNat + (low32 (a.lo >>> 0x20)).toNat * 4294967296 +
      (low32 a.hi).toNat * 4294967296 ^ 2 + (low32 (a.hi >>> 0x20)).toNat * 4294967296 ^ 3 := by
    have hhi := a.hi.toNat_lt
    have hlo := a.lo.toNat_lt
    have hcount : (0x20 : UInt64).toNat % 64 = 32 := by decide
    simp only [low32_toNat, UInt64.toNat_shiftRight, hcount, Nat.shiftRight_eq_div_pow, toNat]
    omega
  rw [residue, hpieces]
  simp only [wordResidue, half, Nat.cast_add, Nat.cast_mul, Nat.cast_pow]

/-- The products of the pieces that `*=` adds up; it leaves out the multiples of
2 ^ 128. -/
theorem product_of_pieces {R : Type} [CommRing R] {t : R} (hzero : t ^ 4 = 0)
    (a0 a1 a2 a3 b0 b1 b2 b3 : R) :
    (((a3 * b0 + a2 * b1 + a1 * b2 + a0 * b3) * t + a2 * b0 + a1 * b1 + a0 * b2) * t +
        a1 * b0 + a0 * b1) * t + a0 * b0 =
      (a0 + a1 * t + a2 * t ^ 2 + a3 * t ^ 3) * (b0 + b1 * t + b2 * t ^ 2 + b3 * t ^ 3) := by
  linear_combination (-(a3 * b1 + a2 * b2 + a1 * b3) - (a3 * b2 + a2 * b3) * t -
    a3 * b3 * t ^ 2) * hzero

theorem residue_mul : (a.mul b).residue = a.residue * b.residue := by
  have hzero : half ^ 4 = 0 := by
    rw [half, ← Nat.cast_pow]
    exact ZMod.natCast_self 340282366920938463463374607431768211456
  have hword : (UInt128.mk 0 (low32 (a.hi >>> 0x20) * low32 b.lo)) =
    ofUInt64 (low32 (a.hi >>> 0x20) * low32 b.lo) := rfl
  rw [residue_pieces a, residue_pieces b, ← product_of_pieces hzero]
  simp only [mul, hword, residue_add, residue_shiftLeft, residue_ofUInt64, wordResidue_mul]

theorem mul_toNat :
    (a.mul b).toNat = a.toNat * b.toNat % 340282366920938463463374607431768211456 := by
  have h := residue_mul (a := a) (b := b)
  rw [residue, residue, residue, ← Nat.cast_mul, ZMod.natCast_eq_natCast_iff'] at h
  rwa [Nat.mod_eq_of_lt (toNat_lt _)] at h

end Gamebank.Protocol.UInt128
