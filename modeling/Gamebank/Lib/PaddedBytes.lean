import Mathlib.Algebra.Group.Nat.Defs
import Mathlib.Data.List.Basic
import Mathlib.Data.List.TakeWhile

/-!
# Big-endian numbers and zero-padded strings

The bytes of a number, most significant first, compare as the number does. A
string kept in a field of fixed width is filled up with zeros; it is read back
up to the first zero.
-/

namespace Gamebank.Lib

/-! ## Numbers -/

/-- The number whose bytes are given, most significant first. -/
def decodeBE : List UInt8 → Nat
  | [] => 0
  | b :: rest => b.toNat * 256 ^ rest.length + decodeBE rest

/-- The last `w` bytes of `n`, most significant first. -/
def encodeBE : Nat → Nat → List UInt8
  | 0, _ => []
  | w + 1, n => UInt8.ofNat (n / 256 ^ w) :: encodeBE w n

@[simp] theorem length_encodeBE (w n : Nat) : (encodeBE w n).length = w := by
  induction w with
  | zero => rfl
  | succ w ih => rw [encodeBE, List.length_cons, ih]

theorem decodeBE_lt (bytes : List UInt8) : decodeBE bytes < 256 ^ bytes.length := by
  induction bytes with
  | nil => exact Nat.one_pos
  | cons b rest ih =>
      have hb : b.toNat + 1 ≤ 256 := b.toNat_lt
      calc b.toNat * 256 ^ rest.length + decodeBE rest
          < b.toNat * 256 ^ rest.length + 256 ^ rest.length := Nat.add_lt_add_left ih _
        _ = (b.toNat + 1) * 256 ^ rest.length := (Nat.succ_mul _ _).symm
        _ ≤ 256 * 256 ^ rest.length := Nat.mul_le_mul_right _ hb
        _ = 256 ^ (b :: rest).length := by rw [List.length_cons, Nat.pow_succ, Nat.mul_comm]

theorem decodeBE_append (a b : List UInt8) :
    decodeBE (a ++ b) = decodeBE a * 256 ^ b.length + decodeBE b := by
  induction a with
  | nil => simp [decodeBE]
  | cons x a ih =>
      rw [List.cons_append, decodeBE, ih, decodeBE, List.length_append, Nat.pow_add, Nat.add_mul,
        Nat.mul_assoc, Nat.add_assoc]

/-- Only the last `w` bytes of a number matter. -/
theorem encodeBE_mul_add (w k n m : Nat) :
    encodeBE w (k * 256 ^ (w + m) + n) = encodeBE w n := by
  induction w generalizing m with
  | zero => rfl
  | succ w ih =>
      have hhigh : k * 256 ^ (w + 1 + m) = 256 ^ w * (256 * (k * 256 ^ m)) := by
        rw [Nat.pow_add, Nat.pow_succ]
        ac_rfl
      have hdiv : (k * 256 ^ (w + 1 + m) + n) / 256 ^ w = 256 * (k * 256 ^ m) + n / 256 ^ w := by
        rw [hhigh, Nat.mul_add_div (Nat.pow_pos (by decide))]
      have hbyte : UInt8.ofNat (256 * (k * 256 ^ m) + n / 256 ^ w) = UInt8.ofNat (n / 256 ^ w) := by
        apply UInt8.toNat_inj.mp
        rw [UInt8.toNat_ofNat', UInt8.toNat_ofNat']
        omega
      have hrest := ih (m + 1)
      rw [show w + (m + 1) = w + 1 + m by omega] at hrest
      rw [encodeBE, encodeBE, hdiv, hbyte, hrest]

theorem encodeBE_decodeBE (bytes : List UInt8) :
    encodeBE bytes.length (decodeBE bytes) = bytes := by
  induction bytes with
  | nil => rfl
  | cons b rest ih =>
      have hdiv : (b.toNat * 256 ^ rest.length + decodeBE rest) / 256 ^ rest.length = b.toNat := by
        rw [Nat.mul_comm, Nat.mul_add_div (Nat.pow_pos (by decide)),
          Nat.div_eq_of_lt (decodeBE_lt rest), Nat.add_zero]
      have hrest := encodeBE_mul_add rest.length b.toNat (decodeBE rest) 0
      rw [Nat.add_zero] at hrest
      rw [List.length_cons, decodeBE, encodeBE, hdiv, hrest, ih, UInt8.ofNat_toNat]

theorem decodeBE_encodeBE {w n : Nat} (h : n < 256 ^ w) : decodeBE (encodeBE w n) = n := by
  induction w generalizing n with
  | zero =>
      rw [Nat.pow_zero] at h
      simp only [encodeBE, decodeBE]
      omega
  | succ w ih =>
      have hpos : 0 < 256 ^ w := Nat.pow_pos (by decide)
      have htop : n / 256 ^ w < 256 := by
        rw [Nat.pow_succ] at h
        exact Nat.div_lt_of_lt_mul h
      have hsplit : n = n / 256 ^ w * 256 ^ w + n % 256 ^ w := by
        rw [Nat.mul_comm]
        exact (Nat.div_add_mod n (256 ^ w)).symm
      have hrest : encodeBE w n = encodeBE w (n % 256 ^ w) := by
        have := encodeBE_mul_add w (n / 256 ^ w) (n % 256 ^ w) 0
        rw [Nat.add_zero, ← hsplit] at this
        exact this
      rw [encodeBE, decodeBE, length_encodeBE, hrest, ih (Nat.mod_lt _ hpos), UInt8.toNat_ofNat',
        Nat.mod_eq_of_lt htop, ← hsplit]

/-- The first digit decides, then the others. -/
theorem digit_lt_iff {x y base a b : Nat} (ha : a < base) (hb : b < base) :
    x * base + a < y * base + b ↔ x < y ∨ x = y ∧ a < b := by
  have hgap : ∀ {u v s t : Nat}, u < v → s < base → u * base + s < v * base + t := by
    intro u v s t huv hs
    calc u * base + s < u * base + base := Nat.add_lt_add_left hs _
      _ = (u + 1) * base := (Nat.succ_mul _ _).symm
      _ ≤ v * base := Nat.mul_le_mul_right _ huv
      _ ≤ v * base + t := Nat.le_add_right _ _
  constructor
  · intro h
    rcases Nat.lt_trichotomy x y with hxy | rfl | hxy
    · exact .inl hxy
    · exact .inr ⟨rfl, Nat.lt_of_add_lt_add_left h⟩
    · exact absurd (Nat.lt_trans h (hgap hxy hb)) (Nat.lt_irrefl _)
  · rintro (hxy | ⟨rfl, hab⟩)
    · exact hgap hxy ha
    · exact Nat.add_lt_add_left hab _

/-- Byte strings of one length compare as the numbers they are. -/
theorem decodeBE_lt_iff {a b : List UInt8} (h : a.length = b.length) :
    decodeBE a < decodeBE b ↔ a < b := by
  induction a generalizing b with
  | nil =>
      cases b with
      | nil => simp
      | cons => simp at h
  | cons x a ih =>
      cases b with
      | nil => simp at h
      | cons y b =>
          have hlength : a.length = b.length := by simpa using h
          have ha := decodeBE_lt a
          rw [hlength] at ha
          rw [decodeBE, decodeBE, hlength, digit_lt_iff ha (decodeBE_lt b), ih hlength,
            List.cons_lt_cons_iff, UInt8.lt_iff_toNat_lt, UInt8.toNat_inj]

/-! ## Strings in a field -/

/-- The string filled up with zeros to `w` bytes. -/
def padTo (w : Nat) (text : List UInt8) : List UInt8 := text ++ List.replicate (w - text.length) 0

/-- A string up to its first zero. -/
def untilZero (text : List UInt8) : List UInt8 := text.takeWhile (· ≠ 0)

/-- After its first zero the string has zeros only. -/
def ZeroTail (text : List UInt8) : Prop := ∀ b ∈ text.dropWhile (· ≠ 0), b = 0

theorem length_padTo {w : Nat} {text : List UInt8} (h : text.length ≤ w) :
    (padTo w text).length = w := by
  rw [padTo, List.length_append, List.length_replicate]
  omega

theorem untilZero_padTo (w : Nat) (text : List UInt8) :
    untilZero (padTo w text) = untilZero text := by
  have hpad : ∀ n, (List.replicate n (0 : UInt8)).takeWhile (fun b => decide (b ≠ 0)) = [] := by
    intro n
    cases n <;> rfl
  unfold untilZero padTo
  rw [List.takeWhile_append]
  by_cases hall : (text.takeWhile (fun b => decide (b ≠ 0))).length = text.length
  · have htext := List.IsPrefix.eq_of_length (List.takeWhile_prefix _) hall
    rw [if_pos hall, hpad, List.append_nil, htext]
  · rw [if_neg hall]

theorem zero_not_mem_untilZero (text : List UInt8) : (0 : UInt8) ∉ untilZero text := by
  intro h
  have := List.mem_takeWhile_imp h
  simp at this

theorem length_untilZero_le (text : List UInt8) : (untilZero text).length ≤ text.length :=
  (List.takeWhile_prefix _).length_le

/-- Cutting a string at its first zero leaves its field as it is exactly if
nothing but zeros stands behind. -/
theorem padTo_untilZero_iff {w : Nat} {text : List UInt8} (h : text.length ≤ w) :
    padTo w (untilZero text) = padTo w text ↔ ZeroTail text := by
  have hsplit : untilZero text ++ text.dropWhile (fun b => decide (b ≠ 0)) = text :=
    List.takeWhile_append_dropWhile
  have hlength := congrArg List.length hsplit
  rw [List.length_append] at hlength
  unfold padTo
  constructor
  · intro heq b hb
    conv at heq => rhs; rw [← hsplit, List.append_assoc]
    have htail := List.append_cancel_left heq
    have hmem : b ∈ List.replicate (w - (untilZero text).length) (0 : UInt8) := by
      rw [htail]
      exact List.mem_append_left _ hb
    exact List.eq_of_mem_replicate hmem
  · intro htail
    have hzeros : text.dropWhile (fun b => decide (b ≠ 0)) =
        List.replicate (text.dropWhile (fun b => decide (b ≠ 0))).length 0 :=
      List.eq_replicate_iff.mpr ⟨rfl, htail⟩
    conv_rhs => rw [← hsplit, List.append_assoc, hzeros, List.replicate_append_replicate]
    congr 2
    rw [List.length_append, List.length_replicate]
    omega

/-- Strings without zeros compare as their fields do. -/
theorem padTo_lt_iff {w : Nat} {a b : List UInt8} (ha : (0 : UInt8) ∉ a) (hb : (0 : UInt8) ∉ b)
    (hla : a.length ≤ w) (hlb : b.length ≤ w) : padTo w a < padTo w b ↔ a < b := by
  have hzero : ∀ {x : UInt8}, (0 : UInt8) ≠ x → 0 < x := by
    intro x hx
    exact UInt8.lt_iff_toNat_lt.mpr (Nat.pos_of_ne_zero fun h => hx (UInt8.toNat_inj.mp h.symm))
  induction a generalizing w b with
  | nil =>
      cases b with
      | nil => simp
      | cons y b =>
          have hy : (0 : UInt8) ≠ y := fun h => hb (h ▸ List.mem_cons_self)
          obtain ⟨w, rfl⟩ : ∃ v, w = v + 1 := ⟨w - 1, by rw [List.length_cons] at hlb; omega⟩
          have hpad : padTo (w + 1) [] = 0 :: List.replicate w 0 := rfl
          rw [hpad, padTo, List.cons_append, List.cons_lt_cons_iff]
          exact iff_of_true (.inl (hzero hy)) (List.nil_lt_cons _ _)
  | cons x a ih =>
      obtain ⟨w, rfl⟩ : ∃ v, w = v + 1 := ⟨w - 1, by rw [List.length_cons] at hla; omega⟩
      have hcons : ∀ z (text : List UInt8), padTo (w + 1) (z :: text) = z :: padTo w text := by
        intro z text
        rw [padTo, List.length_cons, Nat.add_sub_add_right, List.cons_append, padTo]
      cases b with
      | nil =>
          have hx : (0 : UInt8) ≠ x := fun h => ha (h ▸ List.mem_cons_self)
          have hpad : padTo (w + 1) [] = 0 :: List.replicate w 0 := rfl
          rw [hpad, hcons, List.cons_lt_cons_iff]
          refine iff_of_false ?_ (List.not_lt_nil _)
          rintro (hlt | ⟨heq, -⟩)
          · exact absurd (UInt8.lt_iff_toNat_lt.mp hlt) (Nat.not_lt_zero _)
          · exact hx heq.symm
      | cons y b =>
          have hrest : padTo w a < padTo w b ↔ a < b :=
            ih (fun h => ha (List.mem_cons_of_mem _ h)) (fun h => hb (List.mem_cons_of_mem _ h))
              (by simpa using hla) (by simpa using hlb)
          rw [hcons, hcons, List.cons_lt_cons_iff, List.cons_lt_cons_iff, hrest]

end Gamebank.Lib
