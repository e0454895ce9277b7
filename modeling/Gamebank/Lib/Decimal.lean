import Mathlib.Data.List.Basic
import Mathlib.Data.Rat.Cast.Lemmas
import Mathlib.Tactic.Ring

/-!
# Numbers in decimal writing

`Nat.toDigits` writes a number down and `Nat.ofDigitChars` reads it. With a one
in front, digits are read as a power of ten and what they are without it, so
the leading zeros of a fraction are kept. `Writes text v` says that a text is a
number with a sign and a point, and that its value is `v`.
-/

namespace Gamebank.Lib

/-- All of them are digits. -/
def Digits (text : List Char) : Prop := ∀ c ∈ text, c.isDigit = true

/-- What digits are worth. -/
def number (text : List Char) : Nat := Nat.ofDigitChars 10 text 0

variable {text : List Char} {n k : Nat}

theorem Digits.not_mem {c : Char} (h : Digits text) (hc : c.isDigit = false) : c ∉ text := by
  intro hmem
  rw [h c hmem] at hc
  cases hc

theorem Digits.head?_ne {c : Char} (h : Digits text) (hc : c.isDigit = false) :
    text.head? ≠ some c :=
  fun hhead => h.not_mem hc (List.mem_of_head? hhead)

theorem digits_toDigits (n : Nat) : Digits (Nat.toDigits 10 n) := by
  intro c hc
  exact Nat.isDigit_of_mem_toDigits (by decide) (by decide) hc

theorem number_toDigits (n : Nat) : number (Nat.toDigits 10 n) = n :=
  Nat.ofDigitChars_ten_toDigits

theorem number_cons (c : Char) (text : List Char) :
    number (c :: text) = 10 ^ text.length * (c.toNat - '0'.toNat) + number text := by
  rw [number, Nat.ofDigitChars_cons, Nat.ofDigitChars_eq_ofDigitChars_zero, Nat.mul_zero,
    Nat.zero_add, number]

/-- A one in front stands for the number of digits. -/
theorem number_one_cons (text : List Char) :
    number ('1' :: text) = 10 ^ text.length + number text := by
  rw [number_cons]
  simp

theorem digit_toNat {c : Char} (h : c.isDigit = true) : 48 ≤ c.toNat ∧ c.toNat ≤ 57 := by
  simp only [Char.isDigit, Bool.and_eq_true, decide_eq_true_eq, ge_iff_le,
    UInt32.le_iff_toNat_le] at h
  exact h

theorem number_lt (h : Digits text) : number text < 10 ^ text.length := by
  induction text with
  | nil => simp [number]
  | cons c text ih =>
      have hdigit := digit_toNat (h c List.mem_cons_self)
      have hrest := ih fun d hd => h d (List.mem_cons_of_mem c hd)
      have hzero : '0'.toNat = 48 := rfl
      have hle : 10 ^ text.length * (c.toNat - '0'.toNat) ≤ 10 ^ text.length * 9 :=
        Nat.mul_le_mul_left _ (by omega)
      rw [number_cons, List.length_cons, Nat.pow_succ]
      omega

/-- Only zeros are worth nothing. -/
theorem number_eq_zero_iff (h : Digits text) : number text = 0 ↔ ∀ c ∈ text, c = '0' := by
  induction text with
  | nil => simp [number]
  | cons c text ih =>
      have hdigit := digit_toNat (h c List.mem_cons_self)
      have hrest := ih fun d hd => h d (List.mem_cons_of_mem c hd)
      have hzero : '0'.toNat = 48 := rfl
      have hc : c.toNat - '0'.toNat = 0 ↔ c = '0' := by
        rw [← Char.toNat_inj]
        omega
      rw [number_cons, Nat.add_eq_zero_iff, hrest, Nat.mul_eq_zero, hc, List.forall_mem_cons]
      simp

/-- A number between a power of ten and twice that power starts with a one. -/
theorem toDigits_leading_one (hlow : 10 ^ k ≤ n) (hhigh : n < 2 * 10 ^ k) :
    ∃ rest, Nat.toDigits 10 n = '1' :: rest ∧ rest.length = k := by
  induction k generalizing n with
  | zero =>
      obtain rfl : n = 1 := by
        rw [Nat.pow_zero] at hlow hhigh
        omega
      exact ⟨[], by decide, rfl⟩
  | succ k ih =>
      rw [Nat.pow_succ] at hlow hhigh
      have hpos : 1 ≤ 10 ^ k := Nat.pow_pos (by decide)
      obtain ⟨rest, hrest, hlength⟩ := ih (n := n / 10) (by omega) (by omega)
      refine ⟨rest ++ [Nat.digitChar (n % 10)], ?_, by simp [hlength]⟩
      rw [Nat.toDigits_of_base_le (by decide) (by omega), hrest, List.cons_append]

/-! ## A sign and a point -/

/-- Digits, a point and digits. -/
inductive WritesUnsigned : List Char → ℚ → Prop
  | point {whole fraction : List Char} :
      Digits whole → whole ≠ [] → Digits fraction →
      WritesUnsigned (whole ++ '.' :: fraction)
        (number whole + number fraction / 10 ^ fraction.length)

/-- The same with a sign or without. -/
inductive Writes : List Char → ℚ → Prop
  | plain {text : List Char} {v : ℚ} : WritesUnsigned text v → Writes text v
  | plus {text : List Char} {v : ℚ} : WritesUnsigned text v → Writes ('+' :: text) v
  | minus {text : List Char} {v : ℚ} : WritesUnsigned text v → Writes ('-' :: text) (-v)

theorem WritesUnsigned.mem {v : ℚ} (h : WritesUnsigned text v) :
    ∀ c ∈ text, c.isDigit = true ∨ c = '.' := by
  obtain ⟨hwhole, -, hfraction⟩ := h
  intro c hc
  rcases List.mem_append.mp hc with hc | hc
  · exact .inl (hwhole c hc)
  · rcases List.mem_cons.mp hc with hc | hc
    · exact .inr hc
    · exact .inl (hfraction c hc)

theorem WritesUnsigned.head? {v : ℚ} (h : WritesUnsigned text v) :
    ∃ c rest, text = c :: rest ∧ c.isDigit = true := by
  obtain ⟨hwhole, hne, -⟩ := h
  obtain ⟨c, rest, rfl⟩ := List.exists_cons_of_ne_nil hne
  exact ⟨c, _, rfl, hwhole c List.mem_cons_self⟩

theorem WritesUnsigned.unique {v w : ℚ} (hv : WritesUnsigned text v) (hw : WritesUnsigned text w) :
    v = w := by
  cases hv with
  | @point whole fraction hwhole hne hfraction =>
      generalize htext : whole ++ '.' :: fraction = text' at hw
      cases hw with
      | @point whole' fraction' hwhole' hne' hfraction' =>
          have hpoint : '.'.isDigit = false := by decide
          obtain ⟨rfl, -, rfl⟩ := (List.append_cons_inj_of_notMem (hwhole.not_mem hpoint)
            (hfraction.not_mem hpoint)).mp htext
          rfl

/-- A text is one number. -/
theorem Writes.unique {v w : ℚ} (hv : Writes text v) (hw : Writes text w) : v = w := by
  cases hv with
  | plain h =>
      obtain ⟨c, rest, rfl, hc⟩ := h.head?
      cases hw with
      | plain h' => exact h.unique h'
      | plus h' => cases hc
      | minus h' => cases hc
  | plus h =>
      cases hw with
      | plain h' =>
          obtain ⟨c, rest, heq, hc⟩ := h'.head?
          rw [(List.cons.inj heq).1.symm] at hc
          cases hc
      | plus h' => exact h.unique h'
  | minus h =>
      cases hw with
      | plain h' =>
          obtain ⟨c, rest, heq, hc⟩ := h'.head?
          rw [(List.cons.inj heq).1.symm] at hc
          cases hc
      | minus h' => rw [h.unique h']

theorem Writes.not_mem_zero {v : ℚ} (h : Writes text v) : '\x00' ∉ text := by
  have hunsigned : ∀ {text : List Char} {v : ℚ}, WritesUnsigned text v → '\x00' ∉ text := by
    intro text v h hmem
    rcases h.mem _ hmem with hdigit | hpoint
    · revert hdigit
      decide
    · revert hpoint
      decide
  cases h with
  | plain h => exact hunsigned h
  | plus h => simpa using hunsigned h
  | minus h => simpa using hunsigned h

end Gamebank.Lib
