import Mathlib.Algebra.BigOperators.Group.Finset.Basic
import Mathlib.Algebra.BigOperators.Ring.Finset
import Mathlib.Tactic.Ring
import Gamebank.Lib.OrderedIndex

/-!
# Forests of parent pointers

A map `up` sends a node to its parent, a root to `none`. `ancestor up k a` is
the node `k` links above `a`, and `hits up k a p` is one if that is `p` and
zero otherwise. With a weight for every object of a list, `level` adds up the
weights of the objects `k` links below a node.

What happens to the levels when a tree is hung below another node is
`level_attach`; every other fact about a changed pointer comes from the same
count of paths, `hits_attach`.
-/

namespace Gamebank.Lib

universe u

open Finset

variable {ν : Type u}

def ancestor (up : ν → Option ν) : Nat → ν → Option ν
  | 0, a => some a
  | k + 1, a => (up a).bind (ancestor up k)

/-- No node is above itself. -/
def Acyclic (up : ν → Option ν) : Prop := ∀ a k, ancestor up (k + 1) a ≠ some a

variable {up : ν → Option ν} {a b p q x : ν} {k : Nat}

/-! ## Chains -/

@[simp] theorem ancestor_zero (up : ν → Option ν) (a : ν) : ancestor up 0 a = some a := rfl

theorem ancestor_succ_of_some (h : up a = some b) (k : Nat) :
    ancestor up (k + 1) a = ancestor up k b := by
  simp [ancestor, h]

theorem ancestor_succ_of_none (h : up a = none) (k : Nat) : ancestor up (k + 1) a = none := by
  simp [ancestor, h]

theorem ancestor_add (h : ancestor up k a = some b) (j : Nat) :
    ancestor up (k + j) a = ancestor up j b := by
  induction k generalizing a with
  | zero =>
      rw [ancestor_zero, Option.some.injEq] at h
      rw [h, Nat.zero_add]
  | succ k ih =>
      cases hup : up a with
      | none =>
          rw [ancestor_succ_of_none hup] at h
          cases h
      | some c =>
          rw [ancestor_succ_of_some hup] at h
          rw [Nat.succ_add, ancestor_succ_of_some hup, ih h]

/-- A chain ends once. -/
theorem ancestor_root_unique {j : Nat} (hk : ancestor up k a = some p) (hp : up p = none)
    (hj : ancestor up j a = some q) (hq : up q = none) : k = j ∧ p = q := by
  wlog hle : k ≤ j generalizing j k p q
  · obtain ⟨h1, h2⟩ := this hj hq hk hp (Nat.le_of_not_le hle)
    exact ⟨h1.symm, h2.symm⟩
  obtain ⟨d, rfl⟩ := Nat.exists_eq_add_of_le hle
  rw [ancestor_add hk] at hj
  cases d with
  | zero =>
      rw [ancestor_zero, Option.some.injEq] at hj
      exact ⟨rfl, hj⟩
  | succ d =>
      rw [ancestor_succ_of_none hp] at hj
      cases hj

/-! ## Above and below -/

/-- The chain of `a` comes to `p`; it may be `a` itself. -/
def Reaches (up : ν → Option ν) (a p : ν) : Prop := ∃ k, ancestor up k a = some p

/-- `a` is somewhere below `p`. -/
def Below (up : ν → Option ν) (a p : ν) : Prop := ∃ k, ancestor up (k + 1) a = some p

theorem Reaches.refl (up : ν → Option ν) (a : ν) : Reaches up a a := ⟨0, rfl⟩

theorem reaches_iff_eq_or_below : Reaches up a p ↔ a = p ∨ Below up a p := by
  constructor
  · rintro ⟨k, hk⟩
    cases k with
    | zero => exact .inl (Option.some.inj hk)
    | succ k => exact .inr ⟨k, hk⟩
  · rintro (rfl | ⟨k, hk⟩)
    · exact Reaches.refl up a
    · exact ⟨k + 1, hk⟩

theorem below_iff_of_some (h : up a = some b) : Below up a p ↔ Reaches up b p := by
  unfold Below Reaches
  simp only [ancestor_succ_of_some h]

theorem not_below_of_none (h : up a = none) : ¬Below up a p := by
  rintro ⟨k, hk⟩
  rw [ancestor_succ_of_none h] at hk
  cases hk

/-! ## Paths, counted -/

variable [DecidableEq ν]

def hits (up : ν → Option ν) (k : Nat) (a p : ν) : Int :=
  if ancestor up k a = some p then 1 else 0

theorem hits_eq_zero (h : ancestor up k a ≠ some p) : hits up k a p = 0 := if_neg h

theorem hits_ne_zero : hits up k a p ≠ 0 ↔ ancestor up k a = some p := by
  unfold hits
  split <;> simp [*]

theorem hits_zero (up : ν → Option ν) (a p : ν) : hits up 0 a p = if a = p then 1 else 0 := by
  simp [hits]

theorem hits_succ_of_some (h : up a = some b) (k : Nat) (p : ν) :
    hits up (k + 1) a p = hits up k b p := by
  rw [hits, ancestor_succ_of_some h, hits]

theorem hits_succ_of_none (h : up a = none) (k : Nat) (p : ν) : hits up (k + 1) a p = 0 := by
  rw [hits, ancestor_succ_of_none h, if_neg (by simp)]

/-! ## One pointer changed -/

/-- A chain that avoids `x` does not notice where `x` points. -/
theorem ancestor_update_of_avoids {v : Option ν} (h : ∀ k, ancestor up k a ≠ some x) (k : Nat) :
    ancestor (Function.update up x v) k a = ancestor up k a := by
  induction k generalizing a with
  | zero => rfl
  | succ k ih =>
      have hax : a ≠ x := by
        intro hax
        exact h 0 (by rw [ancestor_zero, hax])
      have hup : Function.update up x v a = up a := Function.update_of_ne hax v up
      cases hb : up a with
      | none => rw [ancestor_succ_of_none hb, ancestor_succ_of_none (hup.trans hb)]
      | some b =>
          rw [ancestor_succ_of_some hb, ancestor_succ_of_some (hup.trans hb)]
          apply ih
          intro j
          rw [← ancestor_succ_of_some hb]
          exact h (j + 1)

/-- What is above a node without a link of `x` was above it before. -/
theorem ancestor_of_detached (h : ancestor (Function.update up x none) k a = some p) :
    ancestor up k a = some p := by
  induction k generalizing a with
  | zero => exact h
  | succ k ih =>
      by_cases hax : a = x
      · rw [ancestor_succ_of_none (by rw [hax, Function.update_self])] at h
        cases h
      · have hup : Function.update up x none a = up a := Function.update_of_ne hax none up
        cases hb : up a with
        | none =>
            rw [ancestor_succ_of_none (hup.trans hb)] at h
            cases h
        | some b =>
            rw [ancestor_succ_of_some (hup.trans hb)] at h
            rw [ancestor_succ_of_some hb]
            exact ih h

/-- The chain of a root that has been hung below `q`. -/
theorem hits_attach_self (hq : ∀ k, ancestor up k q ≠ some x) (k : Nat) (p : ν) :
    hits (Function.update up x (some q)) (k + 1) x p = hits up k q p := by
  rw [hits_succ_of_some (Function.update_self x (some q) up), hits, hits,
    ancestor_update_of_avoids hq]

/-- **The paths of a forest with a new link.** A path to `p` is an old one, or
goes up to `x`, over the new link to `q`, and on from there. -/
theorem hits_attach (hx : up x = none) (hq : ∀ k, ancestor up k q ≠ some x) (k : Nat) (a p : ν) :
    hits (Function.update up x (some q)) k a p =
      hits up k a p + ∑ d ∈ range k, hits up d q p * hits up (k - 1 - d) a x := by
  induction k generalizing a with
  | zero => simp [hits]
  | succ k ih =>
      by_cases hax : a = x
      · -- from `x` itself only the link over `q` is there
        subst hax
        rw [hits_attach_self hq, hits_succ_of_none hx, sum_range_succ, Nat.add_sub_cancel,
          Nat.sub_self, hits_zero, if_pos rfl]
        have hrest : ∑ d ∈ range k, hits up d q p * hits up (k - d) a a = 0 := by
          apply sum_eq_zero
          intro d hd
          obtain ⟨j, hj⟩ : ∃ j, k - d = j + 1 := ⟨k - d - 1, by have := mem_range.mp hd; omega⟩
          rw [hj, hits_succ_of_none hx, mul_zero]
        rw [hrest]
        ring
      · have hup : Function.update up x (some q) a = up a := Function.update_of_ne hax (some q) up
        have hlast : hits up 0 a x = 0 := by rw [hits_zero, if_neg hax]
        rw [sum_range_succ, Nat.add_sub_cancel, Nat.sub_self, hlast, mul_zero, add_zero]
        cases hb : up a with
        | none =>
            rw [hits_succ_of_none (hup.trans hb), hits_succ_of_none hb, sum_eq_zero, add_zero]
            intro d hd
            obtain ⟨j, hj⟩ : ∃ j, k - d = j + 1 := ⟨k - d - 1, by have := mem_range.mp hd; omega⟩
            rw [hj, hits_succ_of_none hb, mul_zero]
        | some b =>
            rw [hits_succ_of_some (hup.trans hb), hits_succ_of_some hb, ih b]
            congr 1
            apply sum_congr rfl
            intro d hd
            have hd' : k - d = (k - 1 - d) + 1 := by have := mem_range.mp hd; omega
            rw [hd', hits_succ_of_some hb]

/-! ## No cycles -/

theorem Acyclic.detach (h : Acyclic up) (x : ν) : Acyclic (Function.update up x none) :=
  fun a k hk => h a k (ancestor_of_detached hk)

/-- A root may be hung below a node that it is not above. -/
theorem Acyclic.attach (h : Acyclic up) (hx : up x = none) (hq : ∀ k, ancestor up k q ≠ some x) :
    Acyclic (Function.update up x (some q)) := by
  intro a k hk
  have hcount := hits_attach hx hq (k + 1) a a
  rw [hits_eq_zero (h a k), zero_add] at hcount
  have hone : hits (Function.update up x (some q)) (k + 1) a a ≠ 0 := hits_ne_zero.mpr hk
  rw [hcount] at hone
  obtain ⟨d, hd, hne⟩ := exists_ne_zero_of_sum_ne_zero hone
  obtain ⟨habove, hbelow⟩ := mul_ne_zero_iff.mp hne
  -- from `q` up to `a` and from there up to `x`
  have := ancestor_add (hits_ne_zero.mp habove) (k + 1 - 1 - d)
  exact hq _ (this.trans (hits_ne_zero.mp hbelow))

/-- Nothing above the parent of a node is the node, the link itself left out. -/
theorem Acyclic.avoids (h : Acyclic up) (hx : up x = some q) (k : Nat) :
    ancestor (Function.update up x none) k q ≠ some x := by
  intro hk
  apply h x k
  rw [ancestor_succ_of_some hx]
  exact ancestor_of_detached hk

/-! ## Levels -/

section

variable {α : Type u} {key : α → ν} {w : α → Int} {l : List α}

theorem sumOf_congr {g g' : α → Int} (h : ∀ a ∈ l, g a = g' a) : sumOf g l = sumOf g' l := by
  induction l with
  | nil => rfl
  | cons a rest ih =>
      rw [sumOf_cons, sumOf_cons, h a List.mem_cons_self,
        ih fun b hb => h b (List.mem_cons_of_mem a hb)]

theorem sumOf_add (g g' : α → Int) (l : List α) :
    sumOf (fun a => g a + g' a) l = sumOf g l + sumOf g' l := by
  induction l with
  | nil => rfl
  | cons a rest ih =>
      rw [sumOf_cons, sumOf_cons, sumOf_cons, ih]
      ring

theorem sumOf_mul_left (c : Int) (g : α → Int) (l : List α) :
    sumOf (fun a => c * g a) l = c * sumOf g l := by
  induction l with
  | nil => simp
  | cons a rest ih => rw [sumOf_cons, sumOf_cons, ih, mul_add]

theorem sumOf_sum (g : Nat → α → Int) (n : Nat) (l : List α) :
    sumOf (fun a => ∑ d ∈ range n, g d a) l = ∑ d ∈ range n, sumOf (g d) l := by
  induction n with
  | zero => simp [sumOf_eq_zero]
  | succ n ih => simp only [sum_range_succ, sumOf_add, ih]

theorem sumOf_comm {β : Type u} (g : α → β → Int) (l : List α) (l' : List β) :
    sumOf (fun a => sumOf (g a) l') l = sumOf (fun b => sumOf (fun a => g a b) l) l' := by
  induction l with
  | nil => simp [sumOf_eq_zero]
  | cons a rest ih =>
      rw [sumOf_cons, ih, ← sumOf_add]
      rfl

/-- The weight of the objects `k` links below `p`. -/
def level (up : ν → Option ν) (key : α → ν) (w : α → Int) (l : List α) (k : Nat) (p : ν) : Int :=
  sumOf (fun a => hits up k (key a) p * w a) l

/-- **A tree hung below `q`** brings its levels to what is above `q`. -/
theorem level_attach (hx : up x = none) (hq : ∀ k, ancestor up k q ≠ some x) (k : Nat) (p : ν) :
    level (Function.update up x (some q)) key w l k p =
      level up key w l k p +
        ∑ d ∈ range k, hits up d q p * level up key w l (k - 1 - d) x := by
  unfold level
  simp only [← sumOf_mul_left]
  rw [← sumOf_sum, ← sumOf_add]
  apply sumOf_congr
  intro a _
  rw [hits_attach hx hq, add_mul, sum_mul]
  congr 1
  apply sum_congr rfl
  intro d _
  ring

/-- The levels below a node do not depend on where it points. -/
theorem Acyclic.level_detach (h : Acyclic up) (k : Nat) :
    level (Function.update up x none) key w l k x = level up key w l k x := by
  cases hx : up x with
  | none =>
      have hsame : Function.update up x none = up := by rw [← hx, Function.update_eq_self]
      rw [hsame]
  | some q =>
      have havoid := h.avoids hx
      have hup : Function.update (Function.update up x none) x (some q) = up := by
        rw [Function.update_idem, ← hx, Function.update_eq_self]
      conv_rhs => rw [← hup, level_attach (Function.update_self x none up) havoid]
      rw [sum_eq_zero, add_zero]
      intro d _
      rw [hits_eq_zero (havoid d), zero_mul]

theorem level_zero_of_nodup (h : (l.map key).Nodup) {a : α} (ha : a ∈ l) :
    level up key w l 0 (key a) = w a := by
  rw [level, sumOf_eq_single h ha, hits_zero, if_pos rfl, one_mul]
  intro b _ hne
  rw [hits_zero, if_neg hne, zero_mul]

/-! ## Weights that meet at chosen roots -/

section

variable {nodes : List ν} {chosen : ν → Prop} [DecidablePred chosen]
  (hroot : ∀ p ∈ nodes, chosen p → up p = none)

include hroot

/-- The chain of a node meets at most one of the chosen roots, and once. -/
theorem sumOf_hits_roots (hnodup : nodes.Nodup) (n : Nat) (x : ν) :
    sumOf (fun p => if chosen p then ∑ k ∈ range n, hits up k x p else 0) nodes =
      if ∃ p ∈ nodes, chosen p ∧ ∃ k ∈ List.range n, ancestor up k x = some p then 1 else 0 := by
  split
  next hmeets =>
    obtain ⟨p, hp, hchosen, k, hk, hkp⟩ := hmeets
    have hpath : ∑ j ∈ range n, hits up j x p = 1 := by
      rw [sum_eq_single k]
      · exact if_pos hkp
      · intro j _ hne
        apply hits_eq_zero
        intro hjp
        exact hne (ancestor_root_unique hjp (hroot p hp hchosen) hkp (hroot p hp hchosen)).1
      · intro hnot
        exact absurd (mem_range.mpr (List.mem_range.mp hk)) hnot
    have hids : (nodes.map id).Nodup := by rwa [List.map_id]
    rw [sumOf_eq_single hids hp, if_pos hchosen, hpath]
    intro q hq hne
    split
    · apply sum_eq_zero
      intro j _
      apply hits_eq_zero
      intro hjq
      exact hne (ancestor_root_unique hjq (hroot q hq ‹_›) hkp (hroot p hp hchosen)).2
    · rfl
  next hnone =>
    apply sumOf_eq_zero
    intro p hp
    split
    · apply sum_eq_zero
      intro k hk
      apply hits_eq_zero
      exact fun hkp => hnone ⟨p, hp, ‹_›, k, List.mem_range.mpr (mem_range.mp hk), hkp⟩
    · rfl

/-- **What is below the chosen roots** is the weight of the objects whose chain
ends at one of them. -/
theorem sumOf_level_roots (hnodup : nodes.Nodup) (n : Nat) :
    sumOf (fun p => if chosen p then ∑ k ∈ range n, level up key w l k p else 0) nodes =
      sumOf (fun a => if ∃ p ∈ nodes, chosen p ∧ ∃ k ∈ List.range n, ancestor up k (key a) = some p
        then w a else 0) l := by
  have hlevel : ∀ p, (if chosen p then ∑ k ∈ range n, level up key w l k p else 0) =
      sumOf (fun a => w a * if chosen p then ∑ k ∈ range n, hits up k (key a) p else 0) l := by
    intro p
    split
    · unfold level
      rw [← sumOf_sum]
      apply sumOf_congr
      intro a _
      rw [← sum_mul, mul_comm]
    · simp [sumOf_eq_zero]
  simp only [hlevel]
  rw [sumOf_comm]
  apply sumOf_congr
  intro a _
  rw [sumOf_mul_left, sumOf_hits_roots hroot hnodup]
  split
  · rw [mul_one]
  · rw [mul_zero]

end

/-! ## Chains that are cut off -/

section

variable {nodes : List ν} (hnodup : nodes.Nodup) (hclosed : ∀ a p, up a = some p → p ∈ nodes)

include hnodup hclosed

/-- A chain of at most `n` links meets one root, or else comes to one node over
exactly `n` links. -/
theorem sumOf_hits_ends (n : Nat) {x : ν} (hx : x ∈ nodes) :
    sumOf (fun p => if up p = none then ∑ k ∈ range (n + 1), hits up k x p else hits up n x p)
      nodes = 1 := by
  have hids : (nodes.map id).Nodup := by rwa [List.map_id]
  induction n generalizing x with
  | zero =>
      rw [sumOf_eq_single hids hx]
      · simp [hits_zero]
      · intro p _ hne
        have hne : x ≠ p := Ne.symm hne
        simp [hits_zero, hne]
  | succ n ih =>
      cases hup : up x with
      | none =>
          rw [sumOf_eq_single hids hx, if_pos hup, sum_range_succ', hits_zero, if_pos rfl]
          · simp [hits_succ_of_none hup]
          · intro p _ hne
            have hne : x ≠ p := Ne.symm hne
            rw [sum_range_succ', hits_zero, if_neg hne]
            simp [hits_succ_of_none hup]
      | some y =>
          rw [← ih (hclosed x y hup)]
          apply sumOf_congr
          intro p _
          split
          next hroot =>
            have hne : x ≠ p := by
              rintro rfl
              rw [hroot] at hup
              cases hup
            rw [sum_range_succ', hits_zero, if_neg hne, add_zero]
            simp only [hits_succ_of_some hup]
          next => exact hits_succ_of_some hup n p

/-- **Every weight is at one end**: at the root of its chain, or where the chain
is cut off after `n` links. -/
theorem sumOf_level_ends (hkeys : ∀ a ∈ l, key a ∈ nodes) (n : Nat) :
    sumOf (fun p => if up p = none then ∑ k ∈ range (n + 1), level up key w l k p
      else level up key w l n p) nodes = sumOf w l := by
  have hlevel : ∀ p, (if up p = none then ∑ k ∈ range (n + 1), level up key w l k p
      else level up key w l n p) = sumOf (fun a => w a * if up p = none then
        ∑ k ∈ range (n + 1), hits up k (key a) p else hits up n (key a) p) l := by
    intro p
    unfold level
    split
    · rw [← sumOf_sum]
      apply sumOf_congr
      intro a _
      rw [← sum_mul, mul_comm]
    · apply sumOf_congr
      intro a _
      rw [mul_comm]
  simp only [hlevel]
  rw [sumOf_comm]
  apply sumOf_congr
  intro a ha
  rw [sumOf_mul_left, sumOf_hits_ends hnodup hclosed n (hkeys a ha), mul_one]

end

end

end Gamebank.Lib
