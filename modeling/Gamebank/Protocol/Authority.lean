import Mathlib.Algebra.GroupWithZero.Nat
import Mathlib.Data.List.Basic

/-!
# Authorities

`authority.hpp`: a threshold, and the weights of keys and of accounts. A flat
map is the list of its entries.
-/

namespace Gamebank.Protocol

/-- `authority`. -/
structure Authority (Key : Type) where
  weightThreshold : UInt32
  accountAuths : List (String × UInt16)
  keyAuths : List (Key × UInt16)
deriving DecidableEq

variable {Key : Type}

/-- The weight of the entries that meet `p`. -/
def weightWhere {α : Type} (p : α → Bool) (auths : List (α × UInt16)) : Nat :=
  (auths.map fun item => if p item.1 then item.2.toNat else 0).sum

section Weights

variable {α : Type} {p q : α → Bool} {a : α} {weight : UInt16} {auths : List (α × UInt16)}

@[simp] theorem weightWhere_nil : weightWhere p [] = 0 := rfl

theorem weightWhere_cons : weightWhere p ((a, weight) :: auths) =
    (if p a then weight.toNat else 0) + weightWhere p auths := by
  rw [weightWhere, List.map_cons, List.sum_cons]
  rfl

theorem weightWhere_append {front back : List (α × UInt16)} :
    weightWhere p (front ++ back) = weightWhere p front + weightWhere p back := by
  rw [weightWhere, List.map_append, List.sum_append]
  rfl

/-- Only the entries that weigh anything count. -/
theorem weightWhere_le (h : ∀ item ∈ auths, item.2 ≠ 0 → p item.1 = true → q item.1 = true) :
    weightWhere p auths ≤ weightWhere q auths := by
  induction auths with
  | nil => exact Nat.le_refl 0
  | cons item rest ih =>
      obtain ⟨a, weight⟩ := item
      have hrest := ih fun item hitem => h item (List.mem_cons_of_mem _ hitem)
      have hhead := h (a, weight) List.mem_cons_self
      rw [weightWhere_cons, weightWhere_cons]
      by_cases hp : p a = true
      · by_cases hw : weight = 0
        · have hzero : weight.toNat = 0 := by rw [hw]; rfl
          simp only [hzero, ite_self]
          omega
        · rw [if_pos hp, if_pos (hhead hw hp)]
          omega
      · rw [if_neg hp]
        omega

theorem weightWhere_mono (auths : List (α × UInt16)) (h : ∀ a, p a = true → q a = true) :
    weightWhere p auths ≤ weightWhere q auths :=
  weightWhere_le fun item _ _ => h item.1

/-- There are no more entries that weigh anything than they weigh. -/
theorem length_filter_le_weightWhere : (auths.filter fun item => p item.1 && item.2 ≠ 0).length ≤
    weightWhere (fun _ => true) auths := by
  induction auths with
  | nil => exact Nat.le_refl 0
  | cons item rest ih =>
      obtain ⟨a, weight⟩ := item
      rw [weightWhere_cons, if_pos rfl]
      by_cases hitem : (p a && weight ≠ 0) = true
      · have hpos : 0 < weight.toNat := by
          refine Nat.pos_of_ne_zero fun h => ?_
          have := (Bool.and_eq_true_iff.mp hitem).2
          exact of_decide_eq_true this (UInt16.toNat_inj.mp h)
        rw [List.filter_cons_of_pos (p := fun item : α × UInt16 => p item.1 && item.2 ≠ 0) hitem,
          List.length_cons]
        omega
      · rw [List.filter_cons_of_neg (p := fun item : α × UInt16 => p item.1 && item.2 ≠ 0) hitem]
        omega

/-- Entries of one weight. -/
theorem weightWhere_map {l : List α}
    (h : ∀ a ∈ l, p a = true) :
    weightWhere p (l.map fun a => (a, weight)) = l.length * weight.toNat := by
  induction l with
  | nil => rw [List.map_nil, weightWhere_nil, List.length_nil, Nat.zero_mul]
  | cons a l ih =>
      rw [List.map_cons, weightWhere_cons, if_pos (h a List.mem_cons_self),
        ih fun b hb => h b (List.mem_cons_of_mem a hb), List.length_cons, Nat.add_mul, Nat.one_mul,
        Nat.add_comm]

theorem weightWhere_le_all : weightWhere p auths ≤ weightWhere (fun _ => true) auths :=
  weightWhere_mono auths fun _ _ => rfl

end Weights

namespace Authority

/-- `is_impossible`: the weights do not reach the threshold. -/
def isImpossible (a : Authority Key) : Bool :=
  weightWhere (fun _ => true) a.accountAuths + weightWhere (fun _ => true) a.keyAuths <
    a.weightThreshold.toNat

/-- The weight of the signed keys and the approved accounts. -/
def weight (signed : Key → Bool) (approved : String → Bool) (a : Authority Key) : Nat :=
  weightWhere signed a.keyAuths + weightWhere approved a.accountAuths

/-- The signed keys and the approved accounts reach the threshold. -/
def reached (signed : Key → Bool) (approved : String → Bool) (a : Authority Key) : Bool :=
  a.weightThreshold.toNat ≤ a.weight signed approved

/-- All the weights fit in 32 bits. -/
def Fits (a : Authority Key) : Prop :=
  a.weight (fun _ => true) (fun _ => true) < 4294967296

theorem reached_mono {a : Authority Key} {signed : Key → Bool} {p q : String → Bool}
    (h : ∀ name, p name = true → q name = true) (hp : a.reached signed p = true) :
    a.reached signed q = true := by
  unfold reached weight at *
  rw [decide_eq_true_eq] at *
  have := weightWhere_mono a.accountAuths h
  omega

/-! ## All accounts needed -/

/-- The accounts of the authority that meet `p` and weigh anything. -/
def backers (p : String → Bool) (a : Authority Key) : List String :=
  (a.accountAuths.filter fun item => p item.1 && item.2 ≠ 0).map Prod.fst

theorem of_mem_backers {p : String → Bool} {a : Authority Key} {name : String}
    (h : name ∈ a.backers p) : p name = true := by
  obtain ⟨item, hitem, rfl⟩ := List.mem_map.mp h
  have hmem := List.of_mem_filter hitem
  exact (Bool.and_eq_true_iff.mp hmem).1

theorem length_backers_lt (p : String → Bool) {a : Authority Key} (h : a.Fits) :
    (a.backers p).length < 4294967296 := by
  unfold Fits weight at h
  have hle : (a.backers p).length ≤ weightWhere (fun _ => true) a.accountAuths := by
    rw [backers, List.length_map]
    exact length_filter_le_weightWhere
  omega

/-- The backers are enough. -/
theorem reached_of_backers {p q : String → Bool} {signed : Key → Bool} {a : Authority Key}
    (h : ∀ name ∈ a.backers p, q name = true) (hp : a.reached signed p = true) :
    a.reached signed q = true := by
  unfold reached weight at *
  rw [decide_eq_true_eq] at *
  have hcount : weightWhere p a.accountAuths ≤ weightWhere q a.accountAuths := by
    refine weightWhere_le fun item hitem hweight happroved => h item.1 ?_
    exact List.mem_map_of_mem (List.mem_filter.mpr ⟨hitem, by simp [happroved, hweight]⟩)
  omega

/-- An authority that all its accounts are needed for. -/
def allOf (names : List String) : Authority Key :=
  ⟨UInt32.ofNat names.length, names.map fun a => (a, 1), []⟩

theorem weight_allOf (p : String → Bool) (signed : Key → Bool) (names : List String) :
    (allOf names : Authority Key).weight signed p = names.countP p := by
  unfold Authority.weight allOf
  rw [weightWhere_nil, Nat.zero_add]
  dsimp only
  induction names with
  | nil => rfl
  | cons a names ih =>
      rw [List.map_cons, weightWhere_cons, ih, List.countP_cons, Nat.add_comm]
      rfl

theorem fits_allOf {names : List String} (h : names.length < 4294967296) :
    (allOf names : Authority Key).Fits := by
  unfold Authority.Fits
  rw [weight_allOf]
  exact Nat.lt_of_le_of_lt List.countP_le_length h

theorem reached_allOf {p : String → Bool} {signed : Key → Bool} {names : List String}
    (h : names.length < 4294967296) :
    (allOf names : Authority Key).reached signed p = true ↔ ∀ a ∈ names, p a = true := by
  have hthreshold : (allOf names : Authority Key).weightThreshold.toNat = names.length := by
    show (UInt32.ofNat names.length).toNat = _
    exact UInt32.toNat_ofNat_of_lt' h
  unfold Authority.reached
  rw [decide_eq_true_eq, weight_allOf, hthreshold]
  constructor
  · intro hle
    exact List.countP_eq_length.mp (Nat.le_antisymm List.countP_le_length hle)
  · intro hall
    exact Nat.le_of_eq (List.countP_eq_length.mpr hall).symm

end Authority

end Gamebank.Protocol
