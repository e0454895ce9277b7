import Mathlib.Data.List.Basic
import Mathlib.Algebra.BigOperators.Group.List.Basic

/-!
# Ordered maps keyed by a natural number

A finite map whose iteration order is the order of its keys: the value
model of an ordered associative container with integer ids. The entry
list is **strictly sorted**, so two maps with equal lookups are equal
(`IdMap.ext_find?`), and a fold over the entries has one possible order.

Everything is structural recursion on the entry list, so a concrete map
evaluates in the kernel.
-/

namespace Gamebank.Lib

universe u w

/-! ## Entry lists -/

section Entries

variable {V : Type u}

/-- The value stored under `k`, first entry wins. -/
def lookupEntry (k : Nat) : List (Nat × V) → Option V
  | [] => none
  | e :: rest => if e.1 = k then some e.2 else lookupEntry k rest

/-- Put `(k, v)` at its place in key order, replacing an entry with key `k`. -/
def insertEntry (k : Nat) (v : V) : List (Nat × V) → List (Nat × V)
  | [] => [(k, v)]
  | e :: rest =>
      if k < e.1 then (k, v) :: e :: rest
      else if k = e.1 then (k, v) :: rest
      else e :: insertEntry k v rest

/-- Drop every entry with key `k`. -/
def eraseEntry (k : Nat) (l : List (Nat × V)) : List (Nat × V) :=
  l.filter fun e => e.1 ≠ k

/-- Strictly increasing keys. -/
def Sorted (l : List (Nat × V)) : Prop :=
  l.Pairwise fun a b => a.1 < b.1

instance (l : List (Nat × V)) : Decidable (Sorted l) :=
  inferInstanceAs (Decidable (l.Pairwise _))

theorem lookupEntry_mem {k : Nat} {v : V} :
    ∀ {l : List (Nat × V)}, lookupEntry k l = some v → (k, v) ∈ l
  | [], h => by simp [lookupEntry] at h
  | (j, w) :: rest, h => by
      unfold lookupEntry at h
      by_cases hj : j = k
      · subst hj
        simp only [if_true, Option.some.injEq] at h
        subst h
        exact List.mem_cons_self
      · simp only [hj, if_false] at h
        exact List.mem_cons_of_mem _ (lookupEntry_mem h)

theorem lookupEntry_of_lt {k : Nat} {l : List (Nat × V)}
    (h : ∀ e ∈ l, k < e.1) : lookupEntry k l = none := by
  cases hl : lookupEntry k l with
  | none => rfl
  | some v =>
      have := h _ (lookupEntry_mem hl)
      omega

theorem lookupEntry_eq_some_iff {k : Nat} {v : V} {l : List (Nat × V)} (hs : Sorted l) :
    lookupEntry k l = some v ↔ (k, v) ∈ l := by
  refine ⟨lookupEntry_mem, ?_⟩
  induction l with
  | nil => simp
  | cons e rest ih =>
      obtain ⟨hlt, hrest⟩ := List.pairwise_cons.mp hs
      intro h
      rcases List.mem_cons.mp h with rfl | h
      · simp [lookupEntry]
      · have hne : e.1 ≠ k := Nat.ne_of_lt (hlt _ h)
        simpa [lookupEntry, hne] using ih hrest h

theorem mem_insertEntry {k : Nat} {v : V} {e : Nat × V} {l : List (Nat × V)}
    (h : e ∈ insertEntry k v l) : e = (k, v) ∨ e ∈ l := by
  induction l with
  | nil => simpa [insertEntry] using h
  | cons d rest ih =>
      unfold insertEntry at h
      split at h
      · simpa using h
      · split at h
        · rcases List.mem_cons.mp h with h | h
          · exact Or.inl h
          · exact Or.inr (List.mem_cons_of_mem _ h)
        · rcases List.mem_cons.mp h with rfl | h
          · exact Or.inr List.mem_cons_self
          · exact (ih h).imp_right (List.mem_cons_of_mem _)

theorem sorted_insertEntry (k : Nat) (v : V) {l : List (Nat × V)} (hs : Sorted l) :
    Sorted (insertEntry k v l) := by
  induction l with
  | nil => simp [insertEntry, Sorted]
  | cons e rest ih =>
      obtain ⟨hlt, hrest⟩ := List.pairwise_cons.mp hs
      unfold insertEntry
      split
      case isTrue hk =>
        refine List.pairwise_cons.mpr ⟨fun d hd => ?_, hs⟩
        rcases List.mem_cons.mp hd with rfl | hd
        · exact hk
        · exact Nat.lt_trans hk (hlt d hd)
      case isFalse hk =>
        split
        case isTrue hk' =>
          subst hk'
          exact List.pairwise_cons.mpr ⟨hlt, hrest⟩
        case isFalse hk' =>
          refine List.pairwise_cons.mpr ⟨fun d hd => ?_, ih hrest⟩
          rcases mem_insertEntry hd with rfl | hd
          · show e.1 < k
            omega
          · exact hlt d hd

theorem lookupEntry_insertEntry (j k : Nat) (v : V) (l : List (Nat × V)) :
    lookupEntry j (insertEntry k v l) = if j = k then some v else lookupEntry j l := by
  induction l with
  | nil => simp only [insertEntry, lookupEntry, eq_comm]
  | cons e rest ih =>
      unfold insertEntry
      split
      · simp only [lookupEntry, eq_comm]
      · split
        case isTrue hk =>
          subst hk
          by_cases hj : j = e.1
          · simp [lookupEntry, hj]
          · simp [lookupEntry, hj, Ne.symm hj]
        case isFalse hk =>
          simp only [lookupEntry, ih]
          by_cases hj : j = k
          · simp [hj, show e.1 ≠ k by omega]
          · simp [hj]

theorem lookupEntry_eraseEntry (j k : Nat) (l : List (Nat × V)) :
    lookupEntry j (eraseEntry k l) = if j = k then none else lookupEntry j l := by
  induction l with
  | nil => simp [eraseEntry, lookupEntry]
  | cons e rest ih =>
      unfold eraseEntry at ih ⊢
      by_cases hk : e.1 = k
      · rw [List.filter_cons_of_neg (by simpa using hk), ih]
        by_cases hj : j = k
        · simp [hj]
        · simp [lookupEntry, hj, show e.1 ≠ j by omega]
      · rw [List.filter_cons_of_pos (by simpa using hk)]
        simp only [lookupEntry, ih]
        by_cases hj : j = k
        · simp [hj, hk]
        · simp [hj]

/-- Sorted entry lists are determined by their lookups. -/
theorem Sorted.ext {l m : List (Nat × V)} (hl : Sorted l) (hm : Sorted m)
    (h : ∀ k, lookupEntry k l = lookupEntry k m) : l = m := by
  induction l generalizing m with
  | nil =>
      cases m with
      | nil => rfl
      | cons e rest => simpa [lookupEntry] using h e.1
  | cons e rest ih =>
      cases m with
      | nil => simpa [lookupEntry] using h e.1
      | cons d rest' =>
          obtain ⟨hlt, hrest⟩ := List.pairwise_cons.mp hl
          obtain ⟨hlt', hrest'⟩ := List.pairwise_cons.mp hm
          -- The heads carry the least key of each list, so they agree.
          have hkey : e.1 = d.1 := by
            have he := (lookupEntry_eq_some_iff hl).mpr (List.mem_cons_self (a := e))
            have hd := (lookupEntry_eq_some_iff hm).mpr (List.mem_cons_self (a := d))
            rw [h] at he
            rw [← h] at hd
            rcases List.mem_cons.mp (lookupEntry_mem he) with he | he
            · exact congrArg Prod.fst he
            · rcases List.mem_cons.mp (lookupEntry_mem hd) with hd | hd
              · exact (congrArg Prod.fst hd).symm
              · have := hlt _ hd
                have := hlt' _ he
                simp only at *
                omega
          have hval : e.2 = d.2 := by
            have := h e.1
            simpa [lookupEntry, hkey] using this
          have htail : rest = rest' := by
            refine ih hrest hrest' fun k => ?_
            by_cases hk : e.1 = k
            · subst hk
              rw [lookupEntry_of_lt hlt, hkey, lookupEntry_of_lt hlt']
            · have := h k
              simpa [lookupEntry, hk, ← hkey] using this
          rw [htail, Prod.ext hkey hval]

end Entries

/-! ## The map -/

/-- A finite map from ids to values, its entries strictly sorted by id. -/
structure IdMap (V : Type u) where
  entries : List (Nat × V)
  sorted : Sorted entries

namespace IdMap

variable {V : Type u}

@[ext]
theorem ext_entries {m n : IdMap V} (h : m.entries = n.entries) : m = n := by
  cases m
  cases n
  subst h
  rfl

instance [DecidableEq V] : DecidableEq (IdMap V) := fun m n =>
  decidable_of_iff (m.entries = n.entries) ⟨ext_entries, congrArg entries⟩

def empty : IdMap V := ⟨[], List.Pairwise.nil⟩

instance : EmptyCollection (IdMap V) := ⟨empty⟩

instance : Inhabited (IdMap V) := ⟨empty⟩

def find? (m : IdMap V) (k : Nat) : Option V := lookupEntry k m.entries

def contains (m : IdMap V) (k : Nat) : Bool := (m.find? k).isSome

def insert (m : IdMap V) (k : Nat) (v : V) : IdMap V :=
  ⟨insertEntry k v m.entries, sorted_insertEntry k v m.sorted⟩

def erase (m : IdMap V) (k : Nat) : IdMap V :=
  ⟨eraseEntry k m.entries, List.Pairwise.sublist List.filter_sublist m.sorted⟩

/-- Insertion that leaves an entry already there alone. -/
def emplace (m : IdMap V) (k : Nat) (v : V) : IdMap V :=
  if m.contains k then m else m.insert k v

theorem ext_find? {m n : IdMap V} (h : ∀ k, m.find? k = n.find? k) : m = n :=
  ext_entries (Sorted.ext m.sorted n.sorted h)

@[simp] theorem find?_empty (k : Nat) : (∅ : IdMap V).find? k = none := rfl

theorem find?_insert (m : IdMap V) (k : Nat) (v : V) (j : Nat) :
    (m.insert k v).find? j = if j = k then some v else m.find? j :=
  lookupEntry_insertEntry j k v m.entries

@[simp] theorem find?_insert_self (m : IdMap V) (k : Nat) (v : V) :
    (m.insert k v).find? k = some v := by
  simp [find?_insert]

theorem find?_erase (m : IdMap V) (k j : Nat) :
    (m.erase k).find? j = if j = k then none else m.find? j :=
  lookupEntry_eraseEntry j k m.entries

@[simp] theorem find?_erase_self (m : IdMap V) (k : Nat) : (m.erase k).find? k = none := by
  simp [find?_erase]

theorem find?_emplace (m : IdMap V) (k : Nat) (v : V) (j : Nat) :
    (m.emplace k v).find? j = if j = k then some ((m.find? k).getD v) else m.find? j := by
  unfold emplace contains
  cases hk : m.find? k with
  | none => simp [find?_insert]
  | some w =>
      by_cases hj : j = k
      · simp [hj, hk]
      · simp [hj]

theorem contains_iff {m : IdMap V} {k : Nat} : m.contains k = true ↔ m.find? k ≠ none := by
  simp [contains, Option.isSome_iff_ne_none]

theorem mem_entries_iff {m : IdMap V} {k : Nat} {v : V} :
    (k, v) ∈ m.entries ↔ m.find? k = some v :=
  (lookupEntry_eq_some_iff m.sorted).symm

end IdMap

end Gamebank.Lib
