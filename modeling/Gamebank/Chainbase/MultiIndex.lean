import Gamebank.Lib.IdMap

/-!
# The container under a generic index

`boost::multi_index_container` as `chainbase::generic_index` uses it: a
set of objects with the unique primary key `id` and any number of unique
secondary keys. Non-unique indices order the objects but never refuse
one, so they do not appear.

Two behaviours of the library matter to the code above it:
* `emplace` inserts nothing when a unique key is already taken;
* `modify` puts the new value in place, and when that value violates a
  unique key it **erases the element** and reports failure.
-/

namespace Gamebank.Chainbase

open Gamebank.Lib

universe u

/-- A unique secondary key: the key extractor of a `hashed_unique` or
`ordered_unique` index, with decidable equality of keys. -/
structure UniqueKey (V : Type u) where
  Key : Type
  decEq : DecidableEq Key
  key : V → Key

variable {V : Type u}

/-- Some unique key gives both objects the same value. -/
def clashes (keys : List (UniqueKey V)) (a b : V) : Bool :=
  keys.any fun k => @decide (k.key a = k.key b) (k.decEq _ _)

theorem clashes_eq_true_iff {keys : List (UniqueKey V)} {a b : V} :
    clashes keys a b = true ↔ ∃ k ∈ keys, k.key a = k.key b := by
  simp [clashes]

theorem clashes_comm (keys : List (UniqueKey V)) (a b : V) :
    clashes keys a b = clashes keys b a := by
  rw [Bool.eq_iff_iff, clashes_eq_true_iff, clashes_eq_true_iff]
  simp only [eq_comm]

@[simp] theorem clashes_nil (a b : V) : clashes [] a b = false := rfl

/-- No two objects share a unique key. -/
def Unique (keys : List (UniqueKey V)) (rows : IdMap V) : Prop :=
  ∀ i j a b, i ≠ j → rows.find? i = some a → rows.find? j = some b → clashes keys a b = false

/-- `v` under the id `id` shares no unique key with any other object. -/
def fits (keys : List (UniqueKey V)) (rows : IdMap V) (id : Nat) (v : V) : Bool :=
  rows.entries.all fun e => e.1 = id || !clashes keys e.2 v

theorem fits_iff {keys : List (UniqueKey V)} {rows : IdMap V} {id : Nat} {v : V} :
    fits keys rows id v = true ↔
      ∀ j w, j ≠ id → rows.find? j = some w → clashes keys w v = false := by
  simp only [fits, List.all_eq_true, Bool.or_eq_true, decide_eq_true_eq, Bool.not_eq_true',
    Prod.forall, IdMap.mem_entries_iff]
  constructor
  · intro h j w hj hw
    exact (h j w hw).resolve_left hj
  · intro h j w hw
    by_cases hj : j = id
    · exact Or.inl hj
    · exact Or.inr (h j w hj hw)

theorem fits_nil (rows : IdMap V) (id : Nat) (v : V) : fits [] rows id v = true :=
  fits_iff.mpr fun _ _ _ _ => rfl

theorem Unique.empty (keys : List (UniqueKey V)) : Unique keys ∅ := by
  intro i j a b _ ha
  simp at ha

theorem Unique.insert {keys : List (UniqueKey V)} {rows : IdMap V} (h : Unique keys rows)
    {id : Nat} {v : V} (hv : fits keys rows id v = true) : Unique keys (rows.insert id v) := by
  rw [fits_iff] at hv
  intro i j a b hij ha hb
  rw [IdMap.find?_insert] at ha hb
  split at ha
  · rename_i hi
    split at hb
    · omega
    · rename_i hj
      simp only [Option.some.injEq] at ha
      subst ha
      rw [clashes_comm]
      exact hv j b hj hb
  · rename_i hi
    split at hb
    · simp only [Option.some.injEq] at hb
      subst hb
      exact hv i a hi ha
    · exact h i j a b hij ha hb

theorem Unique.erase {keys : List (UniqueKey V)} {rows : IdMap V} (h : Unique keys rows)
    (id : Nat) : Unique keys (rows.erase id) := by
  intro i j a b hij ha hb
  rw [IdMap.find?_erase] at ha hb
  split at ha
  · simp at ha
  · split at hb
    · simp at hb
    · exact h i j a b hij ha hb

/-- The container: objects by id, no unique key taken twice. -/
structure MultiIndex (keys : List (UniqueKey V)) where
  rows : IdMap V
  unique : Unique keys rows

namespace MultiIndex

variable {keys : List (UniqueKey V)}

theorem ext_rows {m n : MultiIndex keys} (h : m.rows = n.rows) : m = n := by
  cases m
  cases n
  subst h
  rfl

instance [DecidableEq V] : DecidableEq (MultiIndex keys) := fun m n =>
  decidable_of_iff (m.rows = n.rows) ⟨ext_rows, congrArg rows⟩

def empty : MultiIndex keys := ⟨∅, Unique.empty keys⟩

def find? (m : MultiIndex keys) (id : Nat) : Option V := m.rows.find? id

/-- `emplace`: `none` when the id or a unique key of `v` is taken. -/
def emplace (m : MultiIndex keys) (id : Nat) (v : V) : Option (MultiIndex keys) :=
  if h : m.rows.contains id = false ∧ fits keys m.rows id v = true then
    some ⟨m.rows.insert id v, m.unique.insert h.2⟩
  else none

def erase (m : MultiIndex keys) (id : Nat) : MultiIndex keys :=
  ⟨m.rows.erase id, m.unique.erase id⟩

/-- `modify` on the element `id`, whose new value is `v`: the container
afterwards and the flag `modify` returns. -/
def modify (m : MultiIndex keys) (id : Nat) (v : V) : MultiIndex keys × Bool :=
  if h : fits keys m.rows id v = true then (⟨m.rows.insert id v, m.unique.insert h⟩, true)
  else (m.erase id, false)

@[simp] theorem erase_rows (m : MultiIndex keys) (id : Nat) :
    (m.erase id).rows = m.rows.erase id := rfl

theorem emplace_eq_some {m n : MultiIndex keys} {id : Nat} {v : V} :
    m.emplace id v = some n ↔
      m.rows.find? id = none ∧ fits keys m.rows id v = true ∧ n.rows = m.rows.insert id v := by
  unfold emplace
  have hc : m.rows.contains id = false ↔ m.rows.find? id = none := by
    simp [IdMap.contains]
  by_cases h : m.rows.contains id = false ∧ fits keys m.rows id v = true
  · rw [dif_pos h]
    constructor
    · intro hn
      simp only [Option.some.injEq] at hn
      subst hn
      exact ⟨hc.mp h.1, h.2, rfl⟩
    · intro hn
      exact congrArg some (ext_rows hn.2.2.symm)
  · rw [dif_neg h]
    refine ⟨fun hn => by simp at hn, fun hn => absurd ⟨hc.mpr hn.1, hn.2.1⟩ h⟩

theorem modify_of_fits {m : MultiIndex keys} {id : Nat} {v : V}
    (h : fits keys m.rows id v = true) :
    (m.modify id v).1.rows = m.rows.insert id v ∧ (m.modify id v).2 = true := by
  simp [modify, h]

theorem modify_of_not_fits {m : MultiIndex keys} {id : Nat} {v : V}
    (h : fits keys m.rows id v = false) : m.modify id v = (m.erase id, false) := by
  simp [modify, h]

end MultiIndex

end Gamebank.Chainbase
