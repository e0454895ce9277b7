import Mathlib.Data.List.Basic

/-!
# Hash trees

A list is made into a binary tree level by level: neighbours are paired, and
an unpaired last node goes up unchanged, until one node is left (`reduce`).
The digest of a tree hashes the digests of its children. If the hash is
injective on pairs, and the digest of no leaf is one of an inner node, then
trees with the same digest have the same leaves, whatever their shape.
-/

namespace Gamebank.Lib

universe u v

/-- Binary trees with values at the leaves. -/
inductive HashTree (α : Type u) where
  | leaf (a : α)
  | node (left right : HashTree α)

namespace HashTree

variable {α : Type u} {β : Type v}

/-- The leaves, from left to right. -/
def frontier : HashTree α → List α
  | leaf a => [a]
  | node left right => left.frontier ++ right.frontier

/-- The digest of a tree with digests at its leaves. -/
def digest (hash : α → α → α) : HashTree α → α
  | leaf a => a
  | node left right => hash (left.digest hash) (right.digest hash)

end HashTree

/-- One level up: neighbours are joined, an unpaired last one stays. -/
def pairUp {α : Type u} (join : α → α → α) : List α → List α
  | a :: b :: rest => join a b :: pairUp join rest
  | [a] => [a]
  | [] => []

section Levels

variable {α : Type u} {β : Type v} {join : α → α → α}

theorem length_pairUp (join : α → α → α) (l : List α) :
    (pairUp join l).length = (l.length + 1) / 2 := by
  fun_induction pairUp join l with
  | case1 a b rest ih =>
      simp only [List.length_cons, ih]
      omega
  | case2 a => simp
  | case3 => simp

/-- With two nodes or more a level is shorter than the one below. -/
theorem length_pairUp_lt {l : List α} (h : 1 < l.length) :
    (pairUp join l).length < l.length := by
  rw [length_pairUp]
  omega

/-- Whole pairs go up before what follows. -/
theorem pairUp_append {l r : List α} (h : l.length % 2 = 0) :
    pairUp join (l ++ r) = pairUp join l ++ pairUp join r := by
  fun_induction pairUp join l with
  | case1 a b rest ih =>
      have hrest : rest.length % 2 = 0 := by
        simp only [List.length_cons] at h
        omega
      rw [List.cons_append, List.cons_append, pairUp, ih hrest, List.cons_append]
  | case2 a => simp at h
  | case3 => rfl

theorem pairUp_map {f : α → β} {join' : β → β → β} (hf : ∀ a b, f (join a b) = join' (f a) (f b))
    (l : List α) : (pairUp join l).map f = pairUp join' (l.map f) := by
  fun_induction pairUp join l with
  | case1 a b rest ih =>
      simp only [List.map_cons, pairUp, hf, ih]
  | case2 a => rfl
  | case3 => rfl

/-- Levels are formed until one node is left; there is none for an empty list. -/
def reduce (join : α → α → α) (l : List α) : Option α :=
  match l with
  | [] => none
  | [a] => some a
  | a :: b :: rest => reduce join (pairUp join (a :: b :: rest))
termination_by l.length
decreasing_by exact length_pairUp_lt (by simp)

@[simp] theorem reduce_nil : reduce join [] = none := by rw [reduce]

@[simp] theorem reduce_singleton (a : α) : reduce join [a] = some a := by rw [reduce]

theorem reduce_of_lt {l : List α} (h : 1 < l.length) :
    reduce join l = reduce join (pairUp join l) := by
  match l, h with
  | a :: b :: rest, _ => rw [reduce]

theorem reduce_map {f : α → β} {join' : β → β → β}
    (hf : ∀ a b, f (join a b) = join' (f a) (f b)) (l : List α) :
    reduce join' (l.map f) = (reduce join l).map f := by
  fun_induction reduce join l with
  | case1 => rw [List.map_nil, reduce_nil, Option.map_none]
  | case2 a => rw [List.map_cons, List.map_nil, reduce_singleton, Option.map_some]
  | case3 a b rest ih =>
      rw [reduce_of_lt (by simp), ← pairUp_map hf, ih]

end Levels

namespace HashTree

variable {α : Type u} {hash : α → α → α}

theorem frontier_pairUp (l : List (HashTree α)) :
    (pairUp node l).flatMap frontier = l.flatMap frontier := by
  fun_induction pairUp node l with
  | case1 a b rest ih =>
      simp only [List.flatMap_cons, ih, frontier, List.append_assoc]
  | case2 a => rfl
  | case3 => rfl

/-- The tree over a list of trees has all their leaves, in their order. -/
theorem reduce_frontier (l : List (HashTree α)) (h : l ≠ []) :
    ∃ t, reduce node l = some t ∧ t.frontier = l.flatMap frontier := by
  fun_induction reduce node l with
  | case1 => exact absurd rfl h
  | case2 a => exact ⟨a, rfl, by simp⟩
  | case3 a b rest ih =>
      obtain ⟨t, ht, hleaves⟩ := ih (by simp [pairUp])
      exact ⟨t, ht, hleaves.trans (frontier_pairUp (a :: b :: rest))⟩

/-- **Trees are determined by their digests**: only one list of leaves has
the digest. -/
theorem frontier_eq_of_digest_eq (hinj : ∀ a b c d, hash a b = hash c d → a = c ∧ b = d)
    {t t' : HashTree α} (hleaf : ∀ a ∈ t.frontier ++ t'.frontier, ∀ b c, a ≠ hash b c)
    (h : t.digest hash = t'.digest hash) : t.frontier = t'.frontier := by
  induction t generalizing t' with
  | leaf a =>
      cases t' with
      | leaf b => exact congrArg (fun x => [x]) h
      | node l r => exact absurd h (hleaf a (by simp [frontier]) _ _)
  | node l r ihl ihr =>
      cases t' with
      | leaf b => exact absurd h.symm (hleaf b (by simp [frontier]) _ _)
      | node l' r' =>
          obtain ⟨hl, hr⟩ := hinj _ _ _ _ h
          rw [frontier, frontier, ihl (fun a ha => hleaf a ?_) hl, ihr (fun a ha => hleaf a ?_) hr]
          · simp only [frontier, List.mem_append] at ha ⊢
            tauto
          · simp only [frontier, List.mem_append] at ha ⊢
            tauto

/-- The digests of the leaves reduced to one are the digest of a tree over them. -/
theorem reduce_eq_digest (hash : α → α → α) {l : List α} (h : l ≠ []) :
    ∃ t : HashTree α, t.frontier = l ∧ reduce hash l = some (t.digest hash) := by
  obtain ⟨t, ht, hleaves⟩ := reduce_frontier (l.map leaf) (by simpa using h)
  refine ⟨t, ?_, ?_⟩
  · rw [hleaves, List.flatMap_map]
    show l.flatMap (fun a => [a]) = l
    exact List.flatMap_singleton' l
  · have hmap : (l.map leaf).map (digest hash) = l := by
      rw [List.map_map]
      exact List.map_id l
    have hreduce : reduce hash ((l.map leaf).map (digest hash)) =
        (reduce node (l.map leaf)).map (digest hash) := reduce_map (fun a b => rfl) _
    rw [hmap] at hreduce
    rw [hreduce, ht, Option.map_some]

/-- Lists with the same reduced digest are equal. -/
theorem eq_of_reduce_eq (hinj : ∀ a b c d, hash a b = hash c d → a = c ∧ b = d) {l l' : List α}
    (hl : l ≠ []) (hl' : l' ≠ []) (hleaf : ∀ a ∈ l ++ l', ∀ b c, a ≠ hash b c)
    (h : reduce hash l = reduce hash l') : l = l' := by
  obtain ⟨t, rfl, ht⟩ := reduce_eq_digest hash hl
  obtain ⟨t', rfl, ht'⟩ := reduce_eq_digest hash hl'
  rw [ht, ht', Option.some.injEq] at h
  exact frontier_eq_of_digest_eq hinj hleaf h

end HashTree

end Gamebank.Lib
