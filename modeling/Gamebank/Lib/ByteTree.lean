import Gamebank.Lib.HashTree
import Mathlib.Data.List.Forall2

/-!
# Hash trees over byte strings

The digest of a leaf is the hash of its bytes, that of an inner node the hash
of the two digests below it, one behind the other. Trees with the same digest
have the same leaves if the hash does not collide on what is hashed in them,
and no leaf is as long as two digests: such a leaf could pass for an inner
node.
-/

namespace Gamebank.Lib.HashTree

variable {n : Nat} (hash : List UInt8 → Vector UInt8 n)

/-- The bytes whose hash is the digest of the tree. -/
def preimage : HashTree (List UInt8) → List UInt8
  | leaf bytes => bytes
  | node left right => (hash (preimage left)).toList ++ (hash (preimage right)).toList

/-- Everything that is hashed in the tree. -/
def hashed : HashTree (List UInt8) → List (List UInt8)
  | leaf bytes => [bytes]
  | node left right => preimage hash (node left right) :: (hashed left ++ hashed right)

theorem preimage_mem_hashed (t : HashTree (List UInt8)) : preimage hash t ∈ hashed hash t := by
  cases t with
  | leaf bytes => exact List.mem_singleton_self bytes
  | node left right => exact List.mem_cons_self

theorem length_preimage_node (left right : HashTree (List UInt8)) :
    (preimage hash (node left right)).length = n + n := by
  rw [preimage, List.length_append, Vector.length_toList, Vector.length_toList]

/-- The tree that is formed over byte strings, and the digest the loops of a
root make of their hashes. -/
theorem reduce_eq_hash {join : Vector UInt8 n → Vector UInt8 n → Vector UInt8 n}
    (hjoin : ∀ a b, join a b = hash (a.toList ++ b.toList)) {l : List (List UInt8)} (h : l ≠ []) :
    ∃ t, reduce node (l.map leaf) = some t ∧ t.frontier = l ∧
      reduce join (l.map hash) = some (hash (preimage hash t)) := by
  obtain ⟨t, ht, hleaves⟩ := reduce_frontier (l.map leaf) (by simpa using h)
  refine ⟨t, ht, ?_, ?_⟩
  · rw [hleaves, List.flatMap_map]
    exact List.flatMap_singleton' l
  · have hmap : l.map hash = (l.map leaf).map fun t => hash (preimage hash t) := by
      rw [List.map_map]
      rfl
    have hnode : ∀ left right, hash (preimage hash (node left right)) =
        join (hash (preimage hash left)) (hash (preimage hash right)) :=
      fun left right => (hjoin _ _).symm
    rw [hmap, reduce_map (f := fun t => hash (preimage hash t)) hnode, ht, Option.map_some]

/-- No two of the byte strings have the same hash. -/
def Apart {β : Type} (hash : List UInt8 → β) (strings : List (List UInt8)) : Prop :=
  ∀ x ∈ strings, ∀ y ∈ strings, hash x = hash y → x = y

theorem Apart.mono {β : Type} {hash : List UInt8 → β} {strings strings' : List (List UInt8)}
    (h : Apart hash strings) (hsub : strings' ⊆ strings) : Apart hash strings' :=
  fun x hx y hy => h x (hsub hx) y (hsub hy)

/-- **Trees are determined by their digests.** -/
theorem frontier_eq_of_hash_eq {t t' : HashTree (List UInt8)}
    (happart : Apart hash (hashed hash t ++ hashed hash t'))
    (hleaf : ∀ bytes ∈ t.frontier ++ t'.frontier, bytes.length ≠ n + n)
    (h : hash (preimage hash t) = hash (preimage hash t')) : t.frontier = t'.frontier := by
  have hbytes : preimage hash t = preimage hash t' := happart _
    (List.mem_append_left _ (preimage_mem_hashed hash t)) _
    (List.mem_append_right _ (preimage_mem_hashed hash t')) h
  induction t generalizing t' with
  | leaf bytes =>
      cases t' with
      | leaf bytes' => exact congrArg (fun x => [x]) hbytes
      | node left right =>
          have hlength := length_preimage_node hash left right
          rw [← hbytes] at hlength
          exact absurd hlength (hleaf bytes (by simp [frontier]))
  | node left right ihl ihr =>
      cases t' with
      | leaf bytes =>
          have hlength := length_preimage_node hash left right
          rw [hbytes] at hlength
          exact absurd hlength (hleaf bytes (by simp [frontier]))
      | node left' right' =>
          obtain ⟨hl, hr⟩ := List.append_inj hbytes (by simp)
          have hl := Vector.toList_inj.mp hl
          have hr := Vector.toList_inj.mp hr
          have hsubl : hashed hash left ++ hashed hash left' ⊆
              hashed hash (node left right) ++ hashed hash (node left' right') := by
            intro x
            simp only [hashed, List.mem_append, List.mem_cons]
            tauto
          have hsubr : hashed hash right ++ hashed hash right' ⊆
              hashed hash (node left right) ++ hashed hash (node left' right') := by
            intro x
            simp only [hashed, List.mem_append, List.mem_cons]
            tauto
          have hsame : ∀ {u u' : HashTree (List UInt8)},
              hashed hash u ++ hashed hash u' ⊆
                hashed hash (node left right) ++ hashed hash (node left' right') →
              hash (preimage hash u) = hash (preimage hash u') →
              preimage hash u = preimage hash u' := fun hsub hu =>
            happart.mono hsub _ (List.mem_append_left _ (preimage_mem_hashed hash _)) _
              (List.mem_append_right _ (preimage_mem_hashed hash _)) hu
          rw [frontier, frontier,
            ihl (happart.mono hsubl) (fun x hx => hleaf x ?_) hl (hsame hsubl hl),
            ihr (happart.mono hsubr) (fun x hx => hleaf x ?_) hr (hsame hsubr hr)]
          · simp only [frontier, List.mem_append] at hx ⊢
            tauto
          · simp only [frontier, List.mem_append] at hx ⊢
            tauto

end Gamebank.Lib.HashTree
