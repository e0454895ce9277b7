import Gamebank.Lib.Table

/-!
# Tables with a unique key

Objects that have an id and a key, with no two of one id or of one key. Each
update of such a table keeps that (`Keyed`), and says which objects there are
afterwards: the objects of other keys, and the one that was put there.
-/

namespace Gamebank.Lib.Table

variable {α κ : Type}

structure Keyed (id : α → Nat) (key : α → κ) (t : Table α) : Prop where
  ids : (t.rows.map id).Nodup
  keys : (t.rows.map key).Nodup
  fresh : ∀ a ∈ t.rows, id a < t.nextId

namespace Keyed

variable {id : α → Nat} {key : α → κ} {t : Table α} {a b : α}

theorem empty : Keyed id key (empty : Table α) :=
  ⟨List.nodup_nil, List.nodup_nil, fun _ h => nomatch h⟩

/-! ## Creating -/

section

variable {object : Nat → α} (hkey : ∀ a ∈ t.rows, key a ≠ key (object t.nextId))

include hkey

theorem create (h : Keyed id key t) (hid : ∀ n, id (object n) = n) :
    Keyed id key (t.create object) := by
  refine ⟨?_, ?_, fun b hb => ?_⟩
  · refine nodup_map_append_single h.ids fun c hc => ?_
    rw [hid]
    exact (h.fresh c hc).ne
  · exact nodup_map_append_single h.keys hkey
  · show id b < t.nextId + 1
    rcases List.mem_append.mp hb with hb | hb
    · exact Nat.lt_succ_of_lt (h.fresh b hb)
    · rw [List.mem_singleton.mp hb, hid]
      exact Nat.lt_succ_self _

theorem mem_create (hb : b ∈ (t.create object).rows) :
    (b ∈ t.rows ∧ key b ≠ key (object t.nextId)) ∨ b = object t.nextId := by
  rcases List.mem_append.mp hb with hb | hb
  · exact Or.inl ⟨hb, hkey b hb⟩
  · exact Or.inr (List.mem_singleton.mp hb)

end

/-! ## Modifying -/

theorem replaces (h : Keyed id key t) (ha : a ∈ t.rows) (f : α → α) :
    Replaces a (f a) t.rows (t.modify (fun c => id c = id a) f).rows :=
  replaces_modifyFirst (find?_eq_some_of_nodup h.ids ha) f

theorem replace (h : Keyed id key t) {l : List α} (hreplaces : Replaces a b t.rows l)
    (hid : id b = id a) (hkey : key b = key a) : Keyed id key ⟨t.nextId, l⟩ := by
  refine ⟨?_, ?_, fun c hc => ?_⟩
  · rw [hreplaces.map_eq hid]
    exact h.ids
  · rw [hreplaces.map_eq hkey]
    exact h.keys
  · rcases hreplaces.mem_or h.ids hc with rfl | ⟨hc, -⟩
    · rw [hid]
      exact h.fresh a hreplaces.mem_old
    · exact h.fresh c hc

theorem modify (h : Keyed id key t) (ha : a ∈ t.rows) {f : α → α} (hid : id (f a) = id a)
    (hkey : key (f a) = key a) : Keyed id key (t.modify (fun c => id c = id a) f) :=
  h.replace (h.replaces ha f) hid hkey

theorem mem_modify (h : Keyed id key t) (ha : a ∈ t.rows) {f : α → α}
    (hb : b ∈ (t.modify (fun c => id c = id a) f).rows) :
    (b ∈ t.rows ∧ key b ≠ key a) ∨ b = f a :=
  ((h.replaces ha f).mem_or h.keys hb).symm

/-! ## Removing -/

theorem sublist (h : Keyed id key t) {l : List α} (hl : l.Sublist t.rows) :
    Keyed id key ⟨t.nextId, l⟩ :=
  ⟨(hl.map _).nodup h.ids, (hl.map _).nodup h.keys, fun b hb => h.fresh b (hl.subset hb)⟩

theorem remove (h : Keyed id key t) (p : α → Bool) : Keyed id key (t.remove p) :=
  h.sublist List.eraseP_sublist

theorem mem_remove (h : Keyed id key t) (ha : a ∈ t.rows)
    (hb : b ∈ (t.remove fun c => id c = id a).rows) : b ∈ t.rows ∧ key b ≠ key a := by
  have hperm := perm_eraseP (find?_eq_some_of_nodup h.ids ha)
  have hkeys := (hperm.map key).nodup h.keys
  rw [List.map_append, List.nodup_append] at hkeys
  exact ⟨List.mem_of_mem_eraseP hb,
    hkeys.2.2 _ (List.mem_map_of_mem hb) _ (List.mem_map_of_mem List.mem_cons_self)⟩

end Keyed

end Gamebank.Lib.Table
