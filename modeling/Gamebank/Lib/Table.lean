import Gamebank.Lib.OrderedIndex

/-!
# Tables

The objects of one type, in the order of their creation. An object is
referred to by its id or another key, so a reference is a predicate that
picks the object. The first object in another order than that of creation
is `first`.
-/

namespace Gamebank.Lib

universe u

/-! ## One entry more -/

section

variable {α : Type u} {κ : Type*} {key : α → κ} {l : List α} {a : α}

theorem nodup_append_single (h : l.Nodup) (hnew : a ∉ l) : (l ++ [a]).Nodup := by
  rw [List.nodup_append]
  refine ⟨h, List.nodup_singleton a, fun b hb c hc heq => hnew ?_⟩
  rw [List.mem_singleton.mp hc] at heq
  exact heq ▸ hb

/-- No key is there twice if the one that comes is new. -/
theorem nodup_map_append_single (h : (l.map key).Nodup) (hnew : ∀ b ∈ l, key b ≠ key a) :
    ((l ++ [a]).map key).Nodup := by
  rw [List.map_append, List.map_singleton]
  refine nodup_append_single h fun hmem => ?_
  obtain ⟨b, hb, heq⟩ := List.mem_map.mp hmem
  exact hnew b hb heq

end

/-! ## Tables -/

structure Table (α : Type u) where
  nextId : Nat
  rows : List α
deriving DecidableEq

namespace Table

variable {α : Type u}

def empty : Table α := ⟨0, []⟩

def find? (t : Table α) (p : α → Bool) : Option α := t.rows.find? p

/-- The new object gets the next id. -/
def create (t : Table α) (object : Nat → α) : Table α :=
  ⟨t.nextId + 1, t.rows ++ [object t.nextId]⟩

def modify (t : Table α) (p : α → Bool) (f : α → α) : Table α :=
  { t with rows := modifyFirst p f t.rows }

def remove (t : Table α) (p : α → Bool) : Table α :=
  { t with rows := t.rows.eraseP p }

/-- The first object of a list in the order of `lt`; of two that are equal in
that order, the one created earlier. -/
def least (lt : α → α → Bool) : List α → Option α
  | [] => none
  | a :: rest =>
      match least lt rest with
      | none => some a
      | some b => if lt b a then some b else some a

/-- The first object in the order of `lt`. -/
def first (t : Table α) (lt : α → α → Bool) : Option α := least lt t.rows

/-- The sum of `g` over all objects. -/
def total (t : Table α) (g : α → Int) : Int := sumOf g t.rows

/-- `P` holds of every object. -/
def All (t : Table α) (P : α → Prop) : Prop := ∀ a ∈ t.rows, P a

variable {t : Table α} {p : α → Bool} {a : α} {P : α → Prop}

theorem mem_of_least {lt : α → α → Bool} {l : List α} (h : least lt l = some a) : a ∈ l := by
  induction l generalizing a with
  | nil => cases h
  | cons b rest ih =>
      rw [least] at h
      split at h
      next =>
        cases h
        exact List.mem_cons_self
      next c hc =>
        split at h
        · cases h
          exact List.mem_cons_of_mem b (ih hc)
        · cases h
          exact List.mem_cons_self

theorem least_eq_none {lt : α → α → Bool} {l : List α} : least lt l = none ↔ l = [] := by
  cases l with
  | nil => simp [least]
  | cons b rest =>
      rw [least]
      split
      · simp
      · split <;> simp

/-- Where `lt` is the order of a rank, no object ranks lower than the first. -/
theorem rank_least_le {β : Type u} [LinearOrder β] (rank : α → β) {lt : α → α → Bool} {l : List α}
    (hlt : ∀ a ∈ l, ∀ b ∈ l, lt a b = true ↔ rank a < rank b) (h : least lt l = some a) :
    ∀ b ∈ l, rank a ≤ rank b := by
  induction l generalizing a with
  | nil => cases h
  | cons b rest ih =>
      have hrest := fun x hx y hy =>
        hlt x (List.mem_cons_of_mem b hx) y (List.mem_cons_of_mem b hy)
      rw [least] at h
      split at h
      next hnone =>
        cases h
        rw [least_eq_none] at hnone
        subst hnone
        intro c hc
        rw [List.mem_singleton.mp hc]
      next c hc =>
        have hmin := ih hrest hc
        have hcmem : c ∈ b :: rest := List.mem_cons_of_mem b (mem_of_least hc)
        have hiff := hlt c hcmem b List.mem_cons_self
        intro x hx
        split at h
        next hcb =>
          cases h
          rcases List.mem_cons.mp hx with rfl | hx
          · exact (hiff.mp hcb).le
          · exact hmin x hx
        next hcb =>
          cases h
          rcases List.mem_cons.mp hx with rfl | hx
          · exact le_refl _
          · exact (not_lt.mp fun hlt => hcb (hiff.mpr hlt)).trans (hmin x hx)

/-! ## Sums -/

@[simp] theorem total_create (t : Table α) (object : Nat → α) (g : α → Int) :
    (t.create object).total g = t.total g + g (object t.nextId) := by
  simp [total, create]

theorem total_modify (h : t.find? p = some a) (f : α → α) (g : α → Int) :
    (t.modify p f).total g = t.total g - g a + g (f a) :=
  (replaces_modifyFirst h f).sumOf_eq g

theorem total_remove (h : t.find? p = some a) (g : α → Int) :
    (t.remove p).total g = t.total g - g a := by
  obtain ⟨hp, before, after, hrows, hbefore⟩ := List.find?_eq_some_iff_append.mp h
  have hnot : ∀ b ∈ before, ¬p b = true := by simpa using hbefore
  have herase : t.rows.eraseP p = before ++ after := by
    rw [hrows, List.eraseP_append_right _ hnot, List.eraseP_cons_of_pos hp]
  show sumOf g (t.rows.eraseP p) = sumOf g t.rows - g a
  rw [herase, hrows, sumOf_append, sumOf_append, sumOf_cons]
  omega

/-! ## Facts of every object -/

theorem All.of_find? (h : t.All P) (ha : t.find? p = some a) : P a :=
  h a (List.mem_of_find?_eq_some ha)

theorem all_empty : (empty : Table α).All P := by
  intro a ha
  cases ha

theorem All.create (h : t.All P) (object : Nat → α) (hnew : P (object t.nextId)) :
    (t.create object).All P := by
  intro a ha
  rcases List.mem_append.mp ha with ha | ha
  · exact h a ha
  · rw [List.mem_singleton] at ha
    exact ha ▸ hnew

theorem All.modify (h : t.All P) {f : α → α} (hf : ∀ a, t.find? p = some a → P (f a)) :
    (t.modify p f).All P := by
  cases hfind : t.find? p with
  | none =>
      have hsame : t.modify p f = t := by
        have hnone : ∀ b ∈ t.rows, ¬p b = true := by simpa using List.find?_eq_none.mp hfind
        have : modifyFirst p f t.rows = t.rows := modifyFirst_of_forall_not hnone
        simp [Table.modify, this]
      rw [hsame]
      exact h
  | some a =>
      obtain ⟨before, after, hrows, hmod⟩ := modifyFirst_of_find? hfind
      intro b hb
      rw [Table.modify, hmod f] at hb
      have hold : b ∈ t.rows ∨ b = f a := by
        rw [hrows]
        simp only [List.mem_append, List.mem_cons] at hb ⊢
        tauto
      rcases hold with hb | rfl
      · exact h b hb
      · exact hf a hfind

theorem All.remove (h : t.All P) : (t.remove p).All P :=
  fun a ha => h a (List.mem_of_mem_eraseP ha)

/-! ## Objects with different keys -/

section

variable {κ : Type u} [DecidableEq κ] {key : α → κ} {k : κ}

theorem find?_create {object : Nat → α} (h : ∀ a ∈ t.rows, key a ≠ key (object t.nextId)) (k : κ) :
    (t.create object).find? (fun a => key a = k) =
      if k = key (object t.nextId) then some (object t.nextId) else t.find? fun a => key a = k := by
  show (t.rows ++ [object t.nextId]).find? _ = _
  rw [List.find?_append]
  by_cases hk : k = key (object t.nextId)
  · have hnone : t.rows.find? (fun a => key a = k) = none := by
      rw [List.find?_eq_none]
      intro a ha
      simpa [hk] using h a ha
    rw [if_pos hk, hnone, Option.none_or]
    simp [hk]
  · have hlast : [object t.nextId].find? (fun a => key a = k) = none := by
      simpa using fun heq => hk heq.symm
    rw [if_neg hk, hlast, Option.or_none]
    rfl

theorem find?_modify {b : α} (h : (t.rows.map key).Nodup)
    (ha : t.find? (fun c => key c = key b) = some a) (k : κ) :
    (t.modify (fun c => key c = key b) fun _ => b).find? (fun c => key c = k) =
      if k = key b then some b else t.find? fun c => key c = k := by
  have hkey : key a = key b := by simpa using List.find?_some ha
  have hreplaces := replaces_modifyFirst ha fun _ => b
  have hfind := hreplaces.find?_key hkey.symm h k
  rw [hkey] at hfind
  exact hfind

theorem keys_modify {b : α} (ha : t.find? (fun c => key c = key b) = some a) :
    (t.modify (fun c => key c = key b) fun _ => b).rows.map key = t.rows.map key := by
  have hkey : key a = key b := by simpa using List.find?_some ha
  exact (replaces_modifyFirst ha fun _ => b).map_eq hkey.symm

theorem find?_remove (h : (t.rows.map key).Nodup) (k k' : κ) :
    (t.remove fun a => key a = k).find? (fun a => key a = k') =
      if k' = k then none else t.find? fun a => key a = k' := by
  show (t.rows.eraseP _).find? _ = if k' = k then none else t.rows.find? _
  generalize t.rows = l at h
  induction l with
  | nil => simp
  | cons a rest ih =>
      rw [List.map_cons, List.nodup_cons] at h
      by_cases hak : key a = k
      · rw [List.eraseP_cons_of_pos (by simpa using hak)]
        by_cases hk : k' = k
        · rw [if_pos hk, List.find?_eq_none]
          intro b hb hkey
          have hkb : key b = k' := by simpa using hkey
          exact h.1 (List.mem_map.mpr ⟨b, hb, hkb.trans (hk.trans hak.symm)⟩)
        · rw [if_neg hk, List.find?_cons_of_neg (by simpa [hak] using Ne.symm hk)]
      · rw [List.eraseP_cons_of_neg (by simpa using hak)]
        by_cases hak' : key a = k'
        · have hk : k' ≠ k := fun heq => hak (hak'.trans heq)
          rw [List.find?_cons_of_pos (by simpa using hak'), if_neg hk,
            List.find?_cons_of_pos (by simpa using hak')]
        · rw [List.find?_cons_of_neg (by simpa using hak'),
            List.find?_cons_of_neg (by simpa using hak'), ih h.2]

end

end Table

end Gamebank.Lib
