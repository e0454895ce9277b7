import Mathlib.Data.List.Sort

/-!
# Ordered indices as lists

An ordered index of a multi-index container, as the list of its objects in
the order of the key. An object is inserted at its place
(`List.orderedInsert`); one is looked up and modified without moving
(`modifyFirst`). Amounts are added up over all objects of an index
(`sumOf`).
-/

namespace Gamebank.Lib

universe u

variable {α : Type u}

/-- Modify the first object that `p` holds of. -/
def modifyFirst (p : α → Bool) (f : α → α) : List α → List α
  | [] => []
  | a :: rest => if p a then f a :: rest else a :: modifyFirst p f rest

theorem modifyFirst_of_forall_not {p : α → Bool} {f : α → α} {l : List α}
    (h : ∀ a ∈ l, ¬p a = true) : modifyFirst p f l = l := by
  induction l with
  | nil => rfl
  | cons a rest ih =>
      rw [modifyFirst, if_neg (h a List.mem_cons_self), ih fun b hb =>
        h b (List.mem_cons_of_mem a hb)]

theorem map_modifyFirst {β : Type u} {p : α → Bool} {f : α → α} {g : α → β}
    (h : ∀ a, g (f a) = g a) (l : List α) : (modifyFirst p f l).map g = l.map g := by
  induction l with
  | nil => rfl
  | cons a rest ih =>
      rw [modifyFirst]
      split
      · rw [List.map_cons, List.map_cons, h]
      · rw [List.map_cons, List.map_cons, ih]

/-- The object found stands between the objects before and after it, and
modifying leaves those alone. -/
theorem modifyFirst_of_find? {p : α → Bool} {l : List α} {a : α} (h : l.find? p = some a) :
    ∃ before after, l = before ++ a :: after ∧
      ∀ f, modifyFirst p f l = before ++ f a :: after := by
  induction l with
  | nil => simp at h
  | cons b rest ih =>
      by_cases hb : p b = true
      · rw [List.find?_cons_of_pos hb, Option.some.injEq] at h
        subst h
        exact ⟨[], rest, rfl, fun f => by simp [modifyFirst, hb]⟩
      · rw [List.find?_cons_of_neg hb] at h
        obtain ⟨before, after, hl, hmod⟩ := ih h
        refine ⟨b :: before, after, by rw [hl]; rfl, fun f => ?_⟩
        simp only [modifyFirst, hb, Bool.false_eq_true, if_false, List.cons_append]
        rw [hmod f]

/-- The object that is modified is found again, if it still meets `p`. -/
theorem find?_modifyFirst {p : α → Bool} {f : α → α} (hf : ∀ a, p a = true → p (f a) = true)
    (l : List α) : (modifyFirst p f l).find? p = (l.find? p).map f := by
  induction l with
  | nil => rfl
  | cons a rest ih =>
      rw [modifyFirst]
      cases ha : p a with
      | true => simp [ha, hf a ha]
      | false => simp [ha, ih]

/-- Another search finds what it found. -/
theorem find?_modifyFirst_of_not {p q : α → Bool} {f : α → α}
    (hq : ∀ a, p a = true → q a = false ∧ q (f a) = false) (l : List α) :
    (modifyFirst p f l).find? q = l.find? q := by
  induction l with
  | nil => rfl
  | cons a rest ih =>
      rw [modifyFirst]
      cases ha : p a with
      | true => simp [(hq a ha).1, (hq a ha).2]
      | false =>
          cases hqa : q a with
          | true => simp [hqa]
          | false => simp [hqa, ih]

/-- A search by what `f` leaves alone finds the same but for `f`. -/
theorem map_find?_modifyFirst {β : Type u} {p q : α → Bool} {f : α → α} {g : α → β}
    (hq : ∀ a, q (f a) = q a) (hg : ∀ a, g (f a) = g a) (l : List α) :
    ((modifyFirst p f l).find? q).map g = (l.find? q).map g := by
  induction l with
  | nil => rfl
  | cons a rest ih =>
      rw [modifyFirst]
      cases ha : p a with
      | true => cases hqa : q a <;> simp [hq, hg, hqa]
      | false => cases hqa : q a <;> simp [hqa, ih]

/-- Objects picked by predicates that exclude each other are modified in any order. -/
theorem modifyFirst_comm {p q : α → Bool} {f g : α → α}
    (hp : ∀ a, p a = true → q a = false ∧ q (f a) = false)
    (hq : ∀ a, q a = true → p a = false ∧ p (g a) = false) (l : List α) :
    modifyFirst q g (modifyFirst p f l) = modifyFirst p f (modifyFirst q g l) := by
  induction l with
  | nil => rfl
  | cons a rest ih =>
      rw [modifyFirst, modifyFirst]
      cases hpa : p a with
      | true => simp [modifyFirst, hpa, hp a hpa]
      | false =>
          cases hqa : q a with
          | true => simp [modifyFirst, hqa, hq a hqa]
          | false => simp [modifyFirst, hpa, hqa, ih]

/-- The object that is found stands before those that are appended. -/
theorem modifyFirst_append {p : α → Bool} {f : α → α} {l l' : List α} (h : l.find? p ≠ none) :
    modifyFirst p f (l ++ l') = modifyFirst p f l ++ l' := by
  induction l with
  | nil => exact absurd rfl h
  | cons a rest ih =>
      rw [List.cons_append, modifyFirst, modifyFirst]
      cases ha : p a with
      | true => rfl
      | false =>
          rw [List.find?_cons_of_neg (by simp [ha])] at h
          simp only [Bool.false_eq_true, if_false, ih h, List.cons_append]

/-- The object that is erased may stand at the end as well. -/
theorem perm_eraseP {p : α → Bool} {l : List α} {a : α} (h : l.find? p = some a) :
    l.Perm (l.eraseP p ++ [a]) := by
  obtain ⟨hp, before, after, hl, hbefore⟩ := List.find?_eq_some_iff_append.mp h
  have hnot : ∀ b ∈ before, ¬p b = true := by simpa using hbefore
  rw [hl, List.eraseP_append_right _ hnot, List.eraseP_cons_of_pos hp, List.append_assoc]
  exact (List.perm_append_singleton a after).symm.append_left before

/-- Behind the first object stand the one inserted, what stood there, and the
former first object if the new one goes before it. -/
theorem mem_tail_orderedInsert {r : α → α → Prop} [DecidableRel r] {a b : α} {l : List α}
    (h : b ∈ (l.orderedInsert r a).tail) : b = a ∨ b ∈ l.tail ∨ (b ∈ l ∧ r a b) := by
  cases l with
  | nil => simp at h
  | cons d rest =>
      by_cases had : r a d
      · rw [List.orderedInsert_cons_of_le r rest had, List.tail_cons, List.mem_cons] at h
        rcases h with rfl | h
        · exact Or.inr (Or.inr ⟨List.mem_cons_self, had⟩)
        · exact Or.inr (Or.inl h)
      · rw [List.orderedInsert_of_not_le r rest had, List.tail_cons, List.mem_orderedInsert] at h
        rcases h with rfl | h
        · exact Or.inl rfl
        · exact Or.inr (Or.inl h)

/-- An object inserted by its key leaves the index ordered. -/
theorem pairwise_orderedInsert {β : Type u} [LinearOrder β] {key : α → β} {l : List α}
    (hl : l.Pairwise fun a b => key a ≤ key b) (a : α) :
    (l.orderedInsert (fun a b => key a ≤ key b) a).Pairwise fun a b => key a ≤ key b := by
  have : Std.Total fun a b => key a ≤ key b := ⟨fun a b => le_total (key a) (key b)⟩
  have : IsTrans α fun a b => key a ≤ key b := ⟨fun _ _ _ => le_trans⟩
  exact hl.orderedInsert a l

def Replaces (a a' : α) (l l' : List α) : Prop :=
  ∃ before after, l = before ++ a :: after ∧ l' = before ++ a' :: after

theorem replaces_modifyFirst {p : α → Bool} {l : List α} {a : α} (h : l.find? p = some a)
    (f : α → α) : Replaces a (f a) l (modifyFirst p f l) := by
  obtain ⟨before, after, hl, hmod⟩ := modifyFirst_of_find? h
  exact ⟨before, after, hl, hmod f⟩

namespace Replaces

variable {a a' b : α} {l l' : List α}

theorem symm (h : Replaces a a' l l') : Replaces a' a l' l := by
  obtain ⟨before, after, hl, hl'⟩ := h
  exact ⟨before, after, hl', hl⟩

theorem mem_old (h : Replaces a a' l l') : a ∈ l := by
  obtain ⟨before, after, rfl, rfl⟩ := h
  simp

theorem mem_new (h : Replaces a a' l l') : a' ∈ l' := by
  obtain ⟨before, after, rfl, rfl⟩ := h
  simp

theorem mem_of_mem (h : Replaces a a' l l') (hb : b ∈ l) : b = a ∨ b ∈ l' := by
  obtain ⟨before, after, rfl, rfl⟩ := h
  simp only [List.mem_append, List.mem_cons] at hb ⊢
  tauto

theorem pairwise {r : α → α → Prop} (h : Replaces a a' l l') (hl : l.Pairwise r)
    (hleft : ∀ b, r b a → r b a') (hright : ∀ b, r a b → r a' b) : l'.Pairwise r := by
  obtain ⟨before, after, rfl, rfl⟩ := h
  simp only [List.pairwise_append, List.pairwise_cons, List.mem_cons, forall_eq_or_imp] at hl ⊢
  obtain ⟨hbefore, ⟨hafter, hrest⟩, hcross⟩ := hl
  refine ⟨hbefore, ⟨fun b hb => hright b (hafter b hb), hrest⟩, fun b hb => ?_⟩
  exact ⟨hleft b (hcross b hb).1, (hcross b hb).2⟩

theorem map_eq {β : Type u} {g : α → β} (h : Replaces a a' l l') (hg : g a' = g a) :
    l'.map g = l.map g := by
  obtain ⟨before, after, rfl, rfl⟩ := h
  simp [hg]

theorem map {β : Type u} (h : Replaces a a' l l') (g : α → β) :
    Replaces (g a) (g a') (l.map g) (l'.map g) := by
  obtain ⟨before, after, rfl, rfl⟩ := h
  exact ⟨before.map g, after.map g, by rw [List.map_append, List.map_cons],
    by rw [List.map_append, List.map_cons]⟩

/-- With distinct ids, the other objects are the ones with another id. -/
theorem mem_or {κ : Type u} {g : α → κ} (h : Replaces a a' l l') (hl : (l.map g).Nodup)
    (hb : b ∈ l') :
    b = a' ∨ (b ∈ l ∧ g b ≠ g a) := by
  obtain ⟨before, after, rfl, rfl⟩ := h
  simp only [List.map_append, List.map_cons, List.nodup_append, List.nodup_cons,
    List.mem_map, List.mem_cons, ne_eq] at hl
  obtain ⟨-, ⟨hafter, -⟩, hbefore⟩ := hl
  simp only [List.mem_append, List.mem_cons] at hb ⊢
  rcases hb with hb | rfl | hb
  · exact Or.inr ⟨Or.inl hb, hbefore (g b) ⟨b, hb, rfl⟩ (g a) (Or.inl rfl)⟩
  · exact Or.inl rfl
  · exact Or.inr ⟨Or.inr (Or.inr hb), fun heq => hafter ⟨b, hb, heq⟩⟩

theorem mem_of_ne {κ : Type u} {g : α → κ} (h : Replaces a a' l l') (hb : b ∈ l)
    (hne : g b ≠ g a) : b ∈ l' := by
  rcases h.mem_of_mem hb with rfl | hb
  · exact absurd rfl hne
  · exact hb

/-- One replacement after the other, with distinct ids. -/
theorem trans {κ : Type u} {g : α → κ} {a'' : α} {l'' : List α} (h : Replaces a a' l l')
    (h' : Replaces a' a'' l' l'') (hl : (l'.map g).Nodup) : Replaces a a'' l l'' := by
  obtain ⟨before, after, rfl, rfl⟩ := h
  obtain ⟨before', after', heq, rfl⟩ := h'
  have hnodup := List.Nodup.of_map g hl
  rw [List.nodup_append, List.nodup_cons] at hnodup
  obtain ⟨-, ⟨hafter, -⟩, hbefore⟩ := hnodup
  have hnot : a' ∉ before := fun hmem => hbefore a' hmem a' List.mem_cons_self rfl
  obtain ⟨rfl, -, rfl⟩ := (List.append_cons_inj_of_notMem hnot hafter).mp heq
  exact ⟨before, after, rfl, rfl⟩

end Replaces

/-! ## Look-up by a key -/

section

variable {κ : Type u} [DecidableEq κ] {key : α → κ} {a a' : α} {k : κ} {l l' : List α}

theorem find?_eq_some_of_nodup (h : (l.map key).Nodup) (ha : a ∈ l) :
    l.find? (fun b => key b = key a) = some a := by
  induction l with
  | nil => cases ha
  | cons b rest ih =>
      rw [List.map_cons, List.nodup_cons] at h
      rcases List.mem_cons.mp ha with rfl | ha
      · exact List.find?_cons_of_pos (by simp)
      · have hne : key b ≠ key a := fun heq => h.1 (heq ▸ List.mem_map_of_mem ha)
        rw [List.find?_cons_of_neg (by simpa using hne), ih h.2 ha]

theorem find?_key_eq_some (h : (l.map key).Nodup) :
    l.find? (fun b => key b = k) = some a ↔ a ∈ l ∧ key a = k := by
  constructor
  · intro hfind
    exact ⟨List.mem_of_find?_eq_some hfind, by simpa using List.find?_some hfind⟩
  · rintro ⟨ha, rfl⟩
    exact find?_eq_some_of_nodup h ha

theorem find?_key_eq_none : l.find? (fun b => key b = k) = none ↔ k ∉ l.map key := by
  simp only [List.find?_eq_none, decide_eq_true_eq, List.mem_map, not_exists, not_and]

theorem filter_eq_singleton_of_nodup (h : (l.map key).Nodup) (ha : a ∈ l) :
    l.filter (fun b => key b = key a) = [a] := by
  induction l with
  | nil => cases ha
  | cons b rest ih =>
      rw [List.map_cons, List.nodup_cons] at h
      rcases List.mem_cons.mp ha with rfl | ha
      · have hrest : rest.filter (fun b => key b = key a) = [] := by
          rw [List.filter_eq_nil_iff]
          intro c hc
          have hne : key c ≠ key a := fun heq => h.1 (heq ▸ List.mem_map_of_mem hc)
          simpa using hne
        rw [List.filter_cons_of_pos (by simp), hrest]
      · have hne : key b ≠ key a := fun heq => h.1 (heq ▸ List.mem_map_of_mem ha)
        rw [List.filter_cons_of_neg (by simpa using hne), ih h.2 ha]

/-- Of objects with different keys the first one with a key is the only one. -/
theorem modifyFirst_eq_map (h : (l.map key).Nodup) (f : α → α) :
    modifyFirst (fun b => key b = k) f l = l.map fun b => if key b = k then f b else b := by
  induction l with
  | nil => rfl
  | cons b rest ih =>
      rw [List.map_cons, List.nodup_cons] at h
      rw [modifyFirst, List.map_cons]
      by_cases hb : key b = k
      · have hrest : ∀ c ∈ rest, (if key c = k then f c else c) = c := by
          intro c hc
          exact if_neg fun heq => h.1 (List.mem_map.mpr ⟨c, hc, heq.trans hb.symm⟩)
        rw [if_pos (by simpa using hb), if_pos hb, List.map_congr_left hrest, List.map_id']
      · rw [if_neg (by simpa using hb), if_neg hb, ih h.2]

/-- A replaced object is found under its key, every other one as before. -/
theorem Replaces.find?_key (h : Replaces a a' l l') (hkey : key a' = key a)
    (hl : (l.map key).Nodup) (k : κ) :
    l'.find? (fun b => key b = k) = if k = key a then some a' else l.find? fun b => key b = k := by
  have hl' : (l'.map key).Nodup := by rw [h.map_eq hkey]; exact hl
  split
  next hk =>
    subst hk
    exact (find?_key_eq_some hl').mpr ⟨h.mem_new, hkey⟩
  next hk =>
    cases hfind : l.find? fun b => key b = k with
    | none =>
        rw [find?_key_eq_none] at hfind ⊢
        rw [h.map_eq hkey]
        exact hfind
    | some b =>
        obtain ⟨hb, hbk⟩ := (find?_key_eq_some hl).mp hfind
        exact (find?_key_eq_some hl').mpr ⟨h.mem_of_ne hb (hbk ▸ hk), hbk⟩

end

/-! ## Sums over an index -/

/-- The sum of `g` over the objects. -/
def sumOf (g : α → Int) : List α → Int
  | [] => 0
  | a :: rest => g a + sumOf g rest

@[simp] theorem sumOf_nil (g : α → Int) : sumOf g [] = 0 := rfl

@[simp] theorem sumOf_cons (g : α → Int) (a : α) (l : List α) :
    sumOf g (a :: l) = g a + sumOf g l := rfl

@[simp] theorem sumOf_append (g : α → Int) (l l' : List α) :
    sumOf g (l ++ l') = sumOf g l + sumOf g l' := by
  induction l with
  | nil => simp
  | cons a rest ih =>
      rw [List.cons_append, sumOf_cons, sumOf_cons, ih]
      omega

theorem sumOf_map {β : Type u} (g : β → Int) (f : α → β) (l : List α) :
    sumOf g (l.map f) = sumOf (fun a => g (f a)) l := by
  induction l with
  | nil => rfl
  | cons a rest ih => rw [List.map_cons, sumOf_cons, sumOf_cons, ih]

theorem sumOf_orderedInsert (r : α → α → Prop) [DecidableRel r] (g : α → Int) (a : α)
    (l : List α) : sumOf g (l.orderedInsert r a) = g a + sumOf g l := by
  induction l with
  | nil => rfl
  | cons b rest ih =>
      rw [List.orderedInsert_cons]
      split
      · rfl
      · rw [sumOf_cons, sumOf_cons, ih]
        omega

/-- A replaced object changes the sum by what it changes itself. -/
theorem Replaces.sumOf_eq {a a' : α} {l l' : List α} (h : Replaces a a' l l') (g : α → Int) :
    sumOf g l' = sumOf g l - g a + g a' := by
  obtain ⟨before, after, rfl, rfl⟩ := h
  simp only [sumOf_append, sumOf_cons]
  omega

theorem sumOf_nonneg {g : α → Int} {l : List α} (h : ∀ a ∈ l, 0 ≤ g a) : 0 ≤ sumOf g l := by
  induction l with
  | nil => exact le_rfl
  | cons a rest ih =>
      rw [sumOf_cons]
      have ha := h a List.mem_cons_self
      have hrest := ih fun b hb => h b (List.mem_cons_of_mem a hb)
      omega

theorem le_sumOf_of_mem {g : α → Int} {l : List α} {a : α} (ha : a ∈ l) (h : ∀ b ∈ l, 0 ≤ g b) :
    g a ≤ sumOf g l := by
  obtain ⟨before, after, rfl⟩ := List.append_of_mem ha
  have hbefore := sumOf_nonneg fun b hb => h b (List.mem_append_left _ hb)
  have hafter := sumOf_nonneg fun b hb => h b (List.mem_append_right _ (List.mem_cons_of_mem _ hb))
  rw [sumOf_append, sumOf_cons]
  omega

theorem sumOf_eq_zero {g : α → Int} {l : List α} (h : ∀ a ∈ l, g a = 0) : sumOf g l = 0 := by
  induction l with
  | nil => rfl
  | cons a rest ih =>
      rw [sumOf_cons, h a List.mem_cons_self, ih fun b hb => h b (List.mem_cons_of_mem a hb)]
      rfl

theorem sumOf_le_sumOf {g g' : α → Int} {l : List α} (h : ∀ a ∈ l, g a ≤ g' a) :
    sumOf g l ≤ sumOf g' l := by
  induction l with
  | nil => exact le_rfl
  | cons a rest ih =>
      rw [sumOf_cons, sumOf_cons]
      exact Int.add_le_add (h a List.mem_cons_self) (ih fun b hb => h b (List.mem_cons_of_mem a hb))

theorem sumOf_sublist {g : α → Int} {l l' : List α} (h : l.Sublist l') (hg : ∀ a ∈ l', 0 ≤ g a) :
    sumOf g l ≤ sumOf g l' := by
  induction h with
  | slnil => exact le_rfl
  | cons a _ ih =>
      rw [sumOf_cons]
      have := hg a List.mem_cons_self
      have := ih fun b hb => hg b (List.mem_cons_of_mem a hb)
      omega
  | cons_cons a _ ih =>
      rw [sumOf_cons, sumOf_cons]
      have := ih fun b hb => hg b (List.mem_cons_of_mem a hb)
      omega

theorem sumOf_perm {l l' : List α} (h : l.Perm l') (g : α → Int) : sumOf g l = sumOf g l' := by
  induction h with
  | nil => rfl
  | cons a _ ih => rw [sumOf_cons, sumOf_cons, ih]
  | swap a b l =>
      simp only [sumOf_cons]
      omega
  | trans _ _ ih ih' => exact ih.trans ih'

theorem sumOf_filter (g : α → Int) (p : α → Bool) (l : List α) :
    sumOf g (l.filter p) = sumOf (fun a => if p a then g a else 0) l := by
  induction l with
  | nil => rfl
  | cons a rest ih =>
      rw [List.filter_cons, sumOf_cons, ← ih]
      split
      · rw [sumOf_cons]
      · rw [Int.zero_add]

/-- A sum to which only the object with one key contributes. -/
theorem sumOf_eq_single {κ : Type u} {key : α → κ} {g : α → Int} {l : List α}
    (h : (l.map key).Nodup) {a : α} (ha : a ∈ l) (hg : ∀ b ∈ l, key b ≠ key a → g b = 0) :
    sumOf g l = g a := by
  induction l with
  | nil => cases ha
  | cons b rest ih =>
      rw [List.map_cons, List.nodup_cons] at h
      rw [sumOf_cons]
      rcases List.mem_cons.mp ha with rfl | ha
      · have hrest : sumOf g rest = 0 := by
          apply sumOf_eq_zero
          intro b hb
          apply hg b (List.mem_cons_of_mem a hb)
          intro heq
          exact h.1 (heq ▸ List.mem_map_of_mem hb)
        omega
      · have hne : key b ≠ key a := fun heq => h.1 (heq ▸ List.mem_map_of_mem ha)
        rw [hg b List.mem_cons_self hne, ih h.2 ha fun c hc => hg c (List.mem_cons_of_mem b hc)]
        omega

/-! ## Objects that agree as far as `f` goes -/

section

variable {β : Type u} {f : α → α} {l l' : List α}

theorem map_eq_of_map_eq (h : l'.map f = l.map f) {g : α → β} (hg : ∀ a, g (f a) = g a) :
    l'.map g = l.map g := by
  have hcomp : g ∘ f = g := funext hg
  rw [← hcomp, ← List.map_map, h, List.map_map]

theorem sumOf_eq_of_map_eq (h : l'.map f = l.map f) {g : α → Int} (hg : ∀ a, g (f a) = g a) :
    sumOf g l' = sumOf g l := by
  have hcomp : (fun a => g (f a)) = g := funext hg
  rw [← hcomp, ← sumOf_map g f l', h, sumOf_map]

theorem forall_of_map_eq (h : l'.map f = l.map f) {P : α → Prop} (hP : ∀ a, P (f a) ↔ P a)
    (hl : ∀ a ∈ l, P a) : ∀ a ∈ l', P a := by
  intro a ha
  have hmem : f a ∈ l.map f := h ▸ List.mem_map_of_mem ha
  obtain ⟨b, hb, hba⟩ := List.mem_map.mp hmem
  rw [← hP, ← hba, hP]
  exact hl b hb

end

end Gamebank.Lib
