import Gamebank.Lib.Checked
import Gamebank.Lib.Table
import Mathlib.Algebra.BigOperators.Group.List.Basic
import Mathlib.Tactic.Abel

/-!
# Double entry

What the tables of a state hold is measured in an additive group. An update
enters an amount there: `R s t d` says that `t` is `s` with `d` entered, and
`Entering R` that one update may follow another. What a loop has entered is
the sum of what its turns have entered; a transfer enters an amount and takes
it out again.
-/

namespace Gamebank.Lib

/-! ## What a table holds -/

section

variable {α G : Type} [AddCommGroup G] {a a' : α} {l l' : List α}

theorem Replaces.sum_map (h : Replaces a a' l l') (g : α → G) :
    (l'.map g).sum = (l.map g).sum + (g a' - g a) := by
  obtain ⟨before, after, rfl, rfl⟩ := h
  simp only [List.map_append, List.map_cons, List.sum_append, List.sum_cons]
  abel

namespace Table

variable {t : Table α} {p : α → Bool}

/-- The sum of `g` over all objects. -/
def sum (t : Table α) (g : α → G) : G := (t.rows.map g).sum

@[simp] theorem sum_create (t : Table α) (object : Nat → α) (g : α → G) :
    (t.create object).sum g = t.sum g + g (object t.nextId) := by
  simp [sum, create]

theorem sum_modify (h : t.find? p = some a) (f : α → α) (g : α → G) :
    (t.modify p f).sum g = t.sum g + (g (f a) - g a) :=
  (replaces_modifyFirst h f).sum_map g

theorem sum_remove (h : t.find? p = some a) (g : α → G) :
    (t.remove p).sum g = t.sum g - g a := by
  have hperm : t.rows.Perm (t.rows.eraseP p ++ [a]) := perm_eraseP h
  have hsum := (hperm.map g).sum_eq.symm
  rw [List.map_append, List.sum_append, List.map_singleton, List.sum_singleton] at hsum
  exact eq_sub_of_add_eq hsum

end Table

end

/-! ## What an update enters -/

section

variable {σ G ι : Type} [AddCommGroup G] {R : σ → σ → G → Prop} {s : σ} {d e : G}

structure Entering (R : σ → σ → G → Prop) : Prop where
  refl : ∀ s, R s s 0
  trans : ∀ {s t u d e}, R s t d → R t u e → R s u (d + e)

namespace Entering

/-- One update after the other. -/
theorem bind (hR : Entering R) {x : Except String σ} {f : σ → Except String σ}
    (hx : Returns x fun t => R s t d) (hf : ∀ t, Returns (f t) fun u => R t u e) :
    Returns (x >>= f) fun u => R s u (d + e) :=
  hx.bind fun t ht => (hf t).mono fun _ hu => hR.trans ht hu

theorem foldlM (hR : Entering R) {f : σ → ι → Except String σ} {entry : ι → G} {l : List ι}
    (hf : ∀ s, ∀ i ∈ l, Returns (f s i) fun t => R s t (entry i)) (s : σ) :
    Returns (l.foldlM f s) fun t => R s t (l.map entry).sum := by
  induction l generalizing s with
  | nil => exact .pure (hR.refl s)
  | cons i rest ih =>
      rw [List.foldlM_cons, List.map_cons, List.sum_cons]
      exact hR.bind (hf s i List.mem_cons_self)
        fun t => ih (fun u j hj => hf u j (List.mem_cons_of_mem i hj)) t

/-- A loop whose turns enter nothing. -/
theorem drain (hR : Entering R) {due : σ → Option ι} {body : ι → σ → Except String σ} {fuel : Nat}
    (hbody : ∀ s a, due s = some a → Returns (body a s) fun t => R s t 0) (s : σ) :
    Returns (Lib.drain due body fuel s) fun t => R s t 0 := by
  refine Returns.drain (hR.refl s) fun t a ht ha => (hbody t a ha).mono fun u hu => ?_
  have := hR.trans ht hu
  rwa [add_zero] at this

end Entering

end

end Gamebank.Lib
