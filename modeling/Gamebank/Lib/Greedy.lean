/-!
# Greedy passes

A step function takes an input or refuses it. A greedy pass over a list goes
on past the inputs that are refused: `accepted` are those taken, in their
order, and `pass` is the state after them. Taken alone, the accepted inputs
lead to the same state.
-/

namespace Gamebank.Lib

universe u v

variable {σ : Type u} {ι : Type v} (step : σ → ι → Option σ)

/-- The inputs a greedy pass takes. -/
def accepted : σ → List ι → List ι
  | _, [] => []
  | s, i :: rest =>
      match step s i with
      | none => accepted s rest
      | some t => i :: accepted t rest

/-- The state after a greedy pass. -/
def pass (s : σ) (l : List ι) : σ := l.foldl (fun s i => (step s i).getD s) s

variable {step} {s t : σ} {i : ι}

theorem accepted_sublist (s : σ) (l : List ι) : (accepted step s l).Sublist l := by
  induction l generalizing s with
  | nil => exact List.Sublist.slnil
  | cons i rest ih =>
      unfold accepted
      cases step s i with
      | none => exact (ih s).cons i
      | some t => exact (ih t).cons_cons i

theorem pass_append (s : σ) (l l' : List ι) :
    pass step s (l ++ l') = pass step (pass step s l) l' := List.foldl_append

theorem accepted_append (s : σ) (l l' : List ι) :
    accepted step s (l ++ l') = accepted step s l ++ accepted step (pass step s l) l' := by
  induction l generalizing s with
  | nil => rfl
  | cons i rest ih =>
      simp only [List.cons_append, accepted, pass, List.foldl_cons]
      cases hstep : step s i with
      | none => exact ih s
      | some t => exact congrArg (i :: ·) (ih t)

/-- An input that is not refused at its turn is accepted. -/
theorem mem_accepted (s : σ) (before after : List ι) (h : step (pass step s before) i ≠ none) :
    i ∈ accepted step s (before ++ i :: after) := by
  rw [accepted_append]
  refine List.mem_append_right _ ?_
  unfold accepted
  cases hstep : step (pass step s before) i with
  | none => exact absurd hstep h
  | some t => exact List.mem_cons_self

end Gamebank.Lib
