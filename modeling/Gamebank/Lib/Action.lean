/-!
# Actions that keep their state when they throw

An action changes a state and ends normally or by an exception. What it
had done up to the exception stays done: undoing it is the caller's work,
not the language's. `Result.Post Q E` states what holds at a normal end
and at an exceptional one; the rules below carry such statements through
sequences, loops over a list and loops with a guard.
-/

namespace Gamebank.Lib

universe u v w

/-- How an action ends. -/
inductive Result (ε : Type u) (σ : Type v) where
  | ok (s : σ)
  | error (e : ε) (s : σ)
deriving DecidableEq

namespace Result

variable {ε : Type u} {σ : Type v} {α : Type w}

def state : Result ε σ → σ
  | ok s => s
  | error _ s => s

def isOk : Result ε σ → Bool
  | ok _ => true
  | error _ _ => false

/-- Go on with `k` after a normal end. -/
def andThen (r : Result ε σ) (k : σ → Result ε σ) : Result ε σ :=
  match r with
  | ok s => k s
  | error e s => error e s

/-- Run `f` on the state an exception leaves behind, and throw on. -/
def onError (r : Result ε σ) (f : σ → σ) : Result ε σ :=
  match r with
  | ok s => ok s
  | error e s => error e (f s)

/-- Run `f` on the final state, however the action ended. -/
def onExit (r : Result ε σ) (f : σ → σ) : Result ε σ :=
  match r with
  | ok s => ok (f s)
  | error e s => error e (f s)

/-- A body for each element in turn, up to the first exception. -/
def forEach (body : α → σ → Result ε σ) : List α → σ → Result ε σ
  | [], s => ok s
  | a :: rest, s => (body a s).andThen (forEach body rest)

/-- A guarded loop with a bound on its turns; `stuck` is thrown at the bound. -/
def whileLoop (stuck : ε) (guard : σ → Bool) (body : σ → Result ε σ) : Nat → σ → Result ε σ
  | 0, s => error stuck s
  | fuel + 1, s =>
      if guard s then (body s).andThen (whileLoop stuck guard body fuel) else ok s

/-- `Q` at a normal end, `E` at an exceptional one. -/
def Post (Q E : σ → Prop) : Result ε σ → Prop
  | ok s => Q s
  | error _ s => E s

@[simp] theorem state_ok (s : σ) : (ok s : Result ε σ).state = s := rfl
@[simp] theorem state_error (e : ε) (s : σ) : (error e s).state = s := rfl
@[simp] theorem andThen_ok (s : σ) (k : σ → Result ε σ) : (ok s).andThen k = k s := rfl
@[simp] theorem andThen_error (e : ε) (s : σ) (k : σ → Result ε σ) :
    (error e s).andThen k = error e s := rfl
@[simp] theorem post_ok {Q E : σ → Prop} {s : σ} : (ok s : Result ε σ).Post Q E ↔ Q s := Iff.rfl
@[simp] theorem post_error {Q E : σ → Prop} {e : ε} {s : σ} :
    (error e s).Post Q E ↔ E s := Iff.rfl

theorem post_state {P : σ → Prop} {r : Result ε σ} : r.Post P P ↔ P r.state := by
  cases r <;> rfl

@[simp] theorem state_onExit (r : Result ε σ) (f : σ → σ) : (r.onExit f).state = f r.state := by
  cases r <;> rfl

theorem eq_ok_of_isOk {r : Result ε σ} (h : r.isOk = true) : r = ok r.state := by
  cases r with
  | ok s => rfl
  | error e s => simp [isOk] at h

theorem exists_eq_error {r : Result ε σ} (h : r.isOk = false) : ∃ e, r = error e r.state := by
  cases r with
  | ok s => simp [isOk] at h
  | error e s => exact ⟨e, rfl⟩

/-- An action that throws in any case. -/
theorem isOk_andThen_error (r : Result ε σ) (e : ε) :
    (r.andThen fun s => error e s).isOk = false := by
  cases r <;> rfl

theorem state_andThen_error {r : Result ε σ} {e : ε} {Q : σ → Prop} (h : r.Post Q Q) :
    Q (r.andThen fun s => error e s).state := by
  cases r <;> exact h

theorem Post.imp {Q E Q' E' : σ → Prop} {r : Result ε σ} (h : r.Post Q E)
    (hQ : ∀ s, Q s → Q' s) (hE : ∀ s, E s → E' s) : r.Post Q' E' := by
  cases r with
  | ok s => exact hQ s h
  | error e s => exact hE s h

theorem Post.and {Q E Q' E' : σ → Prop} {r : Result ε σ} (h : r.Post Q E) (h' : r.Post Q' E') :
    r.Post (fun s => Q s ∧ Q' s) (fun s => E s ∧ E' s) := by
  cases r with
  | ok s => exact ⟨h, h'⟩
  | error e s => exact ⟨h, h'⟩

/-- Sequencing. -/
theorem Post.andThen {Q M E : σ → Prop} {r : Result ε σ} {k : σ → Result ε σ}
    (h : r.Post M E) (hk : ∀ s, M s → (k s).Post Q E) : (r.andThen k).Post Q E := by
  cases r with
  | ok s => exact hk s h
  | error e s => exact h

theorem Post.onError {Q E E' : σ → Prop} {r : Result ε σ} {f : σ → σ} (h : r.Post Q E)
    (hf : ∀ s, E s → E' (f s)) : (r.onError f).Post Q E' := by
  cases r with
  | ok s => exact h
  | error e s => exact hf s h

theorem Post.onExit {Q E Q' E' : σ → Prop} {r : Result ε σ} {f : σ → σ} (h : r.Post Q E)
    (hQ : ∀ s, Q s → Q' (f s)) (hE : ∀ s, E s → E' (f s)) : (r.onExit f).Post Q' E' := by
  cases r with
  | ok s => exact hQ s h
  | error e s => exact hE s h

/-- A loop over a list keeps what its body keeps. -/
theorem forEach_post {body : α → σ → Result ε σ} {I E : σ → Prop} {l : List α}
    (hb : ∀ a ∈ l, ∀ s, I s → (body a s).Post I E) {s : σ} (hs : I s) :
    (forEach body l s).Post I E := by
  induction l generalizing s with
  | nil => exact hs
  | cons a rest ih =>
      refine Post.andThen (hb a List.mem_cons_self s hs) fun s' hs' => ?_
      exact ih (fun b hb' => hb b (List.mem_cons_of_mem a hb')) hs'

/-- A guarded loop keeps what its body keeps; at a normal end the guard is off. -/
theorem whileLoop_post {stuck : ε} {guard : σ → Bool} {body : σ → Result ε σ} {I E : σ → Prop}
    (hb : ∀ s, I s → guard s = true → (body s).Post I E) (hE : ∀ s, I s → E s) (fuel : Nat)
    {s : σ} (hs : I s) :
    (whileLoop stuck guard body fuel s).Post (fun s => I s ∧ guard s = false) E := by
  induction fuel generalizing s with
  | zero => exact hE s hs
  | succ fuel ih =>
      unfold whileLoop
      by_cases hg : guard s = true
      · rw [if_pos hg]
        exact Post.andThen (hb s hs hg) fun s' hs' => ih hs'
      · rw [if_neg hg]
        exact ⟨hs, by simpa using hg⟩

end Result

end Gamebank.Lib
