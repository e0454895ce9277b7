import Gamebank.Lib.Checked

/-!
# Functions that throw and keep what they have done

A member function that throws leaves its object as it was at the throw. It is
a function in `EStateM`, whose state is there in both results. `Finishes` and
`Throws` say of a run from a state which of the two it is, and what holds of
the state after it.
-/

namespace Gamebank.Lib

variable {ε σ α β : Type}

/-- `x` returns from the state `s`; its value and the state after it meet `P`. -/
def Finishes (x : EStateM ε σ α) (s : σ) (P : α → σ → Prop) : Prop :=
  ∃ a t, x s = .ok a t ∧ P a t

/-- `x` throws from the state `s`; the state it leaves meets `P`. -/
def Throws (x : EStateM ε σ α) (s : σ) (P : σ → Prop) : Prop :=
  ∃ e t, x s = .error e t ∧ P t

/-- A check that does not change the state. -/
def check (condition : Bool) (message : String) : EStateM String σ Unit :=
  if condition then pure () else throw message

/-- The state in which `x` leaves `s`, whether it returns or throws. -/
def after (x : EStateM ε σ α) (s : σ) : σ :=
  match x s with
  | .ok _ t => t
  | .error _ t => t

/-- Whether `x` throws from `s`. -/
def throws (x : EStateM ε σ α) (s : σ) : Bool :=
  match x s with
  | .ok _ _ => false
  | .error _ _ => true

theorem bind_of_ok {x : EStateM ε σ α} {f : α → EStateM ε σ β} {s t : σ} {a : α}
    (hx : x s = .ok a t) : (x >>= f) s = f a t := by
  show EStateM.bind x f s = _
  rw [EStateM.bind, hx]

namespace Finishes

variable {s : σ} {P : β → σ → Prop} {Q : α → σ → Prop}

theorem of_eq {x : EStateM ε σ β} {b : β} {t : σ} (hx : x s = .ok b t) (h : P b t) :
    Finishes x s P := ⟨b, t, hx, h⟩

theorem pure {b : β} (h : P b s) : Finishes (Pure.pure b : EStateM ε σ β) s P := ⟨b, s, rfl, h⟩

theorem bind {x : EStateM ε σ α} {f : α → EStateM ε σ β} (hx : Finishes x s Q)
    (hf : ∀ a t, Q a t → Finishes (f a) t P) : Finishes (x >>= f) s P := by
  obtain ⟨a, t, hx, hq⟩ := hx
  obtain ⟨b, u, hfa, hp⟩ := hf a t hq
  exact ⟨b, u, (bind_of_ok hx).trans hfa, hp⟩

/-- The next step starts in a known state. -/
theorem bind_eq {x : EStateM ε σ α} {f : α → EStateM ε σ β} {a : α} {t : σ} (hx : x s = .ok a t)
    (hf : Finishes (f a) t P) : Finishes (x >>= f) s P :=
  bind (.of_eq (P := fun a' t' => a' = a ∧ t' = t) hx ⟨rfl, rfl⟩) fun _ _ h => by
    rw [h.1, h.2]
    exact hf

theorem check {condition : Bool} {message : String} {f : Unit → EStateM String σ β}
    (hc : condition = true) (hf : Finishes (f ()) s P) :
    Finishes (Lib.check condition message >>= f) s P := by
  refine bind_eq ?_ hf
  rw [hc]
  rfl

theorem mono {P' : β → σ → Prop} {x : EStateM ε σ β} (h : Finishes x s P')
    (himp : ∀ b t, P' b t → P b t) : Finishes x s P := by
  obtain ⟨b, t, hx, hp⟩ := h
  exact ⟨b, t, hx, himp b t hp⟩

theorem after {x : EStateM ε σ β} (h : Finishes x s P) : ∃ b, P b (Lib.after x s) := by
  obtain ⟨b, t, hx, hp⟩ := h
  rw [Lib.after, hx]
  exact ⟨b, hp⟩

end Finishes

namespace Throws

variable {s : σ} {P : σ → Prop} {Q : α → σ → Prop}

theorem bind_left {x : EStateM ε σ α} {f : α → EStateM ε σ β} (hx : Throws x s P) :
    Throws (x >>= f) s P := by
  obtain ⟨e, t, hx, hp⟩ := hx
  refine ⟨e, t, ?_, hp⟩
  show EStateM.bind x f s = _
  rw [EStateM.bind, hx]

theorem bind {x : EStateM ε σ α} {f : α → EStateM ε σ β} (hx : Finishes x s Q)
    (hf : ∀ a t, Q a t → Throws (f a) t P) : Throws (x >>= f) s P := by
  obtain ⟨a, t, hx, hq⟩ := hx
  obtain ⟨e, u, hfa, hp⟩ := hf a t hq
  exact ⟨e, u, (bind_of_ok hx).trans hfa, hp⟩

theorem bind_eq {x : EStateM ε σ α} {f : α → EStateM ε σ β} {a : α} {t : σ} (hx : x s = .ok a t)
    (hf : Throws (f a) t P) : Throws (x >>= f) s P :=
  bind (.of_eq (P := fun a' t' => a' = a ∧ t' = t) hx ⟨rfl, rfl⟩) fun _ _ h => by
    rw [h.1, h.2]
    exact hf

theorem check {condition : Bool} {message : String} {f : Unit → EStateM String σ β}
    (hc : condition = false) (hs : P s) : Throws (Lib.check condition message >>= f) s P := by
  refine bind_left ⟨message, s, ?_, hs⟩
  rw [hc]
  rfl

theorem of_throws {x : EStateM ε σ α} (h : throws x s = true) : Throws x s fun _ => True := by
  rw [throws] at h
  split at h
  · exact absurd h Bool.false_ne_true
  next e t hx => exact ⟨e, t, hx, trivial⟩

theorem mono {P' : σ → Prop} {x : EStateM ε σ α} (h : Throws x s P') (himp : ∀ t, P' t → P t) :
    Throws x s P := by
  obtain ⟨e, t, hx, hp⟩ := h
  exact ⟨e, t, hx, himp t hp⟩

theorem after {x : EStateM ε σ α} (h : Throws x s P) : P (Lib.after x s) := by
  obtain ⟨e, t, hx, hp⟩ := h
  rw [Lib.after, hx]
  exact hp

/-- What throws does not return. -/
theorem not_finishes {x : EStateM ε σ α} (h : Throws x s P) : ¬Finishes x s Q := by
  obtain ⟨e, t, hthrow, -⟩ := h
  rintro ⟨a, t', hret, -⟩
  rw [hthrow] at hret
  cases hret

end Throws

end Gamebank.Lib
