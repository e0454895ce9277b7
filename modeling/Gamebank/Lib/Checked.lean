/-!
# Functions that throw

What a function has done when it throws is undone by its caller, so such a
function is a map into `Except String`. `ensure` is an assertion, `drain` the
loop that works off the front of an ordered index: as long as the first
object is due, it is handled, and the loop starts again at the front.

`Returns x P` is the postcondition of such a function: if `x` returns, what
it returns meets `P`. `Completes x P` says besides that it does return. There
is one rule for each way to write a body.
-/

namespace Gamebank.Lib

universe u v

/-- `FC_ASSERT`. -/
def ensure (condition : Bool) (message : String) : Except String Unit :=
  if condition then .ok () else .error message

/-- The first object due is handled until none is; at most `fuel` of them. -/
def drain {σ : Type u} {α : Type v} (due : σ → Option α) (body : α → σ → Except String σ) :
    Nat → σ → Except String σ
  | 0, s => .ok s
  | fuel + 1, s =>
      match due s with
      | none => .ok s
      | some a =>
          match body a s with
          | .error e => .error e
          | .ok s' => drain due body fuel s'

/-- The state after a function; one that throws changes nothing. -/
def attempt {σ : Type u} (s : σ) : Except String σ → σ
  | .ok s' => s'
  | .error _ => s

/-! ## What a function that returned has done -/

section

variable {α β : Type}

@[simp] theorem ensure_bind_eq_ok {condition : Bool} {message : String}
    {f : Unit → Except String β} {b : β} :
    (ensure condition message >>= f) = .ok b ↔ condition = true ∧ f () = .ok b := by
  unfold ensure
  cases condition <;> simp [bind, Except.bind]

@[simp] theorem ensure_eq_ok {condition : Bool} {message : String} {u : Unit} :
    ensure condition message = .ok u ↔ condition = true := by
  unfold ensure
  cases condition <;> simp

theorem bind_eq_ok {x : Except String α} {f : α → Except String β} {b : β} :
    (x >>= f) = .ok b ↔ ∃ a, x = .ok a ∧ f a = .ok b := by
  cases x with
  | error e => simp [bind, Except.bind]
  | ok a => simp [bind, Except.bind]

/-- Two functions that make the same assertion first. -/
theorem ensure_bind_congr {condition : Bool} {message : String} {f g : Unit → Except String β}
    (h : condition = true → f () = g ()) :
    (ensure condition message >>= f) = (ensure condition message >>= g) := by
  cases condition with
  | true => exact h rfl
  | false => rfl

/-- A fold that returned has passed every element. -/
theorem foldlM_mem {σ : Type} {f : σ → α → Except String σ} {l : List α} {s s' : σ}
    (h : l.foldlM f s = .ok s') : ∀ a ∈ l, ∃ t t', f t a = .ok t' := by
  induction l generalizing s with
  | nil => simp
  | cons b l ih =>
      rw [List.foldlM_cons] at h
      obtain ⟨t, hb, hl⟩ := bind_eq_ok.mp h
      intro a ha
      rcases List.mem_cons.mp ha with rfl | ha
      · exact ⟨s, t, hb⟩
      · exact ih hl a ha

theorem forM_mem {f : α → Except String Unit} {l : List α} (h : l.forM f = .ok ()) :
    ∀ a ∈ l, f a = .ok () := by
  induction l with
  | nil => simp
  | cons b l ih =>
      obtain ⟨_, hb, hl⟩ := bind_eq_ok.mp (show (f b >>= fun _ => l.forM f) = .ok () from h)
      intro a ha
      rcases List.mem_cons.mp ha with rfl | ha
      · exact hb
      · exact ih hl a ha

theorem pure_eq_ok {a b : α} : (pure a : Except String α) = .ok b ↔ a = b := by
  simp [pure, Except.pure]

theorem toOption_eq_some {x : Except String α} {a : α} : x.toOption = some a ↔ x = .ok a := by
  cases x with
  | error e => simp [Except.toOption]
  | ok b => simp [Except.toOption]

/-- A run that can be evaluated. -/
theorem exists_of_any {x : Except String α} {P : α → Bool} (h : x.toOption.any P = true) :
    ∃ a, x = .ok a ∧ P a = true := by
  cases x with
  | error e => cases h
  | ok a => exact ⟨a, rfl, h⟩

end

/-! ## Postconditions -/

/-- If `x` returns, what it returns meets `P`. -/
def Returns {α : Type u} (x : Except String α) (P : α → Prop) : Prop :=
  ∀ a, x = .ok a → P a

namespace Returns

variable {α β : Type} {P : β → Prop} {Q : α → Prop}

theorem pure {b : β} (h : P b) : Returns (Pure.pure b) P := by
  intro b' hb'
  rw [pure_eq_ok] at hb'
  exact hb' ▸ h

theorem ok {b : β} (h : P b) : Returns (.ok b) P := pure h

theorem error {e : String} : Returns (.error e) P := by
  intro b hb
  cases hb

theorem bind {x : Except String α} {f : α → Except String β} (hx : Returns x Q)
    (hf : ∀ a, Q a → Returns (f a) P) : Returns (x >>= f) P := by
  intro b hb
  obtain ⟨a, ha, hb⟩ := bind_eq_ok.mp hb
  exact hf a (hx a ha) b hb

/-- Nothing is known of what `x` returns. -/
theorem bind_any {x : Except String α} {f : α → Except String β}
    (hf : ∀ a, Returns (f a) P) : Returns (x >>= f) P :=
  bind (Q := fun _ => True) (fun _ _ => trivial) fun a _ => hf a

/-- What is known of `a` is that `x` returned it. -/
theorem bind_eq {x : Except String α} {f : α → Except String β}
    (hf : ∀ a, x = .ok a → Returns (f a) P) : Returns (x >>= f) P :=
  bind (fun _ h => h) hf

theorem ensure {condition : Bool} {message : String} {f : Unit → Except String β}
    (h : condition = true → Returns (f ()) P) : Returns (Lib.ensure condition message >>= f) P := by
  intro b hb
  obtain ⟨hc, hb⟩ := ensure_bind_eq_ok.mp hb
  exact h hc b hb

theorem ite {c : Prop} [Decidable c] {x y : Except String β} (hx : c → Returns x P)
    (hy : ¬c → Returns y P) : Returns (if c then x else y) P := by
  split
  next hc => exact hx hc
  next hc => exact hy hc

theorem mono {P' : β → Prop} {x : Except String β} (h : Returns x P') (himp : ∀ b, P' b → P b) :
    Returns x P :=
  fun b hb => himp b (h b hb)

/-- A loop keeps what its body keeps. -/
theorem foldlM {ι : Type} {f : β → ι → Except String β} {l : List ι} {b : β} (h : P b)
    (hf : ∀ b, P b → ∀ i ∈ l, Returns (f b i) P) : Returns (l.foldlM f b) P := by
  induction l generalizing b with
  | nil => exact pure h
  | cons i rest ih =>
      rw [List.foldlM_cons]
      refine bind (hf b h i List.mem_cons_self) fun b' hb' => ?_
      exact ih hb' fun b hb j hj => hf b hb j (List.mem_cons_of_mem i hj)

/-- A loop whose invariant is about the elements still to come. -/
theorem foldlM_rest {ι : Type} {I : List ι → β → Prop} {f : β → ι → Except String β}
    (hf : ∀ i rest b, I (i :: rest) b → Returns (f b i) (I rest)) {l : List ι} {b : β}
    (h : I l b) : Returns (l.foldlM f b) (I []) := by
  induction l generalizing b with
  | nil => exact pure h
  | cons i rest ih =>
      rw [List.foldlM_cons]
      exact bind (hf i rest b h) fun b' hb' => ih hb'

theorem drain {due : β → Option α} {body : α → β → Except String β} {fuel : Nat} {b : β}
    (h : P b) (hbody : ∀ b a, P b → due b = some a → Returns (body a b) P) :
    Returns (Lib.drain due body fuel b) P := by
  induction fuel generalizing b with
  | zero => exact ok h
  | succ fuel ih =>
      unfold Lib.drain
      split
      next => exact ok h
      next a ha =>
        split
        next => exact error
        next b' hb' => exact ih (hbody b a h ha b' hb')

end Returns

/-! ## Functions that do not throw -/

/-- `x` returns, and what it returns meets `P`. -/
def Completes {α : Type u} (x : Except String α) (P : α → Prop) : Prop :=
  ∃ a, x = .ok a ∧ P a

namespace Completes

variable {α β : Type} {P : β → Prop} {Q : α → Prop}

theorem pure {b : β} (h : P b) : Completes (Pure.pure b) P := ⟨b, rfl, h⟩

theorem ok {b : β} (h : P b) : Completes (.ok b) P := ⟨b, rfl, h⟩

theorem of_eq {x : Except String β} {b : β} (hx : x = .ok b) (h : P b) : Completes x P := ⟨b, hx, h⟩

/-- What a function that does not throw returns, from its postcondition. -/
theorem and {x : Except String β} {P' : β → Prop} (h : Completes x P) (h' : Returns x P') :
    Completes x fun b => P b ∧ P' b := by
  obtain ⟨b, hb, hP⟩ := h
  exact ⟨b, hb, hP, h' b hb⟩

theorem mono {P' : β → Prop} {x : Except String β} (h : Completes x P') (himp : ∀ b, P' b → P b) :
    Completes x P := by
  obtain ⟨b, hb, hP⟩ := h
  exact ⟨b, hb, himp b hP⟩

theorem bind {x : Except String α} {f : α → Except String β} (hx : Completes x Q)
    (hf : ∀ a, Q a → Completes (f a) P) : Completes (x >>= f) P := by
  obtain ⟨a, ha, hQ⟩ := hx
  obtain ⟨b, hb, hP⟩ := hf a hQ
  exact ⟨b, bind_eq_ok.mpr ⟨a, ha, hb⟩, hP⟩

theorem ensure {condition : Bool} {message : String} {f : Unit → Except String β}
    (hc : condition = true) (h : Completes (f ()) P) :
    Completes (Lib.ensure condition message >>= f) P := by
  obtain ⟨b, hb, hP⟩ := h
  exact ⟨b, ensure_bind_eq_ok.mpr ⟨hc, hb⟩, hP⟩

theorem ite {c : Prop} [Decidable c] {x y : Except String β} (hx : c → Completes x P)
    (hy : ¬c → Completes y P) : Completes (if c then x else y) P := by
  split
  next hc => exact hx hc
  next hc => exact hy hc

/-- A loop whose invariant is about the elements still to come. -/
theorem foldlM {ι : Type} {I : List ι → β → Prop} {f : β → ι → Except String β}
    (hf : ∀ i rest b, I (i :: rest) b → Completes (f b i) (I rest)) {l : List ι} {b : β}
    (h : I l b) : Completes (l.foldlM f b) (I []) := by
  induction l generalizing b with
  | nil => exact pure h
  | cons i rest ih =>
      rw [List.foldlM_cons]
      exact bind (hf i rest b h) fun b' hb' => ih hb'

end Completes

/-! ## Maps that may throw -/

section

variable {α β : Type} {f : α → Except String β} {l : List α} {bs : List β}

theorem mapM_eq_ok (h : ∀ a ∈ l, ∃ b, f a = .ok b) :
    ∃ bs, l.mapM f = .ok bs ∧ bs.length = l.length := by
  induction l with
  | nil => exact ⟨[], rfl, rfl⟩
  | cons a rest ih =>
      obtain ⟨b, hb⟩ := h a List.mem_cons_self
      obtain ⟨bs, hbs, hlength⟩ := ih fun c hc => h c (List.mem_cons_of_mem a hc)
      refine ⟨b :: bs, ?_, by rw [List.length_cons, List.length_cons, hlength]⟩
      rw [List.mapM_cons, hb, hbs]
      rfl

theorem mapM_cons_eq_ok {a : α} (h : (a :: l).mapM f = .ok bs) :
    ∃ b rest, f a = .ok b ∧ l.mapM f = .ok rest ∧ bs = b :: rest := by
  rw [List.mapM_cons] at h
  obtain ⟨b, hb, h⟩ := bind_eq_ok.mp h
  obtain ⟨rest, hrest, h⟩ := bind_eq_ok.mp h
  exact ⟨b, rest, hb, hrest, (pure_eq_ok.mp h).symm⟩

theorem mapM_singleton {a : α} (h : [a].mapM f = .ok bs) : ∃ b, f a = .ok b ∧ bs = [b] := by
  obtain ⟨b, rest, hb, hrest, rfl⟩ := mapM_cons_eq_ok h
  rw [List.mapM_nil] at hrest
  exact ⟨b, hb, by rw [← pure_eq_ok.mp hrest]⟩

theorem forall_of_mapM_eq_ok (h : l.mapM f = .ok bs) : ∀ a ∈ l, ∃ b, f a = .ok b := by
  induction l generalizing bs with
  | nil => simp
  | cons a rest ih =>
      obtain ⟨b, bs', hb, hbs, -⟩ := mapM_cons_eq_ok h
      intro c hc
      rcases List.mem_cons.mp hc with rfl | hc
      · exact ⟨b, hb⟩
      · exact ih hbs c hc

/-- What a map returns comes from the elements. -/
theorem mem_of_mapM_eq_ok (h : l.mapM f = .ok bs) : ∀ b ∈ bs, ∃ a ∈ l, f a = .ok b := by
  induction l generalizing bs with
  | nil =>
      rw [List.mapM_nil] at h
      rw [← pure_eq_ok.mp h]
      simp
  | cons a rest ih =>
      obtain ⟨b, others, hb, hothers, rfl⟩ := mapM_cons_eq_ok h
      intro c hc
      rcases List.mem_cons.mp hc with rfl | hc
      · exact ⟨a, List.mem_cons_self, hb⟩
      · obtain ⟨a', ha', hf⟩ := ih hothers c hc
        exact ⟨a', List.mem_cons_of_mem _ ha', hf⟩

end

/-! ## Loops with fuel -/

/-- With as much fuel as there are objects, each of which is gone when it has
been handled, the loop ends because nothing is due any more. -/
theorem drain_exhausts {σ α : Type} {due : σ → Option α} {body : α → σ → Except String σ}
    {size : σ → Nat} (hbody : ∀ s a, due s = some a → Returns (body a s) fun s' => size s' < size s)
    {fuel : Nat} {s : σ} (hfuel : size s < fuel) :
    Returns (drain due body fuel s) fun s' => due s' = none := by
  induction fuel generalizing s with
  | zero => omega
  | succ fuel ih =>
      unfold drain
      split
      next hnone => exact Returns.ok hnone
      next a ha =>
        split
        next => exact Returns.error
        next s' hs' =>
          have := hbody s a ha s' hs'
          exact ih (by omega)

end Gamebank.Lib
