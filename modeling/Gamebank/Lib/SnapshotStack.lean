import Mathlib.Data.List.DropRight

/-!
# Undo stacks as stacks of snapshots

The abstract meaning of a store with nested undo sessions: a current
state, and for every open session the state that was current when the
session was opened. An implementation that records differences is right
when it cannot be told apart from this one.

Sessions are numbered by a revision counter. `commit` forgets the oldest
sessions, so their changes become permanent. `squash` merges the newest
session into the one below it; with only one session left there is
nothing to merge into, and that session is forgotten while **the revision
counter stays where it is**.
-/

namespace Gamebank.Lib

universe u

/-- A current state under a stack of snapshots, newest first, each with
the revision of the session it belongs to. -/
structure SnapshotStack (S : Type u) where
  cur : S
  stack : List (Int × S)
  revision : Int

namespace SnapshotStack

variable {S : Type u}

@[ext]
theorem ext' {s t : SnapshotStack S} (hc : s.cur = t.cur) (hs : s.stack = t.stack)
    (hr : s.revision = t.revision) : s = t := by
  cases s
  cases t
  simp_all

/-- Change the current state, inside whatever session is open. -/
def set (s : SnapshotStack S) (c : S) : SnapshotStack S :=
  { s with cur := c }

def startUndoSession (s : SnapshotStack S) : SnapshotStack S :=
  { s with stack := (s.revision + 1, s.cur) :: s.stack, revision := s.revision + 1 }

def undo (s : SnapshotStack S) : SnapshotStack S :=
  match s.stack with
  | [] => s
  | e :: rest => { cur := e.2, stack := rest, revision := s.revision - 1 }

def squash (s : SnapshotStack S) : SnapshotStack S :=
  match s.stack with
  | [] => s
  | [_] => { s with stack := [] }
  | _ :: prev :: rest => { s with stack := prev :: rest, revision := s.revision - 1 }

def commit (s : SnapshotStack S) (r : Int) : SnapshotStack S :=
  { s with stack := s.stack.rdropWhile fun e => e.1 ≤ r }

/-- The snapshots carry the revisions `revision`, `revision - 1`, … -/
def Contiguous (s : SnapshotStack S) : Prop :=
  ∀ (i : Nat) (e : Int × S), s.stack[i]? = some e → e.1 = s.revision - i

/-! ## What each operation leaves alone -/

@[simp] theorem set_cur (s : SnapshotStack S) (c : S) : (s.set c).cur = c := rfl
@[simp] theorem set_stack (s : SnapshotStack S) (c : S) : (s.set c).stack = s.stack := rfl
@[simp] theorem set_revision (s : SnapshotStack S) (c : S) :
    (s.set c).revision = s.revision := rfl
@[simp] theorem set_set (s : SnapshotStack S) (c d : S) : (s.set c).set d = s.set d := rfl
@[simp] theorem set_cur_self (s : SnapshotStack S) : s.set s.cur = s := rfl

@[simp] theorem startUndoSession_cur (s : SnapshotStack S) :
    s.startUndoSession.cur = s.cur := rfl
@[simp] theorem startUndoSession_stack (s : SnapshotStack S) :
    s.startUndoSession.stack = (s.revision + 1, s.cur) :: s.stack := rfl
@[simp] theorem startUndoSession_revision (s : SnapshotStack S) :
    s.startUndoSession.revision = s.revision + 1 := rfl

@[simp] theorem commit_cur (s : SnapshotStack S) (r : Int) : (s.commit r).cur = s.cur := rfl
@[simp] theorem commit_revision (s : SnapshotStack S) (r : Int) :
    (s.commit r).revision = s.revision := rfl

@[simp] theorem squash_cur (s : SnapshotStack S) : s.squash.cur = s.cur := by
  unfold squash
  split <;> rfl

theorem undo_of_cons {s : SnapshotStack S} {e : Int × S} {rest : List (Int × S)}
    (h : s.stack = e :: rest) :
    s.undo = { cur := e.2, stack := rest, revision := s.revision - 1 } := by
  simp [undo, h]

theorem undo_of_nil {s : SnapshotStack S} (h : s.stack = []) : s.undo = s := by
  simp [undo, h]

/-! ## Sessions -/

/-- Undoing a session just opened restores the state, the stack and the revision. -/
@[simp] theorem undo_set_startUndoSession (s : SnapshotStack S) (c : S) :
    (s.startUndoSession.set c).undo = s := by
  simp [undo, startUndoSession, set]

/-- `commit` forgets nothing exactly when the oldest snapshot is above the revision. -/
theorem commit_stack_eq_iff (s : SnapshotStack S) (r : Int) :
    (s.commit r).stack = s.stack ↔ ∀ e ∈ s.stack.getLast?, r < e.1 := by
  show s.stack.rdropWhile (fun e => e.1 ≤ r) = s.stack ↔ _
  rw [List.rdropWhile_eq_self_iff]
  constructor
  · intro h e he
    obtain ⟨hne, rfl⟩ := List.mem_getLast?_eq_getLast he
    simpa using h hne
  · intro h hne
    simpa using h _ (List.getLast?_eq_some_getLast hne)

theorem commit_set_eq_iff (s : SnapshotStack S) (c : S) (r : Int) :
    (s.set c).commit r = s ↔ c = s.cur ∧ ∀ e ∈ s.stack.getLast?, r < e.1 := by
  rw [← commit_stack_eq_iff]
  constructor
  · intro h
    have hstack : ((s.set c).commit r).stack = s.stack := congrArg stack h
    exact ⟨congrArg cur h, hstack⟩
  · rintro ⟨h1, h2⟩
    exact ext' h1 h2 rfl

/-- A session inside which `commit` was called is undone exactly when `commit`
had nothing to forget. -/
theorem undo_commit_eq_iff (s : SnapshotStack S) (c d : S) (r : Int) :
    (((s.startUndoSession.set c).commit r).set d).undo = s ↔
      ∀ e ∈ s.startUndoSession.stack.getLast?, r < e.1 := by
  have hlast : (∀ e ∈ s.startUndoSession.stack.getLast?, r < e.1) ↔
      s.startUndoSession.stack.rdropWhile (fun e => e.1 ≤ r) = s.startUndoSession.stack :=
    (commit_stack_eq_iff s.startUndoSession r).symm
  rw [hlast]
  constructor
  · intro h
    match hdrop : s.startUndoSession.stack.rdropWhile fun e => e.1 ≤ r with
    | [] =>
        rw [undo_of_nil
          (show (((s.startUndoSession.set c).commit r).set d).stack = [] from hdrop)] at h
        have hrev : s.revision + 1 = s.revision := congrArg revision h
        omega
    | e :: rest =>
        have hcons : (((s.startUndoSession.set c).commit r).set d).stack = e :: rest := hdrop
        rw [undo_of_cons hcons] at h
        have htop : e = (s.revision + 1, s.cur) := by
          have hpre := List.rdropWhile_prefix (fun e : Int × S => decide (e.1 ≤ r))
            (l := s.startUndoSession.stack)
          rw [hdrop] at hpre
          exact (List.cons_prefix_cons.mp hpre).1
        rw [hdrop, htop, startUndoSession_stack]
        exact congrArg ((s.revision + 1, s.cur) :: ·) (congrArg stack h)
  · intro h
    have hcons : (((s.startUndoSession.set c).commit r).set d).stack =
        (s.revision + 1, s.cur) :: s.stack := h
    rw [undo_of_cons hcons]
    have hrev : s.revision + 1 - 1 = s.revision := by omega
    exact ext' rfl rfl hrev

/-- A session opened over a non-empty stack and squashed is a plain change
of the state. -/
theorem squash_set_startUndoSession {s : SnapshotStack S} (h : s.stack ≠ []) (c : S) :
    (s.startUndoSession.set c).squash = s.set c := by
  obtain ⟨e, rest, he⟩ := List.exists_cons_of_ne_nil h
  simp [squash, startUndoSession, set, he]

/-! ## A property of every state -/

/-- The current state and every snapshot have the property `P`. -/
def AllStates (P : S → Prop) (s : SnapshotStack S) : Prop :=
  P s.cur ∧ ∀ e ∈ s.stack, P e.2

namespace AllStates

variable {P : S → Prop} {s : SnapshotStack S}

theorem imp {Q : S → Prop} (h : s.AllStates P) (hPQ : ∀ c, P c → Q c) : s.AllStates Q :=
  ⟨hPQ _ h.1, fun e he => hPQ _ (h.2 e he)⟩

theorem set (h : s.AllStates P) {c : S} (hc : P c) : (s.set c).AllStates P := ⟨hc, h.2⟩

theorem startUndoSession (h : s.AllStates P) : s.startUndoSession.AllStates P := by
  refine ⟨h.1, fun e he => ?_⟩
  rcases List.mem_cons.mp he with rfl | he
  · exact h.1
  · exact h.2 e he

theorem undo (h : s.AllStates P) : s.undo.AllStates P := by
  cases hs : s.stack with
  | nil => rwa [undo_of_nil hs]
  | cons e rest =>
      rw [undo_of_cons hs]
      refine ⟨h.2 e (by simp [hs]), fun d hd => h.2 d ?_⟩
      rw [hs]
      exact List.mem_cons_of_mem e hd

theorem commit (h : s.AllStates P) (r : Int) : (s.commit r).AllStates P :=
  ⟨h.1, fun e he => h.2 e ((List.rdropWhile_prefix _ (l := s.stack)).subset he)⟩

theorem squash (h : s.AllStates P) : s.squash.AllStates P := by
  cases hs : s.stack with
  | nil => simpa [SnapshotStack.squash, hs] using h
  | cons e rest =>
      cases rest with
      | nil => exact ⟨by simpa using h.1, by simp [SnapshotStack.squash, hs]⟩
      | cons prev rest =>
          refine ⟨by simpa using h.1, fun d hd => h.2 d ?_⟩
          simp only [SnapshotStack.squash, hs] at hd
          rw [hs]
          exact List.mem_cons_of_mem e hd

end AllStates

/-! ## The states in their order -/

/-- The current state and the snapshots, newest first. -/
def states (s : SnapshotStack S) : List S := s.cur :: s.stack.map Prod.snd

theorem allStates_iff {P : S → Prop} {s : SnapshotStack S} :
    s.AllStates P ↔ ∀ c ∈ s.states, P c := by
  rw [states, List.forall_mem_cons, List.forall_mem_map]
  rfl

theorem states_startUndoSession_set (s : SnapshotStack S) (c : S) :
    (s.startUndoSession.set c).states = c :: s.states := rfl

theorem states_undo {s : SnapshotStack S} : s.undo.states = s.states.tail ∨
    s.undo.states = s.states := by
  cases hs : s.stack with
  | nil => exact Or.inr (by rw [undo_of_nil hs])
  | cons e rest =>
      rw [undo_of_cons hs]
      exact Or.inl (by simp [states, hs])

theorem states_commit (s : SnapshotStack S) (r : Int) : (s.commit r).states <+: s.states := by
  obtain ⟨dropped, hd⟩ :=
    List.rdropWhile_prefix (fun e : Int × S => decide (e.1 ≤ r)) (l := s.stack)
  refine ⟨dropped.map Prod.snd, ?_⟩
  simp only [states, commit, List.cons_append, List.cons.injEq, true_and]
  rw [← List.map_append, hd]

/-- Undoing a session out of which `commit` was called: the states it was
opened over, the oldest ones dropped, or, when its own snapshot was
dropped too, the state reached inside it. -/
theorem states_undo_commit (s : SnapshotStack S) (c : S) (r : Int) :
    (((s.startUndoSession.set c).commit r).undo).states <+: s.states ∨
      (((s.startUndoSession.set c).commit r).undo).states = [c] := by
  have hpre := states_commit (s.startUndoSession.set c) r
  cases hs : ((s.startUndoSession.set c).commit r).stack with
  | nil =>
      refine Or.inr ?_
      rw [undo_of_nil hs]
      simp only [states, hs, List.map_nil]
      rfl
  | cons e rest =>
      rw [undo_of_cons hs]
      refine Or.inl ?_
      simp only [states, hs, List.map_cons] at hpre
      exact (List.cons_prefix_cons.mp hpre).2

/-! ## Revisions -/

theorem Contiguous.set {s : SnapshotStack S} (h : s.Contiguous) (c : S) :
    (s.set c).Contiguous := h

theorem Contiguous.startUndoSession {s : SnapshotStack S} (h : s.Contiguous) :
    s.startUndoSession.Contiguous := by
  intro i e he
  cases i with
  | zero =>
      simp only [startUndoSession_stack, List.getElem?_cons_zero, Option.some.injEq] at he
      subst he
      simp
  | succ i =>
      simp only [startUndoSession_stack, List.getElem?_cons_succ] at he
      have := h i e he
      simp only [startUndoSession_revision]
      omega

theorem Contiguous.undo {s : SnapshotStack S} (h : s.Contiguous) : s.undo.Contiguous := by
  cases hs : s.stack with
  | nil => rwa [undo_of_nil hs]
  | cons d rest =>
      rw [undo_of_cons hs]
      intro i e he
      have := h (i + 1) e (by simpa [hs] using he)
      simp only
      omega

theorem rdropWhile_append_of {α : Type u} {p : α → Bool} {a b : List α}
    (ha : ∀ x ∈ a, p x = false) (hb : ∀ x ∈ b, p x = true) :
    (a ++ b).rdropWhile p = a := by
  unfold List.rdropWhile
  rw [List.reverse_append, List.dropWhile_append_of_pos (by simpa using hb)]
  have : a.reverse.dropWhile p = a.reverse := by
    cases hr : a.reverse with
    | nil => rfl
    | cons x xs =>
        have hx : x ∈ a := List.mem_reverse.mp (hr ▸ List.mem_cons_self)
        simp [ha x hx]
  rw [this, List.reverse_reverse]

/-- Committing to revision `r` keeps exactly the sessions above `r`. -/
theorem Contiguous.commit_stack {s : SnapshotStack S} (h : s.Contiguous) (r : Int) :
    (s.commit r).stack = s.stack.take (s.revision - r).toNat := by
  have hsplit := List.take_append_drop (s.revision - r).toNat s.stack
  show s.stack.rdropWhile _ = _
  rw [← hsplit, rdropWhile_append_of]
  · rw [hsplit]
  · intro e he
    obtain ⟨i, hi⟩ := List.mem_iff_getElem?.mp he
    rw [List.getElem?_take] at hi
    split at hi
    · have := h i e hi
      simp only [decide_eq_false_iff_not]
      omega
    · simp at hi
  · intro e he
    obtain ⟨i, hi⟩ := List.mem_iff_getElem?.mp he
    rw [List.getElem?_drop] at hi
    have := h _ e hi
    simp only [decide_eq_true_eq]
    omega

theorem Contiguous.commit {s : SnapshotStack S} (h : s.Contiguous) (r : Int) :
    (s.commit r).Contiguous := by
  intro i e he
  rw [h.commit_stack r, List.getElem?_take] at he
  split at he
  · exact h i e he
  · simp at he

theorem Contiguous.squash {s : SnapshotStack S} (h : s.Contiguous) : s.squash.Contiguous := by
  unfold SnapshotStack.squash
  split
  · exact h
  · intro i e he
    simp at he
  · rename_i prev rest hs
    intro i e he
    have := h (i + 1) e (by simpa [hs] using he)
    simp only
    omega

end SnapshotStack

end Gamebank.Lib
