import Gamebank.Chainbase.Squash

/-!
# An index is a stack of snapshots

The records of a `generic_index` are an encoding of the abstract undo
stack of `Gamebank.Lib.SnapshotStack`: every operation of the index is
the operation of the same name on snapshots (`Represents.step`). For
objects identified by their id alone every run goes through
(`run_refines`), so whatever is proved of snapshot stacks holds of such an
index. With unique secondary keys the simulation lasts until a replay
stops or a `modify` loses an object.
-/

namespace Gamebank.Chainbase

open Gamebank.Lib

universe u

/-- What a snapshot holds: the objects and the next id. -/
structure Contents {V : Type u} (keys : List (UniqueKey V)) where
  indices : MultiIndex keys
  nextId : Nat

variable {V : Type u} {keys : List (UniqueKey V)}

namespace GenericIndex

def contents (idx : GenericIndex keys) : Contents keys := ⟨idx.indices, idx.nextId⟩

/-- The records `us` lead from `c` down to the snapshots `ss`, one each. -/
def Records : Contents keys → List (UndoState V) → List (Int × Contents keys) → Prop
  | _, [], [] => True
  | c, u :: us, s :: ss =>
      s.1 = u.revision ∧ Tracks s.2.indices.rows s.2.nextId u c.indices.rows c.nextId ∧
        Records s.2 us ss
  | _, _, _ => False

/-- The index encodes the snapshot stack. -/
structure Represents (idx : GenericIndex keys) (s : SnapshotStack (Contents keys)) : Prop where
  wellFormed : idx.WellFormed
  cur : s.cur = idx.contents
  revision : s.revision = idx.revision
  records : Records idx.contents idx.stack s.stack

/-- What a call does to the contents; the undo stack has no part in it. -/
def callContents (c : Contents keys) (call : Call V) : Contents keys :=
  ((⟨c.indices, [], 0, c.nextId⟩ : GenericIndex keys).call call).contents

end GenericIndex

/-- The operations of an index. -/
inductive IndexOp (V : Type u) where
  | call (c : Call V)
  | startUndoSession
  | undo
  | squash
  | commit (revision : Int)

namespace GenericIndex

def step (idx : GenericIndex keys) : IndexOp V → Outcome (GenericIndex keys)
  | .call c => .done (idx.call c)
  | .startUndoSession => .done idx.startUndoSession
  | .undo => idx.undo
  | .squash => .done idx.squash
  | .commit r => .done (idx.commit r)

/-- A run; it stops at an `undo` that does not complete. -/
def run : GenericIndex keys → List (IndexOp V) → Outcome (GenericIndex keys)
  | idx, [] => .done idx
  | idx, op :: ops =>
      match idx.step op with
      | .done idx' => idx'.run ops
      | .threw idx' => .threw idx'
      | .undefined => .undefined

def snapshotStep (s : SnapshotStack (Contents keys)) : IndexOp V → SnapshotStack (Contents keys)
  | .call c => s.set (callContents s.cur c)
  | .startUndoSession => s.startUndoSession
  | .undo => s.undo
  | .squash => s.squash
  | .commit r => s.commit r

def stepFits (idx : GenericIndex keys) : IndexOp V → Bool
  | .call c => idx.callFits c
  | _ => true

/-! ## Records under the stack operations -/

theorem Records.map_revision {c : Contents keys} {us : List (UndoState V)}
    {ss : List (Int × Contents keys)} (h : Records c us ss) :
    us.map UndoState.revision = ss.map Prod.fst := by
  induction us generalizing c ss with
  | nil =>
      cases ss with
      | nil => rfl
      | cons s ss => exact h.elim
  | cons u us ih =>
      cases ss with
      | nil => exact h.elim
      | cons s ss =>
          obtain ⟨hr, -, hrest⟩ := h
          simp [hr, ih hrest]

theorem Records.take {c : Contents keys} {us : List (UndoState V)}
    {ss : List (Int × Contents keys)} (h : Records c us ss) (n : Nat) :
    Records c (us.take n) (ss.take n) := by
  induction us generalizing c ss n with
  | nil =>
      cases ss with
      | nil => simpa using h
      | cons s ss => exact h.elim
  | cons u us ih =>
      cases ss with
      | nil => exact h.elim
      | cons s ss =>
          cases n with
          | zero => trivial
          | succ n => exact ⟨h.1, h.2.1, ih h.2.2 n⟩

theorem rdropWhile_eq_take {α β : Type*} (f : α → β) (p : β → Bool) (l : List α) :
    l.rdropWhile (fun a => p (f a)) = l.take ((l.map f).rdropWhile p).length := by
  unfold List.rdropWhile
  rw [← List.map_reverse, List.dropWhile_map]
  simp only [List.length_reverse, List.length_map]
  have hpre : (l.reverse.dropWhile fun a => p (f a)).reverse <+: l := by
    have := (List.dropWhile_suffix (fun a => p (f a)) (l := l.reverse)).reverse
    simpa using this
  simpa [Function.comp_def] using List.prefix_iff_eq_take.mp hpre

theorem Records.commit {c : Contents keys} {us : List (UndoState V)}
    {ss : List (Int × Contents keys)} (h : Records c us ss) (r : Int) :
    Records c (us.rdropWhile fun u => u.revision ≤ r) (ss.rdropWhile fun s => s.1 ≤ r) := by
  rw [rdropWhile_eq_take UndoState.revision (fun x => decide (x ≤ r)),
    rdropWhile_eq_take Prod.fst (fun x => decide (x ≤ r)), h.map_revision]
  exact h.take _

theorem call_contents (idx : GenericIndex keys) (c : Call V) :
    (idx.call c).contents = callContents idx.contents c := by
  have hhead : ∀ (i : GenericIndex keys) f, (i.onHead f).contents = i.contents := by
    intro i f
    unfold onHead
    split <;> rfl
  have hnext : ∀ (i : GenericIndex keys) f, (i.onHead f).nextId = i.nextId := fun i f =>
    congrArg Contents.nextId (hhead i f)
  cases c with
  | emplace c =>
      simp only [callContents, call, callResult, emplace, contents]
      cases idx.indices.emplace idx.nextId (c idx.nextId) with
      | none => rfl
      | some m => exact hhead _ _
  | modify id f =>
      simp only [callContents, call, callResult, contents]
      cases idx.indices.find? id with
      | none => rfl
      | some v =>
          simp only [modifyObject]
          generalize idx.indices.modify id (f v) = r
          obtain ⟨m, ok⟩ := r
          cases ok <;> simp [hnext]
  | remove id =>
      simp only [callContents, call, callResult, contents]
      cases idx.indices.find? id with
      | none => rfl
      | some v => simp [removeObject, hnext]

/-! ## The simulation -/

/-- With a session open, the index is inside a session opened on an index
that encodes the rest of the snapshots. -/
theorem Represents.inSession {idx : GenericIndex keys} {s : SnapshotStack (Contents keys)}
    (h : Represents idx s) (hs : s.Contiguous) (hne : idx.stack ≠ []) :
    ∃ base, InSession base idx ∧ Represents base s.undo := by
  obtain ⟨u, us, hu⟩ := List.exists_cons_of_ne_nil hne
  have hrec := h.records
  rw [hu] at hrec
  cases hst : s.stack with
  | nil => simp [hst, Records] at hrec
  | cons e rest =>
      rw [hst] at hrec
      obtain ⟨hr, ht, hrest⟩ := hrec
      have hrev := hs 0 e (by simp [hst])
      rw [h.revision] at hrev
      refine ⟨⟨e.2.indices, us, idx.revision - 1, e.2.nextId⟩,
        ⟨u, hu, by simp, ?_, ht⟩, ⟨ht.below_old, ?_, ?_, ?_⟩⟩
      · simp only
        omega
      · rw [SnapshotStack.undo_of_cons hst]
        rfl
      · rw [SnapshotStack.undo_of_cons hst, h.revision]
      · rw [SnapshotStack.undo_of_cons hst]
        exact hrest

theorem Represents.undo {idx idx' : GenericIndex keys} {s : SnapshotStack (Contents keys)}
    (h : Represents idx s) (hs : s.Contiguous) (hd : idx.undo = .done idx') :
    Represents idx' s.undo := by
  by_cases hne : idx.stack = []
  · have hst : s.stack = [] := by
      have := h.records
      rw [hne] at this
      cases hst : s.stack with
      | nil => rfl
      | cons e rest => simp [hst, Records] at this
    rw [SnapshotStack.undo_of_nil hst]
    simp only [GenericIndex.undo, hne, Outcome.done.injEq] at hd
    exact hd ▸ h
  · obtain ⟨base, hin, hb⟩ := h.inSession hs hne
    have := hin.undo_done (hin.replayFits hd)
    rw [hd, Outcome.done.injEq] at this
    exact this ▸ hb

theorem Represents.call {idx : GenericIndex keys} {s : SnapshotStack (Contents keys)}
    (h : Represents idx s) (hs : s.Contiguous) {c : Call V} (hc : idx.callFits c = true) :
    Represents (idx.call c) (s.set (callContents s.cur c)) := by
  have hcur : (s.set (callContents s.cur c)).cur = (idx.call c).contents := by
    rw [call_contents, SnapshotStack.set_cur, h.cur]
  by_cases hne : idx.stack = []
  · have hstack : (idx.call c).stack = [] ∧ (idx.call c).revision = idx.revision := by
      have heff := idx.call_effect hc
      generalize idx.call c = idx' at heff
      cases heff <;> simp [onHead, hne, removeObject]
    refine ⟨h.wellFormed.call c, hcur, h.revision.trans hstack.2.symm, ?_⟩
    have := h.records
    rw [hne] at this
    rw [hstack.1, SnapshotStack.set_stack]
    cases hst : s.stack with
    | nil => trivial
    | cons e rest => simp [hst, Records] at this
  · obtain ⟨base, hin, hb⟩ := h.inSession hs hne
    obtain ⟨u, hstack, hrev, hu, ht⟩ := hin.effect (idx.call_effect hc)
    obtain ⟨u₀, hstack₀, hrev₀, -, -⟩ := hin
    cases hst : s.stack with
    | nil =>
        have := h.records
        rw [hst, hstack₀] at this
        exact this.elim
    | cons e rest =>
        have hrec := hb.records
        have hcb := hb.cur
        rw [SnapshotStack.undo_of_cons hst] at hrec hcb
        refine ⟨h.wellFormed.call c, hcur, h.revision.trans (hrev₀.trans hrev.symm), ?_⟩
        rw [hstack, SnapshotStack.set_stack, hst]
        have hrevs := hs 0 e (by simp [hst])
        rw [h.revision, hrev₀] at hrevs
        refine ⟨by omega, ?_, ?_⟩
        · rw [show e.2 = base.contents from hcb]
          exact ht
        · rw [show e.2 = base.contents from hcb]
          exact hrec

theorem Represents.startUndoSession {idx : GenericIndex keys}
    {s : SnapshotStack (Contents keys)} (h : Represents idx s) :
    Represents idx.startUndoSession s.startUndoSession := by
  refine ⟨h.wellFormed, h.cur, by simp [GenericIndex.startUndoSession, h.revision], ?_⟩
  refine ⟨by simp [h.revision], ?_, ?_⟩
  · rw [h.cur]
    exact Tracks.start h.wellFormed _
  · rw [h.cur]
    exact h.records

theorem Represents.squash {idx : GenericIndex keys} {s : SnapshotStack (Contents keys)}
    (h : Represents idx s) : Represents idx.squash s.squash := by
  have hwf : idx.squash.WellFormed := by
    intro k v hk
    rw [squash_nextId]
    exact h.wellFormed k v (by simpa [objects] using hk)
  have hcur : s.squash.cur = idx.squash.contents := by
    rw [SnapshotStack.squash_cur, h.cur, contents, contents, squash_indices, squash_nextId]
  have hrec := h.records
  have hrev := h.revision
  rcases hi : idx.stack with _ | ⟨u', _ | ⟨u, us⟩⟩ <;>
    rcases hst : s.stack with _ | ⟨e', _ | ⟨e, rest⟩⟩
  case cons.cons.cons.cons =>
    rw [hi, hst] at hrec
    obtain ⟨-, ht', hr, ht, hrest⟩ := hrec
    refine ⟨hwf, hcur, ?_, ?_⟩
    · simp [SnapshotStack.squash, GenericIndex.squash, hi, hst, hrev]
    · simp only [SnapshotStack.squash, GenericIndex.squash, hi, hst]
      exact ⟨hr.trans (UndoState.merge_revision u u').symm, ht.merge ht', hrest⟩
  case nil.nil | cons.nil.cons.nil =>
    refine ⟨hwf, hcur, ?_, ?_⟩
    · simp [SnapshotStack.squash, GenericIndex.squash, hi, hst, hrev]
    · simp [SnapshotStack.squash, GenericIndex.squash, hi, hst, Records]
  -- Stacks of different heights do not correspond.
  all_goals simp [hi, hst, Records] at hrec

theorem Represents.commit {idx : GenericIndex keys} {s : SnapshotStack (Contents keys)}
    (h : Represents idx s) (r : Int) : Represents (idx.commit r) (s.commit r) :=
  ⟨h.wellFormed, h.cur, h.revision, h.records.commit r⟩

/-- **One step.** Every operation of the index that completes is the
operation of the same name on snapshots. -/
theorem Represents.step {idx idx' : GenericIndex keys} {s : SnapshotStack (Contents keys)}
    (h : Represents idx s) (hs : s.Contiguous) {op : IndexOp V} (hf : idx.stepFits op = true)
    (hd : idx.step op = .done idx') :
    Represents idx' (snapshotStep s op) ∧ (snapshotStep s op).Contiguous := by
  cases op with
  | call c =>
      simp only [GenericIndex.step, Outcome.done.injEq] at hd
      exact hd ▸ ⟨h.call hs hf, hs.set _⟩
  | startUndoSession =>
      simp only [GenericIndex.step, Outcome.done.injEq] at hd
      exact hd ▸ ⟨h.startUndoSession, hs.startUndoSession⟩
  | undo => exact ⟨h.undo hs hd, hs.undo⟩
  | squash =>
      simp only [GenericIndex.step, Outcome.done.injEq] at hd
      exact hd ▸ ⟨h.squash, hs.squash⟩
  | commit r =>
      simp only [GenericIndex.step, Outcome.done.injEq] at hd
      exact hd ▸ ⟨h.commit r, hs.commit r⟩

/-- **Every run of an index whose objects are identified by their id alone
goes through, and is a run of the snapshot stack.** -/
theorem run_refines {V : Type u} (ops : List (IndexOp V))
    {idx : GenericIndex ([] : List (UniqueKey V))}
    {s : SnapshotStack (Contents ([] : List (UniqueKey V)))} (h : Represents idx s)
    (hs : s.Contiguous) :
    ∃ idx', idx.run ops = .done idx' ∧ Represents idx' (ops.foldl snapshotStep s) := by
  induction ops generalizing idx s with
  | nil => exact ⟨idx, rfl, h⟩
  | cons op ops ih =>
      have hfits : idx.stepFits op = true := by
        cases op with
        | call c => simpa [stepFits, callsFit] using callsFit_nil idx [c]
        | _ => rfl
      obtain ⟨idx', hd⟩ : ∃ idx', idx.step op = .done idx' := by
        cases op with
        | undo =>
            by_cases hne : idx.stack = []
            · exact ⟨idx, by simp [GenericIndex.step, GenericIndex.undo, hne]⟩
            · obtain ⟨base, hin, -⟩ := h.inSession hs hne
              exact ⟨base, hin.undo_done (replayFits_nil _ _)⟩
        | _ => exact ⟨_, rfl⟩
      obtain ⟨h', hs'⟩ := h.step hs hfits hd
      obtain ⟨idx'', hrun, hrep⟩ := ih h' hs'
      exact ⟨idx'', by simp [run, hd, hrun], hrep⟩

end GenericIndex

end Gamebank.Chainbase
