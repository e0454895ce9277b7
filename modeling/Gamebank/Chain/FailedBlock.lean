import Gamebank.Chain.ForkHead

/-!
# What a failed block leaves behind

`_push_block` puts a block into the fork database before it applies it. The
handler of a block that fails removes the block from the index of the fork
database again; the session has undone the objects. It does not lower the
head of the fork database, and what `update_last_irreversible_block` did
before the exception (undo states committed, blocks and contracts logged)
cannot be undone.
-/

namespace Gamebank.Chain

open Gamebank.Lib

universe u v w

variable {Name : Type u} {Tx : Type v} {Rest : Type w}

namespace Node

/-- In `r` the objects with their undo states, the two logs and the head of
the fork database are those of `n`. -/
structure LeavesNothing (n r : Node Name Tx Rest) : Prop where
  db : r.db = n.db
  blockLog : r.blockLog = n.blockLog
  contractLog : r.contractLog = n.contractLog
  forkHead : r.forkDb.head = n.forkDb.head

/-- The head of the fork database is not below the block. -/
def ForkHeadReaches (n : Node Name Tx Rest) (b : SignedBlock Name Tx) : Prop :=
  ∃ top, n.forkDb.head = some top ∧ b.blockNum ≤ top.num

/-- With `lib` irreversible, the oldest undo state (that of the block's own
session, if there is no other) is not committed, and no block is logged: the
log is up to date, or the fork database `f` does not have the next block. -/
structure SettlesNothing (n : Node Name Tx Rest) (f : ForkDatabase Name Tx) (lib : Nat) : Prop where
  commit : ∀ e ∈ n.db.startUndoSession.stack.getLast?, (lib : Int) < e.1
  log : n.logHeadNum < lib → f.fetchBlockOnMainBranchByNumber (n.logHeadNum + 1) = none

/-- The head of the fork database stays exactly when it was high enough. -/
theorem pushBlock_head_eq_iff {n : Node Name Tx Rest} {b : SignedBlock Name Tx}
    {f : ForkDatabase Name Tx} (hpush : n.forkDb.pushBlock b = .ok f) :
    f.head = n.forkDb.head ↔ n.ForkHeadReaches b := by
  obtain ⟨item, -, hdata, -, -, -, hhead⟩ := ForkDatabase.pushBlock_cases hpush
  have hnum : item.num = b.blockNum := by rw [ForkItem.num, hdata]
  constructor
  · intro h
    rcases hhead with ⟨hraised, hlow⟩ | ⟨-, top, htop, hle⟩
    · have := hlow item (h.symm.trans hraised)
      omega
    · exact ⟨top, htop, hnum ▸ hle⟩
  · rintro ⟨top, htop, hle⟩
    rcases hhead with ⟨-, hlow⟩ | ⟨hsame, -⟩
    · have := hlow top htop
      omega
    · exact hsame

variable [DecidableEq Name]

/-- A block that throws before anything is irreversible is undone without a
trace. -/
theorem applyInSession_error_early {ev : Evaluators Name Tx Rest} {b : SignedBlock Name Tx}
    {n s : Node Name Tx Rest} {e : ChainException} (herr : n.applyInSession ev b = .error e s)
    (hnone : n.objects.irreversibleAfter ev b = none) :
    s.db = n.db ∧ s.blockLog = n.blockLog ∧ s.contractLog = n.contractLog := by
  unfold applyInSession withSession at herr
  cases hres : applyBlock ev b { n with db := n.db.startUndoSession } with
  | ok t => simp [hres, Result.onError] at herr
  | error e' t =>
      simp only [hres, Result.onError, Result.error.injEq] at herr
      obtain ⟨-, rfl⟩ := herr
      rcases applyBlock_error_cases hres with ⟨-, o, rfl⟩ | ⟨lib, o, s, r, hlib, -⟩
      · exact ⟨SnapshotStack.undo_set_startUndoSession _ _, rfl, rfl⟩
      · have hlib : n.objects.irreversibleAfter ev b = some lib := hlib
        rw [hnone] at hlib
        simp at hlib

/-- A block that throws later is undone without a trace exactly when its
irreversible number settled nothing. -/
theorem applyInSession_error_late {ev : Evaluators Name Tx Rest} {b : SignedBlock Name Tx}
    {n s : Node Name Tx Rest} {e : ChainException} {lib : Nat}
    (herr : n.applyInSession ev b = .error e s)
    (hlib : n.objects.irreversibleAfter ev b = some lib) :
    (s.db = n.db ∧ s.blockLog = n.blockLog ∧ s.contractLog = n.contractLog) ↔
      n.SettlesNothing n.forkDb lib := by
  unfold applyInSession withSession at herr
  cases hres : applyBlock ev b { n with db := n.db.startUndoSession } with
  | ok t => simp [hres, Result.onError] at herr
  | error e' t =>
      simp only [hres, Result.onError, Result.error.injEq] at herr
      obtain ⟨-, rfl⟩ := herr
      rcases applyBlock_error_cases hres with ⟨hnone, -⟩ | ⟨lib', o, s, r, hlib', -, -, hs, rfl⟩
      · have hnone : n.objects.irreversibleAfter ev b = none := hnone
        rw [hnone] at hlib
        simp at hlib
      · have hlib' : n.objects.irreversibleAfter ev b = some lib' := hlib'
        rw [hlib, Option.some.injEq] at hlib'
        subst hlib'
        have hdb : (s.setObjects (s.objects.setRest r)).undo.db = n.db ↔
            ∀ e ∈ n.db.startUndoSession.stack.getLast?, (lib : Int) < e.1 := by
          show (s.db.set (s.objects.setRest r)).undo = n.db ↔ _
          rw [hs.db]
          exact SnapshotStack.undo_commit_eq_iff n.db _ _ lib
        have hlog : s.blockLog = n.blockLog ↔ (n.logHeadNum < lib →
            n.forkDb.fetchBlockOnMainBranchByNumber (n.logHeadNum + 1) = none) := hs.unlogged
        constructor
        · rintro ⟨h1, h2, -⟩
          exact ⟨hdb.mp h1, hlog.mp h2⟩
        · rintro ⟨h1, h2⟩
          exact ⟨hdb.mpr h1, hlog.mpr h2, hs.contractLog (hlog.mpr h2)⟩

/-- **A failed block leaves nothing behind** exactly when the head of the fork
database did not have to be raised for it, and the irreversible number it led
to, if it got so far, settled nothing. -/
theorem pushBlockInner_leavesNothing_iff {ev : Evaluators Name Tx Rest} {b : SignedBlock Name Tx}
    {n : Node Name Tx Rest} {f : ForkDatabase Name Tx} {top : ForkItem Name Tx}
    (hpush : n.forkDb.pushBlock b = .ok f) (htop : f.head = some top)
    (hprev : top.previousId = n.headBlockId)
    (hthrows : (({ n with forkDb := f } : Node Name Tx Rest).applyInSession ev b).isOk = false) :
    n.LeavesNothing (n.pushBlockInner ev b).state ↔
      n.ForkHeadReaches b ∧
        ∀ lib, n.objects.irreversibleAfter ev b = some lib → n.SettlesNothing f lib := by
  rw [pushBlockInner_extends hpush htop hprev, ← pushBlock_head_eq_iff hpush]
  have hsame : ∀ m, ({ n with forkDb := f } : Node Name Tx Rest).applyInSession ev b = m →
      m.state.forkDb.head = f.head := by
    intro m hm
    have hpost := applyInSession_forkDb ev b (n := ({ n with forkDb := f } : Node Name Tx Rest))
      ⟨fun i hi => hi, rfl⟩
    rw [hm] at hpost
    cases m with
    | ok s => exact hpost.2
    | error e s => exact hpost.2
  cases hres : ({ n with forkDb := f } : Node Name Tx Rest).applyInSession ev b with
  | ok s => simp [hres, Result.isOk] at hthrows
  | error e s =>
      have hhead : s.forkDb.head = f.head := hsame _ hres
      simp only [Result.onError, Result.state_error]
      cases hlib : n.objects.irreversibleAfter ev b with
      | none =>
          obtain ⟨h1, h2, h3⟩ := applyInSession_error_early hres hlib
          constructor
          · intro h
            exact ⟨hhead.symm.trans h.forkHead, by simp⟩
          · rintro ⟨h, -⟩
            exact ⟨h1, h2, h3, hhead.trans h⟩
      | some lib =>
          have hlate : (s.db = n.db ∧ s.blockLog = n.blockLog ∧ s.contractLog = n.contractLog) ↔
              n.SettlesNothing f lib := by
            rw [applyInSession_error_late hres hlib]
            exact ⟨fun h => ⟨h.commit, h.log⟩, fun h => ⟨h.commit, h.log⟩⟩
          constructor
          · intro h
            refine ⟨hhead.symm.trans h.forkHead, fun lib' hlib' => ?_⟩
            rw [← Option.some.inj hlib']
            exact hlate.mp ⟨h.db, h.blockLog, h.contractLog⟩
          · rintro ⟨h, hsettles⟩
            obtain ⟨h1, h2, h3⟩ := hlate.mpr (hsettles lib rfl)
            exact ⟨h1, h2, h3, hhead.trans h⟩

end Node

/-! ### One scheduled witness -/

/-- `soloWitness` with a routine at the end of `_apply_block` that throws. -/
def failingWitness : Evaluators Nat Nat (List Nat) :=
  { soloWitness with finish := fun o _ => (o.rest, some (.evaluation 2)) }

/-- A block with a transaction applied before fails, and stays the head of the
fork database. A block that fails in the last routine of `_apply_block`, with
one witness to confirm it, has already been committed and logged: it stays the
head block too. -/
theorem failed_block_leaves_head :
    ((openedAt 100 79 [5]).pushBlockInner soloWitness (soloBlock 101 1 2 [5])).isOk = false ∧
    (openedAt 100 79 [5]).forkDb.head.map ForkItem.id = some ⟨100, 1⟩ ∧
    ((openedAt 100 79 [5]).pushBlockInner soloWitness
      (soloBlock 101 1 2 [5])).state.forkDb.head.map ForkItem.id = some ⟨101, 2⟩ ∧
    (soloNode.pushBlockInner failingWitness (soloBlock 864001 1 2 [])).isOk = false ∧
    (soloNode.pushBlockInner failingWitness (soloBlock 864001 1 2 [])).state.headBlockNum = 864001 ∧
    (soloNode.pushBlockInner failingWitness (soloBlock 864001 1 2 [])).state.logHeadNum = 864001 ∧
    (soloNode.pushBlockInner failingWitness
      (soloBlock 864001 1 2 [])).state.contractLog.map SignedContract.blockId = [⟨864001, 2⟩] := by
  refine ⟨?_, ?_, ?_, ?_, ?_, ?_, ?_⟩ <;> decide +kernel

/-- A node whose fork database still has the failed block 101 as its head. -/
def afterFailure : Node Nat Nat (List Nat) :=
  ((openedAt 100 79 [5]).pushBlockInner soloWitness (soloBlock 101 1 2 [5])).state

/-- The next block 101 fails without a trace. -/
theorem second_failure_leaves_nothing :
    afterFailure.LeavesNothing
      (afterFailure.pushBlockInner soloWitness (soloBlock 101 1 3 [5])).state := by
  refine (Node.pushBlockInner_leavesNothing_iff (n := afterFailure)
    (f := ⟨[⟨2, soloBlock 101 1 3 [5], some 0⟩, ⟨0, soloBlock 100 0 1 [], none⟩],
      some ⟨1, soloBlock 101 1 2 [5], some 0⟩, 1024, 3⟩) rfl rfl (by decide) (by decide)).mpr
    ⟨⟨⟨1, soloBlock 101 1 2 [5], some 0⟩, rfl, by decide⟩, fun lib hlib => ?_⟩
  have hnone : afterFailure.objects.irreversibleAfter soloWitness (soloBlock 101 1 3 [5]) = none :=
    rfl
  rw [hnone] at hlib
  simp at hlib

end Gamebank.Chain
