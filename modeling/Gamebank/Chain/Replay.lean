import Gamebank.Chain.Revision

/-!
# Applying a block again, and failing to

`apply_block` as a function of the objects alone (`afterBlock`): as long as
the log is up to date with what the blocks make irreversible, applying the
same blocks to the same objects again leads to the same objects.

A block that fails is undone, with one exception: when it had already made
its own number irreversible, its undo state is gone.
-/

namespace Gamebank.Chain

open Gamebank.Lib

universe u v w

variable {Name : Type u} {Tx : Type v} {Rest : Type w} [DecidableEq Name]

/-! ## A block as a function of the objects -/

namespace Objects

/-- What `apply_block` makes of the objects, when it goes through. -/
def afterBlock (ev : Evaluators Name Tx Rest) (o : Objects Name Rest) (b : SignedBlock Name Tx) :
    Except ChainException (Objects Name Rest) :=
  match o.applyHeader ev b with
  | (_, some e) => .error e
  | (o, none) =>
      match o.newLastIrreversible ev with
      | .error e => .error e
      | .ok lib =>
          let o := { o with lastIrreversibleBlockNum := lib }
          match ev.finish o b with
          | (_, some e) => .error e
          | (r, none) => .ok (o.setRest r)

/-- The value of `last_irreversible_block_num` the block `b` leads to, if it
gets as far as that. -/
def irreversibleAfter (ev : Evaluators Name Tx Rest) (o : Objects Name Rest)
    (b : SignedBlock Name Tx) : Option Nat :=
  match o.applyHeader ev b with
  | (_, some _) => none
  | (o, none) => (o.newLastIrreversible ev).toOption

/-- The blocks lead from `o` to `o'`, and never past the head of the log. -/
def Replays (ev : Evaluators Name Tx Rest) (logHead : Nat) :
    Objects Name Rest → List (SignedBlock Name Tx) → Objects Name Rest → Prop
  | o, [], o' => o = o'
  | o, b :: rest, o' => ∃ o₁, o.afterBlock ev b = .ok o₁ ∧
      o₁.lastIrreversibleBlockNum ≤ logHead ∧ Replays ev logHead o₁ rest o'

theorem Replays.mono {ev : Evaluators Name Tx Rest} {k k' : Nat} (hk : k ≤ k')
    {blocks : List (SignedBlock Name Tx)} {o o' : Objects Name Rest}
    (h : Replays ev k o blocks o') : Replays ev k' o blocks o' := by
  induction blocks generalizing o with
  | nil => exact h
  | cons b rest ih =>
      obtain ⟨o₁, h1, h2, h3⟩ := h
      exact ⟨o₁, h1, h2.trans hk, ih h3⟩

end Objects

namespace Node

omit [DecidableEq Name] in
/-- With the log up to date, settling only commits and prunes. -/
theorem settleIrreversible_logged {n : Node Name Tx Rest}
    (h : n.objects.lastIrreversibleBlockNum ≤ n.logHeadNum) :
    ∃ m, n.settleIrreversible = .ok m ∧ m.objects = n.objects ∧ m.blockLog = n.blockLog ∧
      m.forkDb.head = n.forkDb.head := by
  unfold settleIrreversible
  simp only
  have hzero : n.objects.lastIrreversibleBlockNum - ({ n with
      db := n.db.commit n.objects.lastIrreversibleBlockNum
      committed := max n.committed (min n.objects.lastIrreversibleBlockNum n.headBlockNum) } :
    Node Name Tx Rest).logHeadNum = 0 := Nat.sub_eq_zero_of_le h
  rw [hzero]
  exact ⟨_, rfl, rfl, rfl, (setMaxSize_frame _ _).1⟩

/-- A block that applied to these objects once applies to them again. -/
theorem applyBlock_of_afterBlock {ev : Evaluators Name Tx Rest} {b : SignedBlock Name Tx}
    {n : Node Name Tx Rest} {o : Objects Name Rest} (h : n.objects.afterBlock ev b = .ok o)
    (hlog : o.lastIrreversibleBlockNum ≤ n.logHeadNum) :
    ∃ m, n.applyBlock ev b = .ok m ∧ m.objects = o ∧ m.blockLog = n.blockLog ∧
      m.forkDb.head = n.forkDb.head := by
  unfold Objects.afterBlock at h
  unfold applyBlock
  simp only [show (n.noteContract ev b).objects = n.objects from rfl]
  rcases hhead : n.objects.applyHeader ev b with ⟨o₁, _ | e⟩
  · simp only [hhead] at h
    simp only [updateLastIrreversibleBlock]
    rw [show ((n.noteContract ev b).setObjects o₁).objects = o₁ from rfl]
    cases hlib : o₁.newLastIrreversible ev with
    | error e => simp [hlib] at h
    | ok lib =>
        simp only [hlib] at h
        rcases hfin : ev.finish { o₁ with lastIrreversibleBlockNum := lib } b with ⟨r, _ | e⟩
        · simp only [hfin, Except.ok.injEq] at h
          subst h
          obtain ⟨m, hm, hobj, hblog, hfork⟩ := settleIrreversible_logged
            (n := ((n.noteContract ev b).setObjects o₁).setObjects
              { o₁ with lastIrreversibleBlockNum := lib }) hlog
          have hobj : m.objects = { o₁ with lastIrreversibleBlockNum := lib } := hobj
          refine ⟨m.setObjects (m.objects.setRest r), ?_, ?_, hblog, hfork⟩
          · simp only [hm, Result.andThen_ok, finishBlock, hobj, hfin]
          · rw [hobj]
            rfl
        · simp [hfin] at h
  · simp [hhead] at h

theorem applyInSession_of_afterBlock {ev : Evaluators Name Tx Rest} {b : SignedBlock Name Tx}
    {n : Node Name Tx Rest} {o : Objects Name Rest} (h : n.objects.afterBlock ev b = .ok o)
    (hlog : o.lastIrreversibleBlockNum ≤ n.logHeadNum) :
    ∃ m, n.applyInSession ev b = .ok m ∧ m.objects = o ∧ m.blockLog = n.blockLog ∧
      m.forkDb.head = n.forkDb.head := by
  obtain ⟨m, hm, hrest⟩ :=
    applyBlock_of_afterBlock (n := { n with db := n.db.startUndoSession }) h hlog
  exact ⟨m, by rw [applyInSession, withSession, hm]; rfl, hrest⟩

/-- The loop that restores the good fork. -/
theorem forEach_of_replays {ev : Evaluators Name Tx Rest} {items : List (ForkItem Name Tx)}
    {n : Node Name Tx Rest} {o : Objects Name Rest}
    (h : Objects.Replays ev n.logHeadNum n.objects (items.map ForkItem.data) o) :
    ∃ m, Result.forEach (fun item => applyInSession ev item.data) items n = .ok m ∧
      m.objects = o ∧ m.forkDb.head = n.forkDb.head := by
  induction items generalizing n with
  | nil => exact ⟨n, rfl, h, rfl⟩
  | cons item rest ih =>
      obtain ⟨o₁, h1, h2, h3⟩ := h
      obtain ⟨m, hm, hobj, hblog, hfork⟩ := applyInSession_of_afterBlock h1 h2
      have hlog : m.logHeadNum = n.logHeadNum := by rw [logHeadNum, hblog, logHeadNum]
      rw [← hobj, ← hlog] at h3
      obtain ⟨m', hm', hobj', hfork'⟩ := ih h3
      refine ⟨m', ?_, hobj', hfork'.trans hfork⟩
      unfold Result.forEach
      rw [hm]
      exact hm'

/-! ## A block that fails -/

/-- A block that goes through was on top of the head, and is the head now. -/
theorem applyInSession_head (ev : Evaluators Name Tx Rest) (b : SignedBlock Name Tx)
    (n : Node Name Tx Rest) :
    (n.applyInSession ev b).Post (fun m => m.headBlockId = b.id ∧ b.previous = n.headBlockId)
      (fun _ => True) := by
  refine Result.Post.onError (E := fun _ => True) ?_ fun _ h => h
  refine applyBlock_post (fun _ => trivial) (fun _ _ => trivial) (fun _ _ => trivial) ?_
  intro r lib s hprev _ _ hs
  refine ⟨trivial, fun r' => ⟨trivial, ?_, hprev⟩⟩
  show s.objects.headBlockId = b.id
  rw [hs.objects]
  exact Objects.updateSigningWitness_headBlockId _ _

/-- A block, applied or failed, never shortens the log. -/
theorem applyInSession_logHeadNum (ev : Evaluators Name Tx Rest) (b : SignedBlock Name Tx)
    {n : Node Name Tx Rest} (h : n.forkDb.Sound) :
    (n.applyInSession ev b).Post (fun m => n.logHeadNum ≤ m.logHeadNum)
      (fun m => n.logHeadNum ≤ m.logHeadNum) := by
  refine Result.Post.onError (E := fun m => n.logHeadNum ≤ m.logHeadNum) ?_ fun _ hs => hs
  refine applyBlock_post (fun _ => Nat.le_refl _) (fun _ _ => Nat.le_refl _)
    (fun _ _ => Nat.le_refl _) ?_
  intro r lib s _ _ _ hs
  have hle : n.logHeadNum ≤ s.logHeadNum := hs.logHead h
  exact ⟨hle, fun r' => ⟨hle, hle⟩⟩

/-- After some blocks the head is one of them, and higher than before. -/
theorem forEach_head {ev : Evaluators Name Tx Rest} {items : List (ForkItem Name Tx)}
    {p q : Node Name Tx Rest}
    (h : Result.forEach (fun item => applyInSession ev item.data) items p = .ok q)
    (hne : items ≠ []) :
    (∃ y ∈ items, q.headBlockId = y.id) ∧ p.headBlockId.num < q.headBlockId.num := by
  induction items generalizing p with
  | nil => exact absurd rfl hne
  | cons item rest ih =>
      unfold Result.forEach at h
      have hpost := applyInSession_head ev item.data p
      cases hr : p.applyInSession ev item.data with
      | error e s => simp [hr] at h
      | ok m =>
          rw [hr] at hpost h
          obtain ⟨hid, hprev⟩ := hpost
          have hlt : p.headBlockId.num < m.headBlockId.num := by
            rw [hid, ← hprev]
            exact Nat.lt_succ_self _
          rw [Result.andThen_ok] at h
          by_cases hrest : rest = []
          · subst hrest
            simp only [Result.forEach, Result.ok.injEq] at h
            subst h
            exact ⟨⟨item, List.mem_cons_self, hid⟩, hlt⟩
          · obtain ⟨⟨y, hy, hyid⟩, hlt'⟩ := ih h hrest
            exact ⟨⟨y, List.mem_cons_of_mem item hy, hyid⟩, hlt.trans hlt'⟩

/-- Where `apply_block` can throw: before the last irreversible block is
written, or after it is settled. -/
theorem applyBlock_error_cases {ev : Evaluators Name Tx Rest} {b : SignedBlock Name Tx}
    {n t : Node Name Tx Rest} {e : ChainException} (herr : n.applyBlock ev b = .error e t) :
    (n.objects.irreversibleAfter ev b = none ∧ ∃ o, t = (n.noteContract ev b).setObjects o) ∨
    (∃ (lib : Nat) (o : Objects Name Rest) (s : Node Name Tx Rest) (r : Rest),
      n.objects.irreversibleAfter ev b = some lib ∧ o.headBlockId = b.id ∧
      b.previous = n.headBlockId ∧
      Settled ((n.noteContract ev b).setObjects { o with lastIrreversibleBlockNum := lib }) s ∧
      t = s.setObjects (s.objects.setRest r)) := by
  unfold Objects.irreversibleAfter
  unfold applyBlock at herr
  simp only [show (n.noteContract ev b).objects = n.objects from rfl] at herr
  rcases hhead : n.objects.applyHeader ev b with ⟨o, _ | e'⟩
  · have hid : o.headBlockId = b.id ∧ b.previous = n.headBlockId := by
      rcases Objects.applyHeader_cases ev n.objects b with ⟨r, e, heq⟩ | ⟨r, e, -, heq⟩ |
        ⟨r, hprev, heq⟩
      · simp [heq] at hhead
      · simp [heq] at hhead
      · rw [hhead, Prod.mk.injEq] at heq
        rw [heq.1]
        exact ⟨Objects.updateSigningWitness_headBlockId _ _, hprev⟩
    simp only [hhead, updateLastIrreversibleBlock] at herr
    rw [show ((n.noteContract ev b).setObjects o).objects = o from rfl] at herr
    cases hlib : o.newLastIrreversible ev with
    | error e' =>
        simp only [hlib, Result.andThen_error, Result.error.injEq] at herr
        exact Or.inl ⟨by simp [hlib, Except.toOption], o, herr.2.symm⟩
    | ok lib =>
        refine Or.inr ⟨lib, o, ?_⟩
        have hs := settleIrreversible_settled
          (((n.noteContract ev b).setObjects o).setObjects
            { o with lastIrreversibleBlockNum := lib })
        simp only [hlib] at herr
        cases hres : (((n.noteContract ev b).setObjects o).setObjects
            { o with lastIrreversibleBlockNum := lib }).settleIrreversible with
        | error e' s =>
            simp only [hres, Result.andThen_error, Result.error.injEq] at herr
            rw [hres] at hs
            exact ⟨s, s.objects.rest,
              by simp [hlib, Except.toOption], hid.1, hid.2, hs, herr.2.symm⟩
        | ok s =>
            simp only [hres, Result.andThen_ok, finishBlock] at herr
            rw [hres] at hs
            split at herr
            · rename_i r e' _
              simp only [Result.error.injEq] at herr
              exact ⟨s, r, by simp [hlib, Except.toOption], hid.1, hid.2, hs, herr.2.symm⟩
            · simp at herr
  · simp only [hhead, Result.error.injEq] at herr
    exact Or.inl ⟨rfl, o, herr.2.symm⟩

variable {kept : List BlockId}

/-- A failing block is undone, unless it had made its own number irreversible:
then it is the head, and nothing can be undone any more. -/
theorem applyInSession_error {ev : Evaluators Name Tx Rest} {b : SignedBlock Name Tx}
    {n s : Node Name Tx Rest} {e : ChainException} (h : n.Idle kept)
    (herr : n.applyInSession ev b = .error e s) :
    (s.objects = n.objects ∧ ∀ lib, n.objects.irreversibleAfter ev b = some lib →
        lib ≤ n.headBlockNum) ∨
    (s.headBlockId = b.id ∧ b.previous = n.headBlockId ∧ s.db.stack = [] ∧
      ∃ lib, n.objects.irreversibleAfter ev b = some lib ∧ n.headBlockNum < lib) := by
  unfold applyInSession withSession at herr
  cases hres : applyBlock ev b { n with db := n.db.startUndoSession } with
  | ok t => simp [hres, Result.onError] at herr
  | error e' t =>
      simp only [hres, Result.onError, Result.error.injEq] at herr
      obtain ⟨-, rfl⟩ := herr
      rcases applyBlock_error_cases hres with ⟨hnone, o, rfl⟩ | ⟨lib, o, s, r, hlib, hid,
        hprev, hs, rfl⟩
      · left
        refine ⟨?_, fun lib hlib => ?_⟩
        · show (n.db.startUndoSession.set o).undo.cur = n.db.cur
          rw [SnapshotStack.undo_set_startUndoSession]
        · have hnone : n.objects.irreversibleAfter ev b = none := hnone
          rw [hnone] at hlib
          simp at hlib
      · have hcontig := (h.clean.states.contiguous.startUndoSession.set
          { o with lastIrreversibleBlockNum := lib }).commit_stack lib
        have hstack : s.db.stack = (((n.headBlockNum : Int) + 1, n.objects) :: n.db.stack).take
            ((n.headBlockNum : Int) + 1 - lib).toNat := by
          rw [hs.db]
          refine hcontig.trans ?_
          simp only [SnapshotStack.set_revision, SnapshotStack.startUndoSession_revision,
            SnapshotStack.set_stack, SnapshotStack.startUndoSession_stack, h.clean.states.revision]
          rfl
        by_cases hle : lib ≤ n.headBlockNum
        · left
          refine ⟨?_, fun lib' hlib' => ?_⟩
          · have htake : ((n.headBlockNum : Int) + 1 - lib).toNat = (n.headBlockNum - lib) + 1 := by
              omega
            rw [htake, List.take_succ_cons] at hstack
            show (s.db.set (s.objects.setRest r)).undo.cur = _
            rw [SnapshotStack.undo_of_cons (s := s.db.set (s.objects.setRest r)) hstack]
          · have hlib : n.objects.irreversibleAfter ev b = some lib := hlib
            rw [hlib, Option.some.injEq] at hlib'
            omega
        · right
          have htake : ((n.headBlockNum : Int) + 1 - lib).toNat = 0 := by omega
          rw [htake, List.take_zero] at hstack
          have hundo : (s.setObjects (s.objects.setRest r)).undo.db =
              s.db.set (s.objects.setRest r) := SnapshotStack.undo_of_nil hstack
          refine ⟨?_, hprev, ?_, lib, hlib, by omega⟩
          · show (s.setObjects (s.objects.setRest r)).undo.db.cur.headBlockId = _
            rw [hundo]
            show s.objects.headBlockId = _
            rw [hs.objects]
            exact hid
          · rw [hundo]
            exact hstack

end Node

end Gamebank.Chain
