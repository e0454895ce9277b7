import Gamebank.Chain.Replay
import Gamebank.Chain.ForkFrames

/-!
# A fork switch that fails

When a block of the new branch fails, `_push_block` removes the rest of
that branch, makes the old tip the head of the fork database, pops what it
had applied of the new branch and applies the old branch again. Every pop
moves the head of the fork database too, so after as much as one pop it is
no longer the old tip, and nothing puts it back. And a failing block that
had made its own number irreversible cannot be undone any more.

So the switch is atomic only if the **first** block of the new branch is
the one that fails, and what it makes irreversible is not above the fork
point; and then the old branch's blocks must account for the whole
difference between the fork point and the current objects.
-/

namespace Gamebank.Chain

open Gamebank.Lib

universe u v w

variable {Name : Type u} {Tx : Type v} {Rest : Type w} [DecidableEq Name]

namespace Node

variable {kept : List BlockId}

/-! ## Recovery -/

section Recovery

variable {ev : Evaluators Name Tx Rest} {pinned bad : List (ForkItem Name Tx)}
  {old : ForkDatabase.Branch Name Tx} {fork : BlockId} {tip : ForkItem Name Tx}
  {s : Node Name Tx Rest}

omit [DecidableEq Name] in
theorem popUntil_of_head (h : s.headBlockId = fork) : s.popUntil pinned fork = .ok s := by
  unfold popUntil Result.whileLoop
  simp [h]

/-- From the fork point itself nothing is popped, and the old branch is
applied again under its own head. -/
theorem recoverFork_at_fork {o : Objects Name Rest} (hhead : s.headBlockId = fork)
    (htip : old.head? = some tip)
    (hreplay : Objects.Replays ev s.logHeadNum s.objects (old.reverse.map ForkItem.data) o) :
    ∃ m, s.recoverFork ev pinned bad old fork = .ok m ∧ m.objects = o ∧
      m.forkDb.head = some tip := by
  have hhead' : (s.atTip bad tip).headBlockId = fork := hhead
  obtain ⟨m, hm, hobj, hfork⟩ := forEach_of_replays (n := s.atTip bad tip) hreplay
  rw [recoverFork_eq htip, popUntil_of_head hhead', Result.andThen_ok]
  exact ⟨m, hm, hobj, hfork⟩

/-- With no undo state left the recovery cannot leave the failing block. -/
theorem recoverFork_stuck (hhead : s.headBlockId ≠ fork) (hstack : s.db.stack = [])
    (hp : s.pendingTxSession = none) (htip : old.head? = some tip) :
    (s.recoverFork ev pinned bad old fork).Post (fun _ => False)
      (fun m => m.headBlockId = s.headBlockId) := by
  have hpop : ∀ m : Node Name Tx Rest, (m.headBlockId = s.headBlockId ∧ m.db.stack = [] ∧
      m.pendingTxSession = none) →
      (m.popBlock pinned).Post (fun m => m.headBlockId = s.headBlockId ∧ m.db.stack = [] ∧
          m.pendingTxSession = none) (fun m => m.headBlockId = s.headBlockId) := by
    intro m hm
    rcases popBlock_cases pinned hm.2.2 with ⟨e, heq⟩ | ⟨top, below, txs, -, -, heq⟩
    · rw [heq]
      exact hm.1
    · rw [heq]
      have hundo : m.undo.db = m.db := SnapshotStack.undo_of_nil hm.2.1
      refine ⟨?_, ?_, hm.2.2⟩
      · show m.undo.db.cur.headBlockId = _
        rw [hundo]
        exact hm.1
      · show m.undo.db.stack = _
        rw [hundo]
        exact hm.2.1
  rw [recoverFork_eq htip]
  refine Result.Post.andThen (M := fun _ => False) ?_ fun _ h => h.elim
  have hstart : (s.atTip bad tip).headBlockId = s.headBlockId ∧ (s.atTip bad tip).db.stack = [] ∧
      (s.atTip bad tip).pendingTxSession = none := ⟨rfl, hstack, hp⟩
  refine (Result.whileLoop_post (fun m hm _ => hpop m hm) (fun m hm => hm.1) _ hstart).imp
    (fun m hm => ?_) fun m hm => hm
  -- The guard stays on.
  have hguard : m.headBlockId = fork := by simpa using hm.2
  exact hhead (hm.1.1.symm.trans hguard)

omit [DecidableEq Name] in
/-- A pop takes the head of the fork database one block down. -/
theorem popBlock_lowers {f : ForkDatabase Name Tx} (hf : f.Sound)
    (hpin : ∀ i ∈ pinned, i ∈ f.alive) {m : Node Name Tx Rest} (hw : m.Within f)
    (hp : m.pendingTxSession = none) {top : ForkItem Name Tx} (htop : m.forkDb.head = some top) :
    (m.popBlock pinned).Post
      (fun m' => (m'.Within f ∧ m'.pendingTxSession = none) ∧
        ∃ below, m'.forkDb.head = some below ∧ below.num + 1 = top.num)
      (fun m' => m' = m) := by
  have hpost := hw.popBlock hpin hp
  rcases popBlock_cases pinned hp with ⟨e, heq⟩ | ⟨top', below, txs, htop', hlock, heq⟩
  · rw [heq]
    rfl
  · rw [htop, Option.some.injEq] at htop'
    subst htop'
    rw [heq] at hpost ⊢
    obtain ⟨hmem, hprev⟩ := ForkDatabase.mem_of_lock hlock
    have hbelow : below ∈ f.alive := hmem.elim (hw.alive _) (hpin _)
    have htopf : top ∈ f.alive := hw.alive _ (ForkDatabase.mem_alive.mpr (Or.inr htop))
    exact ⟨hpost, below, rfl, hf.linked top htopf below hbelow hprev⟩

/-- The head of the fork database is below `tip`. -/
structure BelowTip (f : ForkDatabase Name Tx) (tip : ForkItem Name Tx) (m : Node Name Tx Rest) :
    Prop where
  within : m.Within f
  noPending : m.pendingTxSession = none
  head : ∃ top, m.forkDb.head = some top ∧ top.num < tip.num

omit [DecidableEq Name] in
theorem BelowTip.whileLoop {f : ForkDatabase Name Tx} (hf : f.Sound)
    (hpin : ∀ i ∈ pinned, i ∈ f.alive) (fork : BlockId) (fuel : Nat) {m : Node Name Tx Rest}
    (hm : m.BelowTip f tip) :
    (Result.whileLoop (.assertion "head_block_id() != id") (fun m => m.headBlockId ≠ fork)
      (Node.popBlock pinned) fuel m).Post (BelowTip f tip) (BelowTip f tip) := by
  refine (Result.whileLoop_post (I := BelowTip f tip) (fun m hm _ => ?_) (fun m hm => hm) fuel
    hm).imp (fun m hm => hm.1) fun m hm => hm
  obtain ⟨top, htop, hlt⟩ := hm.head
  refine (popBlock_lowers hf hpin hm.within hm.noPending htop).imp (fun m' hm' => ?_)
    fun m' hm' => ?_
  · obtain ⟨hwp, below, hbelow, hnum⟩ := hm'
    exact ⟨hwp.1, hwp.2, below, hbelow, by omega⟩
  · subst hm'
    exact hm

/-- Above the fork point the first pop moves the head of the fork database
below the old tip, or fails and leaves the head on the new branch. -/
theorem recoverFork_above_fork {f : ForkDatabase Name Tx} (hf : f.Sound)
    (hpin : ∀ i ∈ pinned, i ∈ f.alive) (hw : s.Within f) (hhead : s.headBlockId ≠ fork)
    (hp : s.pendingTxSession = none) (htip : old.head? = some tip) (htipf : tip ∈ f.alive) :
    (s.recoverFork ev pinned bad old fork).Post
      (fun m => ∃ top, m.forkDb.head = some top ∧ top.num < tip.num)
      (fun m => m.headBlockId = s.headBlockId ∨
        ∃ top, m.forkDb.head = some top ∧ top.num < tip.num) := by
  have hguard : (s.atTip bad tip).headBlockId ≠ fork := hhead
  have hwt : (s.atTip bad tip).Within f := hw.atTip bad htipf
  have hfirst := popBlock_lowers hf hpin hwt hp
    (show (s.atTip bad tip).forkDb.head = some tip from rfl)
  rw [recoverFork_eq htip]
  refine Result.Post.andThen (M := BelowTip f tip) ?_ fun m hm => ?_
  · unfold popUntil Result.whileLoop
    rw [if_pos (by simpa using hguard)]
    refine Result.Post.andThen (M := BelowTip f tip) (hfirst.imp (fun m hm => ?_) fun m hm => ?_)
      fun m hm => (hm.whileLoop hf hpin fork _).imp (fun _ h => h) fun _ h => Or.inr h.head
    · obtain ⟨hwp, below, hbelow, hnum⟩ := hm
      exact ⟨hwp.1, hwp.2, below, hbelow, by omega⟩
    · subst hm
      exact Or.inl rfl
  · obtain ⟨top, htop, hlt⟩ := hm.head
    refine (forEach_forkDb ev old.reverse hm.within).imp (fun m' hm' => ?_) fun m' hm' => ?_
    · exact ⟨top, hm'.2.trans htop, hlt⟩
    · exact Or.inr ⟨top, hm'.2.trans htop, hlt⟩

end Recovery

/-! ## The switch -/

/-- The block `b` makes the node switch from the branch `second` to the
branch `first` of `newHead`. -/
structure Switch (n : Node Name Tx Rest) (b : SignedBlock Name Tx) (f : ForkDatabase Name Tx)
    (newHead : ForkItem Name Tx) (first second : ForkDatabase.Branch Name Tx)
    (last : ForkItem Name Tx) : Prop where
  push : n.forkDb.pushBlock b = .ok f
  head : f.head = some newHead
  forks : newHead.previousId ≠ n.headBlockId
  higher : n.headBlockNum < newHead.num
  branches : f.fetchBranchFrom newHead.id n.headBlockId = .ok (first, second)
  last : second.getLast? = some last

/-- The switch gets to the fork point `p`, applies `m` blocks of the new
branch, and then the block of `x` fails and leaves `s`. -/
structure FailsAt (ev : Evaluators Name Tx Rest) (n : Node Name Tx Rest)
    (f : ForkDatabase Name Tx) (newHead : ForkItem Name Tx)
    (first second : ForkDatabase.Branch Name Tx) (last : ForkItem Name Tx) (m : Nat)
    (p : Node Name Tx Rest) (x : ForkItem Name Tx) (e : ChainException) (s : Node Name Tx Rest) :
    Prop where
  popped : ({ n with forkDb := f } : Node Name Tx Rest).popUntil (newHead :: (first ++ second))
    last.previousId = .ok p
  applied : ∃ q, Result.forEach (fun item => applyInSession ev item.data) (first.reverse.take m) p =
    .ok q ∧ q.applyInSession ev x.data = .error e s
  block : first.reverse[m]? = some x

/-- The objects, and with them the head block and the chain applied, are
those of `n`, and the head of the fork database is the head block of `n`. -/
def Restores (n r : Node Name Tx Rest) : Prop :=
  r.objects = n.objects ∧ ∃ tip, r.forkDb.head = some tip ∧ tip.id = n.headBlockId

section Switch

variable {ev : Evaluators Name Tx Rest} {n p s : Node Name Tx Rest} {b : SignedBlock Name Tx}
  {f : ForkDatabase Name Tx} {newHead last x : ForkItem Name Tx}
  {first second : ForkDatabase.Branch Name Tx} {m : Nat} {e : ChainException}

theorem pushBranch_fails {pinned : List (ForkItem Name Tx)} {old : ForkDatabase.Branch Name Tx}
    {fork : BlockId} {items : List (ForkItem Name Tx)} {q : Node Name Tx Rest}
    (happlied : Result.forEach (fun item => applyInSession ev item.data) (items.take m) p = .ok q)
    (hx : items[m]? = some x) (hfail : q.applyInSession ev x.data = .error e s) :
    p.pushBranch ev pinned old fork items =
      (s.recoverFork ev pinned (items.drop m) old fork).andThen fun r => .error e r := by
  induction m generalizing items p with
  | zero =>
      cases items with
      | nil => simp at hx
      | cons item rest =>
          simp only [List.getElem?_cons_zero, Option.some.injEq] at hx
          subst hx
          simp only [List.take_zero, Result.forEach, Result.ok.injEq] at happlied
          subst happlied
          simp only [Node.pushBranch, hfail, List.drop_zero]
  | succ m ih =>
      cases items with
      | nil => simp at hx
      | cons item rest =>
          simp only [List.getElem?_cons_succ] at hx
          simp only [List.take_succ_cons, Result.forEach] at happlied
          cases hr : p.applyInSession ev item.data with
          | error e' s' => simp [hr] at happlied
          | ok p' =>
              rw [hr, Result.andThen_ok] at happlied
              simp only [Node.pushBranch, hr, List.drop_succ_cons]
              exact ih happlied hx

theorem Switch.pushBlockInner_eq (hsw : n.Switch b f newHead first second last)
    (hfail : FailsAt ev n f newHead first second last m p x e s) :
    n.pushBlockInner ev b =
      (s.recoverFork ev (newHead :: (first ++ second)) (first.reverse.drop m) second
        last.previousId).andThen fun r => .error e r := by
  obtain ⟨q, happlied, herr⟩ := hfail.applied
  have hhigher : ({ n with forkDb := f } : Node Name Tx Rest).headBlockNum < newHead.num :=
    hsw.higher
  have hforks : newHead.previousId ≠ ({ n with forkDb := f } : Node Name Tx Rest).headBlockId :=
    hsw.forks
  have hbranches : f.fetchBranchFrom newHead.id
      ({ n with forkDb := f } : Node Name Tx Rest).headBlockId = .ok (first, second) :=
    hsw.branches
  unfold Node.pushBlockInner
  simp only [hsw.push, hsw.head, if_pos hforks, if_pos hhigher, switchForks, hbranches, hsw.last,
    hfail.popped, Result.andThen_ok]
  exact pushBranch_fails happlied hfail.block herr

omit [DecidableEq Name] in
/-- Everything a switch holds on to is alive when it starts. -/
theorem Switch.pinned_alive (hsw : n.Switch b f newHead first second last) :
    ∀ i ∈ newHead :: (first ++ second), i ∈ f.alive := by
  obtain ⟨h1, h2, -⟩ := ForkDatabase.fetchBranchFrom_mem hsw.branches
  exact List.forall_mem_cons.mpr ⟨ForkDatabase.mem_alive.mpr (Or.inr hsw.head),
    List.forall_mem_append.mpr ⟨h1, h2⟩⟩

/-- The node at the fork point. -/
theorem FailsAt.at_fork (hidle : n.Idle kept) (hsw : n.Switch b f newHead first second last)
    (hfail : FailsAt ev n f newHead first second last m p x e s) :
    p.Idle kept ∧ p.Within f ∧ p.headBlockId = last.previousId ∧ p.logHeadNum = n.logHeadNum := by
  have hstart : ({ n with forkDb := f } : Node Name Tx Rest).Idle kept :=
    hidle.congr ⟨rfl, rfl, rfl, rfl⟩
  have hwithin : ({ n with forkDb := f } : Node Name Tx Rest).Within f := ⟨fun _ hi => hi, rfl⟩
  have h1 := ((steady_keeps ev kept).branch last.previousId).popUntil
    (newHead :: (first ++ second)) hstart
  have h2 := hwithin.popUntil hsw.pinned_alive last.previousId hidle.noPending
  have h3 := popUntil_blockLog (newHead :: (first ++ second)) last.previousId hstart.noPending
  rw [hfail.popped] at h1 h2 h3
  refine ⟨h1, h2.1.1, h2.2, ?_⟩
  have hlog : p.blockLog = n.blockLog := h3
  rw [logHeadNum, hlog, logHeadNum]

/-- After a block of the new branch was applied, the head is on that branch
and above the fork point. -/
theorem FailsAt.above_fork (hidle : n.Idle kept) (hsw : n.Switch b f newHead first second last)
    (hfail : FailsAt ev n f newHead first second last m p x e s) (hm : 0 < m) :
    ∃ y ∈ first, s.headBlockId = y.id ∧ p.headBlockId.num < s.headBlockId.num ∧ s.Within f ∧
      s.pendingTxSession = none := by
  obtain ⟨hpidle, hpwithin, -, -⟩ := hfail.at_fork hidle hsw
  obtain ⟨q, happlied, herr⟩ := hfail.applied
  have hxmem : x ∈ first := List.mem_reverse.mp (List.mem_of_getElem? hfail.block)
  have hne : first.reverse.take m ≠ [] := by
    intro hc
    have hlen := (List.getElem?_eq_some_iff.mp hfail.block).1
    have := congrArg List.length hc
    simp only [List.length_take, List.length_nil] at this
    omega
  obtain ⟨⟨y, hy, hqy⟩, hlt⟩ := forEach_head happlied hne
  have hymem : y ∈ first := List.mem_reverse.mp (List.mem_of_mem_take hy)
  have hqidle : q.Idle kept := by
    have := Result.forEach_post (l := first.reverse.take m)
      (fun item _ t ht => applyInSession_idle ev item.data ht) hpidle
    rwa [happlied] at this
  have hqwithin : q.Within f := by
    have := forEach_forkDb ev (first.reverse.take m) hpwithin
    rw [happlied] at this
    exact this.1
  have hswithin : s.Within f := by
    have := applyInSession_forkDb ev x.data hqwithin
    rw [herr] at this
    exact this.1
  have hpend : s.pendingTxSession = none := by
    have := applyInSession_idle ev x.data hqidle
    rw [herr] at this
    exact this.noPending
  rcases applyInSession_error hqidle herr with ⟨hobj, -⟩ | ⟨hid, hprev, -⟩
  · have hsq : s.headBlockId = q.headBlockId := congrArg Objects.headBlockId hobj
    exact ⟨y, hymem, hsq.trans hqy, hsq ▸ hlt, hswithin, hpend⟩
  · refine ⟨x, hxmem, hid, ?_, hswithin, hpend⟩
    have hnum : s.headBlockId.num = q.headBlockId.num + 1 := by
      rw [hid, ← hprev]
      rfl
    omega

omit [DecidableEq Name] in
theorem not_restores_of_head (hapart : ∀ i ∈ first, i.id ≠ n.headBlockId) {y : ForkItem Name Tx}
    (hy : y ∈ first) {r : Node Name Tx Rest} (hr : r.headBlockId = y.id) : ¬n.Restores r := by
  rintro ⟨hobj, -⟩
  have hid : r.headBlockId = n.headBlockId := congrArg Objects.headBlockId hobj
  exact hapart y hy (hr.symm.trans hid)

/-- When the first block of the new branch fails and can be undone, the old
branch comes back under its own head. -/
theorem pushBlockInner_first_fails (hidle : n.Idle kept) (hsound : n.forkDb.Sound)
    (hsw : n.Switch b f newHead first second last)
    (hfail : FailsAt ev n f newHead first second last 0 p x e s)
    (hlow : ∀ lib, p.objects.irreversibleAfter ev x.data = some lib → lib ≤ p.headBlockNum)
    {o : Objects Name Rest}
    (hreplay : Objects.Replays ev n.logHeadNum p.objects (second.reverse.map ForkItem.data) o) :
    ∃ r tip, n.pushBlockInner ev b = .error e r ∧ r.objects = o ∧ r.forkDb.head = some tip ∧
      second.head? = some tip ∧ tip.id = n.headBlockId := by
  obtain ⟨hpidle, hpwithin, hpfork, hplog⟩ := hfail.at_fork hidle hsw
  obtain ⟨q, happlied, herr⟩ := hfail.applied
  obtain ⟨-, -, tip, htip, htipid⟩ := ForkDatabase.fetchBranchFrom_mem hsw.branches
  simp only [List.take_zero, Result.forEach, Result.ok.injEq] at happlied
  subst happlied
  have hobj : s.objects = p.objects := by
    rcases applyInSession_error hpidle herr with ⟨hobj, -⟩ | ⟨-, -, -, lib, hlib, hlt⟩
    · exact hobj
    · exact absurd (hlow lib hlib) (Nat.not_le.mpr hlt)
  have hlog : p.logHeadNum ≤ s.logHeadNum := by
    have := applyInSession_logHeadNum ev x.data (hpwithin.sound (hsound.pushBlock hsw.push))
    rwa [herr] at this
  have hhead : s.headBlockId = last.previousId := by
    rw [headBlockId, hobj]
    exact hpfork
  rw [← hobj] at hreplay
  have hrec : ∃ r, s.recoverFork ev (newHead :: (first ++ second)) (first.reverse.drop 0) second
      last.previousId = .ok r ∧ r.objects = o ∧ r.forkDb.head = some tip :=
    recoverFork_at_fork hhead htip (hreplay.mono (hplog ▸ hlog))
  obtain ⟨r, hr, hro, hrtip⟩ := hrec
  exact ⟨r, tip, by rw [hsw.pushBlockInner_eq hfail, hr]; rfl, hro, hrtip, htip, htipid⟩

/-- **A failed fork switch.** Suppose the block of `x`, the `m`-th of the new
branch, fails, and the blocks of the old branch, applied to the fork point
again, lead to `o`. Then `_push_block` throws, and it has restored the node
if and only if `x` is the first block of the new branch, makes nothing
above the fork point irreversible, and `o` is what the objects were. -/
theorem pushBlockInner_restores_iff (hidle : n.Idle kept) (hsound : n.forkDb.Sound)
    (hsw : n.Switch b f newHead first second last) (hapart : ∀ i ∈ first, i.id ≠ n.headBlockId)
    (hfail : FailsAt ev n f newHead first second last m p x e s) {o : Objects Name Rest}
    (hreplay : Objects.Replays ev n.logHeadNum p.objects (second.reverse.map ForkItem.data) o) :
    (n.pushBlockInner ev b).isOk = false ∧
    (n.Restores (n.pushBlockInner ev b).state ↔
      m = 0 ∧ (∀ lib, p.objects.irreversibleAfter ev x.data = some lib → lib ≤ p.headBlockNum) ∧
        o = n.objects) := by
  obtain ⟨hpidle, -, hpfork, -⟩ := hfail.at_fork hidle hsw
  obtain ⟨q, happlied, herr⟩ := hfail.applied
  obtain ⟨-, h2, tip, htip, htipid⟩ := ForkDatabase.fetchBranchFrom_mem hsw.branches
  have hfsound : f.Sound := hsound.pushBlock hsw.push
  have htipf : tip ∈ f.alive := h2 tip (List.mem_of_mem_head? htip)
  have hxmem : x ∈ first := List.mem_reverse.mp (List.mem_of_getElem? hfail.block)
  obtain _ | m := m
  · simp only [List.take_zero, Result.forEach, Result.ok.injEq] at happlied
    subst happlied
    rcases applyInSession_error hpidle herr with ⟨-, hlow⟩ | ⟨hid, hprev, hstack, lib, hlib, hlt⟩
    · obtain ⟨r, tip', heq, hro, hrtip, -, htipid'⟩ :=
        pushBlockInner_first_fails hidle hsound hsw hfail hlow hreplay
      rw [heq]
      refine ⟨rfl, ?_⟩
      constructor
      · exact fun h => ⟨rfl, hlow, hro ▸ h.1⟩
      · exact fun h => ⟨hro.trans h.2.2, tip', hrtip, htipid'⟩
    · -- The failing block cannot be undone any more.
      have hne : s.headBlockId ≠ last.previousId := by
        rw [hid, ← hpfork, ← hprev]
        exact (SignedBlock.previous_ne_id _).symm
      have hpend : s.pendingTxSession = none := by
        have := applyInSession_idle ev x.data hpidle
        rw [herr] at this
        exact this.noPending
      have hstuck : (s.recoverFork ev (newHead :: (first ++ second)) (first.reverse.drop 0) second
          last.previousId).Post _ _ := recoverFork_stuck hne hstack hpend htip
      rw [hsw.pushBlockInner_eq hfail]
      refine ⟨Result.isOk_andThen_error _ _, iff_of_false ?_ ?_⟩
      · refine not_restores_of_head hapart hxmem ?_
        exact (Result.state_andThen_error (hstuck.imp (fun _ h => h.elim) fun _ h => h)).trans hid
      · exact fun h => absurd (h.2.1 lib hlib) (Nat.not_le.mpr hlt)
  · obtain ⟨y, hy, hsy, hnum, hswithin, hpend⟩ :=
      hfail.above_fork hidle hsw (Nat.succ_pos m)
    have hne : s.headBlockId ≠ last.previousId := by
      intro hc
      rw [hc, hpfork] at hnum
      exact Nat.lt_irrefl _ hnum
    have hrec : (s.recoverFork ev (newHead :: (first ++ second)) (first.reverse.drop (m + 1)) second
        last.previousId).Post _ _ :=
      recoverFork_above_fork hfsound hsw.pinned_alive hswithin hne hpend htip htipf
    rw [hsw.pushBlockInner_eq hfail]
    refine ⟨Result.isOk_andThen_error _ _, iff_of_false ?_ fun h => absurd h.1 (Nat.succ_ne_zero m)⟩
    rcases Result.state_andThen_error (hrec.imp (fun _ h => Or.inr h) fun _ h =>
      h) with hhead | htop
    · exact not_restores_of_head hapart hy (hhead.trans hsy)
    · obtain ⟨top, htop, hlt⟩ := htop
      rintro ⟨-, tip', htip', hid'⟩
      rw [htop, Option.some.injEq] at htip'
      subst htip'
      have hnum : top.num = tip.num := congrArg BlockId.num (hid'.trans htipid.symm)
      omega

end Switch

end Node

/-! ## A fork of two blocks -/

/-- A node opened at block 100 that has applied block 101 of one branch and
holds block 101 of another, with the transactions `txs`. -/
def forkedNode (txs : List Nat) : Node Nat Nat (List Nat) :=
  (openedAt 100 79 [5]).run soloWitness
    [.pushBlock (soloBlock 101 1 2 []), .pushBlock (soloBlock 101 1 3 txs)]

/-- The second block of the new branch fails: the old branch is applied
again, but the head of the fork database is now the fork point. -/
theorem second_block_fails :
    ((forkedNode []).pushBlockInner soloWitness (soloBlock 102 3 4 [5])).isOk = false ∧
    (forkedNode []).headBlockId = ⟨101, 2⟩ ∧
    ((forkedNode []).pushBlockInner soloWitness (soloBlock 102 3 4 [5])).state.headBlockId =
      ⟨101, 2⟩ ∧
    ((forkedNode []).pushBlockInner soloWitness
      (soloBlock 102 3 4 [5])).state.forkDb.head.map ForkItem.id = some ⟨100, 1⟩ := by
  refine ⟨?_, ?_, ?_, ?_⟩ <;> decide +kernel

theorem forkedNode_idle (txs : List Nat) (h : (forkedNode txs).pendingTxSession = none) :
    (forkedNode txs).Idle [] := by
  have hsteady := Node.run_steady soloWitness [.pushBlock (soloBlock 101 1 2 []),
    .pushBlock (soloBlock 101 1 3 txs)] (openedAt_opened 100 79 [5]).steady
      ⟨trivial, trivial, trivial⟩
  exact ⟨h, (Node.steady_of_noPending h).mp hsteady⟩

theorem forkedNode_sound (txs : List Nat) : (forkedNode txs).forkDb.Sound :=
  Node.run_sound soloWitness _ (ForkDatabase.startBlock_sound _)

def goodItem : ForkItem Nat Nat := ⟨1, soloBlock 101 1 2 [], some 0⟩

def badItem : ForkItem Nat Nat := ⟨2, soloBlock 101 1 3 [5], some 0⟩

def newItem : ForkItem Nat Nat := ⟨3, soloBlock 102 3 4 [], some 2⟩

/-- The fork database once block 102 of the new branch is pushed. -/
def forkedDb : ForkDatabase Nat Nat :=
  ⟨[newItem, badItem, goodItem, ⟨0, soloBlock 100 0 1 [], none⟩], some newItem, 22, 4⟩

theorem forkedNode_switch : (forkedNode [5]).Switch (soloBlock 102 3 4 []) forkedDb newItem
    [newItem, badItem] [goodItem] goodItem where
  push := by rfl
  head := rfl
  forks := by decide +kernel
  higher := by decide +kernel
  branches := by rfl
  last := rfl

/-- The node popped to the fork point. -/
def forkPoint : Node Nat Nat (List Nat) :=
  (({ forkedNode [5] with forkDb := forkedDb } : Node Nat Nat (List Nat)).popUntil
    [newItem, newItem, badItem, goodItem] goodItem.previousId).state

/-- The first block of the new branch repeats transaction 5. -/
theorem forkedNode_fails : ∃ e s, Node.FailsAt soloWitness (forkedNode [5]) forkedDb newItem
    [newItem, badItem] [goodItem] goodItem 0 forkPoint badItem e s := by
  have hfailed : (forkPoint.applyInSession soloWitness badItem.data).isOk = false := by
    decide +kernel
  obtain ⟨e, he⟩ := Result.exists_eq_error hfailed
  exact ⟨e, _, Result.eq_ok_of_isOk (by decide +kernel), ⟨forkPoint, rfl, he⟩, rfl⟩

theorem forkPoint_low : ∀ lib, forkPoint.objects.irreversibleAfter soloWitness badItem.data =
    some lib → lib ≤ forkPoint.headBlockNum := by
  intro lib hlib
  have hnone : forkPoint.objects.irreversibleAfter soloWitness badItem.data = none := by rfl
  rw [hnone] at hlib
  simp at hlib

theorem forkPoint_replays : Objects.Replays soloWitness (forkedNode [5]).logHeadNum
    forkPoint.objects [goodItem.data] (forkedNode [5]).objects :=
  ⟨_, rfl, by decide +kernel, rfl⟩

/-- When the first block of the new branch fails, all is restored. -/
theorem first_block_fails :
    (forkedNode [5]).Restores
      ((forkedNode [5]).pushBlockInner soloWitness (soloBlock 102 3 4 [])).state := by
  obtain ⟨e, s, hfail⟩ := forkedNode_fails
  exact (Node.pushBlockInner_restores_iff (forkedNode_idle [5] rfl) (forkedNode_sound [5])
    forkedNode_switch (by decide +kernel) hfail forkPoint_replays).2.mpr ⟨rfl, forkPoint_low, rfl⟩

end Gamebank.Chain
