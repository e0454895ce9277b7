import Gamebank.Chain.ForkSwitch

/-!
# The two heads

The fork database and the objects each have a head block. `push_block`
raises the first before it applies anything, `apply_block` moves only the
second, and `pop_block` moves both, one block down from wherever each is.
So the two part whenever a block on top of the head fails, and at the end
of every fork switch that goes through: the pops have taken the head of the
fork database down from the new tip.

They agree along every run in which blocks on top of the head apply and a
fork switch, if there is one, fails at its first block.
-/

namespace Gamebank.Chain

open Gamebank.Lib

universe u v w

variable {Name : Type u} {Tx : Type v} {Rest : Type w} [DecidableEq Name]

/-! ## The last block replayed -/

namespace Objects

theorem afterBlock_headBlockId {ev : Evaluators Name Tx Rest} {o o' : Objects Name Rest}
    {b : SignedBlock Name Tx} (h : o.afterBlock ev b = .ok o') : o'.headBlockId = b.id := by
  unfold afterBlock at h
  rcases applyHeader_cases ev o b with ⟨r, e, heq⟩ | ⟨r, e, -, heq⟩ | ⟨r, -, heq⟩
  · simp [heq] at h
  · simp [heq] at h
  · simp only [heq] at h
    split at h
    · simp at h
    · split at h
      · simp at h
      · simp only [Except.ok.injEq] at h
        subst h
        exact updateSigningWitness_headBlockId _ _

theorem Replays.headBlockId {ev : Evaluators Name Tx Rest} {k : Nat}
    {blocks : List (SignedBlock Name Tx)} {b : SignedBlock Name Tx} {o o' : Objects Name Rest}
    (h : Replays ev k o (blocks ++ [b]) o') : o'.headBlockId = b.id := by
  induction blocks generalizing o with
  | nil =>
      obtain ⟨o₁, h1, -, rfl⟩ := h
      exact afterBlock_headBlockId h1
  | cons c rest ih =>
      obtain ⟨o₁, -, -, h3⟩ := h
      exact ih h3

end Objects

namespace Node

/-- The head of the fork database is the head block. -/
def HeadsAgree (n : Node Name Tx Rest) : Prop :=
  ∃ top, n.forkDb.head = some top ∧ top.id = n.headBlockId

omit [DecidableEq Name] in
theorem HeadsAgree.congr {n n' : Node Name Tx Rest} (h : n.HeadsAgree)
    (hf : n'.forkDb.head = n.forkDb.head) (hid : n'.headBlockId = n.headBlockId) :
    n'.HeadsAgree := by
  obtain ⟨top, htop, htopid⟩ := h
  exact ⟨top, hf.trans htop, htopid.trans hid.symm⟩

/-! ## `_push_block` -/

/-- A block that does not make a higher branch changes the fork database only. -/
theorem pushBlockInner_side {ev : Evaluators Name Tx Rest} {n : Node Name Tx Rest}
    {b : SignedBlock Name Tx} {f : ForkDatabase Name Tx} {newHead : ForkItem Name Tx}
    (hpush : n.forkDb.pushBlock b = .ok f) (hhead : f.head = some newHead)
    (hprev : newHead.previousId ≠ n.headBlockId) (hlow : ¬n.headBlockNum < newHead.num) :
    n.pushBlockInner ev b = .ok { n with forkDb := f } := by
  have hprev' : newHead.previousId ≠ ({ n with forkDb := f } : Node Name Tx Rest).headBlockId :=
    hprev
  have hlow' : ¬({ n with forkDb := f } : Node Name Tx Rest).headBlockNum < newHead.num := hlow
  unfold pushBlockInner
  simp only [hpush, hhead, if_pos hprev', if_neg hlow']

/-- A block on top of the head is applied. -/
theorem pushBlockInner_extends {ev : Evaluators Name Tx Rest} {n : Node Name Tx Rest}
    {b : SignedBlock Name Tx} {f : ForkDatabase Name Tx} {newHead : ForkItem Name Tx}
    (hpush : n.forkDb.pushBlock b = .ok f) (hhead : f.head = some newHead)
    (hprev : newHead.previousId = n.headBlockId) :
    n.pushBlockInner ev b =
      (({ n with forkDb := f } : Node Name Tx Rest).applyInSession ev b).onError fun m =>
        { m with forkDb := m.forkDb.remove b.id } := by
  have hprev' : ¬newHead.previousId ≠ ({ n with forkDb := f } : Node Name Tx Rest).headBlockId :=
    not_not.mpr hprev
  unfold pushBlockInner
  simp only [hpush, hhead, if_neg hprev']

/-- The block `b` makes the node switch, and the first block of the new
branch fails without making anything above the fork point irreversible;
the old branch can be applied again. -/
def SwitchFailsFirst (ev : Evaluators Name Tx Rest) (n : Node Name Tx Rest)
    (b : SignedBlock Name Tx) : Prop :=
  ∃ f newHead first second last p x e s o, n.Switch b f newHead first second last ∧
    FailsAt ev n f newHead first second last 0 p x e s ∧
    (∀ lib, p.objects.irreversibleAfter ev x.data = some lib → lib ≤ p.headBlockNum) ∧
    Objects.Replays ev n.logHeadNum p.objects (second.reverse.map ForkItem.data) o

/-- A block on top of the head applies, and a higher one on another branch
makes a switch that fails at its first block. -/
def PushKeepsHeads (ev : Evaluators Name Tx Rest) (n : Node Name Tx Rest)
    (b : SignedBlock Name Tx) : Prop :=
  ∀ f newHead, n.forkDb.pushBlock b = .ok f → f.head = some newHead →
    (newHead.previousId = n.headBlockId →
      (({ n with forkDb := f } : Node Name Tx Rest).applyInSession ev b).isOk = true) ∧
    (newHead.previousId ≠ n.headBlockId → n.headBlockNum < newHead.num →
      n.SwitchFailsFirst ev b)

theorem pushKeepsHeads_of_push {ev : Evaluators Name Tx Rest} {n : Node Name Tx Rest}
    {b : SignedBlock Name Tx} {f : ForkDatabase Name Tx} {newHead : ForkItem Name Tx}
    (hpush : n.forkDb.pushBlock b = .ok f) (hhead : f.head = some newHead)
    (happly : newHead.previousId = n.headBlockId →
      (({ n with forkDb := f } : Node Name Tx Rest).applyInSession ev b).isOk = true)
    (hswitch : newHead.previousId ≠ n.headBlockId → n.headBlockNum < newHead.num →
      n.SwitchFailsFirst ev b) : n.PushKeepsHeads ev b := by
  intro f' newHead' hpush' hhead'
  rw [hpush, Except.ok.injEq] at hpush'
  subst hpush'
  rw [hhead, Option.some.injEq] at hhead'
  subst hhead'
  exact ⟨happly, hswitch⟩

variable {kept : List BlockId}

/-- A failed switch leaves the two heads on the old tip. -/
theorem SwitchFailsFirst.headsAgree {ev : Evaluators Name Tx Rest} {n : Node Name Tx Rest}
    {b : SignedBlock Name Tx} (hidle : n.Idle kept) (hsound : n.forkDb.Sound)
    (h : n.SwitchFailsFirst ev b) :
    (n.pushBlockInner ev b).Post HeadsAgree HeadsAgree := by
  obtain ⟨f, newHead, first, second, last, p, x, e, s, o, hsw, hfail, hlow, hreplay⟩ := h
  obtain ⟨r, tip, heq, hobj, htop, htip, -⟩ :=
    pushBlockInner_first_fails hidle hsound hsw hfail hlow hreplay
  rw [heq]
  refine ⟨tip, htop, ?_⟩
  obtain ⟨rest, rfl⟩ : ∃ rest, second = tip :: rest := by
    cases second with
    | nil => simp at htip
    | cons i rest =>
        simp only [List.head?_cons, Option.some.injEq] at htip
        exact ⟨rest, by rw [htip]⟩
  rw [List.reverse_cons, List.map_append, List.map_singleton] at hreplay
  rw [headBlockId, hobj, hreplay.headBlockId]
  rfl

omit [DecidableEq Name] in
/-- Where the heads agree, a new head of the fork database is the block pushed,
and higher than the head. -/
theorem HeadsAgree.pushBlock_cases {n : Node Name Tx Rest} {b : SignedBlock Name Tx}
    {f : ForkDatabase Name Tx} (h : n.HeadsAgree) (hid : n.headBlockId.num = n.headBlockNum)
    (hpush : n.forkDb.pushBlock b = .ok f) :
    f.head = n.forkDb.head ∨
    ∃ item, f.head = some item ∧ item.data = b ∧ n.headBlockNum < item.num := by
  obtain ⟨top, htop, htopid⟩ := h
  obtain ⟨item, -, hdata, -, -, -, ⟨hhead, hlt⟩ | ⟨hhead, -⟩⟩ := ForkDatabase.pushBlock_cases hpush
  · right
    refine ⟨item, hhead, hdata, ?_⟩
    have hnum : top.num = n.headBlockNum := (congrArg BlockId.num htopid).trans hid
    exact hnum ▸ hlt top htop
  · exact Or.inl hhead

theorem pushBlockInner_headsAgree {ev : Evaluators Name Tx Rest} {b : SignedBlock Name Tx}
    {n : Node Name Tx Rest} (hidle : n.Idle kept) (hsound : n.forkDb.Sound) (h : n.HeadsAgree)
    (hb : n.PushKeepsHeads ev b) : (n.pushBlockInner ev b).Post HeadsAgree HeadsAgree := by
  cases hpush : n.forkDb.pushBlock b with
  | error e =>
      unfold pushBlockInner
      rw [hpush]
      exact h
  | ok f =>
      obtain ⟨top, htop, htopid⟩ := id h
      rcases h.pushBlock_cases hidle.clean.idNum hpush with hsame | ⟨item, hitem, hdata, hhigher⟩
      · -- The fork database keeps its head, which is not on top of itself.
        have hftop : f.head = some top := hsame.trans htop
        have hprev : top.previousId ≠ n.headBlockId := by
          rw [← htopid]
          exact SignedBlock.previous_ne_id top.data
        have hlow : ¬n.headBlockNum < top.num := by
          have hnum : top.num = n.headBlockNum :=
            (congrArg BlockId.num htopid).trans hidle.clean.idNum
          omega
        rw [pushBlockInner_side hpush hftop hprev hlow]
        exact ⟨top, hftop, htopid⟩
      · by_cases hprev : item.previousId = n.headBlockId
        · have hok := (hb f item hpush hitem).1 hprev
          rw [pushBlockInner_extends hpush hitem hprev]
          have hw : ({ n with forkDb := f } : Node Name Tx Rest).Within f := ⟨fun _ hi => hi, rfl⟩
          have hpost := (applyInSession_head ev b { n with forkDb := f }).and
            (applyInSession_forkDb ev b hw)
          rw [Result.eq_ok_of_isOk hok] at hpost ⊢
          obtain ⟨⟨hhead, -⟩, -, hfork⟩ := hpost
          refine ⟨item, hfork.trans hitem, ?_⟩
          rw [hhead, ForkItem.id, hdata]
        · exact ((hb f item hpush hitem).2 hprev hhigher).headsAgree hidle hsound

/-! ## Runs -/

/-- The runs in which the two heads stay together: blocks and transactions
only, each block as `PushKeepsHeads` says. -/
def StepKeepsHeads (ev : Evaluators Name Tx Rest) (n : Node Name Tx Rest) :
    Step Name Tx → Prop
  | .pushBlock b => n.clearPending.PushKeepsHeads ev b
  | .pushTransaction _ => True
  | _ => False

omit [DecidableEq Name] in
theorem headsAgree_keepsReset (kept : List BlockId) :
    KeepsReset (fun n : Node Name Tx Rest => n.Steady kept ∧ n.HeadsAgree)
      (fun n => n.Idle kept ∧ n.HeadsAgree) where
  pending :=
    { congr := fun n n' h hs hf =>
        ⟨h.1.congr hs, h.2.congr (congrArg _ hf) (congrArg (fun db => db.cur.headBlockId) hs.db)⟩
      openPending := fun n h hp =>
        ⟨(steady_keepsPending kept).openPending n h.1 hp, h.2.congr rfl rfl⟩
      pendingState := fun n h hp => (steady_keepsPending kept).pendingState n h.1 hp
      setRest := fun n r h hp =>
        ⟨(steady_keepsPending kept).setRest n r h.1 hp, h.2.congr rfl rfl⟩ }
  noPending _ h := h.1.noPending
  weaken _ h := ⟨h.1.steady, h.2⟩
  reset n h := by
    refine ⟨h.1.resetPending, h.2.congr (congrArg _ (resetPending_forkDb n)) ?_⟩
    unfold Node.resetPending
    cases hp : n.pendingTxSession with
    | none => rfl
    | some base =>
        have hpend := (steady_of_pending hp).mp h.1
        show n.db.undo.cur.headBlockId = n.headBlockId
        rw [hpend.undo.1, hpend.headId]

theorem step_headsAgree (ev : Evaluators Name Tx Rest) (s : Step Name Tx) {n : Node Name Tx Rest}
    (h : (n.Steady kept ∧ n.HeadsAgree) ∧ n.forkDb.Sound) (hs : n.StepKeepsHeads ev s) :
    ((n.step ev s).Steady kept ∧ (n.step ev s).HeadsAgree) ∧ (n.step ev s).forkDb.Sound := by
  refine ⟨?_, step_sound ev s h.2⟩
  have hk : KeepsReset (fun n : Node Name Tx Rest => n.Steady kept ∧ n.HeadsAgree) _ :=
    headsAgree_keepsReset kept
  cases s with
  | pushBlock b =>
      have hJ := hk.clearPending h.1
      have hsound : n.clearPending.forkDb.Sound := by
        rw [clearPending, resetPending_forkDb]
        exact h.2
      have hpost := ((steady_keeps ev kept).pushBlockInner b hJ.1).and
        (pushBlockInner_headsAgree hJ.1 hsound hJ.2 hs)
      exact Result.post_state.mp (hk.pushBlock b hpost)
  | pushTransaction tx => exact Result.post_state.mp (hk.pending.pushTransaction ev tx h.1)
  | generateBlock headerSize time owner key => exact hs.elim
  | popBlock => exact hs.elim
  | confirmBlock b => exact hs.elim

/-- **The two heads.** Along every run of blocks and transactions from an
opened node in which each block on top of the head applies and each fork
switch fails at its first block, the head of the fork database is the head
block. -/
theorem run_headsAgree (ev : Evaluators Name Tx Rest) (n : Node Name Tx Rest) (hopen : n.Opened)
    (hsound : n.forkDb.Sound) (h : n.HeadsAgree) (steps : List (Step Name Tx))
    (hs : Along ev (StepKeepsHeads ev) n steps) : (n.run ev steps).HeadsAgree := by
  have hstart : (n.Steady [] ∧ n.HeadsAgree) ∧ n.forkDb.Sound := ⟨⟨hopen.steady, h⟩, hsound⟩
  have hrun := Lib.Along.keeps (I := fun m => (m.Steady [] ∧ m.HeadsAgree) ∧ m.forkDb.Sound)
    (fun m s hm hc => step_headsAgree ev s hm hc) hstart hs
  exact hrun.1.2

end Node

/-! ## A switch that goes through -/

/-- The branch of block 102 replaces block 101: the head is the new tip, and
the head of the fork database the block below it. -/
theorem switch_parts_heads :
    (openedAt 100 79 [5]).Opened ∧ (openedAt 100 79 [5]).HeadsAgree ∧
    ((openedAt 100 79 [5]).run soloWitness [.pushBlock (soloBlock 101 1 2 []),
      .pushBlock (soloBlock 101 1 3 []), .pushBlock (soloBlock 102 3 4 [])]).headBlockId =
        ⟨102, 4⟩ ∧
    ((openedAt 100 79 [5]).run soloWitness [.pushBlock (soloBlock 101 1 2 []),
      .pushBlock (soloBlock 101 1 3 []),
      .pushBlock (soloBlock 102 3 4 [])]).forkDb.head.map ForkItem.id = some ⟨101, 3⟩ := by
  refine ⟨openedAt_opened _ _ _, ⟨_, rfl, rfl⟩, ?_, ?_⟩ <;> decide +kernel

/-- A block on top of the head, a side block, and a switch that fails at its
first block. -/
theorem run_headsAgree_failing :
    ((openedAt 100 79 [5]).run soloWitness [.pushBlock (soloBlock 101 1 2 []),
      .pushBlock (soloBlock 101 1 3 [5]), .pushBlock (soloBlock 102 3 4 [])]).HeadsAgree := by
  obtain ⟨e, s, hfail⟩ := forkedNode_fails
  refine Node.run_headsAgree soloWitness _ (openedAt_opened 100 79 [5])
    (ForkDatabase.startBlock_sound _) ⟨_, rfl, rfl⟩ _ ⟨?_, ?_, ?_, trivial⟩
  · exact Node.pushKeepsHeads_of_push (f := ⟨[goodItem, ⟨0, soloBlock 100 0 1 [], none⟩],
      some goodItem, 1024, 2⟩) (by rfl) rfl (fun _ => by decide +kernel)
      fun h => absurd rfl h
  · exact Node.pushKeepsHeads_of_push (f := ⟨[badItem, goodItem,
      ⟨0, soloBlock 100 0 1 [], none⟩], some goodItem, 22, 3⟩) (by rfl) rfl
      (fun h => absurd h (by decide +kernel)) fun _ h => absurd h (by decide +kernel)
  · exact Node.pushKeepsHeads_of_push (f := forkedDb) (by rfl) rfl
      (fun h => absurd h (by decide +kernel)) fun _ _ =>
        ⟨forkedDb, newItem, [newItem, badItem], [goodItem], goodItem, forkPoint, badItem, e, s, _,
          forkedNode_switch, hfail, forkPoint_low, forkPoint_replays⟩

end Gamebank.Chain
