import Gamebank.Chain.ForkBranches
import Gamebank.Chain.Finality
import Gamebank.Chain.ForkFrames

/-!
# What pruning leaves of the fork database

`update_last_irreversible_block` prunes the fork database to as many blocks as
lie between the head block and the last irreversible one, counted from the head
of the **fork database**. As long as that head is at most one above the head
block, no block from the last committed one up is lost, whether a block applies
or fails (`applyInSession_after`), and a fork switch that goes through only
lowers it (`popUntil_popped`, `pushBranch_after`).
-/

namespace Gamebank.Chain

open Gamebank.Lib

universe u v w

variable {Name : Type u} {Tx : Type v} {Rest : Type w}

/-! ## The index -/

namespace ForkDatabase

variable {f f' : ForkDatabase Name Tx} {b : SignedBlock Name Tx} {low low' top top' : Nat}

/-- Nothing in the index is above `top`, and from `low + 2` up every item has its
parent there. -/
structure Rooted (f : ForkDatabase Name Tx) (low top : Nat) : Prop where
  below : ∀ i ∈ f.index, i.num ≤ top
  parents : ∀ i ∈ f.index, low + 1 < i.num → ∃ j, f.Parent i j

/-- The index lost items below `low` only. -/
structure Pruned (f f' : ForkDatabase Name Tx) (low : Nat) : Prop where
  index : ∀ i ∈ f'.index, i ∈ f.index
  kept : ∀ i ∈ f.index, low ≤ i.num → i ∈ f'.index

theorem Pruned.refl (f : ForkDatabase Name Tx) (low : Nat) : f.Pruned f low :=
  ⟨fun _ hi => hi, fun _ hi _ => hi⟩

theorem Pruned.trans {g : ForkDatabase Name Tx} (h : f.Pruned f' low) (h' : f'.Pruned g low')
    (hle : low ≤ low') : f.Pruned g low' :=
  ⟨fun i hi => h.index i (h'.index i hi), fun i hi hlow =>
    h'.kept i (h.kept i hi (hle.trans hlow)) hlow⟩

theorem Tree.of_index (h : f.Tree) (hs : f'.Sound) (hsub : ∀ i ∈ f'.index, i ∈ f.index) :
    f'.Tree :=
  ⟨hs, fun i hi j hj => h.named i (hsub i hi) j (hsub j hj), fun i j hp =>
    h.links i j ⟨hsub i hp.child, hsub j hp.parent, hp.link⟩⟩

theorem Rooted.pruned (h : f.Rooted low top) (hs : f.Sound) (hp : f.Pruned f' low')
    (hlow : low ≤ low') (htop : top ≤ top') : f'.Rooted low' top' := by
  refine ⟨fun i hi => (h.below i (hp.index i hi)).trans htop, fun i hi hnum => ?_⟩
  obtain ⟨j, hpar⟩ := h.parents i (hp.index i hi) (by omega)
  have hj := hs.num_parent hpar
  exact ⟨j, hi, hp.kept j hpar.parent (by omega), hpar.link⟩

/-- Pruning to `size` keeps what is less than `size` below the head. -/
theorem setMaxSize_pruned (f : ForkDatabase Name Tx) {size : Nat}
    (hhead : ∀ h, f.head = some h → h.num ≤ low + size) : f.Pruned (f.setMaxSize size) low := by
  refine ⟨(Node.setMaxSize_frame f size).2.2, fun i hi hlow => ?_⟩
  unfold setMaxSize
  cases hf : f.head with
  | none => exact hi
  | some h =>
      have := hhead h hf
      exact List.mem_filter.mpr ⟨hi, by simpa using by omega⟩

/-- A block pushed keeps the tree. -/
theorem Tree.pushBlock (h : f.Tree) (hpush : f.pushBlock b = .ok f') : f'.Tree := by
  have hs := h.sound.pushBlock hpush
  obtain ⟨item, haddr, hdata, hlink, -, hindex, -⟩ := pushBlock_spec hpush
  rcases hindex with ⟨hfresh, heq⟩ | ⟨-, heq⟩
  · have hid : item.id = b.id := congrArg SignedBlock.id hdata
    have hother : ∀ i ∈ f.index, i.id ≠ item.id := by
      intro i hi hc
      have hfound := h.fetchBlock hi
      rw [hc, hid, hfresh] at hfound
      cases hfound
    -- No item is linked to the new one, its address being above all others.
    have holder : ∀ i ∈ f.index, i.prev ≠ some item.addr := by
      intro i hi hc
      have h1 := h.sound.older i (mem_alive_of_index hi) _ hc
      have h2 := h.sound.allocated i (mem_alive_of_index hi)
      omega
    refine ⟨hs, fun i hi j hj hij => ?_, fun i j hp => ?_⟩
    · rw [heq, List.mem_cons] at hi hj
      rcases hi with rfl | hi <;> rcases hj with rfl | hj
      · rfl
      · exact absurd hij.symm (hother j hj)
      · exact absurd hij (hother i hi)
      · exact h.named i hi j hj hij
    · obtain ⟨hi, hj, hprev⟩ := hp
      rw [heq, List.mem_cons] at hi hj
      rcases hj with rfl | hj
      · rcases hi with rfl | hi
        · have := hs.older _ (mem_alive_of_index (heq ▸ List.mem_cons_self)) _ hprev
          exact absurd this (Nat.lt_irrefl _)
        · exact absurd hprev (holder i hi)
      · rcases hi with rfl | hi
        · rcases hlink with ⟨hnone, -⟩ | ⟨k, hk, hkprev, hkid⟩
          · simp [hnone] at hprev
          · rw [hkprev, Option.some.injEq] at hprev
            have hkj := h.sound.same k (mem_alive_of_index hk) j (mem_alive_of_index hj) hprev
            rw [← hkj, hkid]
            exact congrArg SignedBlock.previous hdata.symm
        · exact h.links i j ⟨hi, hj, hprev⟩
  · refine h.of_index hs fun i hi => ?_
    rwa [heq] at hi

/-- A block pushed is rooted, unless it is the first one. -/
theorem Rooted.pushBlock (h : f.Rooted low top) (hpush : f.pushBlock b = .ok f')
    (htop : top ≤ top') (hb : b.blockNum ≤ top') (hroot : f.head = none → b.blockNum ≤ low + 1) :
    f'.Rooted low top' := by
  obtain ⟨item, -, hdata, hlink, -, hindex, -⟩ := pushBlock_spec hpush
  have hnum : item.num = b.blockNum := congrArg SignedBlock.blockNum hdata
  rcases hindex with ⟨-, heq⟩ | ⟨-, heq⟩
  · refine ⟨fun i hi => ?_, fun i hi hlow => ?_⟩
    · rw [heq, List.mem_cons] at hi
      rcases hi with rfl | hi
      · omega
      · exact (h.below i hi).trans htop
    · rw [heq, List.mem_cons] at hi
      rcases hi with rfl | hi
      · rcases hlink with ⟨-, hnone | hzero⟩ | ⟨j, hj, hprev, -⟩
        · have := hroot hnone
          omega
        · rw [SignedBlock.blockNum, hzero] at hnum
          have : BlockId.zero.num = 0 := rfl
          omega
        · exact ⟨j, heq ▸ List.mem_cons_self, heq ▸ List.mem_cons_of_mem _ hj, hprev⟩
      · obtain ⟨j, hp⟩ := h.parents i hi hlow
        exact ⟨j, heq ▸ List.mem_cons_of_mem _ hp.child, heq ▸ List.mem_cons_of_mem _ hp.parent,
          hp.link⟩
  · refine ⟨fun i hi => (h.below i (heq ▸ hi)).trans htop, fun i hi hlow => ?_⟩
    obtain ⟨j, hp⟩ := h.parents i (heq ▸ hi) hlow
    exact ⟨j, hi, heq ▸ hp.parent, hp.link⟩

/-- A block is pushed at most one above the items of the index. -/
theorem Rooted.blockNum_le (h : f.Rooted low top) (hpush : f.pushBlock b = .ok f')
    (hhead : f.head ≠ none) : b.blockNum ≤ top + 1 := by
  obtain ⟨item, -, -, hlink, -⟩ := pushBlock_spec hpush
  rcases hlink with ⟨-, hnone | hzero⟩ | ⟨j, hj, -, hid⟩
  · exact absurd hnone hhead
  · rw [SignedBlock.blockNum, hzero]
    exact Nat.succ_le_succ (Nat.zero_le top)
  · have hj' := h.below j hj
    have hnum : j.num = b.previous.num := congrArg BlockId.num hid
    rw [SignedBlock.blockNum]
    omega

end ForkDatabase

theorem sub32_eq {a b : Nat} (hle : b ≤ a) (ha : a < uint32Size) : sub32 a b = a - b := by
  unfold sub32
  unfold uint32Size at *
  omega

variable [DecidableEq Name]

/-- A header goes through only if the last irreversible block is near. -/
theorem Objects.history_of_applyHeader {ev : Evaluators Name Tx Rest} {o p : Objects Name Rest}
    {b : SignedBlock Name Tx} (h : o.applyHeader ev b = (p, none)) :
    sub32 b.blockNum o.lastIrreversibleBlockNum < maxUndoHistory := by
  unfold applyHeader at h
  split at h
  · simp at h
  · simp only at h
    split at h
    · simp at h
    · split at h
      · simp at h
      · split at h
        · simp at h
        · split at h
          · rename_i hnear
            exact hnear
          · simp at h

namespace Node

/-! ## Blocks -/

omit [DecidableEq Name] in
/-- Settling drops nothing from the last irreversible block up, as long as the
head of the fork database is not above the head block. -/
theorem settleIrreversible_pruned {m : Node Name Tx Rest}
    (hlib : m.objects.lastIrreversibleBlockNum ≤ m.headBlockNum)
    (hnear : m.headBlockNum - m.objects.lastIrreversibleBlockNum + 1 < uint32Size)
    (hnum : m.headBlockNum < uint32Size)
    (hhead : ∀ h, m.forkDb.head = some h → h.num ≤ m.headBlockNum) :
    m.forkDb.Pruned m.settleIrreversible.state.forkDb m.objects.lastIrreversibleBlockNum := by
  unfold settleIrreversible
  simp only
  generalize hk : ({ m with
      db := m.db.commit m.objects.lastIrreversibleBlockNum
      committed := max m.committed (min m.objects.lastIrreversibleBlockNum m.headBlockNum) } :
    Node Name Tx Rest) = k
  have hfork : k.forkDb = m.forkDb := by rw [← hk]
  have hheadk : k.headBlockNum = m.headBlockNum := by rw [← hk]; rfl
  obtain ⟨log, waiting, contracts, hlog, -⟩ :=
    appendToLog_frame (m.objects.lastIrreversibleBlockNum - k.logHeadNum) k
  generalize k.appendToLog (m.objects.lastIrreversibleBlockNum - k.logHeadNum) = r at hlog
  cases r with
  | error e s =>
      simp only [Result.state_error] at hlog
      rw [Result.andThen_error, Result.state_error, hlog, ← hfork]
      exact .refl _ _
  | ok s =>
      simp only [Result.state_ok] at hlog
      rw [Result.andThen_ok, Result.state_ok, hlog]
      show m.forkDb.Pruned (k.forkDb.setMaxSize
        ((sub32 k.headBlockNum m.objects.lastIrreversibleBlockNum + 1) % uint32Size)) _
      rw [hfork, hheadk, sub32_eq hlib hnum, Nat.mod_eq_of_lt hnear]
      refine ForkDatabase.setMaxSize_pruned _ fun h hh => ?_
      have := hhead h hh
      omega

/-- What a block, applied or failed, does to the fork database: it is pruned
below what is committed then. -/
structure AfterBlock (n m : Node Name Tx Rest) : Prop where
  pruned : n.forkDb.Pruned m.forkDb m.committed
  head : m.forkDb.head = n.forkDb.head
  committed : n.committed ≤ m.committed

omit [DecidableEq Name] in
theorem AfterBlock.of_same {n m : Node Name Tx Rest} (hf : m.forkDb = n.forkDb)
    (hc : m.committed = n.committed) : n.AfterBlock m :=
  ⟨hf ▸ .refl _ _, congrArg _ hf, Nat.le_of_eq hc.symm⟩

omit [DecidableEq Name] in
theorem AfterBlock.congr {n m m' : Node Name Tx Rest} (h : n.AfterBlock m)
    (hf : m'.forkDb = m.forkDb) (hc : m'.committed = m.committed) : n.AfterBlock m' :=
  ⟨hf ▸ hc ▸ h.pruned, hf ▸ h.head, hc ▸ h.committed⟩

omit [DecidableEq Name] in
theorem AfterBlock.trans {n m k : Node Name Tx Rest} (h : n.AfterBlock m) (h' : m.AfterBlock k) :
    n.AfterBlock k :=
  ⟨h.pruned.trans h'.pruned h'.committed, h'.head.trans h.head, h.committed.trans h'.committed⟩

theorem applyInSession_after (ev : Evaluators Name Tx Rest) (b : SignedBlock Name Tx)
    {n : Node Name Tx Rest} (hnear : n.objects.Near) (hb : b.blockNum < uint32Size)
    (hhead : ∀ h, n.forkDb.head = some h → h.num ≤ n.headBlockNum + 1) :
    (n.applyInSession ev b).Post
      (fun m => n.AfterBlock m ∧ m.objects.applied = b.id :: n.objects.applied ∧
        m.headBlockNum = n.headBlockNum + 1)
      (AfterBlock n) := by
  refine Result.Post.onError (E := AfterBlock n) ?_ fun s hs => hs.congr rfl rfl
  refine applyBlock_settle (fun r => .of_same rfl rfl) (fun r _ => .of_same rfl rfl)
    (fun r _ => .of_same rfl rfl) ?_
  intro r lib m hprev hheader hlib hm
  have hprev : b.previous = n.objects.headBlockId := hprev
  have hnum : b.blockNum = n.headBlockNum + 1 := by
    rw [SignedBlock.blockNum, hprev, hnear.idNum]
    rfl
  obtain ⟨hbounded, hmoved⟩ :=
    ((Objects.near_closed ev).rest _ r hnear).advanceHead (b := b) hprev
  have hle : lib ≤ b.blockNum := by
    have := Objects.newLastIrreversible_le (hbounded.updateSigningWitness (b := b) rfl) hlib
    rwa [Objects.updateSigningWitness_headBlockNumber] at this
  have hge : n.objects.lastIrreversibleBlockNum ≤ lib := by
    have := (hmoved.updateSigningWitness (b := b) (Nat.le_succ _)).le_newLastIrreversible hlib
    rwa [Objects.updateSigningWitness_lastIrreversibleBlockNum] at this
  have hheadm : m.headBlockNum = b.blockNum := by
    rw [hm]
    exact Objects.updateSigningWitness_headBlockNumber _ b
  have hlibm : m.objects.lastIrreversibleBlockNum = lib := by
    rw [hm]
    rfl
  have hforkm : m.forkDb = n.forkDb := by
    rw [hm]
    rfl
  have hcommittedm : m.committed = n.committed := by
    rw [hm]
    rfl
  -- the header check bounds how far the irreversible number lies behind
  have hhistory : b.blockNum - n.objects.lastIrreversibleBlockNum < maxUndoHistory := by
    have hnear' : sub32 b.blockNum n.objects.lastIrreversibleBlockNum < maxUndoHistory :=
      Objects.history_of_applyHeader hheader
    have hirr := hnear.irreversible
    change n.objects.lastIrreversibleBlockNum ≤ n.headBlockNum + 1 at hirr
    rwa [sub32_eq (hirr.trans (Nat.le_of_eq hnum.symm)) hb] at hnear'
  have hsettled := settleIrreversible_settled m
  have hpruned : m.forkDb.Pruned m.settleIrreversible.state.forkDb
      m.objects.lastIrreversibleBlockNum := by
    refine settleIrreversible_pruned ?_ ?_ ?_ fun h hh => ?_
    · rw [hlibm, hheadm]
      exact hle
    · rw [hlibm, hheadm]
      unfold maxUndoHistory at hhistory
      unfold uint32Size
      omega
    · rw [hheadm]
      exact hb
    · rw [hheadm, hnum]
      exact hhead h (hforkm ▸ hh)
  rw [hlibm, hforkm] at hpruned
  have hcommitted := hsettled.committed
  rw [hlibm, hcommittedm, hheadm, Nat.min_eq_left hle] at hcommitted
  have hafter : n.AfterBlock m.settleIrreversible.state := by
    refine ⟨⟨hpruned.index, fun i hi hlow => hpruned.kept i hi ?_⟩, ?_, ?_⟩
    · omega
    · rw [hsettled.forkHead, hforkm]
    · omega
  have hmoved' : m.settleIrreversible.state.objects.applied = b.id :: n.objects.applied ∧
      m.settleIrreversible.state.headBlockNum = n.headBlockNum + 1 := by
    rw [headBlockNum, hsettled.objects, hm]
    refine ⟨Objects.updateSigningWitness_applied _ b, ?_⟩
    exact (Objects.updateSigningWitness_headBlockNumber _ b).trans hnum
  exact ⟨hafter, fun r' => ⟨hafter.congr rfl rfl, hafter.congr rfl rfl, hmoved'⟩⟩

/-! ## Fork switches -/

variable {kept : List BlockId}

/-- What popping blocks does: no item is lost, and the head of the fork database
stays at most one above the head block. -/
structure Popped (n m : Node Name Tx Rest) : Prop where
  index : m.forkDb.index = n.forkDb.index
  committed : m.committed = n.committed
  applied : m.objects.applied <:+ n.objects.applied
  headBlockNum : m.headBlockNum ≤ n.headBlockNum
  head : ∀ h, m.forkDb.head = some h → h.num ≤ m.headBlockNum + 1
  first : m.forkDb.head = none → n.forkDb.head = none

omit [DecidableEq Name] in
/-- An undo takes the head block back, or there is nothing to undo. -/
theorem Idle.undo_cases {n : Node Name Tx Rest} (h : n.Idle kept) :
    n.undo.db = n.db ∨ (n.undo.headBlockNum + 1 = n.headBlockNum ∧
      n.undo.objects.applied <:+ n.objects.applied) := by
  by_cases hne : n.db.stack = []
  · exact Or.inl (SnapshotStack.undo_of_nil hne)
  · right
    obtain ⟨m, id, chain, hnum, happlied, -, hat⟩ := h.clean.undo_of_ne_nil hne
    rw [hnum, happlied, show n.undo.objects.applied = chain from hat.applied]
    exact ⟨congrArg (· + 1) hat.num, List.suffix_cons id chain⟩

omit [DecidableEq Name] in
theorem popUntil_popped {f : ForkDatabase Name Tx} (hf : f.Sound)
    {pinned : List (ForkItem Name Tx)} (hpin : ∀ i ∈ pinned, i ∈ f.alive) (fork : BlockId)
    {n : Node Name Tx Rest} (hw : n.Within f) (hidle : n.Idle kept)
    (hhead : ∀ h, n.forkDb.head = some h → h.num ≤ n.headBlockNum + 1) :
    (n.popUntil pinned fork).Post (fun m => n.Popped m ∧ m.Within f) (fun _ => True) := by
  refine (Result.whileLoop_post (I := fun m => (n.Popped m ∧ m.Within f) ∧ m.Idle kept)
    (E := fun _ => True) (fun m hm _ => ?_) (fun _ _ => trivial) _
    ⟨⟨⟨rfl, rfl, List.suffix_rfl, Nat.le_refl _, hhead, fun h => h⟩, hw⟩, hidle⟩).imp
    (fun m hm => hm.1.1) fun _ h => h
  obtain ⟨⟨hpop, hwm⟩, hidlem⟩ := hm
  rcases popBlock_cases pinned hidlem.noPending with ⟨e, heq⟩ | ⟨top, below, txs, htop, hlock, heq⟩
  · rw [heq]
    trivial
  · have hwithin := hwm.popBlock hpin hidlem.noPending
    have hidle' := hidlem.undo
    rw [heq] at hwithin ⊢
    obtain ⟨hmem, hprev⟩ := ForkDatabase.mem_of_lock hlock
    have htopf : top ∈ f.alive := hwm.alive top (ForkDatabase.mem_alive.mpr (Or.inr htop))
    have hnum := hf.linked top htopf below (hmem.elim (hwm.alive _) (hpin _)) hprev
    have hle := hpop.head top htop
    have hmoved : m.undo.objects.applied <:+ m.objects.applied ∧
        m.undo.headBlockNum ≤ m.headBlockNum ∧ m.headBlockNum ≤ m.undo.headBlockNum + 1 := by
      rcases hidlem.undo_cases with hsame | ⟨hnum, happ⟩
      · rw [headBlockNum, objects, hsame]
        exact ⟨List.suffix_rfl, Nat.le_refl _, Nat.le_succ _⟩
      · exact ⟨happ, by omega, by omega⟩
    obtain ⟨happ, hlow, hhigh⟩ := hmoved
    refine ⟨⟨⟨hpop.index, hpop.committed, happ.trans hpop.applied,
      hlow.trans hpop.headBlockNum, fun h hh => ?_, fun hnone =>
        (Option.some_ne_none _ hnone).elim⟩, hwithin.1⟩,
      ⟨hwithin.2, hidle'.clean.congr ⟨rfl, rfl, rfl, rfl⟩⟩⟩
    have hbelow : below = h := Option.some.inj hh
    show h.num ≤ m.undo.headBlockNum + 1
    rw [← hbelow]
    omega

/-- A branch that is applied to its end. -/
theorem pushBranch_after (ev : Evaluators Name Tx Rest) {pinned : List (ForkItem Name Tx)}
    {old : ForkDatabase.Branch Name Tx} {fork : BlockId} {items : List (ForkItem Name Tx)}
    {p m : Node Name Tx Rest} (hnear : p.db.AllStates Objects.Near)
    (hsmall : ∀ i ∈ items, i.num < uint32Size)
    (hhead : ∀ h, p.forkDb.head = some h → h.num ≤ p.headBlockNum + 1)
    (h : p.pushBranch ev pinned old fork items = .ok m) :
    p.AfterBlock m ∧ m.objects.applied = (items.map ForkItem.id).reverse ++ p.objects.applied ∧
      p.headBlockNum ≤ m.headBlockNum := by
  induction items generalizing p with
  | nil =>
      obtain rfl := Result.ok.inj h
      exact ⟨.of_same rfl rfl, rfl, Nat.le_refl _⟩
  | cons item rest ih =>
      unfold Node.pushBranch at h
      have hpost := (applyInSession_after ev item.data hnear.1 (hsmall item List.mem_cons_self)
        hhead).and (applyInSession_allStates (Objects.near_closed ev) item.data hnear)
      cases hr : p.applyInSession ev item.data with
      | error e s =>
          rw [hr] at h
          have hfail := Result.isOk_andThen_error
            (s.recoverFork ev pinned (item :: rest) old fork) e
          simp only at h
          rw [h] at hfail
          cases hfail
      | ok s =>
          rw [hr] at h hpost
          obtain ⟨⟨hafter, happ, hnum⟩, hnears⟩ := hpost
          have hheads : ∀ h, s.forkDb.head = some h → h.num ≤ s.headBlockNum + 1 := by
            intro h hh
            have := hhead h (hafter.head ▸ hh)
            omega
          obtain ⟨hafter', happ', hnum'⟩ :=
            ih hnears (fun i hi => hsmall i (List.mem_cons_of_mem item hi)) hheads h
          refine ⟨hafter.trans hafter', ?_, by omega⟩
          rw [happ', happ, List.map_cons, List.reverse_cons, List.append_assoc]
          rfl

end Node

end Gamebank.Chain
