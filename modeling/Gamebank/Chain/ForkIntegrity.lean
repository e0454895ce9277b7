import Gamebank.Chain.ForkPruning
import Gamebank.Chain.ForkHead

/-!
# The fork tree over runs

Between calls the fork database is a tree that holds the chain from the last
committed block up (`Whole`). A block that fails on top of the head is removed
again by its id, which is harmless if the id was not there before; and a fork
switch moves the head of the fork database in a way that pruning stands, if it
goes through. So along every run of pushed blocks in which no fork switch fails,
and no block that the fork database knows is tried on top of the head, each
applied block above the last committed one stays in the index and linked to its
parent (`run_forksIntact`).
-/

namespace Gamebank.Chain

open Gamebank.Lib

universe u v w

variable {Name : Type u} {Tx : Type v} {Rest : Type w} [DecidableEq Name]

namespace Node

variable {kept : List BlockId}

/-! ## What runs keep -/

/-- The fork database is a tree that holds the chain from the last committed
block up, and its head is at most one above the head block. -/
structure Whole (n : Node Name Tx Rest) : Prop where
  tree : n.forkDb.Tree
  rooted : n.forkDb.Rooted n.committed n.headBlockNum
  head : ∀ h, n.forkDb.head = some h → h.num ≤ n.headBlockNum + 1 ∧ h.num < uint32Size
  first : n.forkDb.head = none → n.forkDb.index = [] ∧ n.committed = n.headBlockNum
  held : ∀ id ∈ n.objects.applied, n.committed < id.num → ∃ i ∈ n.forkDb.index, i.id = id

/-- The fork database after a block is pushed into it, before anything is applied. -/
structure Pushed (n : Node Name Tx Rest) (b : SignedBlock Name Tx) (f : ForkDatabase Name Tx) :
    Prop where
  tree : f.Tree
  rooted : f.Rooted n.committed (n.headBlockNum + 1)
  head : ∀ h, f.head = some h → h.num ≤ n.headBlockNum + 1 ∧ h.num < uint32Size
  index : ∀ i ∈ n.forkDb.index, i ∈ f.index
  known : ∃ i ∈ f.index, i.id = b.id

variable {n m : Node Name Tx Rest} {b : SignedBlock Name Tx} {f : ForkDatabase Name Tx}
  {newHead : ForkItem Name Tx}

omit [DecidableEq Name] in
theorem Whole.congr {n' : Node Name Tx Rest} (h : n.Whole) (hf : n'.forkDb = n.forkDb)
    (hc : n'.committed = n.committed) (hnum : n'.headBlockNum = n.headBlockNum)
    (happ : n'.objects.applied = n.objects.applied) : n'.Whole := by
  obtain ⟨h1, h2, h3, h4, h5⟩ := h
  rw [← hf, ← hc, ← hnum] at h2
  rw [← hf, ← hnum] at h3
  rw [← hf, ← hc, ← hnum] at h4
  rw [← hf, ← hc, ← happ] at h5
  exact ⟨hf ▸ h1, h2, h3, h4, h5⟩

omit [DecidableEq Name] in
/-- Pruning below the last committed block keeps the fork database whole. -/
theorem Whole.of_pruned {low top : Nat} (htree : f.Tree) (hrooted : f.Rooted low top)
    (hp : f.Pruned m.forkDb m.committed) (hs : m.forkDb.Sound) (hlow : low ≤ m.committed)
    (htop : top ≤ m.headBlockNum) (hsome : m.forkDb.head ≠ none)
    (hhead : ∀ h, m.forkDb.head = some h → h.num ≤ m.headBlockNum + 1 ∧ h.num < uint32Size)
    (hheld : ∀ id ∈ m.objects.applied, m.committed < id.num → ∃ i ∈ f.index, i.id = id) :
    m.Whole := by
  refine ⟨htree.of_index hs hp.index, hrooted.pruned htree.sound hp hlow htop, hhead,
    fun hnone => absurd hnone hsome, fun id hid hnum => ?_⟩
  obtain ⟨i, hi, rfl⟩ := hheld id hid hnum
  exact ⟨i, hp.kept i hi (Nat.le_of_lt hnum), rfl⟩

omit [DecidableEq Name] in
theorem Whole.pushed (h : n.Whole) (hpush : n.forkDb.pushBlock b = .ok f)
    (hb : b.blockNum < uint32Size)
    (hroot : n.forkDb.head = none → b.blockNum ≤ n.headBlockNum + 1) :
    n.Pushed b f := by
  have hle : b.blockNum ≤ n.headBlockNum + 1 := by
    by_cases hnone : n.forkDb.head = none
    · exact hroot hnone
    · exact h.rooted.blockNum_le hpush hnone
  obtain ⟨item, -, hdata, -, -, hindex, hhead⟩ := ForkDatabase.pushBlock_spec hpush
  have hnum : item.num = b.blockNum := congrArg SignedBlock.blockNum hdata
  refine ⟨h.tree.pushBlock hpush, h.rooted.pushBlock hpush (Nat.le_succ _) hle fun hnone => ?_,
    fun x hx => ?_, fun i hi => ?_, ?_⟩
  · rw [(h.first hnone).2]
    exact hle
  · rcases hhead with ⟨hnew, -⟩ | ⟨hold, -⟩
    · rw [hnew, Option.some.injEq] at hx
      rw [← hx, hnum]
      exact ⟨hle, hb⟩
    · exact h.head x (hold ▸ hx)
  · rcases hindex with ⟨-, heq⟩ | ⟨-, heq⟩
    · exact heq ▸ List.mem_cons_of_mem _ hi
    · exact heq ▸ hi
  · rcases hindex with ⟨-, heq⟩ | ⟨⟨i, hi, hid⟩, heq⟩
    · exact ⟨item, heq ▸ List.mem_cons_self, congrArg SignedBlock.id hdata⟩
    · exact ⟨i, heq ▸ hi, hid⟩

omit [DecidableEq Name] in
/-- A block that is not applied now. -/
theorem Whole.side (h : n.Whole) (hpush : n.forkDb.pushBlock b = .ok f)
    (hb : b.blockNum < uint32Size) (hhead : f.head = some newHead)
    (hlow : ¬n.headBlockNum < newHead.num) :
    ({ n with forkDb := f } : Node Name Tx Rest).Whole := by
  have hle : b.blockNum ≤ n.headBlockNum := by
    obtain ⟨item, -, hdata, -, -, -, hcases⟩ := ForkDatabase.pushBlock_spec hpush
    have hnum : item.num = b.blockNum := congrArg SignedBlock.blockNum hdata
    rcases hcases with ⟨hnew, -⟩ | ⟨hold, top, htop, hitem⟩
    · rw [hhead, Option.some.injEq] at hnew
      rw [hnew] at hlow
      omega
    · rw [← hold, hhead, Option.some.injEq] at htop
      rw [htop] at hlow
      omega
  have hpushed := h.pushed hpush hb fun _ => Nat.le_succ_of_le hle
  have hrooted : f.Rooted n.committed n.headBlockNum := by
    refine h.rooted.pushBlock hpush (Nat.le_refl _) hle fun hnone => ?_
    have := (h.first hnone).2
    omega
  refine ⟨hpushed.tree, hrooted, hpushed.head, fun hnone => ?_, fun id hid hnum => ?_⟩
  · rw [show f.head = none from hnone] at hhead
    cases hhead
  · obtain ⟨i, hi, hiid⟩ := h.held id hid hnum
    exact ⟨i, hpushed.index i hi, hiid⟩

omit [DecidableEq Name] in
/-- The applied blocks are not above the head. -/
theorem num_le_of_applied (hnear : n.objects.Near) {id : BlockId} (hid : id ∈ n.objects.applied) :
    id.num ≤ n.headBlockNum := by
  obtain ⟨i, hi⟩ := List.mem_iff_getElem?.mp hid
  have := hnear.numbered i id hi
  show id.num ≤ n.objects.headBlockNumber
  omega

omit [DecidableEq Name] in
/-- The head of the fork database stays low as long as the head block does not fall. -/
theorem Pushed.heads (h : n.Pushed b f) (hhead : f.head = some newHead)
    (hm : m.forkDb.head = f.head) (hnum : n.headBlockNum ≤ m.headBlockNum) :
    m.forkDb.head ≠ none ∧
      ∀ x, m.forkDb.head = some x → x.num ≤ m.headBlockNum + 1 ∧ x.num < uint32Size := by
  refine ⟨by rw [hm, hhead]; simp, fun x hx => ?_⟩
  obtain ⟨h1, h2⟩ := h.head x (hm ▸ hx)
  exact ⟨by omega, h2⟩

omit [DecidableEq Name] in
/-- A block that applied on top of the head. -/
theorem Whole.extended (h : n.Whole) (hpushed : n.Pushed b f) (hhead : f.head = some newHead)
    (hafter : ({ n with forkDb := f } : Node Name Tx Rest).AfterBlock m) (hwithin : m.Within f)
    (happ : m.objects.applied = b.id :: n.objects.applied)
    (hnum : m.headBlockNum = n.headBlockNum + 1) : m.Whole := by
  obtain ⟨hsome, hbound⟩ := hpushed.heads hhead hafter.head (by omega)
  have hcommitted : n.committed ≤ m.committed := hafter.committed
  refine Whole.of_pruned hpushed.tree hpushed.rooted hafter.pruned
    (hwithin.sound hpushed.tree.sound) hcommitted (Nat.le_of_eq hnum.symm) hsome hbound
    fun id hid hlow => ?_
  rw [happ, List.mem_cons] at hid
  rcases hid with rfl | hid
  · exact hpushed.known
  · obtain ⟨i, hi, hiid⟩ := h.held id hid (by omega)
    exact ⟨i, hpushed.index i hi, hiid⟩

omit [DecidableEq Name] in
/-- A block new to the fork database and removed again leaves the rest of the index. -/
theorem Whole.pruned_remove (h : n.Whole) (hpush : n.forkDb.pushBlock b = .ok f)
    (hpushed : n.Pushed b f) (hfresh : n.forkDb.fetchBlock b.id = none)
    (hafter : ({ n with forkDb := f } : Node Name Tx Rest).AfterBlock m) :
    n.forkDb.Pruned (m.forkDb.remove b.id) m.committed := by
  refine ⟨fun i hi => ?_, fun i hi hlow => ?_⟩
  · obtain ⟨hi, hne⟩ := List.mem_filter.mp hi
    simp only [decide_eq_true_eq] at hne
    have hif : i ∈ f.index := hafter.pruned.index i hi
    obtain ⟨item, -, hdata, -, -, ⟨-, heq⟩ | ⟨-, heq⟩, -⟩ := ForkDatabase.pushBlock_spec hpush
    · rw [heq, List.mem_cons] at hif
      rcases hif with rfl | hif
      · exact absurd (congrArg SignedBlock.id hdata) hne
      · exact hif
    · exact heq ▸ hif
  · refine List.mem_filter.mpr ⟨hafter.pruned.kept i (hpushed.index i hi) hlow, ?_⟩
    simp only [decide_eq_true_eq]
    intro hid
    have hfound := h.tree.fetchBlock hi
    rw [hid, hfresh] at hfound
    cases hfound

/-- A block that failed on top of the head. -/
theorem Whole.refused {ev : Evaluators Name Tx Rest} (h : n.Whole) (hidle : n.Idle kept)
    (hpush : n.forkDb.pushBlock b = .ok f) (hpushed : n.Pushed b f)
    (hhead : f.head = some newHead) (hfresh : n.forkDb.fetchBlock b.id = none)
    {e : ChainException}
    (herr : ({ n with forkDb := f } : Node Name Tx Rest).applyInSession ev b = .error e m)
    (hafter : ({ n with forkDb := f } : Node Name Tx Rest).AfterBlock m) (hwithin : m.Within f)
    (hnear : m.objects.Near) (hidle' : m.Idle kept) :
    ({ m with forkDb := m.forkDb.remove b.id } : Node Name Tx Rest).Whole := by
  have hcommitted : n.committed ≤ m.committed := hafter.committed
  have hstart : ({ n with forkDb := f } : Node Name Tx Rest).Idle kept :=
    hidle.congr ⟨rfl, rfl, rfl, rfl⟩
  have hcases := applyInSession_error hstart herr
  have hnum : n.headBlockNum ≤ m.headBlockNum := by
    rcases hcases with ⟨hobj, -⟩ | ⟨hid, hprev, -⟩
    · exact Nat.le_of_eq (congrArg Objects.headBlockNumber hobj.symm)
    · have hidNum := hidle'.clean.idNum
      rw [hid, SignedBlock.id_num, SignedBlock.blockNum, hprev] at hidNum
      have hstartNum : _ = n.headBlockNum := hstart.clean.idNum
      omega
  obtain ⟨hsome, hbound⟩ := hpushed.heads hhead hafter.head hnum
  have hsound : (m.forkDb.remove b.id).Sound := by
    refine (hwithin.sound hpushed.tree.sound).of_subset (fun i hi => ?_) rfl
    rcases ForkDatabase.mem_alive.mp hi with hi | hi
    · exact ForkDatabase.mem_alive.mpr (Or.inl (List.mem_of_mem_filter hi))
    · exact ForkDatabase.mem_alive.mpr (Or.inr hi)
  refine Whole.of_pruned (m := { m with forkDb := m.forkDb.remove b.id }) h.tree h.rooted
    (h.pruned_remove hpush hpushed hfresh hafter) hsound hcommitted hnum hsome hbound
    fun id hid hlow => ?_
  have hlow : m.committed < id.num := hlow
  rcases hcases with ⟨hobj, -⟩ | ⟨-, -, hstack, -⟩
  · exact h.held id (hobj ▸ hid) (by omega)
  · -- The block could not be undone: everything applied is committed.
    have hlen := hidle'.clean.states.length
    rw [hstack, List.length_nil] at hlen
    have := num_le_of_applied hnear hid
    omega

/-- A block on top of the head, applied or failed. -/
theorem Whole.extend (ev : Evaluators Name Tx Rest) (h : n.Whole) (hidle : n.Idle kept)
    (hnear : n.db.AllStates Objects.Near) (hpush : n.forkDb.pushBlock b = .ok f)
    (hb : b.blockNum < uint32Size) (hhead : f.head = some newHead)
    (hprev : newHead.previousId = n.headBlockId) (hfresh : n.forkDb.fetchBlock b.id = none) :
    ((({ n with forkDb := f } : Node Name Tx Rest).applyInSession ev b).onError fun m =>
      { m with forkDb := m.forkDb.remove b.id }).Post Whole Whole := by
  have hpushed : n.Pushed b f := by
    refine h.pushed hpush hb fun hnone => ?_
    obtain ⟨item, -, hdata, -, -, -, ⟨hnew, -⟩ | ⟨-, top, htop, -⟩⟩ :=
      ForkDatabase.pushBlock_spec hpush
    · rw [hhead, Option.some.injEq] at hnew
      have hitem : newHead.previousId = b.previous := hnew ▸ congrArg SignedBlock.previous hdata
      rw [SignedBlock.blockNum, ← hitem, hprev, hidle.clean.idNum]
    · rw [hnone] at htop
      cases htop
  have hpost := ((applyInSession_after ev b (n := { n with forkDb := f }) hnear.1 hb
    fun x hx => (hpushed.head x hx).1).and (applyInSession_forkDb ev b (f := f)
      (n := { n with forkDb := f }) ⟨fun _ hi => hi, rfl⟩)).and
    ((applyInSession_allStates (Objects.near_closed ev) b (n := { n with forkDb := f }) hnear).and
      (applyInSession_idle ev b (hidle.congr ⟨rfl, rfl, rfl, rfl⟩)))
  cases hr : ({ n with forkDb := f } : Node Name Tx Rest).applyInSession ev b with
  | ok m =>
      rw [hr] at hpost
      obtain ⟨⟨⟨hafter, happ, hnum⟩, hwithin, -⟩, -⟩ := hpost
      exact h.extended hpushed hhead hafter hwithin happ hnum
  | error e m =>
      rw [hr] at hpost
      obtain ⟨⟨hafter, hwithin, -⟩, hnears, hidles⟩ := hpost
      exact h.refused hidle hpush hpushed hhead hfresh hr hafter hwithin hnears.1 hidles

/-- A fork switch that goes through pops to the fork and applies the new branch. -/
theorem switchForks_ok {ev : Evaluators Name Tx Rest}
    (hok : n.switchForks ev newHead = .ok m) :
    ∃ first second, ∃ last : ForkItem Name Tx, ∃ p,
      n.forkDb.fetchBranchFrom newHead.id n.headBlockId = .ok (first, second) ∧
      n.popUntil (newHead :: (first ++ second)) last.previousId = .ok p ∧
      p.pushBranch ev (newHead :: (first ++ second)) second last.previousId first.reverse =
        .ok m := by
  unfold switchForks at hok
  split at hok
  · cases hok
  · rename_i first second hbranch
    obtain ⟨-, -, tip, htip, -⟩ := ForkDatabase.fetchBranchFrom_mem hbranch
    split at hok
    · rename_i hnone
      rw [List.getLast?_eq_none_iff] at hnone
      rw [hnone] at htip
      cases htip
    · rename_i last _
      cases hpop : n.popUntil (newHead :: (first ++ second)) last.previousId with
      | error e p =>
          simp only [hpop, Result.andThen_error] at hok
          cases hok
      | ok p =>
          simp only [hpop, Result.andThen_ok] at hok
          exact ⟨first, second, last, p, hbranch, hpop, hok⟩

omit [DecidableEq Name] in
/-- The branches of a switch are in the index, where nothing is above the new head. -/
theorem Pushed.branches_mem (h : n.Pushed b f) (hhead : f.head = some newHead)
    (hhigher : n.headBlockNum < newHead.num) {id id' : BlockId}
    {first second : ForkDatabase.Branch Name Tx}
    (hbranch : f.fetchBranchFrom id id' = .ok (first, second)) :
    (∀ i ∈ first, i ∈ f.index) ∧ (∀ i ∈ second, i ∈ f.index) ∧
      ∃ tip, first.head? = some tip ∧ tip.id = id := by
  have hlock : ∀ i j, i ∈ f.index → f.lock [] i.prev = some j → j ∈ f.index := by
    intro i j hi hj
    obtain ⟨hmem, hprev⟩ := ForkDatabase.mem_of_lock hj
    have hjf : j ∈ f.alive := by simpa using hmem
    have hnum := h.tree.sound.linked i (ForkDatabase.mem_alive_of_index hi) j hjf hprev
    have hle := h.rooted.below i hi
    rcases ForkDatabase.mem_alive.mp hjf with hjf | hjf
    · exact hjf
    · rw [hhead, Option.some.injEq] at hjf
      rw [← hjf] at hnum
      omega
  obtain ⟨h1, h2, ⟨tip, htip, -, hid⟩, -⟩ :=
    ForkDatabase.fetchBranchFrom_forall hlock (fun i hi => hi) hbranch
  exact ⟨h1, h2, tip, htip, hid⟩

/-- A fork switch that goes through. -/
theorem Whole.switch {ev : Evaluators Name Tx Rest} (h : n.Whole) (hidle : n.Idle kept)
    (hnear : n.db.AllStates Objects.Near) (hpush : n.forkDb.pushBlock b = .ok f)
    (hb : b.blockNum < uint32Size) (hhead : f.head = some newHead)
    (hhigher : n.headBlockNum < newHead.num)
    (hok : ({ n with forkDb := f } : Node Name Tx Rest).switchForks ev newHead = .ok m) :
    m.Whole := by
  obtain ⟨first, second, last, p, hbranch, hpop, happly⟩ := switchForks_ok hok
  have hbranch : f.fetchBranchFrom newHead.id n.headBlockId = .ok (first, second) := hbranch
  have hpushed : n.Pushed b f := by
    refine h.pushed hpush hb fun hnone => ?_
    -- The head block is in the index, so it is the block pushed.
    obtain ⟨-, -, -, tip, -, htip, htipid⟩ := ForkDatabase.fetchBranchFrom_forall
      (P := fun _ => True) (fun _ _ _ _ => trivial) (fun _ _ => trivial) hbranch
    obtain ⟨item, -, hdata, -, -, hindex, -⟩ := ForkDatabase.pushBlock_spec hpush
    rw [(h.first hnone).1] at hindex
    rcases hindex with ⟨-, heq⟩ | ⟨⟨i, hi, -⟩, -⟩
    · rw [heq, List.mem_singleton] at htip
      subst htip
      have hnum : tip.num = n.headBlockNum := (congrArg BlockId.num htipid).trans hidle.clean.idNum
      have hnum' : tip.num = b.blockNum := congrArg SignedBlock.blockNum hdata
      omega
    · simp at hi
  obtain ⟨hfirst, hsecond, tip, htip, htipid⟩ := hpushed.branches_mem hhead hhigher hbranch
  have hstart : ({ n with forkDb := f } : Node Name Tx Rest).Idle kept :=
    hidle.congr ⟨rfl, rfl, rfl, rfl⟩
  have hpin : ∀ i ∈ newHead :: (first ++ second), i ∈ f.alive :=
    List.forall_mem_cons.mpr ⟨ForkDatabase.mem_alive.mpr (Or.inr hhead),
      List.forall_mem_append.mpr ⟨fun i hi => ForkDatabase.mem_alive_of_index (hfirst i hi),
        fun i hi => ForkDatabase.mem_alive_of_index (hsecond i hi)⟩⟩
  have hpopped := (popUntil_popped hpushed.tree.sound hpin last.previousId
    (n := { n with forkDb := f }) ⟨fun _ hi => hi, rfl⟩ hstart
    fun x hx => (hpushed.head x hx).1).and
    (((allStates_keeps (Objects.near_closed ev) kept).branch last.previousId).popUntil
      (newHead :: (first ++ second)) (n := { n with forkDb := f }) ⟨hstart, hnear⟩)
  have hsmall : ∀ i ∈ first.reverse, i.num < uint32Size := by
    intro i hi
    have hle := hpushed.rooted.below i (hfirst i (List.mem_reverse.mp hi))
    have := (hpushed.head newHead hhead).2
    omega
  rw [hpop] at hpopped
  obtain ⟨⟨hp, hwithin⟩, hidlep, hnearp⟩ := hpopped
  obtain ⟨hafter, happ, hnum⟩ := pushBranch_after ev hnearp hsmall hp.head happly
  obtain ⟨-, -, tip', htip', -⟩ := ForkDatabase.fetchBranchFrom_mem hbranch
  have htipf := ForkDatabase.mem_alive_of_index (hsecond tip' (List.mem_of_mem_head? htip'))
  have hend := (hwithin.pushBranch ev hpin htip' htipf last.previousId first.reverse
    hidlep.noPending).and
    (((allStates_keeps (Objects.near_closed ev) kept).branch last.previousId).pushBranch
      (newHead :: (first ++ second)) second first.reverse ⟨hidlep, hnearp⟩)
  rw [happly] at hend
  obtain ⟨hwithinm, -, hnearm⟩ := hend
  -- The last block applied is the new head.
  obtain ⟨rest, rfl⟩ : ∃ rest, first = tip :: rest := by
    cases first with
    | nil => simp at htip
    | cons x rest =>
        rw [List.head?_cons, Option.some.injEq] at htip
        exact ⟨rest, by rw [htip]⟩
  rw [List.map_reverse, List.reverse_reverse, List.map_cons] at happ
  have hnumm : m.headBlockNum = newHead.num := by
    have hzero : tip.id.num + 0 = m.headBlockNum :=
      hnearm.1.numbered 0 tip.id (by rw [← objects, happ]; rfl)
    have htipnum : tip.id.num = newHead.num := congrArg BlockId.num htipid
    omega
  have hnew := hpushed.head newHead hhead
  have hcommitted : p.committed = n.committed := hp.committed
  have hle := hafter.committed
  have hnump : p.headBlockNum ≤ n.headBlockNum := hp.headBlockNum
  have hindex : p.forkDb.index = f.index := hp.index
  refine Whole.of_pruned hpushed.tree hpushed.rooted
    ⟨fun i hi => hindex ▸ hafter.pruned.index i hi, fun i hi hlow =>
      hafter.pruned.kept i (hindex ▸ hi) hlow⟩ (hwithinm.sound hpushed.tree.sound) (by omega)
    (by omega) ?_ (fun x hx => ?_) fun id hid hlow => ?_
  · intro hnone
    have hnone : f.head = none := hp.first (hafter.head ▸ hnone)
    rw [hnone] at hhead
    cases hhead
  · have hx' := hp.head x (hafter.head ▸ hx)
    exact ⟨by omega, by omega⟩
  -- an applied id is of the new branch or was applied before
  · rw [happ, List.mem_append, ← List.map_cons] at hid
    rcases hid with hid | hid
    · obtain ⟨i, hi, rfl⟩ := List.mem_map.mp hid
      exact ⟨i, hfirst i hi, rfl⟩
    · obtain ⟨i, hi, hiid⟩ := h.held id (hp.applied.subset hid) (by omega)
      exact ⟨i, hpushed.index i hi, hiid⟩

/-! ## Runs -/

/-- What a push is to meet: a fork switch that it makes goes through, and a block
that is tried on top of the head is new to the fork database. Block numbers are
of 32 bits. -/
structure PushKeepsForks (ev : Evaluators Name Tx Rest) (n : Node Name Tx Rest)
    (b : SignedBlock Name Tx) : Prop where
  small : b.blockNum < uint32Size
  switches : ∀ f newHead, n.forkDb.pushBlock b = .ok f → f.head = some newHead →
    newHead.previousId ≠ n.headBlockId → n.headBlockNum < newHead.num →
    (({ n with forkDb := f } : Node Name Tx Rest).switchForks ev newHead).isOk = true
  extends_new : ∀ f newHead, n.forkDb.pushBlock b = .ok f → f.head = some newHead →
    newHead.previousId = n.headBlockId → n.forkDb.fetchBlock b.id = none

theorem pushKeepsForks_of_push {ev : Evaluators Name Tx Rest} (hpush : n.forkDb.pushBlock b = .ok f)
    (hhead : f.head = some newHead) (hsmall : b.blockNum < uint32Size)
    (hswitch : newHead.previousId ≠ n.headBlockId → n.headBlockNum < newHead.num →
      (({ n with forkDb := f } : Node Name Tx Rest).switchForks ev newHead).isOk = true)
    (hextend : newHead.previousId = n.headBlockId → n.forkDb.fetchBlock b.id = none) :
    n.PushKeepsForks ev b := by
  refine ⟨hsmall, fun f' newHead' hpush' hhead' => ?_, fun f' newHead' hpush' hhead' => ?_⟩
  all_goals
    rw [hpush, Except.ok.injEq] at hpush'
    subst hpush'
    rw [hhead, Option.some.injEq] at hhead'
    subst hhead'
  · exact hswitch
  · exact hextend

theorem pushBlockInner_whole {ev : Evaluators Name Tx Rest} (h : n.Whole) (hidle : n.Idle kept)
    (hnear : n.db.AllStates Objects.Near) (hb : n.PushKeepsForks ev b) :
    (n.pushBlockInner ev b).Post Whole Whole := by
  cases hpush : n.forkDb.pushBlock b with
  | error e =>
      unfold pushBlockInner
      rw [hpush]
      exact h
  | ok f =>
      obtain ⟨newHead, hhead⟩ : ∃ newHead, f.head = some newHead := by
        obtain ⟨item, -, -, -, -, -, ⟨hnew, -⟩ | ⟨hold, top, htop, -⟩⟩ :=
          ForkDatabase.pushBlock_spec hpush
        · exact ⟨item, hnew⟩
        · exact ⟨top, hold.trans htop⟩
      by_cases hprev : newHead.previousId = n.headBlockId
      · rw [pushBlockInner_extends hpush hhead hprev]
        exact h.extend ev hidle hnear hpush hb.small hhead hprev
          (hb.extends_new f newHead hpush hhead hprev)
      · by_cases hhigher : n.headBlockNum < newHead.num
        · have hok := Result.eq_ok_of_isOk (hb.switches f newHead hpush hhead hprev hhigher)
          have heq : n.pushBlockInner ev b =
              ({ n with forkDb := f } : Node Name Tx Rest).switchForks ev newHead := by
            have hprev' : newHead.previousId ≠
                ({ n with forkDb := f } : Node Name Tx Rest).headBlockId := hprev
            have hhigher' : ({ n with forkDb := f } : Node Name Tx Rest).headBlockNum <
                newHead.num := hhigher
            unfold pushBlockInner
            simp only [hpush, hhead, if_pos hprev', if_pos hhigher']
          rw [heq, hok]
          exact h.switch hidle hnear hpush hb.small hhead hhigher hok
        · rw [pushBlockInner_side hpush hhead hprev hhigher]
          exact h.side hpush hb.small hhead hhigher

omit [DecidableEq Name] in
/-- Closing the pending session leaves the chain. -/
theorem Whole.resetPending (h : n.Whole) (hsteady : n.Steady kept) : n.resetPending.Whole := by
  unfold Node.resetPending
  cases hp : n.pendingTxSession with
  | none => exact h
  | some base =>
      have hpend := (steady_of_pending hp).mp hsteady
      obtain ⟨-, hat⟩ := hpend.states.undo hpend.stack_ne_nil
      exact h.congr rfl rfl hat.num hat.applied

theorem whole_keepsReset (ev : Evaluators Name Tx Rest) (kept : List BlockId) :
    KeepsReset
      (fun n : Node Name Tx Rest => (n.Steady kept ∧ n.db.AllStates Objects.Near) ∧ n.Whole)
      (fun n => (n.Idle kept ∧ n.db.AllStates Objects.Near) ∧ n.Whole) := by
  have hbase : KeepsReset (fun n : Node Name Tx Rest =>
      n.Steady kept ∧ n.db.AllStates Objects.Near) _ :=
    (allStates_keeps (Objects.near_closed ev) kept).base
  refine ⟨⟨fun n n' h hs hf => ?_, fun n h hp => ?_, fun n h hp => ?_, fun n r h hp => ?_⟩,
    fun n h => h.1.1.noPending, fun n h => ⟨hbase.weaken n h.1, h.2⟩, fun n h => ?_⟩
  · refine ⟨hbase.pending.congr n n' h.1 hs hf, h.2.congr hf hs.committed ?_ ?_⟩
    · exact congrArg (fun db => db.cur.headBlockNumber) hs.db
    · exact congrArg (fun db => db.cur.applied) hs.db
  · exact ⟨hbase.pending.openPending n h.1 hp, h.2.congr rfl rfl rfl rfl⟩
  · exact hbase.pending.pendingState n h.1 hp
  · exact ⟨hbase.pending.setRest n r h.1 hp, h.2.congr rfl rfl rfl rfl⟩
  · exact ⟨hbase.reset n h.1, h.2.resetPending h.1.1⟩

/-- The steps of a run of pushed blocks, and of transactions. -/
def StepKeepsForks (ev : Evaluators Name Tx Rest) (n : Node Name Tx Rest) :
    Step Name Tx → Prop
  | .pushBlock b => n.clearPending.PushKeepsForks ev b
  | .pushTransaction _ => True
  | _ => False

/-- A node opened without a block, or on the block that is its head. -/
def Seeded (n : Node Name Tx Rest) : Prop :=
  n.forkDb.head = none ∧ n.forkDb.index = [] ∨
    ∃ b, n.forkDb = ForkDatabase.empty.startBlock b ∧ b.id = n.headBlockId

/-- **The fork tree.** Every applied block above the last committed one is in the
index, linked to its parent if that is above the last committed one too; and
`fetch_branch_from` is right for any two blocks whose chains meet in the index. -/
structure ForksIntact (n : Node Name Tx Rest) : Prop where
  held : ∀ id ∈ n.objects.applied, n.committed < id.num →
    ∃ i, n.forkDb.fetchBlock id = some i ∧ (n.committed + 1 < id.num →
      ∃ j ∈ n.forkDb.index, n.forkDb.lock [] i.prev = some j ∧ j.id = i.previousId)
  branches : ∀ a ∈ n.forkDb.index, ∀ b ∈ n.forkDb.index, ∀ c, n.forkDb.Descends a c →
    n.forkDb.Descends b c → ∃ first second,
      n.forkDb.fetchBranchFrom a.id b.id = .ok (first, second) ∧
        n.forkDb.Branches a b first second

omit [DecidableEq Name] in
theorem Whole.forksIntact (h : n.Whole) : n.ForksIntact := by
  refine ⟨fun id hid hlow => ?_, fun a ha b hb c hda hdb =>
    h.tree.fetchBranchFrom_branches ha hb hda hdb⟩
  obtain ⟨i, hi, rfl⟩ := h.held id hid hlow
  refine ⟨i, h.tree.fetchBlock hi, fun hparent => ?_⟩
  obtain ⟨j, hp⟩ := h.rooted.parents i hi hparent
  exact ⟨j, hp.parent, h.tree.sound.lock_parent hp, h.tree.links i j hp⟩

theorem step_whole (ev : Evaluators Name Tx Rest) (s : Step Name Tx)
    (h : (n.Steady kept ∧ n.db.AllStates Objects.Near) ∧ n.Whole) (hs : n.StepKeepsForks ev s) :
    ((n.step ev s).Steady kept ∧ (n.step ev s).db.AllStates Objects.Near) ∧
      (n.step ev s).Whole := by
  have hk : KeepsReset (fun n : Node Name Tx Rest =>
      (n.Steady kept ∧ n.db.AllStates Objects.Near) ∧ n.Whole) _ := whole_keepsReset ev kept
  cases s with
  | pushBlock b =>
      have hJ := hk.clearPending h
      have hpost := ((allStates_keeps (Objects.near_closed ev) kept).pushBlockInner b hJ.1).and
        (pushBlockInner_whole hJ.2 hJ.1.1 hJ.1.2 hs)
      exact Result.post_state.mp (hk.pushBlock b hpost)
  | pushTransaction tx => exact Result.post_state.mp (hk.pending.pushTransaction ev tx h)
  | generateBlock headerSize time owner key => exact hs.elim
  | popBlock => exact hs.elim
  | confirmBlock b => exact hs.elim

omit [DecidableEq Name] in
theorem Opened.whole (hopen : n.Opened) (hsmall : n.headBlockNum < uint32Size) (hseed : n.Seeded) :
    n.Whole := by
  have hheld : ∀ id ∈ n.objects.applied, n.committed < id.num →
      ∃ i ∈ n.forkDb.index, i.id = id := by
    rw [hopen.applied]
    simp
  rcases hseed with ⟨hnone, hindex⟩ | ⟨b, hb, hid⟩
  · have halive : n.forkDb.alive = [] := by simp [ForkDatabase.alive, hnone, hindex]
    refine ⟨⟨⟨?_, ?_, ?_, ?_⟩, ?_, fun i j hp => ?_⟩, ⟨?_, ?_⟩, ?_, fun _ =>
      ⟨hindex, hopen.committed⟩,
      hheld⟩
    all_goals simp_all
    have := hp.child
    simp_all
  · have hnum : b.blockNum = n.headBlockNum := (congrArg BlockId.num hid).trans hopen.headId
    have hone : ∀ i ∈ n.forkDb.index, i = ⟨0, b, none⟩ := by
      intro i hi
      rw [hb] at hi
      simpa [ForkDatabase.startBlock, ForkDatabase.empty] using hi
    have hitem : ∀ i ∈ n.forkDb.index, i.num = n.headBlockNum := by
      intro i hi
      rw [hone i hi]
      exact hnum
    refine ⟨⟨hb ▸ ForkDatabase.startBlock_sound b, fun i hi j hj _ => ?_, fun i j hp => ?_⟩,
      ⟨fun i hi => Nat.le_of_eq (hitem i hi), fun i hi hlow => ?_⟩, fun x hx => ?_, fun hnone => ?_,
      hheld⟩
    · rw [hone i hi, hone j hj]
    · have hlink := hp.link
      rw [hone i hp.child] at hlink
      cases hlink
    · have := hitem i hi
      have := hopen.committed
      omega
    · rw [hb] at hx
      obtain rfl := Option.some.inj hx
      have : (⟨0, b, none⟩ : ForkItem Name Tx).num = n.headBlockNum := hnum
      change (⟨0, b, none⟩ : ForkItem Name Tx).num ≤ _ ∧ (⟨0, b, none⟩ : ForkItem Name Tx).num < _
      omega
    · rw [hb] at hnone
      cases hnone

/-- **The fork tree over runs.** From a node just opened, along every run of blocks
and transactions in which no fork switch fails, and no block that the fork
database knows is tried on top of the head, the fork tree stays intact. -/
theorem run_forksIntact (ev : Evaluators Name Tx Rest) (n : Node Name Tx Rest) (hopen : n.Opened)
    (hnear : n.objects.Near) (hsmall : n.headBlockNum < uint32Size) (hseed : n.Seeded)
    (steps : List (Step Name Tx)) (hs : Along ev (StepKeepsForks ev) n steps) :
    (n.run ev steps).ForksIntact := by
  have hstart : (n.Steady [] ∧ n.db.AllStates Objects.Near) ∧ n.Whole :=
    ⟨⟨hopen.steady, hnear, by simp [hopen.stack]⟩, hopen.whole hsmall hseed⟩
  have hrun := Lib.Along.keeps
    (I := fun m => (m.Steady [] ∧ m.db.AllStates Objects.Near) ∧ m.Whole)
    (fun m s hm hc => step_whole ev s hm hc) hstart hs
  exact hrun.2.forksIntact

end Node

/-! ## Runs on two branches -/

theorem openedAt_near : (openedAt 100 79 [5]).objects.Near := by
  refine ⟨rfl, by decide, fun w => Nat.le_succ 100, fun _ => by decide, fun i id hi => ?_⟩
  simp [openedAt, Node.objects] at hi

theorem openedAt_seeded (num lib : Nat) (rest : List Nat) (h : 0 < num) :
    (openedAt num lib rest).Seeded := by
  refine Or.inr ⟨soloBlock num 0 1 [], rfl, ?_⟩
  show (⟨num - 1 + 1, 1⟩ : BlockId) = ⟨num, 1⟩
  rw [Nat.sub_add_cancel h]

/-- Block 102 fails on top of block 101, and its item stays the head of the fork
database. Block 101, pushed once more, is then tried on top of itself. -/
def pushedAgain : List (Step Nat Nat) :=
  [.pushBlock (soloBlock 101 1 2 []), .pushBlock (soloBlock 102 2 3 [5]),
    .pushBlock (soloBlock 101 1 2 [])]

/-- As it fails there, block 101 is removed from the fork database. -/
theorem pushed_again_removed :
    (openedAt 100 79 [5]).Opened ∧ (openedAt 100 79 [5]).objects.Near ∧
    (openedAt 100 79 [5]).Seeded ∧
    ((openedAt 100 79 [5]).run soloWitness pushedAgain).objects.applied = [⟨101, 2⟩] ∧
    ((openedAt 100 79 [5]).run soloWitness pushedAgain).committed = 100 ∧
    ¬((openedAt 100 79 [5]).run soloWitness pushedAgain).ForksIntact := by
  have happlied : ((openedAt 100 79 [5]).run soloWitness pushedAgain).objects.applied =
      [⟨101, 2⟩] := by decide +kernel
  have hcommitted : ((openedAt 100 79 [5]).run soloWitness pushedAgain).committed = 100 := by
    decide +kernel
  have hgone : (((openedAt 100 79 [5]).run soloWitness pushedAgain).forkDb.fetchBlock
      ⟨101, 2⟩).isNone = true := by decide +kernel
  refine ⟨openedAt_opened _ _ _, openedAt_near, openedAt_seeded _ _ _ (by decide), happlied,
    hcommitted, fun hintact => ?_⟩
  obtain ⟨i, hi, -⟩ := hintact.held ⟨101, 2⟩ (by rw [happlied]; simp) (by rw [hcommitted]; decide)
  rw [hi] at hgone
  cases hgone

/-- Two branches, and a switch to the second that goes through. -/
theorem run_forksIntact_switch :
    ((openedAt 100 79 [5]).run soloWitness [.pushBlock (soloBlock 101 1 2 []),
      .pushBlock (soloBlock 101 1 3 []), .pushBlock (soloBlock 102 3 4 [])]).ForksIntact := by
  refine Node.run_forksIntact soloWitness _ (openedAt_opened 100 79 [5]) openedAt_near (by decide)
    (openedAt_seeded _ _ _ (by decide)) _ ⟨?_, ?_, ?_, trivial⟩
  · exact Node.pushKeepsForks_of_push (f := ⟨[goodItem, ⟨0, soloBlock 100 0 1 [], none⟩],
      some goodItem, 1024, 2⟩) (by rfl) rfl (by decide) (fun h => absurd rfl h)
      fun _ => by decide +kernel
  · exact Node.pushKeepsForks_of_push (f := ⟨[⟨2, soloBlock 101 1 3 [], some 0⟩, goodItem,
      ⟨0, soloBlock 100 0 1 [], none⟩], some goodItem, 22, 3⟩) (by rfl) rfl (by decide)
      (fun _ h => absurd h (by decide +kernel)) fun h => absurd h (by decide +kernel)
  · exact Node.pushKeepsForks_of_push (f := ⟨[newItem, ⟨2, soloBlock 101 1 3 [], some 0⟩, goodItem,
      ⟨0, soloBlock 100 0 1 [], none⟩], some newItem, 22, 4⟩) (by rfl) rfl (by decide)
      (fun _ _ => by decide +kernel) fun h => absurd h (by decide +kernel)

end Gamebank.Chain
