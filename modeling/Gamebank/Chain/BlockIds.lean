import Gamebank.Chain.ForkLinks

/-!
# Block ids by number, and along a fork

`find_block_id_for_num` looks a number up in the block summaries, in the block
log and in the fork database, in this order. `get_block_ids_on_fork` gives the
ids of a fork down to where it leaves the main chain.

A fork of known blocks leaves the main chain at some block (`Fork`).
`get_block_ids_on_fork` answers for it if and only if the links of the fork
database lead from the head block and from the tip of the fork down to the
blocks right above that one (`getBlockIdsOnFork_iff`).
-/

namespace Gamebank.Chain

universe u v w

variable {Name : Type u} {Tx : Type v} {Rest : Type w}

namespace Node

/-- The ids in the ring of block summaries, which are part of the objects. -/
abbrev Summaries (Rest : Type w) := Rest → Nat → Option BlockId

/-- `find_block_id_for_num`. -/
def findBlockIdForNum (summary : Summaries Rest) (n : Node Name Tx Rest) (blockNum : Nat) :
    BlockId :=
  if blockNum = 0 then BlockId.zero
  else
    match (summary n.objects.rest (blockNum % 65536)).filter fun id => id.num = blockNum with
    | some id => id
    | none =>
        match n.readBlockByNum blockNum with
        | some b => b.id
        | none =>
            match n.forkDb.fetchBlockOnMainBranchByNumber blockNum with
            | some item => item.id
            | none => BlockId.zero

/-- `get_block_id_for_num`. -/
def getBlockIdForNum (summary : Summaries Rest) (n : Node Name Tx Rest) (blockNum : Nat) :
    Except ChainException BlockId :=
  let bid := n.findBlockIdForNum summary blockNum
  if bid = BlockId.zero then .error (.assertion "bid != block_id_type()") else .ok bid

/-- `is_known_block`. -/
def isKnownBlock (n : Node Name Tx Rest) (id : BlockId) : Bool := (n.fetchBlockById id).isSome

/-- `get_block_ids_on_fork`: from the head of the fork down to the block where it
leaves the main chain. -/
def getBlockIdsOnFork (n : Node Name Tx Rest) (headOfFork : BlockId) :
    Except ChainException (List BlockId) :=
  match n.forkDb.fetchBranchFrom n.headBlockId headOfFork with
  | .error e => .error e
  | .ok (first, second) =>
      .ok (second.map ForkItem.id ++ (first.getLast?.map ForkItem.previousId).toList)

/-- The blocks applied are those of `chain`: `get_block_id_for_num` answers with
them, and an id that the fork database has names one block. -/
structure MainChain (summary : Summaries Rest) (n : Node Name Tx Rest) (chain : Nat → BlockId) :
    Prop where
  zero : chain 0 = BlockId.zero
  num : ∀ k, (chain k).num = k
  head : chain n.headBlockNum = n.headBlockId
  answers : ∀ k, 1 ≤ k → k ≤ n.headBlockNum → n.getBlockIdForNum summary k = .ok (chain k)
  linked : ∀ i ∈ n.forkDb.alive, ∀ k < n.headBlockNum, i.id = chain (k + 1) →
    i.previousId = chain k
  named : ∀ i ∈ n.forkDb.alive, ∀ j ∈ n.forkDb.alive, i.id = j.id → i.previousId = j.previousId

/-- `branch` is a fork of known blocks from `tip` down, which leaves the main chain
at its block `c`, not below the last irreversible one. -/
structure Fork (n : Node Name Tx Rest) (chain : Nat → BlockId) (tip : ForkItem Name Tx)
    (branch : ForkDatabase.Branch Name Tx) (c : Nat) : Prop where
  fetched : n.forkDb.fetchBlock tip.id = some tip
  known : ∀ i ∈ branch, i ∈ n.forkDb.index
  leaves : ∃ x, ForkDatabase.Descent tip branch x ∧ x.previousId = chain c ∧ x.id ≠ chain (c + 1)
  reversible : n.objects.lastIrreversibleBlockNum ≤ c
  below : c < n.headBlockNum

/-- The links of the fork database lead from the head block and from `tip` down to
the height right above `c`. -/
structure Traced (n : Node Name Tx Rest) (tip : ForkItem Name Tx) (c : Nat) : Prop where
  main : ∃ h, n.forkDb.fetchBlock n.headBlockId = some h ∧ n.forkDb.Reaches h (c + 1)
  fork : n.forkDb.Reaches tip (c + 1)

section

open ForkDatabase

variable {summary : Summaries Rest} {n : Node Name Tx Rest} {chain : Nat → BlockId}
  {tip a h x y : ForkItem Name Tx} {branch l : Branch Name Tx} {c : Nat}

/-- A descent from a block of the main chain stays there. -/
theorem MainChain.of_descent (hm : n.MainChain summary chain) (hd : Descent a l x)
    (hmem : ∀ i ∈ l, i ∈ n.forkDb.alive) (ha : a.id = chain a.num) (hle : a.num ≤ n.headBlockNum) :
    ∀ i ∈ l, i.id = chain i.num := by
  induction hd with
  | refl i => simpa using ha
  | @step i j x l hprev hrest ih =>
      have hnum := num_of_previousId hprev
      rw [hnum] at ha
      have hj := hm.linked i (hmem i List.mem_cons_self) j.num (by omega) ha
      rw [hprev] at hj
      refine List.forall_mem_cons.mpr ⟨hnum ▸ ha, ?_⟩
      exact ih (fun i hi => hmem i (List.mem_cons_of_mem _ hi)) hj (by omega)

/-- A block whose descent leaves the main chain is not on it. -/
theorem MainChain.off_descent (hm : n.MainChain summary chain) (hd : Descent a l x)
    (hmem : ∀ i ∈ l, i ∈ n.forkDb.alive) (hx : x.id ≠ chain x.num) :
    ∀ i ∈ l, i.num ≤ n.headBlockNum → i.id ≠ chain i.num := by
  intro i hi hle hon
  induction hd with
  | refl i' =>
      rw [List.mem_singleton] at hi
      exact hx (hi ▸ hon)
  | @step i' j x l hprev hrest ih =>
      have hrestmem : ∀ k ∈ l, k ∈ n.forkDb.alive := fun k hk => hmem k (List.mem_cons_of_mem _ hk)
      rcases List.mem_cons.mp hi with rfl | hi
      · -- The block before would be on the main chain, and so would all below.
        have hnum := num_of_previousId hprev
        rw [hnum] at hon
        have hj := hm.linked i (hmem i List.mem_cons_self) j.num (by omega) hon
        rw [hprev] at hj
        exact hx (hm.of_descent hrest hrestmem hj (by omega) x hrest.last_mem)
      · exact ih hrestmem hx hi

theorem MainChain.head_num (hm : n.MainChain summary chain)
    (hh : n.forkDb.fetchBlock n.headBlockId = some h) : h.num = n.headBlockNum := by
  have hid : h.id = chain n.headBlockNum := (mem_index_of_fetchBlock hh).2.trans hm.head.symm
  exact (congrArg BlockId.num hid).trans (hm.num _)

theorem Fork.alive (hf : n.Fork chain tip branch c) : ∀ i ∈ branch, i ∈ n.forkDb.alive :=
  fun i hi => mem_alive.mpr (Or.inl (hf.known i hi))

theorem Fork.num (hm : n.MainChain summary chain) (hf : n.Fork chain tip branch c) :
    ∃ x, Descent tip branch x ∧ x.num = c + 1 ∧ x.previousId = chain c ∧ x.id ≠ chain x.num := by
  obtain ⟨x, hd, hprev, hoff⟩ := hf.leaves
  have hnum : x.num = c + 1 := by
    have := congrArg (fun id => BlockId.num id + 1) hprev
    rw [hm.num] at this
    exact this
  exact ⟨x, hd, hnum, hprev, hnum ▸ hoff⟩

/-- Whatever `fetch_branch_from` answers for the head block and the tip of a fork
ends where the fork leaves the main chain. -/
theorem Fork.parted {first second : Branch Name Tx} (hm : n.MainChain summary chain)
    (hf : n.Fork chain tip branch c) (hh : n.forkDb.fetchBlock n.headBlockId = some h)
    (hp : n.forkDb.Parted h tip first second x y) (hfirst : ∀ i ∈ first, i ∈ n.forkDb.alive)
    (hsecond : ∀ i ∈ second, i ∈ n.forkDb.alive) :
    x.num = c + 1 ∧ x.previousId = chain c ∧ second.map ForkItem.id = branch.map ForkItem.id := by
  obtain ⟨z, hd, hz, hzprev, hzoff⟩ := hf.num hm
  have hheadnum := hm.head_num hh
  have hbelow := hf.below
  have hhead : h.id = chain h.num := by
    rw [hheadnum, hm.head]
    exact (mem_index_of_fetchBlock hh).2
  have hon := hm.of_descent hp.descent hfirst hhead (Nat.le_of_eq hheadnum)
  have hoff := hm.off_descent hd hf.alive hzoff
  have hnamed : ∀ i ∈ second, ∀ j ∈ branch, i.id = j.id → i.previousId = j.previousId :=
    fun i hi j hj => hm.named i (hsecond i hi) j (hf.alive j hj)
  have hagree := hp.descent'.agree hd rfl hnamed
  have hxy : x.num = y.num := congrArg (fun id => BlockId.num id + 1) hp.fork
  have hxhead := hp.descent.last_num_le
  have hytip := hp.descent'.last_num_le
  have hztip := hd.last_num_le
  -- The block before one of the first branch is on the main chain.
  have hbefore : ∀ i ∈ first, ∀ k, i.num = k + 1 → i.previousId = chain k := by
    intro i hi k hk
    have := (hp.descent.num_le i hi).2
    exact hm.linked i (hfirst i hi) k (by omega) (hk ▸ hon i hi)
  have hx : x.num = c + 1 := by
    rcases Nat.lt_trichotomy x.num (c + 1) with hlt | heq | hgt
    · obtain ⟨i, hi, hinum⟩ := hp.descent.exists_at (k := c + 1) (by omega) (by omega)
      obtain ⟨j, hj, hjnum⟩ := hp.descent'.exists_at (k := c + 1) (by omega) (by omega)
      have hjz := hnamed j hj z hd.last_mem (hagree j hj z hd.last_mem (by omega))
      refine absurd ?_ (hp.apart i hi j hj (by omega) (by omega))
      rw [hbefore i hi c hinum, hjz, hzprev]
    · exact heq
    · obtain ⟨p, hpmem, hpnum⟩ := hd.exists_at (k := y.num) (by omega) (by omega)
      have hyp := hnamed y hp.descent'.last_mem p hpmem
        (hagree y hp.descent'.last_mem p hpmem hpnum.symm)
      obtain ⟨q, hq, hpq⟩ := hd.exists_before hpmem (by omega)
      have hqnum := num_of_previousId hpq
      have hxprev := hbefore x hp.descent.last_mem q.num (by omega)
      refine absurd ?_ (hoff q hq (by omega))
      rw [← hpq, ← hyp, ← hp.fork, hxprev]
  refine ⟨hx, hbefore x hp.descent.last_mem c hx, ?_⟩
  exact hp.descent'.map_id_eq hd rfl (by omega) hnamed

/-- **The ids along a fork.** -/
theorem getBlockIdsOnFork_iff (hthread : n.forkDb.Threaded) (hm : n.MainChain summary chain)
    (hf : n.Fork chain tip branch c) (ids : List BlockId) :
    n.getBlockIdsOnFork tip.id = .ok ids ↔
      n.Traced tip c ∧ ids = branch.map ForkItem.id ++ [chain c] := by
  have hanswer : ∀ first second,
      n.forkDb.fetchBranchFrom n.headBlockId tip.id = .ok (first, second) →
      n.Traced tip c ∧
        n.getBlockIdsOnFork tip.id = .ok (branch.map ForkItem.id ++ [chain c]) := by
    intro first second hfetch
    obtain ⟨h, b, x, y, hh, hb, hp⟩ := parted_of_fetchBranchFrom hthread hfetch
    obtain rfl : tip = b := Option.some.inj (hf.fetched.symm.trans hb)
    obtain ⟨hfirst, hsecond, -⟩ := fetchBranchFrom_mem hfetch
    obtain ⟨hx, hprev, hids⟩ := hf.parted hm hh hp hfirst hsecond
    have hxy : x.num = y.num := congrArg (fun id => BlockId.num id + 1) hp.fork
    refine ⟨⟨⟨h, hh, x, hp.leads, hx⟩, y, hp.leads', by omega⟩, ?_⟩
    unfold getBlockIdsOnFork
    simp only [hfetch, hp.descent.getLast?, hids, Option.map_some, hprev, Option.toList_some]
  constructor
  · intro hok
    cases hfetch : n.forkDb.fetchBranchFrom n.headBlockId tip.id with
    | error e =>
        rw [getBlockIdsOnFork, hfetch] at hok
        cases hok
    | ok r =>
        obtain ⟨htraced, heq⟩ := hanswer r.1 r.2 hfetch
        rw [heq, Except.ok.injEq] at hok
        exact ⟨htraced, hok.symm⟩
  · rintro ⟨⟨⟨h, hh, x, hx, hxnum⟩, y, hy, hynum⟩, rfl⟩
    obtain ⟨z, hd, hz, hzprev, -⟩ := hf.num hm
    have hhmem := mem_alive.mpr (Or.inl (mem_index_of_fetchBlock hh).1)
    have htipmem := mem_alive.mpr (Or.inl (mem_index_of_fetchBlock hf.fetched).1)
    obtain ⟨first, hdx, hfirst⟩ := hx.descent hthread hhmem
    obtain ⟨second, hdy, hsecond⟩ := hy.descent hthread htipmem
    have hheadnum := hm.head_num hh
    have hhead : h.id = chain h.num := by
      rw [hheadnum, hm.head]
      exact (mem_index_of_fetchBlock hh).2
    have hxid := hm.of_descent hdx hfirst hhead (Nat.le_of_eq hheadnum) x hdx.last_mem
    rw [hxnum] at hxid
    have hxprev := hm.linked x (hfirst x hdx.last_mem) c hf.below hxid
    have hnamed : ∀ i ∈ second, ∀ j ∈ branch, i.id = j.id → i.previousId = j.previousId :=
      fun i hi j hj => hm.named i (hsecond i hi) j (hf.alive j hj)
    have hyz := hdy.agree hd rfl hnamed y hdy.last_mem z hd.last_mem (by omega)
    have hyprev := hnamed y hdy.last_mem z hd.last_mem hyz
    obtain ⟨first', second', hfetch⟩ := fetchBranchFrom_of_leads hthread hh hf.fetched hx hy
      (hxprev.trans (hyprev.trans hzprev).symm)
    exact (hanswer first' second' hfetch).2

end

end Node

end Gamebank.Chain
