import Gamebank.P2p.Synopsis
import Gamebank.Chain.ForkIntegrity

/-!
# The sync exchange

What a synopsis is to summarize, and where an answer is to start, is said of the
main chain alone (`SynopsesRight`, `RepliesRight`). The code does so exactly in
the nodes that are `Synced`: the node knows each block of its main chain, a
known block above the head block does not count as included, the last
irreversible block is not above the head block, there is room for one more block
number, and the links of the fork database lead from the head block and from the
tip of each fork down to where the fork leaves the main chain.
-/

namespace Gamebank.P2p

open Gamebank.Chain

universe u v w

variable {Name : Type u} {Tx : Type v} {Rest : Type w}

/-! ## What the exchange is to do -/

/-- A reference point: the last block it summarizes, and the ids on its branch. -/
inductive Reference (n : Node Name Tx Rest) (chain : Nat → BlockId) :
    BlockId → BlockId → (BlockId → Prop) → Prop
  | head : Reference n chain BlockId.zero n.headBlockId
      fun id => ∃ k, 1 ≤ k ∧ k ≤ n.headBlockNum ∧ chain k = id
  | main (k : Nat) : 1 ≤ k → k ≤ n.headBlockNum → Reference n chain (chain k) (chain k)
      fun id => ∃ j, 1 ≤ j ∧ j ≤ k ∧ chain j = id
  | fork {tip : ForkItem Name Tx} {branch : ForkDatabase.Branch Name Tx} {c : Nat} :
      n.Fork chain tip branch c → Reference n chain tip.id tip.id
        fun id => (∃ j, 1 ≤ j ∧ j ≤ c ∧ chain j = id) ∨ ∃ i ∈ branch, i.id = id

/-- A synopsis up to `tip`, with `count` more blocks to follow. -/
structure SynopsisRight (n : Node Name Tx Rest) (tip : BlockId) (onBranch : BlockId → Prop)
    (count : Nat) (ids : List BlockId) : Prop where
  branch : ∀ id ∈ ids, onBranch id
  first : (ids.map BlockId.num).head? =
    some (max 1 (min n.objects.lastIrreversibleBlockNum tip.num))
  increasing : (ids.map BlockId.num).Pairwise (· < ·)
  last : count = 0 → ids.getLast? = some tip

def SynopsesRight (summary : Node.Summaries Rest) (n : Node Name Tx Rest)
    (chain : Nat → BlockId) : Prop :=
  ∀ reference tip onBranch, Reference n chain reference tip onBranch →
    ∀ count, tip.num + count < 2147483648 →
      ∃ ids, getBlockchainSynopsis summary n reference count = .ok ids ∧
        SynopsisRight n tip onBranch count ids

/-- The id is zero or on the main chain. -/
def shared (n : Node Name Tx Rest) (chain : Nat → BlockId) (id : BlockId) : Bool :=
  decide (id = BlockId.zero ∨ 1 ≤ id.num ∧ id.num ≤ n.headBlockNum ∧ chain id.num = id)

/-- The block number an answer starts at: that of the last shared id. -/
def replyStart (n : Node Name Tx Rest) (chain : Nat → BlockId) (synopsis : List BlockId) :
    Option Nat :=
  if synopsis = [] then some 1
  else (synopsis.reverse.find? (shared n chain)).map fun id => max 1 id.num

/-- An answer from `start` on: as many ids as fit in the limit and below the head. -/
structure ReplyRight (n : Node Name Tx Rest) (chain : Nat → BlockId) (start limit : Nat)
    (ids : List BlockId) (remaining : Nat) : Prop where
  consecutive : ids = (List.range' start (min limit (n.headBlockNum + 1 - start))).map chain
  remaining : ∃ last, ids.getLast? = some last ∧ remaining = n.headBlockNum - last.num

def RepliesRight (summary : Node.Summaries Rest) (n : Node Name Tx Rest)
    (chain : Nat → BlockId) : Prop :=
  ∀ synopsis limit, 1 ≤ limit → limit < uint32Size →
    (replyStart n chain synopsis = none → getBlockIds summary n synopsis limit =
      .error (.peerIsOnAnUnreachableFork unreachableForkMessage)) ∧
    ∀ start, replyStart n chain synopsis = some start →
      ∃ ids remaining, getBlockIds summary n synopsis limit = .ok (ids, remaining) ∧
        ReplyRight n chain start limit ids remaining

/-- What the exchange needs of a node. -/
structure Synced (summary : Node.Summaries Rest) (n : Node Name Tx Rest) (chain : Nat → BlockId) :
    Prop where
  known : ∀ k, 1 ≤ k → k ≤ n.headBlockNum → n.isKnownBlock (chain k) = true
  above : ∀ id, n.isKnownBlock id = true → n.headBlockNum < id.num →
    ∃ other, n.getBlockIdForNum summary id.num = .ok other ∧ other ≠ id
  irreversible : n.headBlockNum < 2147483648 →
    n.objects.lastIrreversibleBlockNum ≤ n.headBlockNum
  room : n.headBlockNum + 1 < uint32Size
  traced : ∀ tip branch c, n.Fork chain tip branch c → tip.num < 2147483648 → n.Traced tip c

variable {summary : Node.Summaries Rest} {n : Node Name Tx Rest} {chain : Nat → BlockId}

/-- No start is found exactly if no id is zero or on the main chain. -/
theorem replyStart_eq_none_iff {synopsis : List BlockId} :
    replyStart n chain synopsis = none ↔ synopsis ≠ [] ∧ ∀ id ∈ synopsis,
      ¬(id = BlockId.zero ∨ 1 ≤ id.num ∧ id.num ≤ n.headBlockNum ∧ chain id.num = id) := by
  unfold replyStart shared
  by_cases hempty : synopsis = []
  · simp [hempty]
  · rw [if_neg hempty]
    simp only [Option.map_eq_none_iff, List.find?_eq_none, List.mem_reverse, decide_eq_true_eq,
      ne_eq, hempty, not_false_eq_true, true_and]

/-! ## Included blocks -/

theorem isIncludedBlock_main (hm : n.MainChain summary chain) {k : Nat} (hlow : 1 ≤ k)
    (hhigh : k ≤ n.headBlockNum) : isIncludedBlock summary n (chain k) = .ok true := by
  unfold isIncludedBlock
  rw [hm.num, hm.answers k hlow hhigh]
  simp

/-- Up to the head block, the blocks of the main chain are the included ones. -/
theorem isIncludedBlock_below (hm : n.MainChain summary chain) {id : BlockId} (hlow : 1 ≤ id.num)
    (hhigh : id.num ≤ n.headBlockNum) :
    isIncludedBlock summary n id = .ok (decide (id = chain id.num)) := by
  unfold isIncludedBlock
  rw [hm.answers id.num hlow hhigh]

theorem chain_ne_zero (hm : n.MainChain summary chain) {k : Nat} (hlow : 1 ≤ k) :
    chain k ≠ BlockId.zero := by
  intro hc
  have := congrArg BlockId.num hc
  rw [hm.num] at this
  exact absurd this (Nat.ne_of_gt hlow)

/-- A known block has a number above zero. -/
theorem one_le_of_isKnownBlock {id : BlockId} (h : n.isKnownBlock id = true) : 1 ≤ id.num := by
  obtain ⟨b, hb⟩ := Option.isSome_iff_exists.mp h
  unfold Node.fetchBlockById at hb
  split at hb
  · rename_i item hitem
    rw [← (ForkDatabase.mem_index_of_fetchBlock hitem).2]
    exact Nat.succ_pos _
  · split at hb
    · split at hb
      · rename_i hid
        rw [← hid]
        exact Nat.succ_pos _
      · cases hb
    · cases hb

/-! ## Answers -/

/-- In a synced node the first loop finds the last id that is shared. -/
theorem findLastKnownBlock_eq (hm : n.MainChain summary chain) (hs : Synced summary n chain)
    (synopsis : List BlockId) :
    findLastKnownBlock summary n synopsis = .ok (synopsis.find? (shared n chain)) := by
  induction synopsis with
  | nil => rfl
  | cons id rest ih =>
      unfold findLastKnownBlock
      by_cases hzero : id = BlockId.zero
      · have hshared : shared n chain id = true := by simp [shared, hzero]
        rw [if_pos hzero, List.find?_cons_of_pos hshared]
      · rw [if_neg hzero]
        by_cases hknown : n.isKnownBlock id = true
        · have hlow := one_le_of_isKnownBlock hknown
          rw [if_pos hknown]
          by_cases hle : id.num ≤ n.headBlockNum
          · rw [isIncludedBlock_below hm hlow hle]
            by_cases hon : id = chain id.num
            · have hshared : shared n chain id = true := by
                simp only [shared, decide_eq_true_eq]
                exact Or.inr ⟨hlow, hle, hon.symm⟩
              rw [decide_eq_true hon, List.find?_cons_of_pos hshared]
            · have hshared : ¬shared n chain id = true := by
                simp only [shared, decide_eq_true_eq, hzero, false_or, not_and]
                exact fun _ _ hc => hon hc.symm
              rw [decide_eq_false hon, List.find?_cons_of_neg hshared]
              exact ih
          · obtain ⟨other, hother, hne⟩ := hs.above id hknown (Nat.lt_of_not_le hle)
            have hshared : ¬shared n chain id = true := by
              simp only [shared, decide_eq_true_eq, hzero, false_or, not_and]
              exact fun _ hc => absurd hc hle
            rw [List.find?_cons_of_neg hshared, isIncludedBlock, hother]
            simp only [decide_eq_false (Ne.symm hne)]
            exact ih
        · have hshared : ¬shared n chain id = true := by
            simp only [shared, decide_eq_true_eq, hzero, false_or, not_and]
            intro hlow hle hc
            exact hknown (hc ▸ hs.known id.num hlow hle)
          rw [if_neg hknown, List.find?_cons_of_neg hshared]
          exact ih

theorem remainingItemCount_eq {result : List BlockId} {last : BlockId}
    (h : result.getLast? = some last) :
    remainingItemCount n result = n.headBlockNum - last.num := by
  unfold remainingItemCount
  rw [h]
  simp only
  split
  · rfl
  · omega

/-- The answer from a known block on. -/
theorem replyRight_of_lastKnown (hm : n.MainChain summary chain) (hs : Synced summary n chain)
    (hhead : 1 ≤ n.headBlockNum) {synopsis : List BlockId} {limit : Nat} (hlimit : 1 ≤ limit)
    {last : BlockId} (hlast : lastKnownBlockId summary n synopsis = .ok last)
    (hnum : last.num ≤ n.headBlockNum) :
    ∃ ids remaining, getBlockIds summary n synopsis limit = .ok (ids, remaining) ∧
      ReplyRight n chain (max 1 last.num) limit ids remaining := by
  have hids := blockIdsFrom_eq hs.room hm.answers limit last.num (by omega) hhead
  have hone : ∃ k, min limit (n.headBlockNum + 1 - max 1 last.num) = k + 1 :=
    ⟨min limit (n.headBlockNum + 1 - max 1 last.num) - 1, by omega⟩
  obtain ⟨k, hk⟩ := hone
  have hend : ((List.range' (max 1 last.num) (k + 1)).map chain).getLast? =
      some (chain (max 1 last.num + k)) := by
    rw [List.range'_concat, List.map_append, List.map_singleton, List.getLast?_concat, Nat.one_mul]
  refine ⟨_, n.headBlockNum - (max 1 last.num + k), ?_, ⟨rfl, ?_⟩⟩
  · unfold getBlockIds
    rw [if_neg (by omega), hlast]
    simp only [hids]
    rw [hk, remainingItemCount_eq hend, hm.num]
  · rw [hk]
    exact ⟨_, hend, by rw [hm.num]⟩

theorem Synced.repliesRight (hm : n.MainChain summary chain) (hs : Synced summary n chain)
    (hhead : 1 ≤ n.headBlockNum) : RepliesRight summary n chain := by
  intro synopsis limit hlimit _
  have hfind := findLastKnownBlock_eq hm hs synopsis.reverse
  have hzero : BlockId.zero.num = 0 := rfl
  by_cases hempty : synopsis = []
  · refine ⟨fun hnone => ?_, fun start hstart => ?_⟩
    · simp [replyStart, hempty] at hnone
    · have hlast : lastKnownBlockId summary n synopsis = .ok BlockId.zero := by
        rw [lastKnownBlockId, if_pos (Or.inl hempty)]
      have hreply := replyRight_of_lastKnown hm hs hhead hlimit hlast (Nat.zero_le _)
      simp only [replyStart, hempty, if_true, Option.some.injEq] at hstart
      rwa [← hstart]
  · have hlast : lastKnownBlockId summary n synopsis =
        (synopsis.reverse.find? (shared n chain)).elim
          (.error (.peerIsOnAnUnreachableFork unreachableForkMessage)) .ok := by
      unfold lastKnownBlockId
      by_cases hsingle : synopsis = [BlockId.zero]
      · simp [hsingle, shared]
      · rw [if_neg (by simp [hempty, hsingle]), hfind]
        cases synopsis.reverse.find? (shared n chain) <;> rfl
    unfold replyStart
    rw [if_neg hempty]
    cases hf : synopsis.reverse.find? (shared n chain) with
    | none =>
        refine ⟨fun _ => ?_, fun start hstart => by cases hstart⟩
        unfold getBlockIds
        rw [if_neg (by omega), hlast, hf]
        rfl
    | some id =>
        refine ⟨fun hnone => absurd hnone (Option.some_ne_none _), fun start hstart => ?_⟩
        have hshared := List.find?_some hf
        simp only [shared, decide_eq_true_eq] at hshared
        have hle : id.num ≤ n.headBlockNum := by
          rcases hshared with rfl | ⟨-, hle, -⟩
          · exact Nat.zero_le _
          · exact hle
        rw [Option.map_some, Option.some.injEq] at hstart
        rw [← hstart]
        exact replyRight_of_lastKnown hm hs hhead hlimit (by rw [hlast, hf]; rfl) hle

/-! ## Synopses -/

/-- The synopsis of a span whose ids are those of a branch. -/
theorem synopsisRight_of_span {s : Span} {reference tip : BlockId} {onBranch : BlockId → Prop}
    {count : Nat} (ids : Nat → BlockId) (hhead : 1 ≤ n.headBlockNum)
    (hspan : span summary n reference = .ok s) (hhigh : s.high = tip.num) (htip : 1 ≤ tip.num)
    (hlow : (if s.low = 0 then 1 else s.low) =
      max 1 (min n.objects.lastIrreversibleBlockNum tip.num))
    (hids : ∀ k, 1 ≤ k → k ≤ tip.num →
      s.idAt summary n k = .ok (ids k) ∧ (ids k).num = k ∧ onBranch (ids k))
    (hend : ids tip.num = tip) (hsmall : tip.num + count < 2147483648) :
    ∃ l, getBlockchainSynopsis summary n reference count = .ok l ∧
      SynopsisRight n tip onBranch count l := by
  have htrue : (s.high + count) % uint32Size = tip.num + count := by
    rw [hhigh]
    unfold uint32Size
    omega
  obtain ⟨ks, heq, hsamples, hlast⟩ := synopsisFrom_samples (tip.num + count) uint32Size
    (max 1 (min n.objects.lastIrreversibleBlockNum tip.num)) ids
    (fun k h1 h2 => (hids k (by omega) (by omega)).1) (by omega) (by omega) hsmall
    (by unfold uint32Size; omega)
  have hks : ∀ k ∈ ks, 1 ≤ k ∧ k ≤ tip.num := by
    intro k hk
    have := hsamples.bounds k hk
    omega
  have hnums : (ks.map ids).map BlockId.num = ks := by
    rw [List.map_map]
    calc ks.map (BlockId.num ∘ ids) = ks.map id :=
          List.map_congr_left fun k hk => (hids k (hks k hk).1 (hks k hk).2).2.1
      _ = ks := List.map_id ks
  refine ⟨ks.map ids, ?_, ⟨?_, ?_, ?_, fun hcount => ?_⟩⟩
  · unfold getBlockchainSynopsis
    rw [if_neg (by omega), hspan]
    simp only [htrue, hlow, heq]
  · intro id hid
    obtain ⟨k, hk, rfl⟩ := List.mem_map.mp hid
    exact (hids k (hks k hk).1 (hks k hk).2).2.2
  · rw [hnums]
    exact hsamples.first
  · rw [hnums]
    exact hsamples.increasing
  · rw [List.getLast?_map, hlast (by omega), hhigh, Option.map_some, hend]

/-- The ids the loop takes from the main chain. -/
theorem idAt_main (hm : n.MainChain summary chain) {s : Span} {k : Nat} (hlow : 1 ≤ k)
    (hfork : k ≤ s.nonForkHigh) (hhead : s.nonForkHigh ≤ n.headBlockNum) :
    s.idAt summary n k = .ok (chain k) := by
  unfold Span.idAt
  rw [if_pos hfork, hm.answers k hlow (hfork.trans hhead)]

theorem max_one_min (lib k : Nat) (hk : 1 ≤ k) :
    (if min k lib = 0 then 1 else min k lib) = max 1 (min lib k) := by
  split <;> omega

/-- The tip of a fork is not included, in a synced node. -/
theorem isIncludedBlock_fork (hm : n.MainChain summary chain)
    (habove : ∀ id, n.isKnownBlock id = true → n.headBlockNum < id.num →
      ∃ other, n.getBlockIdForNum summary id.num = .ok other ∧ other ≠ id)
    {tip : ForkItem Name Tx} {branch : ForkDatabase.Branch Name Tx} {c : Nat}
    (hf : n.Fork chain tip branch c) : isIncludedBlock summary n tip.id = .ok false := by
  have hlow : 1 ≤ tip.id.num := Nat.succ_pos _
  by_cases hle : tip.id.num ≤ n.headBlockNum
  · obtain ⟨x, hd, -, -, hoff⟩ := hf.num hm
    have hne := hm.off_descent hd hf.alive hoff tip hd.head_mem hle
    rw [isIncludedBlock_below hm hlow hle]
    exact congrArg Except.ok (decide_eq_false hne)
  · have hknown : n.isKnownBlock tip.id = true := by
      rw [Node.isKnownBlock, Node.fetchBlockById, hf.fetched]
      rfl
    obtain ⟨other, hother, hne⟩ := habove tip.id hknown (Nat.lt_of_not_le hle)
    rw [isIncludedBlock, hother]
    exact congrArg Except.ok (decide_eq_false (Ne.symm hne))

/-- The span of a fork. -/
theorem forkSpan_eq (hm : n.MainChain summary chain) {tip : ForkItem Name Tx}
    {branch : ForkDatabase.Branch Name Tx} {c : Nat} (hf : n.Fork chain tip branch c)
    (hsmall : tip.num < 2147483648) :
    forkSpan n (branch.map ForkItem.id ++ [chain c]) =
      .ok ⟨n.objects.lastIrreversibleBlockNum, tip.num, c, (branch.map ForkItem.id).reverse⟩ := by
  obtain ⟨x, hd, hx, -, -⟩ := hf.num hm
  have hlen := hd.length_eq
  have hc : (if chain c = BlockId.zero then 0 else (chain c).num) = c := by
    split
    · rename_i hzero
      have := congrArg BlockId.num hzero
      rw [hm.num] at this
      exact this.symm
    · exact hm.num c
  have hhigh : (c + ((branch.map ForkItem.id).reverse).length) % uint32Size = tip.num := by
    rw [List.length_reverse, List.length_map]
    unfold uint32Size
    omega
  unfold forkSpan
  simp only [List.getLastD_concat, List.dropLast_concat, hc, hhigh]
  rw [if_neg (Nat.not_lt.mpr hf.reversible)]

/-- The ids the loop takes from the fork history. -/
theorem idAt_fork (low high : Nat) (hm : n.MainChain summary chain) {tip : ForkItem Name Tx}
    {branch : ForkDatabase.Branch Name Tx} {c k : Nat} (hf : n.Fork chain tip branch c)
    (hlow : c < k) (hhigh : k ≤ tip.num) :
    ∃ i ∈ branch, i.num = k ∧
      Span.idAt summary n ⟨low, high, c, (branch.map ForkItem.id).reverse⟩ k = .ok i.id := by
  obtain ⟨x, hd, hx, -, -⟩ := hf.num hm
  obtain ⟨i, hi, hget, hnum⟩ := hd.reverse_getElem? (k := k - c - 1) (by omega)
  refine ⟨i, hi, by omega, ?_⟩
  unfold Span.idAt
  rw [if_neg (Nat.not_le.mpr hlow)]
  simp only [← List.map_reverse, List.getElem?_map, hget, Option.map_some]

theorem Synced.synopsesRight (hm : n.MainChain summary chain) (hs : Synced summary n chain)
    (hthread : n.forkDb.Threaded) (hhead : 1 ≤ n.headBlockNum) :
    SynopsesRight summary n chain := by
  intro reference tip onBranch href count hsmall
  cases href with
  | head =>
      have htip : n.headBlockId.num = n.headBlockNum := by rw [← hm.head, hm.num]
      have hle := hs.irreversible (by omega)
      refine synopsisRight_of_span chain hhead (by rw [span, if_neg (by simp)]) htip.symm
        (by omega) ?_ (fun k h1 h2 => ?_) (by rw [htip]; exact hm.head) hsmall
      · rw [← max_one_min _ _ (by omega), htip, Nat.min_eq_right hle]
      · rw [htip] at h2
        exact ⟨idAt_main hm h1 h2 (Nat.le_refl _), hm.num k, k, h1, h2, rfl⟩
  | main k hk hkhead =>
      have hspan : span summary n (chain k) = .ok
          ⟨min k n.objects.lastIrreversibleBlockNum, k, k, []⟩ := by
        unfold span
        rw [if_pos (chain_ne_zero hm hk), isIncludedBlock_main hm hk hkhead, hm.num]
      have htip : (chain k).num = k := hm.num k
      refine synopsisRight_of_span chain hhead hspan htip.symm (by omega) ?_
        (fun j h1 h2 => ?_) (by rw [htip]) hsmall
      · rw [htip]
        exact max_one_min _ _ hk
      · rw [htip] at h2
        exact ⟨idAt_main hm h1 h2 hkhead, hm.num j, j, h1, h2, rfl⟩
  | @fork tip branch c hf =>
      have hnum : tip.id.num = tip.num := rfl
      have hfits : tip.num < 2147483648 := by omega
      have htraced := hs.traced tip branch c hf hfits
      have hids := (Node.getBlockIdsOnFork_iff hthread hm hf _).mpr ⟨htraced, rfl⟩
      have hspan : span summary n tip.id = .ok
          ⟨n.objects.lastIrreversibleBlockNum, tip.num, c, (branch.map ForkItem.id).reverse⟩ := by
        have hne : tip.id ≠ BlockId.zero := fun hc =>
          absurd (congrArg BlockId.num hc) (Nat.succ_ne_zero _)
        unfold span
        rw [if_pos hne, isIncludedBlock_fork hm hs.above hf, hids]
        exact forkSpan_eq hm hf hfits
      obtain ⟨x, hd, hx, -, -⟩ := hf.num hm
      have hctip := hd.last_num_le
      have hbelow := hf.below
      have hrev := hf.reversible
      -- The id at each height: of the main chain up to `c`, of the fork above it.
      have hat : ∀ k, ∃ id, 1 ≤ k → k ≤ tip.num →
          Span.idAt summary n ⟨n.objects.lastIrreversibleBlockNum, tip.num, c,
            (branch.map ForkItem.id).reverse⟩ k = .ok id ∧ id.num = k ∧
          ((∃ j, 1 ≤ j ∧ j ≤ c ∧ chain j = id) ∨ ∃ i ∈ branch, i.id = id) ∧
          (k = tip.num → id = tip.id) := by
        intro k
        by_cases hle : k ≤ c
        · refine ⟨chain k, fun h1 h2 => ⟨idAt_main hm h1 hle (Nat.le_of_lt hbelow), hm.num k,
            Or.inl ⟨k, h1, hle, rfl⟩, fun hc => ?_⟩⟩
          omega
        · by_cases hhigh : k ≤ tip.num
          · obtain ⟨i, hi, hinum, hid⟩ := idAt_fork n.objects.lastIrreversibleBlockNum tip.num hm hf
              (Nat.lt_of_not_le hle) hhigh
            refine ⟨i.id, fun _ _ => ⟨hid, hinum, Or.inr ⟨i, hi, rfl⟩, fun hc => ?_⟩⟩
            have hnamed := fun i hi j hj => hm.named i (hf.alive i hi) j (hf.alive j hj)
            exact hd.agree hd rfl hnamed i hi tip hd.head_mem (by omega)
          · exact ⟨BlockId.zero, fun _ h2 => absurd h2 hhigh⟩
      choose ids hat using hat
      refine synopsisRight_of_span ids hhead hspan rfl (by omega) ?_
        (fun k h1 h2 => ?_) ((hat tip.num (by omega) (Nat.le_refl _)).2.2.2 rfl) hsmall
      · show (if n.objects.lastIrreversibleBlockNum = 0 then 1
          else n.objects.lastIrreversibleBlockNum) = _
        rw [hnum]
        split <;> omega
      · obtain ⟨h3, h4, h5, -⟩ := hat k h1 h2
        exact ⟨h3, h4, h5⟩

/-! ## What the exchange needs -/

/-- A peer that sends one id of the main chain gets an answer from there. -/
theorem RepliesRight.known (hm : n.MainChain summary chain) (h : RepliesRight summary n chain)
    {k : Nat} (hlow : 1 ≤ k) (hhigh : k ≤ n.headBlockNum) : n.isKnownBlock (chain k) = true := by
  have hzero := chain_ne_zero hm hlow
  have hshared : shared n chain (chain k) = true := by
    simp only [shared, decide_eq_true_eq, hm.num]
    exact Or.inr ⟨hlow, hhigh, trivial⟩
  have hstart : replyStart n chain [chain k] = some (max 1 k) := by
    simp [replyStart, hshared, hm.num]
  obtain ⟨ids, remaining, hreply, -⟩ :=
    (h [chain k] 1 (Nat.le_refl 1) (by decide)).2 _ hstart
  by_contra hunknown
  have hlast : lastKnownBlockId summary n [chain k] =
      .error (.peerIsOnAnUnreachableFork unreachableForkMessage) := by
    simp [lastKnownBlockId, findLastKnownBlock, hzero, hunknown]
  rw [getBlockIds, if_neg (by omega), hlast] at hreply
  cases hreply

/-- A peer that sends a known block above the head block after block one gets an
answer from block one. -/
theorem RepliesRight.above (hm : n.MainChain summary chain) (h : RepliesRight summary n chain)
    (hhead : 1 ≤ n.headBlockNum) {id : BlockId} (hknown : n.isKnownBlock id = true)
    (habove : n.headBlockNum < id.num) :
    ∃ other, n.getBlockIdForNum summary id.num = .ok other ∧ other ≠ id := by
  have hid : id ≠ BlockId.zero := by
    intro hc
    rw [hc] at habove
    exact absurd habove (Nat.not_lt_zero _)
  have hshared : shared n chain id = false := by
    simp only [shared, decide_eq_false_iff_not, hid, false_or, not_and]
    exact fun _ hc => absurd hc (Nat.not_le.mpr habove)
  have hone : shared n chain (chain 1) = true := by
    simp only [shared, decide_eq_true_eq, hm.num]
    exact Or.inr ⟨Nat.le_refl 1, hhead, trivial⟩
  have hstart : replyStart n chain [chain 1, id] = some 1 := by
    simp [replyStart, hshared, hone, hm.num]
  obtain ⟨ids, remaining, hreply, hright⟩ :=
    (h [chain 1, id] 1 (Nat.le_refl 1) (by decide)).2 _ hstart
  rw [getBlockIds, if_neg (by omega)] at hreply
  cases hother : n.getBlockIdForNum summary id.num with
  | error e =>
      have hlast : lastKnownBlockId summary n [chain 1, id] = .error (.chain e) := by
        simp [lastKnownBlockId, findLastKnownBlock, hid, hknown, isIncludedBlock, hother]
      rw [hlast] at hreply
      cases hreply
  | ok other =>
      refine ⟨other, rfl, fun hc => ?_⟩
      -- Block `id` counts as included, and above the head there is nothing to answer.
      have hlast : lastKnownBlockId summary n [chain 1, id] = .ok id := by
        simp [lastKnownBlockId, findLastKnownBlock, hid, hknown, isIncludedBlock, hother, hc]
      have hnone : blockIdsFrom summary n 1 id.num = .ok [] := by
        rw [blockIdsFrom, if_neg (Nat.not_le.mpr habove)]
      rw [hlast] at hreply
      simp only [hnone, Except.ok.injEq, Prod.mk.injEq] at hreply
      obtain ⟨last, hlast', -⟩ := hright.remaining
      rw [← hreply.1] at hlast'
      cases hlast'

/-- A peer that sends the head block gets just that, so there is room for one more
block number. -/
theorem RepliesRight.room (hm : n.MainChain summary chain) (h : RepliesRight summary n chain)
    (hhead : 1 ≤ n.headBlockNum) (hsmall : n.headBlockNum < uint32Size) :
    n.headBlockNum + 1 < uint32Size := by
  by_contra hfull
  have hshared : shared n chain (chain n.headBlockNum) = true := by
    simp only [shared, decide_eq_true_eq, hm.num]
    exact Or.inr ⟨hhead, Nat.le_refl _, trivial⟩
  have hstart : replyStart n chain [chain n.headBlockNum] = some n.headBlockNum := by
    simp [replyStart, hshared, hm.num, Nat.max_eq_right hhead]
  obtain ⟨ids, remaining, hreply, hright⟩ :=
    (h [chain n.headBlockNum] 2 (by decide) (by decide)).2 _ hstart
  have hne := chain_ne_zero hm hhead
  have hknown := h.known hm hhead (Nat.le_refl _)
  have hlast : lastKnownBlockId summary n [chain n.headBlockNum] = .ok (chain n.headBlockNum) := by
    simp [lastKnownBlockId, findLastKnownBlock, hne, hknown,
      isIncludedBlock_main hm hhead (Nat.le_refl _)]
  -- The number after the head is zero, and the loop goes on with block one.
  have hwrap : (n.headBlockNum + 1) % uint32Size = 0 := by
    rw [show n.headBlockNum + 1 = uint32Size by omega, Nat.mod_self]
  have htwo : blockIdsFrom summary n 2 n.headBlockNum =
      .ok [chain n.headBlockNum, chain 1] := by
    have h0 : ¬n.headBlockNum = 0 := by omega
    simp only [blockIdsFrom, if_pos (Nat.le_refl _), if_neg h0,
      hm.answers _ hhead (Nat.le_refl _), hwrap, if_pos (Nat.zero_le _), if_true,
      hm.answers 1 (Nat.le_refl 1) hhead, Except.map]
  rw [getBlockIds, if_neg (by omega), hlast] at hreply
  simp only [hm.num, htwo, Except.ok.injEq, Prod.mk.injEq] at hreply
  have hlen := congrArg List.length hright.consecutive
  rw [← hreply.1, List.length_map, List.length_range'] at hlen
  simp only [List.length_cons, List.length_nil] at hlen
  omega

/-- A summary of the whole chain starts on it. -/
theorem SynopsesRight.irreversible (hm : n.MainChain summary chain)
    (h : SynopsesRight summary n chain) (hhead : 1 ≤ n.headBlockNum)
    (hsmall : n.headBlockNum < 2147483648) :
    n.objects.lastIrreversibleBlockNum ≤ n.headBlockNum := by
  by_contra hlib
  have htip : n.headBlockId.num = n.headBlockNum := by rw [← hm.head, hm.num]
  obtain ⟨ids, hsynopsis, -⟩ := h BlockId.zero n.headBlockId _ .head 0 (by omega)
  have hspan : span summary n BlockId.zero = .ok
      ⟨n.objects.lastIrreversibleBlockNum, n.headBlockNum, n.headBlockNum, []⟩ := by
    rw [span, if_neg (by simp)]
  have hlow : ¬n.objects.lastIrreversibleBlockNum = 0 := by omega
  obtain ⟨fuel, hfuel⟩ : ∃ fuel, uint32Size = fuel + 1 := ⟨4294967295, rfl⟩
  rw [getBlockchainSynopsis, if_neg (by omega), hspan] at hsynopsis
  simp only [if_neg hlow, hfuel, Span.synopsisFrom, Span.idAt, if_neg hlib,
    List.getElem?_nil] at hsynopsis
  cases hsynopsis

/-- The fork of a reference point is found. -/
theorem SynopsesRight.traced (hm : n.MainChain summary chain) (hthread : n.forkDb.Threaded)
    (h : SynopsesRight summary n chain)
    (habove : ∀ id, n.isKnownBlock id = true → n.headBlockNum < id.num →
      ∃ other, n.getBlockIdForNum summary id.num = .ok other ∧ other ≠ id)
    {tip : ForkItem Name Tx} {branch : ForkDatabase.Branch Name Tx} {c : Nat}
    (hf : n.Fork chain tip branch c) (hsmall : tip.num < 2147483648) : n.Traced tip c := by
  obtain ⟨ids, hsynopsis, -⟩ := h tip.id tip.id _ (.fork hf) 0 hsmall
  have hne : tip.id ≠ BlockId.zero := fun hc =>
    absurd (congrArg BlockId.num hc) (Nat.succ_ne_zero _)
  rw [getBlockchainSynopsis, if_neg (fun hc => hne hc.1)] at hsynopsis
  cases hids : n.getBlockIdsOnFork tip.id with
  | error e =>
      rw [span, if_pos hne, isIncludedBlock_fork hm habove hf, hids] at hsynopsis
      cases hsynopsis
  | ok l => exact ((Node.getBlockIdsOnFork_iff hthread hm hf l).mp hids).1

/-- **The sync exchange.** After every run from a node just opened, synopses and
answers are right if and only if the node is synced. -/
theorem sync_exchange_iff [DecidableEq Name] (ev : Evaluators Name Tx Rest)
    (opened : Node Name Tx Rest) (hseed : opened.Seeded) (steps : List (Step Name Tx))
    (summary : Node.Summaries Rest) (chain : Nat → BlockId)
    (hm : (opened.run ev steps).MainChain summary chain)
    (hhead : 1 ≤ (opened.run ev steps).headBlockNum)
    (hsmall : (opened.run ev steps).headBlockNum < uint32Size) :
    SynopsesRight summary (opened.run ev steps) chain ∧
        RepliesRight summary (opened.run ev steps) chain ↔
      Synced summary (opened.run ev steps) chain := by
  have hstart : opened.forkDb.Threaded := by
    rcases hseed with ⟨hnone, hindex⟩ | ⟨b, hb, -⟩
    · have halive : opened.forkDb.alive = [] := by simp [ForkDatabase.alive, hnone, hindex]
      refine ⟨⟨?_, ?_, ?_, ?_⟩, ?_⟩ <;> simp [halive]
    · rw [hb]
      exact ForkDatabase.startBlock_threaded b
  have hthread := Node.run_lasts ev ForkDatabase.threaded_lasting steps hstart
  constructor
  · rintro ⟨hsynopses, hreplies⟩
    have habove := fun id (hknown : (opened.run ev steps).isKnownBlock id = true) =>
      hreplies.above hm hhead hknown
    exact ⟨fun k h1 h2 => hreplies.known hm h1 h2, habove, hsynopses.irreversible hm hhead,
      hreplies.room hm hhead hsmall, fun tip branch c => hsynopses.traced hm hthread habove⟩
  · intro hs
    exact ⟨hs.synopsesRight hm hthread hhead, hs.repliesRight hm hhead⟩

/-! ### Three blocks from block one on -/

/-- A node opened at block 2, with both blocks in its log. -/
def reopened : Node Nat Nat (List Nat) where
  db :=
    { cur :=
        { headBlockNumber := 2, headBlockId := ⟨2, 1⟩, time := 6, currentAslot := 2,
          lastIrreversibleBlockNum := 0, lastConfirmedBlockNum := fun _ => 2,
          lastAslot := fun _ => 2, applied := [], rest := [] }
      stack := []
      revision := 2 }
  forkDb := ForkDatabase.empty.startBlock (soloBlock 2 1 1 [])
  blockLog := [soloBlock 1 0 1 [], soloBlock 2 1 1 []]
  pendingTxSession := none
  pendingTx := []
  poppedTx := []
  committed := 2

def reopenedChain (k : Nat) : BlockId := if k = 0 then BlockId.zero else ⟨k, 1⟩

def reopenedSummary (_ : List Nat) (k : Nat) : Option BlockId :=
  some (if k = 1 ∨ k = 2 then ⟨k, 1⟩ else BlockId.zero)

/-- Three blocks on another chain from block one on. The third is higher than the
head block, but the node cannot switch to it. -/
def foreignBlocks : List (Step Nat Nat) :=
  [.pushBlock (soloBlock 1 0 9 []), .pushBlock (soloBlock 2 9 8 []),
    .pushBlock (soloBlock 3 8 7 [])]

theorem reopened_seeded : reopened.Opened ∧ reopened.Seeded :=
  ⟨⟨rfl, rfl, rfl, rfl, rfl, rfl, rfl, rfl⟩, Or.inr ⟨soloBlock 2 1 1 [], rfl, rfl⟩⟩

theorem mainChain_of_head {n : Node Nat Nat (List Nat)} (hhead : n.headBlockNum = 2)
    (hid : n.headBlockId = ⟨2, 1⟩)
    (hanswers : ∀ k ∈ [1, 2], n.getBlockIdForNum reopenedSummary k = .ok (reopenedChain k))
    (hlinked : ∀ i ∈ n.forkDb.alive, ∀ k ∈ [0, 1], i.id = reopenedChain (k + 1) →
      i.previousId = reopenedChain k)
    (hnamed : ∀ i ∈ n.forkDb.alive, ∀ j ∈ n.forkDb.alive, i.id = j.id →
      i.previousId = j.previousId) : n.MainChain reopenedSummary reopenedChain := by
  refine ⟨rfl, fun k => ?_, ?_, fun k h1 h2 => hanswers k ?_, fun i hi k hk => hlinked i hi k ?_,
    hnamed⟩
  · by_cases hk : k = 0 <;> simp [reopenedChain, hk, BlockId.zero]
  · rw [hhead, hid]
    rfl
  · rw [hhead] at h2
    rcases (by omega : k = 1 ∨ k = 2) with rfl | rfl <;> simp
  · rw [hhead] at hk
    rcases (by omega : k = 0 ∨ k = 1) with rfl | rfl <;> simp

/-- The third of these blocks then counts as included. A peer that sends it after
block one gets an empty answer instead of one from block one. -/
theorem foreign_block_included :
    reopened.Opened ∧ reopened.Seeded ∧
    (reopened.run soloWitness foreignBlocks).MainChain reopenedSummary reopenedChain ∧
    (reopened.run soloWitness foreignBlocks).headBlockNum = 2 ∧
    replyStart (reopened.run soloWitness foreignBlocks) reopenedChain [⟨1, 1⟩, ⟨3, 7⟩] = some 1 ∧
    getBlockIds reopenedSummary (reopened.run soloWitness foreignBlocks) [⟨1, 1⟩, ⟨3, 7⟩] 10 =
      .ok ([], 0) ∧
    ¬(SynopsesRight reopenedSummary (reopened.run soloWitness foreignBlocks) reopenedChain ∧
      RepliesRight reopenedSummary (reopened.run soloWitness foreignBlocks) reopenedChain) := by
  have hhead : (reopened.run soloWitness foreignBlocks).headBlockNum = 2 := by decide +kernel
  have hmain : (reopened.run soloWitness foreignBlocks).MainChain reopenedSummary
      reopenedChain := by
    refine mainChain_of_head hhead ?_ ?_ ?_ ?_ <;> decide +kernel
  have hstart : replyStart (reopened.run soloWitness foreignBlocks) reopenedChain
      [⟨1, 1⟩, ⟨3, 7⟩] = some 1 := by decide +kernel
  have hreply : getBlockIds reopenedSummary (reopened.run soloWitness foreignBlocks)
      [⟨1, 1⟩, ⟨3, 7⟩] 10 = .ok ([], 0) := by decide +kernel
  refine ⟨reopened_seeded.1, reopened_seeded.2, hmain, hhead, hstart, hreply, fun hright => ?_⟩
  obtain ⟨ids, remaining, heq, hids⟩ := (hright.2 _ 10 (by decide) (by decide)).2 1 hstart
  rw [hreply, Except.ok.injEq, Prod.mk.injEq] at heq
  obtain ⟨last, hlast, -⟩ := hids.remaining
  rw [← heq.1] at hlast
  cases hlast

/-- The node just opened is synced. -/
theorem sync_exchange_reopened :
    SynopsesRight reopenedSummary reopened reopenedChain ∧
      RepliesRight reopenedSummary reopened reopenedChain := by
  have hmain : reopened.MainChain reopenedSummary reopenedChain := by
    refine mainChain_of_head rfl rfl ?_ ?_ ?_ <;> decide +kernel
  refine (sync_exchange_iff soloWitness reopened reopened_seeded.2 [] reopenedSummary
    reopenedChain hmain (by decide) (by decide)).mpr ⟨fun k h1 h2 => ?_, fun id hknown habove => ?_,
    fun _ => Nat.zero_le _, by decide, fun tip branch c hf _ => ?_⟩
  · change k ≤ 2 at h2
    rcases (by omega : k = 1 ∨ k = 2) with rfl | rfl <;> decide +kernel
  · -- No block above the head block is known.
    obtain ⟨b, hb⟩ := Option.isSome_iff_exists.mp hknown
    change 2 < id.num at habove
    unfold Node.fetchBlockById at hb
    split at hb
    · rename_i item hitem
      obtain ⟨hmem, hid⟩ := ForkDatabase.mem_index_of_fetchBlock hitem
      obtain rfl : item = ⟨0, soloBlock 2 1 1 [], none⟩ := List.mem_singleton.mp hmem
      rw [← hid] at habove
      exact absurd habove (by decide)
    · split at hb
      · rename_i b' hread
        have hmem := List.mem_of_find?_eq_some hread
        have hnum := List.find?_some hread
        rw [decide_eq_true_eq] at hnum
        rw [← hnum] at habove
        have hlog : b' ∈ [soloBlock 1 0 1 [], soloBlock 2 1 1 []] := hmem
        simp only [List.mem_cons, List.not_mem_nil, or_false] at hlog
        rcases hlog with rfl | rfl <;> exact absurd habove (by decide)
      · cases hb
  · -- The only block of the fork database is on the main chain.
    obtain ⟨x, hd, hx, hprev, hoff⟩ := hf.num hmain
    have hone : ∀ i ∈ branch, i = ⟨0, soloBlock 2 1 1 [], none⟩ := fun i hi =>
      List.mem_singleton.mp (hf.known i hi)
    rw [hone x hd.last_mem] at hoff
    exact absurd rfl hoff

end Gamebank.P2p
