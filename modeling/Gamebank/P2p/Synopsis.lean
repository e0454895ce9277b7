import Gamebank.Chain.BlockIds

/-!
# `get_block_ids` and `get_blockchain_synopsis`

The two answers of the p2p plugin in the sync exchange
(`libraries/plugins/p2p/p2p_plugin.cpp`). A node that is behind summarizes its
chain, or the fork of a reference point, by the ids of a few blocks; its peer
finds the last of them that is on its own main chain, and goes on from there.

* Block numbers are 32-bit unsigned numbers, in the steps of the synopsis too.
* Indexing `fork_history` outside is undefined; here it is the exception
  `outOfRange`.
* The loop of the synopsis ends at the bound `2 ^ 32` with `unbounded`: a loop
  that takes more turns has come back to where it was.
-/

namespace Gamebank.P2p

open Gamebank.Chain

universe u v w

variable {Name : Type u} {Tx : Type v} {Rest : Type w}

/-- How the two calls fail. -/
inductive SyncException where
  | chain (e : ChainException)
  | peerIsOnAnUnreachableFork (message : String)
  | blockOlderThanUndoHistory (message : String)
  | outOfRange
  | unbounded
deriving DecidableEq

def unreachableForkMessage : String :=
  "Unable to provide a list of blocks starting at any of the blocks in peer's synopsis"

def undoHistoryMessage : String := "Peer is are on a fork I'm unable to switch to"

section

variable (summary : Node.Summaries Rest) (n : Node Name Tx Rest)

/-- `is_included_block`. -/
def isIncludedBlock (blockId : BlockId) : Except ChainException Bool :=
  match n.getBlockIdForNum summary blockId.num with
  | .error e => .error e
  | .ok blockIdInPreferredChain => .ok (blockId = blockIdInPreferredChain)

/-! ## `get_block_ids` -/

/-- The first loop, over the reversed synopsis. -/
def findLastKnownBlock : List BlockId → Except ChainException (Option BlockId)
  | [] => .ok none
  | id :: rest =>
      if id = BlockId.zero then .ok (some id)
      else if n.isKnownBlock id then
        match isIncludedBlock summary n id with
        | .error e => .error e
        | .ok true => .ok (some id)
        | .ok false => findLastKnownBlock rest
      else findLastKnownBlock rest

/-- The block the answer starts at. -/
def lastKnownBlockId (synopsis : List BlockId) : Except SyncException BlockId :=
  if synopsis = [] ∨ synopsis = [BlockId.zero] then .ok BlockId.zero
  else
    match findLastKnownBlock summary n synopsis.reverse with
    | .error e => .error (.chain e)
    | .ok none => .error (.peerIsOnAnUnreachableFork unreachableForkMessage)
    | .ok (some id) => .ok id

/-- The second loop, with `room` ids left below the limit. -/
def blockIdsFrom : Nat → Nat → Except ChainException (List BlockId)
  | 0, _ => .ok []
  | room + 1, num =>
      if num ≤ n.headBlockNum then
        -- The turn at zero appends nothing.
        let num := if num = 0 then 1 else num
        match n.getBlockIdForNum summary num with
        | .error e => .error e
        | .ok id => (blockIdsFrom room ((num + 1) % uint32Size)).map (id :: ·)
      else .ok []

/-- `remaining_item_count`. -/
def remainingItemCount (result : List BlockId) : Nat :=
  match result.getLast? with
  | none => 0
  | some last => if last.num < n.headBlockNum then n.headBlockNum - last.num else 0

/-- `get_block_ids`: the ids, and `remaining_item_count`. -/
def getBlockIds (synopsis : List BlockId) (limit : Nat) :
    Except SyncException (List BlockId × Nat) :=
  if n.headBlockNum = 0 then .ok ([], 0)
  else
    match lastKnownBlockId summary n synopsis with
    | .error e => .error e
    | .ok lastKnown =>
        match blockIdsFrom summary n limit lastKnown.num with
        | .error e => .error (.chain e)
        | .ok result => .ok (result, remainingItemCount n result)

/-! ## `get_blockchain_synopsis` -/

/-- What is summarized: the main chain up to `nonForkHigh`, and above it the ids of
a fork, lowest first. -/
structure Span where
  low : Nat
  high : Nat
  nonForkHigh : Nat
  forkHistory : List BlockId

/-- The part of a reference point on a fork. -/
def forkSpan (ids : List BlockId) : Except SyncException Span :=
  let lastNonFork := ids.getLastD BlockId.zero
  let forkHistory := ids.dropLast.reverse
  let nonForkHigh := if lastNonFork = BlockId.zero then 0 else lastNonFork.num
  if nonForkHigh < n.objects.lastIrreversibleBlockNum then
    .error (.blockOlderThanUndoHistory undoHistoryMessage)
  else
    .ok { low := n.objects.lastIrreversibleBlockNum
          high := (nonForkHigh + forkHistory.length) % uint32Size
          nonForkHigh := nonForkHigh
          forkHistory := forkHistory }

/-- What the reference point says is to be summarized. -/
def span (reference : BlockId) : Except SyncException Span :=
  if reference ≠ BlockId.zero then
    match isIncludedBlock summary n reference with
    | .error e => .error (.chain e)
    | .ok true =>
        .ok { low := min reference.num n.objects.lastIrreversibleBlockNum
              high := reference.num
              nonForkHigh := reference.num
              forkHistory := [] }
    | .ok false =>
        match n.getBlockIdsOnFork reference with
        | .error e => .error (.chain e)
        | .ok ids => forkSpan n ids
  else
    .ok { low := n.objects.lastIrreversibleBlockNum
          high := n.headBlockNum
          nonForkHigh := n.headBlockNum
          forkHistory := [] }

/-- The id the loop appends at `num`. -/
def Span.idAt (s : Span) (num : Nat) : Except SyncException BlockId :=
  if num ≤ s.nonForkHigh then
    match n.getBlockIdForNum summary num with
    | .error e => .error (.chain e)
    | .ok id => .ok id
  else
    match s.forkHistory[num - s.nonForkHigh - 1]? with
    | none => .error .outOfRange
    | some id => .ok id

/-- The number after `low`: half of the way to `trueHigh`. -/
def nextNum (trueHigh low : Nat) : Nat :=
  (low + (sub32 trueHigh low + 2) % uint32Size / 2) % uint32Size

/-- The loop, from `low` on. -/
def Span.synopsisFrom (s : Span) (trueHigh : Nat) : Nat → Nat → Except SyncException (List BlockId)
  | 0, _ => .error .unbounded
  | fuel + 1, low =>
      match s.idAt summary n low with
      | .error e => .error e
      | .ok id =>
          if nextNum trueHigh low ≤ s.high then
            (s.synopsisFrom trueHigh fuel (nextNum trueHigh low)).map (id :: ·)
          else .ok [id]

/-- `get_blockchain_synopsis`, `count` being `number_of_blocks_after_reference_point`. -/
def getBlockchainSynopsis (reference : BlockId) (count : Nat) :
    Except SyncException (List BlockId) :=
  if reference = BlockId.zero ∧ n.headBlockNum = 0 then .ok []
  else
    match span summary n reference with
    | .error e => .error e
    | .ok s =>
        s.synopsisFrom summary n ((s.high + count) % uint32Size) uint32Size
          (if s.low = 0 then 1 else s.low)

end

/-! ## The loop of the synopsis -/

variable {summary : Node.Summaries Rest} {n : Node Name Tx Rest} {s : Span}

theorem nextNum_eq {trueHigh low : Nat} (hle : low ≤ trueHigh) (hsmall : trueHigh < 2147483648) :
    nextNum trueHigh low = low + (trueHigh - low + 2) / 2 := by
  have hsub : sub32 trueHigh low = trueHigh - low := by
    unfold sub32 uint32Size
    omega
  unfold nextNum
  rw [hsub]
  unfold uint32Size
  omega

/-- Heights from `low` up to `high`. -/
structure Samples (low high : Nat) (ks : List Nat) : Prop where
  first : ks.head? = some low
  increasing : ks.Pairwise (· < ·)
  bounds : ∀ k ∈ ks, low ≤ k ∧ k ≤ high

/-- The loop ends, and samples what it is to summarize; if nothing is to follow,
up to its end. -/
theorem synopsisFrom_samples (trueHigh fuel low : Nat) (ids : Nat → BlockId)
    (hids : ∀ k, low ≤ k → k ≤ s.high → s.idAt summary n k = .ok (ids k)) (hlow : low ≤ s.high)
    (hhigh : s.high ≤ trueHigh) (hsmall : trueHigh < 2147483648) (hfuel : s.high < low + fuel) :
    ∃ ks, s.synopsisFrom summary n trueHigh fuel low = .ok (ks.map ids) ∧ Samples low s.high ks ∧
      (trueHigh = s.high → ks.getLast? = some s.high) := by
  induction fuel generalizing low with
  | zero => omega
  | succ fuel ih =>
      have hnext := nextNum_eq (hlow.trans hhigh) hsmall
      unfold Span.synopsisFrom
      rw [hids low (Nat.le_refl _) hlow]
      simp only
      by_cases hmore : nextNum trueHigh low ≤ s.high
      · obtain ⟨ks, heq, hsamples, hlast⟩ :=
          ih (nextNum trueHigh low) (fun k hk => hids k (by omega)) hmore (by omega)
        refine ⟨low :: ks, ?_, ⟨rfl, ?_, ?_⟩, fun htrue => ?_⟩
        · rw [if_pos hmore, heq]
          rfl
        · refine List.pairwise_cons.mpr ⟨fun k hk => ?_, hsamples.increasing⟩
          have := (hsamples.bounds k hk).1
          omega
        · refine List.forall_mem_cons.mpr ⟨⟨Nat.le_refl _, hlow⟩, fun k hk => ?_⟩
          have := hsamples.bounds k hk
          omega
        · rw [List.getLast?_cons, hlast htrue]
          rfl
      · refine ⟨[low], ?_, ⟨rfl, List.pairwise_singleton _ _, ?_⟩, fun htrue => ?_⟩
        · rw [if_neg hmore]
          rfl
        · simpa using hlow
        · have hend : low = s.high := by omega
          rw [hend]
          rfl

/-! ## The loops of the answer -/

theorem blockIdsFrom_eq {ids : Nat → BlockId} (hroom : n.headBlockNum + 1 < uint32Size)
    (hids : ∀ k, 1 ≤ k → k ≤ n.headBlockNum → n.getBlockIdForNum summary k = .ok (ids k))
    (room num : Nat) (hnum : num ≤ n.headBlockNum + 1) (hhead : 1 ≤ n.headBlockNum) :
    blockIdsFrom summary n room num =
      .ok ((List.range' (max 1 num) (min room (n.headBlockNum + 1 - max 1 num))).map ids) := by
  induction room generalizing num with
  | zero => simp [blockIdsFrom]
  | succ room ih =>
      unfold blockIdsFrom
      by_cases hle : num ≤ n.headBlockNum
      · have hstart : (if num = 0 then 1 else num) = max 1 num := by
          split <;> omega
        have hid := hids (max 1 num) (by omega) (by omega)
        have hmod : (max 1 num + 1) % uint32Size = max 1 num + 1 := Nat.mod_eq_of_lt (by omega)
        have hrest := ih (max 1 num + 1) (by omega)
        rw [show max 1 (max 1 num + 1) = max 1 num + 1 by omega] at hrest
        simp only [if_pos hle, hstart, hid, hmod, hrest]
        rw [show min (room + 1) (n.headBlockNum + 1 - max 1 num) =
          min room (n.headBlockNum + 1 - (max 1 num + 1)) + 1 by omega, List.range'_succ,
          List.map_cons]
        rfl
      · have hmax : max 1 num = n.headBlockNum + 1 := by omega
        rw [if_neg hle, hmax, Nat.sub_self, Nat.min_zero]
        rfl

end Gamebank.P2p
