import Gamebank.Conservation.Rewards
import Gamebank.Conservation.Trades
import Gamebank.Conservation.Vesting

/-!
# The books over runs

A state is reached from genesis by calls: every operation and every routine of
a block that moves tokens, except for those about crowdfunding, and anything
that leaves alone what is held (`SameHoldings`). Whatever the calls and their
order, the books stay closed: nothing is held that the supplies do not count,
and nothing is counted that nobody holds.
-/

namespace Gamebank.Conservation

open Gamebank.Lib Gamebank.Protocol Gamebank.Ledger

variable {s t : Database} {d e : Entry}

/-! ## Calls -/

/-- `stake` are the calls about vesting shares, votes, accounts and witnesses;
shares are created by the others only. -/
inductive Call where
  | stake (c : Ledger.Call) (h : ∀ name liquid, c ≠ .createVesting name liquid)
  | transfer (o : TransferOperation)
  | claimAccount (creator : AccountName) (fee : Int)
  | vestInitialSupply (initSupply : Int)
  | limitOrderCreate (o : LimitOrderCreateOperation)
  | limitOrderCreate2 (o : LimitOrderCreate2Operation)
  | limitOrderCancel (o : LimitOrderCancelOperation)
  | clearExpiredOrders
  | escrowTransfer (isValidJson : String → Bool) (o : EscrowTransfer)
  | escrowApprove (o : EscrowApprove)
  | escrowDispute (o : EscrowDispute)
  | escrowRelease (o : EscrowRelease)
  | expireEscrowRatification
  | transferToSavings (o : TransferToSavings)
  | transferFromSavings (o : TransferFromSavings)
  | cancelTransferFromSavings (o : CancelTransferFromSavings)
  | processSavingsWithdraws
  | convert (o : ConvertOperation)
  | processConversions
  | updateVirtualSupply
  | processFunds
  | processCommentCashout
  | comment (tools : TextTools) (o : CommentOperation)
  | deleteComment (o : DeleteCommentOperation)
  | commentOptions (o : CommentOptionsOperation)
  | vote (o : VoteOperation)
  | contractDeploy (env : Environment) (handlers : Handlers) (fuel : Nat) (op : ContractDeploy)
  | contractCall (env : Environment) (handlers : Handlers) (fuel : Nat) (op : ContractCall)
  | nonfungibleFundCreate (creator owner : AccountName) (metaData : String)
  | nonfungibleFundTransfer (sender recipient : AccountName) (fundId : Nat)
  | nonfungibleFundPutUpForSale (seller : AccountName) (fundId : Nat) (sellingPrice : Asset)
      (expiration : Nat)
  | nonfungibleFundWithdrawFromSale (seller : AccountName) (fundId : Nat)
  | nonfungibleFundBuy (buyer : AccountName) (fundId : Nat)
  | clearExpiredNonfungibleFundsOnSale

/-- What a call does. -/
def perform (s : Database) : Call → Except String Database
  | .stake c _ => s.perform c
  | .transfer o => s.transfer o
  | .claimAccount creator fee => s.claimAccount creator fee
  | .vestInitialSupply initSupply => s.vestInitialSupply initSupply
  | .limitOrderCreate o => s.limitOrderCreate o
  | .limitOrderCreate2 o => do
      o.validate
      s.limitOrderCreate2 o
  | .limitOrderCancel o => s.limitOrderCancel o
  | .clearExpiredOrders => s.clearExpiredOrders
  | .escrowTransfer isValidJson o => (s.escrowTransfer isValidJson o).map Prod.fst
  | .escrowApprove o => (s.escrowApprove o).map Prod.fst
  | .escrowDispute o => (s.escrowDispute o).map Prod.fst
  | .escrowRelease o => (s.escrowRelease o).map Prod.fst
  | .expireEscrowRatification => s.expireEscrowRatification.map Prod.fst
  | .transferToSavings o => (s.transferToSavings o).map Prod.fst
  | .transferFromSavings o => (s.transferFromSavings o).map Prod.fst
  | .cancelTransferFromSavings o => (s.cancelTransferFromSavings o).map Prod.fst
  | .processSavingsWithdraws => s.processSavingsWithdraws.map Prod.fst
  | .convert o => s.convert o
  | .processConversions => s.processConversions.map Prod.fst
  | .updateVirtualSupply => s.updateVirtualSupply
  | .processFunds => s.processFunds
  | .processCommentCashout => s.processCommentCashout
  | .comment tools o => s.comment tools o
  | .deleteComment o => s.deleteComment o
  | .commentOptions o => s.commentOptions o
  | .vote o => s.vote o
  | .contractDeploy env handlers fuel op => s.contractDeploy env handlers fuel op
  | .contractCall env handlers fuel op => s.contractCall env handlers fuel op
  | .nonfungibleFundCreate creator owner metaData => s.nonfungibleFundCreate creator owner metaData
  | .nonfungibleFundTransfer sender recipient fundId =>
      s.nonfungibleFundTransfer sender recipient fundId
  | .nonfungibleFundPutUpForSale seller fundId price expiration =>
      s.nonfungibleFundPutUpForSale seller fundId price expiration
  | .nonfungibleFundWithdrawFromSale seller fundId =>
      s.nonfungibleFundWithdrawFromSale seller fundId
  | .nonfungibleFundBuy buyer fundId => s.nonfungibleFundBuy buyer fundId
  | .clearExpiredNonfungibleFundsOnSale => s.clearExpiredNonfungibleFundsOnSale

/-- What the null account holds is burnt when it is worth something. -/
def Regular (s : Database) : Call → Prop
  | .stake .clearNullAccountBalance _ => NullInCredit s
  | _ => True

/-- What the other operations and routines leave alone in an account. -/
def holdings (a : Account) : Account :=
  { Account.make a.name with
    balance := a.balance
    savingsBalance := a.savingsBalance
    gbdBalance := a.gbdBalance
    savingsGbdBalance := a.savingsGbdBalance
    rewardGbcBalance := a.rewardGbcBalance
    rewardGbdBalance := a.rewardGbdBalance
    rewardVestingGbc := a.rewardVestingGbc
    rewardVestingBalance := a.rewardVestingBalance
    vestingShares := a.vestingShares
    vestingWithdrawRate := a.vestingWithdrawRate
    toWithdraw := a.toWithdraw }

/-- `t` is `s` as far as anything is held. -/
structure SameHoldings (s t : Database) : Prop where
  accounts : t.accounts.rows.map holdings = s.accounts.rows.map holdings
  supplies : supplies t.props = supplies s.props
  limitOrders : t.limitOrders = s.limitOrders
  contracts : t.contracts = s.contracts
  tables : sideTables t = sideTables s

/-- The states reached from genesis. -/
inductive Reachable : Database → Prop
  | genesis (initialSupply : Int) : Reachable (Database.genesis initialSupply)
  | call {s t : Database} {c : Call} (hs : Reachable s) (hc : Regular s c)
      (h : perform s c = .ok t) : Reachable t
  | other {s t : Database} (hs : Reachable s) (h : SameHoldings s t) : Reachable t

/-! ## One call -/

theorem SameHoldings.keeps (h : SameHoldings s t) : Keeps s t := by
  have hsum : t.accounts.sum accountHolds = s.accounts.sum accountHolds := by
    have hmap : ∀ l : List Account,
        l.map accountHolds = (l.map holdings).map accountHolds := by
      intro l
      rw [List.map_map]
      exact List.map_congr_left fun a _ => rfl
    rw [Table.sum, Table.sum, hmap, h.accounts, ← hmap]
  have htables := h.tables
  simp only [sideTables, Prod.mk.injEq] at htables
  obtain ⟨-, hescrows, hsavings, hrequests, hfunds⟩ := htables
  refine ⟨?_, fun hs => ⟨fun a ha => ?_, h.limitOrders ▸ hs.orders⟩, h.tables⟩
  · rw [excess, hsum, h.limitOrders, h.contracts, h.supplies, hescrows, hsavings, hrequests,
      hfunds, add_zero]
    rfl
  · have hmem : holdings a ∈ t.accounts.rows.map holdings := List.mem_map_of_mem ha
    rw [h.accounts] at hmem
    obtain ⟨b, hb, hholdings⟩ := List.mem_map.mp hmem
    have hrange : InRange (holdings b) := hs.accounts b hb
    rw [hholdings] at hrange
    exact hrange

/-- The calls about shares, votes, accounts and witnesses. -/
theorem stake_kept (hs : Sound s) {c : Ledger.Call}
    (hvesting : ∀ name liquid, c ≠ .createVesting name liquid)
    (hnull : c = .clearNullAccountBalance → NullInCredit s) :
    Returns (s.perform c) fun t => Kept s t 0 := by
  have hkeeps : ∀ {x : Except String Database}, Returns x (Keeps s) →
      Returns x fun t => Kept s t 0 := fun hx => hx.mono fun t ht => ht.kept hs
  cases c with
  | createVesting name liquid => exact absurd rfl (hvesting name liquid)
  | transferToVesting sender recipient amount =>
      exact hkeeps (transferToVesting_keeps s sender recipient amount)
  | claimRewardBalance account gbc gbd vests =>
      exact hkeeps (claimRewardBalance_keeps s account gbc gbd vests)
  | withdrawVesting account shares => exact hkeeps (withdrawVesting_keeps s account shares)
  | setWithdrawVestingRoute fromAccount toAccount percent autoVest =>
      exact setWithdrawVestingRoute_kept hs fromAccount toAccount percent autoVest
  | processVestingWithdrawal account => exact processVestingWithdrawal_kept hs account
  | accountWitnessProxy account proxy => exact hkeeps (accountWitnessProxy_keeps s account proxy)
  | accountWitnessVote account witness approve =>
      exact hkeeps (accountWitnessVote_keeps s account witness approve)
  | declineVotingRights account decline =>
      exact hkeeps (declineVotingRights_keeps s account decline)
  | processDeclineVotingRights account => exact hkeeps (processDeclineVotingRights_keeps s account)
  | delegateVestingShares delegator delegatee shares =>
      exact hkeeps (delegateVestingShares_keeps s delegator delegatee shares)
  | clearExpiredDelegation id => exact hkeeps (clearExpiredDelegation_keeps s id)
  | reclaimAccountCreationDelegation id =>
      exact hkeeps (reclaimAccountCreationDelegation_keeps s id)
  | accountCreate creator name auths fee =>
      exact hkeeps (accountCreate_keeps s creator name auths fee)
  | accountCreateWithDelegation creator name auths fee delegation =>
      exact hkeeps (accountCreateWithDelegation_keeps s creator name auths fee delegation)
  | createClaimedAccount creator name auths =>
      exact hkeeps (createClaimedAccount_keeps s creator name auths)
  | clearNullAccountBalance => exact hkeeps (clearNullAccountBalance_keeps (hnull rfl))
  | witnessUpdate owner key fee size rate =>
      exact hkeeps (witnessUpdate_keeps s owner key fee size rate)
  | witnessSetProperties owner key newKey fee size rate limit =>
      exact hkeeps (witnessSetProperties_keeps s owner key newKey fee size rate limit)
  | recordMissedBlock owner => exact hkeeps (recordMissedBlock_keeps s owner)
  | updateWitnessSchedule => exact hkeeps (updateWitnessSchedule_keeps s)
  | other => exact .ok (.refl hs)

theorem returns_map_fst {α β : Type} {x : Except String (α × β)} {P : α → Prop}
    (h : Returns x fun r => P r.1) : Returns (x.map Prod.fst) P := by
  cases x with
  | error e => exact .error
  | ok r => exact .ok (h r rfl)

/-- A call leaves all books closed. The GBC behind rewarded shares is not
always counted as it is held when comments are paid. -/
theorem perform_kept (hs : Sound s) (c : Call) (hc : Regular s c) :
    Returns (perform s c) fun t =>
      ∃ lost, Kept s t (entry .rewardGbc lost) ∧ (c ≠ .processCommentCashout → lost = 0) := by
  have hkept : ∀ {x : Except String Database}, Returns x (fun t => Kept s t 0) → Returns x fun t =>
      ∃ lost, Kept s t (entry .rewardGbc lost) ∧ (c ≠ .processCommentCashout → lost = 0) :=
    fun hx => hx.mono fun t ht => ⟨0, ht.of_eq (entry_zero _).symm, fun _ => rfl⟩
  have hkeeps : ∀ {x : Except String Database}, Returns x (Keeps s) → Returns x fun t =>
      ∃ lost, Kept s t (entry .rewardGbc lost) ∧ (c ≠ .processCommentCashout → lost = 0) :=
    fun hx => hkept (hx.mono fun t ht => ht.kept hs)
  cases c with
  | stake c h => exact hkept (stake_kept hs h fun heq => by
      subst heq
      exact hc)
  | transfer o => exact hkeeps (transfer_keeps s o)
  | claimAccount creator fee => exact hkeeps (claimAccount_keeps s creator fee)
  | vestInitialSupply initSupply => exact hkeeps (vestInitialSupply_keeps s initSupply)
  | limitOrderCreate o => exact hkeeps (limitOrderCreate_keeps s o)
  | limitOrderCreate2 o => exact .bind_eq fun _ hvalid => hkeeps (limitOrderCreate2_keeps s hvalid)
  | limitOrderCancel o => exact hkeeps (limitOrderCancel_keeps s o)
  | clearExpiredOrders => exact hkeeps (clearExpiredOrders_keeps s)
  | escrowTransfer isValidJson o =>
      exact hkept (returns_map_fst (escrowTransfer_kept isValidJson hs o))
  | escrowApprove o => exact hkept (returns_map_fst (escrowApprove_kept hs o))
  | escrowDispute o => exact hkept (returns_map_fst (escrowDispute_kept hs o))
  | escrowRelease o => exact hkept (returns_map_fst (escrowRelease_kept hs o))
  | expireEscrowRatification => exact hkept (returns_map_fst (expireEscrowRatification_kept hs))
  | transferToSavings o => exact hkeeps (returns_map_fst (transferToSavings_keeps s o))
  | transferFromSavings o => exact hkept (returns_map_fst (transferFromSavings_kept hs o))
  | cancelTransferFromSavings o =>
      exact hkept (returns_map_fst (cancelTransferFromSavings_kept hs o))
  | processSavingsWithdraws => exact hkept (returns_map_fst (processSavingsWithdraws_kept hs))
  | convert o => exact hkept (convert_kept hs o)
  | processConversions => exact hkept (returns_map_fst (processConversions_kept hs))
  | updateVirtualSupply => exact hkeeps (updateVirtualSupply_keeps s)
  | processFunds => exact hkept (processFunds_kept hs)
  | processCommentCashout =>
      exact (processCommentCashout_kept hs).mono fun t ⟨lost, ht⟩ =>
        ⟨lost, ht, fun hne => absurd rfl hne⟩
  | comment tools o => exact hkeeps (comment_keeps tools s o)
  | deleteComment o => exact hkeeps (deleteComment_keeps s o)
  | commentOptions o => exact hkeeps (commentOptions_keeps s o)
  | vote o => exact hkeeps (vote_keeps s o)
  | contractDeploy env handlers fuel op =>
      exact hkeeps (contractDeploy_keeps env handlers fuel s op)
  | contractCall env handlers fuel op => exact hkeeps (contractCall_keeps env handlers fuel s op)
  | nonfungibleFundCreate creator owner metaData =>
      exact hkeeps (nonfungibleFundCreate_keeps s creator owner metaData)
  | nonfungibleFundTransfer sender recipient fundId =>
      exact hkeeps (nonfungibleFundTransfer_keeps s sender recipient fundId)
  | nonfungibleFundPutUpForSale seller fundId price expiration =>
      exact hkeeps (nonfungibleFundPutUpForSale_keeps s seller fundId price expiration)
  | nonfungibleFundWithdrawFromSale seller fundId =>
      exact hkeeps (nonfungibleFundWithdrawFromSale_keeps s seller fundId)
  | nonfungibleFundBuy buyer fundId => exact hkeeps (nonfungibleFundBuy_keeps s buyer fundId)
  | clearExpiredNonfungibleFundsOnSale => exact hkeeps (clearExpiredNonfungibleFundsOnSale_keeps s)

/-! ## Runs -/

theorem genesis_sound (initialSupply : Int) : Sound (Database.genesis initialSupply) where
  accounts a ha := by
    simp only [Database.genesis, List.mem_cons, List.not_mem_nil, or_false] at ha
    rcases ha with rfl | rfl | rfl | rfl <;> exact ⟨rfl, rfl, rfl⟩
  orders := Table.all_empty
  routes := Table.all_empty
  escrows := .empty
  fees := Table.all_empty
  savingsWithdraws := .empty
  convertRequests := .empty
  rewardFund := ⟨_, rfl, rfl⟩

theorem genesis_excess (initialSupply : Int) : excess (Database.genesis initialSupply) = 0 := by
  funext b
  cases b <;> simp [excess, Database.genesis, Database.genesisAccount, Table.sum, supplies,
    accountHolds, fundHolds, RewardFund.post, Account.make, Table.empty]

/-- The books, with the one that comment payouts may open. -/
structure Closed (s : Database) : Prop where
  sound : Sound s
  excess : ∃ lost, excess s = entry .rewardGbc lost

theorem Reachable.closed (h : Reachable s) : Closed s := by
  induction h with
  | genesis initialSupply =>
      exact ⟨genesis_sound initialSupply, 0, by rw [genesis_excess, entry_zero]⟩
  | call hs hc h ih =>
      obtain ⟨lost, hlost⟩ := ih.excess
      obtain ⟨lost', ht, -⟩ := perform_kept ih.sound _ hc _ h
      exact ⟨ht.sound, lost + lost', by rw [ht.excess, hlost, entry_add]⟩
  | other hs h ih =>
      obtain ⟨lost, hlost⟩ := ih.excess
      exact ⟨(h.keeps.kept ih.sound).sound, lost, by rw [h.keeps.excess, hlost, add_zero]⟩

theorem excess_of_reachable (hs : Reachable s) {b : Book} (hb : b ≠ .rewardGbc) :
    excess s b = 0 := by
  obtain ⟨lost, hlost⟩ := hs.closed.excess
  rw [hlost, entry_apply, if_neg hb]

theorem Reachable.perform_excess (hs : Reachable s) {c : Call} (hc : Regular s c)
    (h : perform s c = .ok t) (hne : c ≠ .processCommentCashout) : excess t = excess s := by
  obtain ⟨lost, hkept, hlost⟩ := perform_kept hs.closed.sound c hc t h
  rw [hkept.excess, hlost hne, entry_zero, add_zero]

/-- **The books are closed** in every state that is reached: GBC, GBD, vesting
shares and rewarded shares are held as the supplies count them. What is held
as GBC behind rewarded shares moves with its count too, unless comments are
paid. -/
theorem books_closed (hs : Reachable s) :
    (∀ b, b ≠ .rewardGbc → excess s b = 0) ∧
      ∀ c t, Regular s c → perform s c = .ok t → c ≠ .processCommentCashout →
        excess t = excess s :=
  ⟨fun _ hb => excess_of_reachable hs hb, fun _ _ hc h hne => hs.perform_excess hc h hne⟩

/-! ### A short run -/

/-- The chunk of a contract that takes 10 GBC from its creator. -/
def payingChunk : Lua where
  State := Bool
  start _ := true
  turn
    | true => .host (.transfer "initminer" "casino" 10) fun _ => false
    | false => .done []

def payingEnvironment : Environment where
  lua := payingChunk
  parse _ := .ok (.array [])
  blockHash _ _ _ := .error "block data not found"

/-- The contract is deployed, and takes them. -/
def deployPaying : Call :=
  .contractDeploy payingEnvironment .none 3 ⟨"initminer", "casino", "transfer", "[]"⟩

/-- A block's inflation, an order and a contract. -/
def firstCalls : List Call :=
  [.processFunds, .limitOrderCreate ⟨"initminer", 1, .gbc 1000, .gbd 10, false, 2000000000⟩,
    deployPaying]

theorem Reachable.foldlM {calls : List Call} (hs : Reachable s)
    (hregular : ∀ c ∈ calls, ∀ s, Regular s c) (h : calls.foldlM perform s = .ok t) :
    Reachable t := by
  induction calls generalizing s with
  | nil =>
      rw [← pure_eq_ok.mp h]
      exact hs
  | cons c rest ih =>
      obtain ⟨u, hu, hrest⟩ := bind_eq_ok.mp h
      exact ih (.call hs (hregular c List.mem_cons_self s) hu)
        (fun c' hc' => hregular c' (List.mem_cons_of_mem c hc')) hrest

/-- After these the books are closed, and stay so when the order is canceled. -/
theorem books_closed_canceled : ∃ s t,
    firstCalls.foldlM perform (Database.genesis 100000000000) = .ok s ∧
      perform s (.limitOrderCancel ⟨"initminer", 1⟩) = .ok t ∧
      (100000000000 < s.props.currentSupply ∧ s.limitOrders.rows.length = 1 ∧
        s.contracts.sum Contract.balance = 10) ∧
      excess s .gbc = 0 ∧ excess t = excess s := by
  obtain ⟨s, hrun, hs⟩ := exists_of_any (P := fun s : Database =>
      (perform s (.limitOrderCancel ⟨"initminer", 1⟩)).toOption.isSome &&
        (100000000000 < s.props.currentSupply && s.limitOrders.rows.length = 1 &&
          s.contracts.sum Contract.balance = 10))
    (show (firstCalls.foldlM perform (Database.genesis 100000000000)).toOption.any _ = true by
      decide +kernel)
  simp only [Bool.and_eq_true, decide_eq_true_eq] at hs
  obtain ⟨hcancel, ⟨hsupply, horder⟩, hpaid⟩ := hs
  obtain ⟨t, hsome⟩ := Option.isSome_iff_exists.mp hcancel
  have ht := toOption_eq_some.mp hsome
  have hreached : Reachable s := .foldlM (.genesis 100000000000) (by simp [firstCalls, deployPaying,
    Regular]) hrun
  have hbooks := books_closed hreached
  exact ⟨s, t, hrun, ht, ⟨hsupply, horder, hpaid⟩, hbooks.1 .gbc (by decide),
    hbooks.2 (.limitOrderCancel _) t trivial ht (by simp)⟩

end Gamebank.Conservation
