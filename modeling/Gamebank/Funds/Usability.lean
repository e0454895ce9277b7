import Gamebank.Funds.Sales
import Gamebank.Protocol.Validation
import Gamebank.Stake.Frames

/-!
# Which funds can be used

`chainbase` numbers the objects of a table from zero on, and `validate` of the
operations on a fund refuses the id zero. So every fund can be transferred and
put up for sale by its owner, but the first.
-/

namespace Gamebank.Ledger.Funds

open Gamebank.Lib Gamebank.Protocol Database

/-- `nonfungible_fund_transfer_operation::validate`. -/
def validateTransfer (sender recipient : AccountName) (fundId : Nat) : Except String Unit := do
  ensure (0 < fundId) "fund_id is zero"
  ensure (sender ≠ recipient) "from cant equal to"
  validateAccountName sender
  validateAccountName recipient

/-- `nonfungible_fund_put_up_for_sale_operation::validate`. -/
def validatePutUpForSale (seller : AccountName) (fundId : Nat) (sellingPrice : Asset) :
    Except String Unit := do
  ensure (0 < fundId) "fund_id is zero"
  ensure (sellingPrice.isAssetType .gbc || sellingPrice.isAssetType .gbd)
    "Price must be for the GBC or GBD"
  ensure (0 < sellingPrice.amount) "Price should > 0"
  validateAccountName seller

/-! ## The accounts behind the funds -/

def names (s : Database) : List AccountName := s.accounts.rows.map Account.name

/-- No account goes away, and a new one has a name that `validate_account_name` accepts. -/
structure KeepsAccounts (s t : Database) : Prop where
  kept : ∀ n ∈ names s, n ∈ names t
  named : ∀ n ∈ names t, n ∈ names s ∨ isValidAccountName n = true

/-- What is reached from genesis, with the accounts that are created on the way. -/
inductive Populated : Database → Prop
  | genesis (initialSupply : Int) : Populated (Database.genesis initialSupply)
  | call {s t : Database} {c : Call} (hs : Populated s) (h : perform s c = .ok t) : Populated t
  | other {s t : Database} (hs : Populated s) (hfunds : SameFunds s t)
      (haccounts : KeepsAccounts s t) : Populated t

variable {s t : Database} {f : NonfungibleFund} {name : AccountName}

theorem Populated.reachable (h : Populated s) : Reachable s := by
  induction h with
  | genesis initialSupply => exact .genesis initialSupply
  | call _ h ih => exact .step ih (.call h)
  | other _ hfunds _ ih => exact .step ih (.other hfunds)

/-- Every fund has an owner, and every account a valid name. -/
structure Owned (s : Database) : Prop where
  named : ∀ n ∈ names s, isValidAccountName n = true
  owners : s.nonfungibleFunds.All fun f => f.owner ∈ names s

theorem Owned.of_names (h : Owned s) (hnames : names t = names s)
    (hfunds : t.nonfungibleFunds = s.nonfungibleFunds) : Owned t where
  named := hnames ▸ h.named
  owners := by
    rw [hfunds, hnames]
    exact h.owners

theorem Owned.other (h : Owned s) (hfunds : SameFunds s t) (haccounts : KeepsAccounts s t) :
    Owned t where
  named := by
    intro n hn
    rcases haccounts.named n hn with hold | hvalid
    · exact h.named n hold
    · exact hvalid
  owners := by
    rw [hfunds.funds]
    intro f hf
    exact haccounts.kept f.owner (h.owners f hf)

/-- The new owner is an account, too. -/
theorem Owned.setFundOwner (h : Owned s) (fundId : Nat) (hname : name ∈ names s) :
    Owned (s.setFundOwner fundId name) where
  named := h.named
  owners := h.owners.modify fun _ _ => hname

theorem mem_names_of_getAccount {a : Account} (h : s.getAccount name = .ok a) :
    a.name ∈ names s ∧ a.name = name := by
  obtain ⟨hmem, hname⟩ := getAccount_mem h
  exact ⟨List.mem_map_of_mem hmem, hname⟩

theorem adjustBalance_names (s : Database) (name : AccountName) {delta : Asset}
    (hsymbol : delta.symbol ≠ .gbs) :
    Returns (s.adjustBalance name delta) fun t => names t = names s := by
  intro t ht
  have hstake := (adjustBalance_sameStake s name hsymbol t ht).accounts
  have hnames := congrArg (List.map Account.name) hstake
  rw [List.map_map, List.map_map] at hnames
  exact hnames

theorem buy_owned (h : Owned s) (buyer : AccountName) (fundId : Nat) :
    Returns (s.nonfungibleFundBuy buyer fundId) Owned := by
  unfold nonfungibleFundBuy validateName
  refine .ensure fun _ => .ensure fun _ => .bind_any fun f => .bind_any fun o =>
    .bind_eq fun balance hbalance => .ensure fun _ => .bind_eq fun u hu =>
      .bind_eq fun v hv => .pure ?_
  -- `get_balance` has found the buyer, and knows no vesting shares
  unfold getBalance at hbalance
  obtain ⟨a, ha, hbalance⟩ := bind_eq_ok.mp hbalance
  obtain ⟨hmem, hname⟩ := mem_names_of_getAccount ha
  have hsymbol : o.sellingPrice.symbol ≠ .gbs := by
    intro hgbs
    rw [hgbs] at hbalance
    cases hbalance
  have hpay : Credited s u buyer (-o.sellingPrice) := adjustBalance_credited hsymbol hu
  have hget : Credited u v o.seller o.sellingPrice := adjustBalance_credited hsymbol hv
  have hpaysymbol : (-o.sellingPrice).symbol ≠ .gbs := hsymbol
  have hpaid : names u = names s := adjustBalance_names s buyer hpaysymbol u hu
  have hnames : names v = names s := (adjustBalance_names u o.seller hsymbol v hv).trans hpaid
  have hfunds : v.nonfungibleFunds = s.nonfungibleFunds :=
    (Credited.sameFunds hget).funds.trans (Credited.sameFunds hpay).funds
  have hv' : Owned (v.removeOnSale fundId) := h.of_names hnames hfunds
  refine hv'.setFundOwner fundId ?_
  show buyer ∈ names v
  rw [hnames, ← hname]
  exact hmem

theorem perform_owned (h : Owned s) (c : Call) : Returns (perform s c) Owned := by
  cases c with
  | create creator owner metaData =>
      unfold perform nonfungibleFundCreate validateName
      refine .ensure fun _ => .ensure fun _ => .ensure fun _ => .ensure fun _ =>
        .bind_any fun c => .bind_eq fun w hw => .pure ⟨h.named, ?_⟩
      exact h.owners.create _ (mem_names_of_getAccount hw).1
  | transfer sender recipient fundId =>
      unfold perform nonfungibleFundTransfer validateName
      refine .ensure fun _ => .ensure fun _ => .ensure fun _ => .ensure fun _ => .bind_any fun a =>
        .bind_eq fun b hb => .bind_any fun f => .ensure fun _ => .ensure fun _ => .pure ?_
      exact h.setFundOwner fundId (mem_names_of_getAccount hb).1
  | putUpForSale seller fundId price expiration =>
      unfold perform nonfungibleFundPutUpForSale validateName
      refine .ensure fun _ => .ensure fun _ => .ensure fun _ => .ensure fun _ => .ensure fun _ =>
        .bind_any fun a => .bind_any fun f => .ensure fun _ => .ensure fun _ => .pure ?_
      exact h.of_names rfl rfl
  | withdrawFromSale seller fundId =>
      unfold perform nonfungibleFundWithdrawFromSale validateName
      refine .ensure fun _ => .ensure fun _ => .bind_any fun a => .bind_any fun f =>
        .ensure fun _ =>
        .bind_any fun _ => .pure ?_
      exact h.of_names rfl rfl
  | buy buyer fundId => exact buy_owned h buyer fundId
  | clearExpired =>
      unfold perform clearExpiredNonfungibleFundsOnSale
      exact .drain h fun u o hu _ => .ok (hu.of_names rfl rfl)
  | other => exact .ok h

theorem Populated.owned (h : Populated s) : Owned s := by
  induction h with
  | genesis initialSupply =>
      have hvalid : ∀ n ∈ ["miners", nullAccount, tempAccount, initMinerName],
          isValidAccountName n = true := by decide +kernel
      exact ⟨hvalid, Table.all_empty⟩
  | call _ h ih => exact perform_owned ih _ _ h
  | other _ hfunds haccounts ih => exact ih.other hfunds haccounts

/-! ## What an owner can do -/

/-- The owner of a fund can transfer it to every other account and put it up for sale at every
price in GBC. -/
structure Usable (s : Database) (f : NonfungibleFund) : Prop where
  transfer : ∀ recipient ∈ names s, recipient ≠ f.owner →
    validateTransfer f.owner recipient f.id = .ok () ∧
      ∃ t, s.nonfungibleFundTransfer f.owner recipient f.id = .ok t
  sale : ∀ amount expiration, 0 < amount → s.headBlockTime < expiration →
    validatePutUpForSale f.owner f.id (.gbc amount) = .ok () ∧
      ∃ t, s.nonfungibleFundPutUpForSale f.owner f.id (.gbc amount) expiration = .ok t

section

variable (hs : Listed s) (ho : Owned s) (hf : f ∈ s.nonfungibleFunds.rows)
  (hfree : s.nonfungibleFundsOnSale.All fun o => o.fundId ≠ f.id)

include hs hf in
theorem getNonfungibleFund_of_mem : s.getNonfungibleFund f.id = .ok f :=
  require_eq_ok.mpr (find?_eq_some_of_nodup hs.ids hf)

include hfree in
theorem findOnSale_isNone : (s.findOnSale f.id).isNone = true := by
  rw [Option.isNone_iff_eq_none, findOnSale, Table.find?, List.find?_eq_none]
  intro o ho
  simpa using hfree o ho

include hs ho hf hfree in
theorem transfer_completes (hid : f.id ≠ 0) {recipient : AccountName}
    (hrecipient : recipient ∈ names s)
    (hne : recipient ≠ f.owner) :
    Completes (s.nonfungibleFundTransfer f.owner recipient f.id) fun _ => True := by
  have howner := ho.owners f hf
  have hsender := ne_empty_of_isValidAccountName (ho.named f.owner howner)
  have hother := ne_empty_of_isValidAccountName (ho.named recipient hrecipient)
  unfold nonfungibleFundTransfer validateName
  refine .ensure (decide_eq_true (Nat.pos_of_ne_zero hid)) (.ensure (decide_eq_true hne.symm) ?_)
  refine .ensure (decide_eq_true hsender) (.ensure (decide_eq_true hother) ?_)
  refine .bind (getAccount_completes howner) fun a ha => ?_
  refine .bind (getAccount_completes hrecipient) fun b hb => ?_
  refine .bind (.of_eq (getNonfungibleFund_of_mem hs hf) rfl) fun g (hg : f = g) => ?_
  subst hg
  exact .ensure (decide_eq_true (getAccount_mem ha).2.symm)
    (.ensure (findOnSale_isNone hfree) (.pure trivial))

include hs ho hf hfree in
theorem putUpForSale_completes (hid : f.id ≠ 0) {amount : Int} (hamount : 0 < amount)
    {expiration : Nat} (hfuture : s.headBlockTime < expiration) :
    Completes (s.nonfungibleFundPutUpForSale f.owner f.id (.gbc amount) expiration) fun _ =>
      True := by
  have howner := ho.owners f hf
  have hseller := ne_empty_of_isValidAccountName (ho.named f.owner howner)
  unfold nonfungibleFundPutUpForSale validateName
  refine .ensure (decide_eq_true (Nat.pos_of_ne_zero hid)) (.ensure rfl ?_)
  refine .ensure (decide_eq_true hamount) (.ensure (decide_eq_true hseller) ?_)
  refine .ensure (decide_eq_true hfuture) (.bind (getAccount_completes howner) fun a ha => ?_)
  refine .bind (.of_eq (getNonfungibleFund_of_mem hs hf) rfl) fun g (hg : f = g) => ?_
  subst hg
  exact .ensure (decide_eq_true (getAccount_mem ha).2.symm)
    (.ensure (findOnSale_isNone hfree) (.pure trivial))

end

/-- In every state that is reached, a fund that is not on sale can be used if and only if its
id is not zero. -/
theorem fund_usable_iff (h : Populated s) (hf : f ∈ s.nonfungibleFunds.rows)
    (hfree : ∀ o ∈ s.nonfungibleFundsOnSale.rows, o.fundId ≠ f.id) : Usable s f ↔ f.id ≠ 0 := by
  have hs := h.reachable.listed
  have ho := h.owned
  have hvalid : ∀ n ∈ names s, validateAccountName n = .ok () := fun n hn =>
    ensure_eq_ok.mpr (ho.named n hn)
  have howner := hvalid f.owner (ho.owners f hf)
  constructor
  · rintro husable hzero
    obtain ⟨hrefused, -⟩ := husable.sale 1 (s.headBlockTime + 1) (by decide) (Nat.lt_succ_self _)
    rw [hzero] at hrefused
    cases hrefused
  · intro hid
    have hpos : decide (0 < f.id) = true := decide_eq_true (Nat.pos_of_ne_zero hid)
    constructor
    · intro recipient hrecipient hne
      obtain ⟨t, ht, -⟩ := transfer_completes hs ho hf hfree hid hrecipient hne
      refine ⟨?_, t, ht⟩
      unfold validateTransfer
      rw [ensure_bind_eq_ok, ensure_bind_eq_ok, howner]
      exact ⟨hpos, decide_eq_true hne.symm, hvalid recipient hrecipient⟩
    · intro amount expiration hamount hfuture
      obtain ⟨t, ht, -⟩ := putUpForSale_completes hs ho hf hfree hid hamount hfuture
      refine ⟨?_, t, ht⟩
      unfold validatePutUpForSale
      rw [ensure_bind_eq_ok, ensure_bind_eq_ok, ensure_bind_eq_ok]
      exact ⟨hpos, rfl, decide_eq_true hamount, howner⟩

theorem Populated.run {calls : List Call} (hs : Populated s)
    (h : calls.foldlM perform s = .ok t) : Populated t := by
  have hcalls : Returns (calls.foldlM perform s) Populated :=
    .foldlM hs fun _ hu _ _ _ hcall => .call hu hcall
  exact hcalls t h

/-- Two funds are made. -/
def twoFunds : List Call := [.create "miners" "miners" "first", .create "miners" "miners" "second"]

/-- The second can be used. -/
theorem fund_usable_second :
    ∃ s, Populated s ∧ Usable s ⟨1, "miners", "miners", "second", genesisTime, genesisTime⟩ := by
  obtain ⟨s, hs, hrows⟩ : ∃ s, twoFunds.foldlM perform (Database.genesis 1000) = .ok s ∧
      s.nonfungibleFundsOnSale.rows = [] ∧
      (⟨1, "miners", "miners", "second", genesisTime, genesisTime⟩ : NonfungibleFund) ∈
        s.nonfungibleFunds.rows := ⟨_, rfl, by decide +kernel⟩
  have hpopulated : Populated s := .run (.genesis 1000) hs
  refine ⟨s, hpopulated, (fund_usable_iff hpopulated hrows.2 fun o ho => ?_).mpr (by decide)⟩
  rw [hrows.1] at ho
  cases ho

/-- The first is refused by both operations. -/
theorem first_fund_unusable :
    ∃ s f, Populated s ∧ f ∈ s.nonfungibleFunds.rows ∧ s.nonfungibleFundsOnSale.rows = [] ∧
      validateTransfer f.owner initMinerName f.id = .error "fund_id is zero" ∧
      ¬Usable s f := by
  obtain ⟨s, hs, hrows⟩ : ∃ s, twoFunds.foldlM perform (Database.genesis 1000) = .ok s ∧
      s.nonfungibleFundsOnSale.rows = [] ∧
      (⟨0, "miners", "miners", "first", genesisTime, genesisTime⟩ : NonfungibleFund) ∈
        s.nonfungibleFunds.rows := ⟨_, rfl, by decide +kernel⟩
  refine ⟨s, _, .run (.genesis 1000) hs, hrows.2, hrows.1, rfl, fun h => ?_⟩
  obtain ⟨hrefused, -⟩ := h.sale 1 (s.headBlockTime + 1) (by decide) (Nat.lt_succ_self _)
  cases hrefused

end Gamebank.Ledger.Funds
