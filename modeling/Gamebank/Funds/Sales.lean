import Gamebank.Ledger.NonfungibleFunds
import Gamebank.Ledger.Credits

/-!
# Who owns a fund

A state is reached from genesis by the operations on nonfungible funds, the
sweep of each block, and everything else, which leaves funds and offers
alone. In every such state a fund has at most one offer, the seller of an
offer owns the fund, and a fund changes hands in two ways only
(`nonfungible_sales`).
-/

namespace Gamebank.Ledger.Funds

open Gamebank.Lib Gamebank.Protocol Database

/-- What happens to a state. -/
inductive Call where
  | create (creator owner : AccountName) (metaData : String)
  | transfer (sender recipient : AccountName) (fundId : Nat)
  | putUpForSale (seller : AccountName) (fundId : Nat) (sellingPrice : Asset) (expiration : Nat)
  | withdrawFromSale (seller : AccountName) (fundId : Nat)
  | buy (buyer : AccountName) (fundId : Nat)
  | clearExpired
  | other

/-- The account whose authority the operation requires:
`get_required_posting_authorities` and `get_required_active_authorities`. -/
def Call.signer : Call → Option AccountName
  | .create creator _ _ => some creator
  | .transfer sender _ _ => some sender
  | .putUpForSale seller _ _ _ => some seller
  | .withdrawFromSale seller _ => some seller
  | .buy buyer _ => some buyer
  | .clearExpired => none
  | .other => none

def perform (s : Database) : Call → Except String Database
  | .create creator owner metaData => s.nonfungibleFundCreate creator owner metaData
  | .transfer sender recipient fundId => s.nonfungibleFundTransfer sender recipient fundId
  | .putUpForSale seller fundId price expiration =>
      s.nonfungibleFundPutUpForSale seller fundId price expiration
  | .withdrawFromSale seller fundId => s.nonfungibleFundWithdrawFromSale seller fundId
  | .buy buyer fundId => s.nonfungibleFundBuy buyer fundId
  | .clearExpired => s.clearExpiredNonfungibleFundsOnSale
  | .other => .ok s

/-- Neither funds nor offers differ. -/
structure SameFunds (s t : Database) : Prop where
  funds : t.nonfungibleFunds = s.nonfungibleFunds
  onSale : t.nonfungibleFundsOnSale = s.nonfungibleFundsOnSale

inductive Step (s : Database) : Call → Database → Prop
  | call {c : Call} {t : Database} (h : perform s c = .ok t) : Step s c t
  | other {t : Database} (h : SameFunds s t) : Step s .other t

inductive Reachable : Database → Prop
  | genesis (initialSupply : Int) : Reachable (Database.genesis initialSupply)
  | step {s t : Database} {c : Call} (hs : Reachable s) (h : Step s c t) : Reachable t

variable {s t : Database} {f : NonfungibleFund} {o : NonfungibleFundOnSale} {fundId : Nat}

/-! ## The invariant -/

/-- The offers fit the funds. -/
structure Listed (s : Database) : Prop where
  ids : (s.nonfungibleFunds.rows.map NonfungibleFund.id).Nodup
  fresh : s.nonfungibleFunds.All fun f => f.id < s.nonfungibleFunds.nextId
  offers : (s.nonfungibleFundsOnSale.rows.map NonfungibleFundOnSale.fundId).Nodup
  sellers : s.nonfungibleFundsOnSale.All fun o =>
    ∃ f ∈ s.nonfungibleFunds.rows, f.id = o.fundId ∧ f.owner = o.seller

theorem SameFunds.listed (h : SameFunds s t) (hs : Listed s) : Listed t where
  ids := h.funds ▸ hs.ids
  fresh := h.funds ▸ hs.fresh
  offers := h.onSale ▸ hs.offers
  sellers := by
    rw [h.funds, h.onSale]
    exact hs.sellers

theorem findOnSale_eq_some (h : s.findOnSale fundId = some o) :
    o ∈ s.nonfungibleFundsOnSale.rows ∧ o.fundId = fundId :=
  ⟨List.mem_of_find?_eq_some h, by simpa using List.find?_some h⟩

theorem findOnSale_eq_none (h : (s.findOnSale fundId).isNone = true) :
    s.nonfungibleFundsOnSale.All fun o => o.fundId ≠ fundId := by
  rw [Option.isNone_iff_eq_none] at h
  intro o ho
  simpa using List.find?_eq_none.mp h o ho

theorem getNonfungibleFund_mem (h : s.getNonfungibleFund fundId = .ok f) :
    f ∈ s.nonfungibleFunds.rows ∧ f.id = fundId := by
  have hfind := require_eq_ok.mp h
  exact ⟨List.mem_of_find?_eq_some hfind, by simpa using List.find?_some hfind⟩

theorem Listed.fund_unique (hs : Listed s) {f' : NonfungibleFund} (hf : f ∈ s.nonfungibleFunds.rows)
    (hf' : f' ∈ s.nonfungibleFunds.rows) (hid : f'.id = f.id) : f' = f :=
  List.inj_on_of_nodup_map hs.ids hf' hf hid

/-! ## Offers that go, funds that change hands -/

/-- Without its offer a fund is not for sale, and the other offers stay. -/
theorem Listed.removeOnSale (hs : Listed s) (fundId : Nat) : Listed (s.removeOnSale fundId) where
  ids := hs.ids
  fresh := hs.fresh
  offers := by
    refine hs.offers.sublist (List.Sublist.map _ ?_)
    exact List.eraseP_sublist
  sellers := hs.sellers.remove

theorem not_onSale_removeOnSale (hs : Listed s) (fundId : Nat) :
    (s.removeOnSale fundId).nonfungibleFundsOnSale.All fun o => o.fundId ≠ fundId := by
  intro o ho heq
  have hmem : o ∈ s.nonfungibleFundsOnSale.rows := List.mem_of_mem_eraseP ho
  have hfind : s.nonfungibleFundsOnSale.rows.find? (fun o => o.fundId = fundId) = some o :=
    (find?_key_eq_some hs.offers).mpr ⟨hmem, heq⟩
  obtain ⟨-, before, after, hrows, hbefore⟩ := List.find?_eq_some_iff_append.mp hfind
  have hnot : ∀ b ∈ before, ¬decide (b.fundId = fundId) = true := by simpa using hbefore
  have herase : s.nonfungibleFundsOnSale.rows.eraseP (fun o => o.fundId = fundId) =
      before ++ after := by
    rw [hrows, List.eraseP_append_right _ hnot, List.eraseP_cons_of_pos (by simpa using heq)]
  have hnodup := hs.offers
  rw [hrows, List.map_append, List.map_cons, List.nodup_middle, List.nodup_cons] at hnodup
  change o ∈ s.nonfungibleFundsOnSale.rows.eraseP (fun o => o.fundId = fundId) at ho
  rw [herase] at ho
  apply hnodup.1
  rw [← List.map_append]
  exact List.mem_map_of_mem ho

/-- The fund that changes hands is the only one that does. -/
theorem setFundOwner_replaces (h : s.getNonfungibleFund fundId = .ok f) (owner : AccountName) :
    Replaces f { f with owner := owner, lastUpdate := s.headBlockTime } s.nonfungibleFunds.rows
      (s.setFundOwner fundId owner).nonfungibleFunds.rows :=
  replaces_modifyFirst (require_eq_ok.mp h) fun f =>
    { f with owner := owner, lastUpdate := s.headBlockTime }

/-- A fund that is not on sale may change hands. -/
theorem Listed.setFundOwner (hs : Listed s) (hf : s.getNonfungibleFund fundId = .ok f)
    (hoffer : s.nonfungibleFundsOnSale.All fun o => o.fundId ≠ fundId) (owner : AccountName) :
    Listed (s.setFundOwner fundId owner) := by
  have hreplaces := setFundOwner_replaces hf owner
  have hid := (getNonfungibleFund_mem hf).2
  have hids := hreplaces.map_eq (g := NonfungibleFund.id) rfl
  refine ⟨by rw [hids]; exact hs.ids, ?_, hs.offers, fun o ho => ?_⟩
  · intro f' hf'
    rcases hreplaces.mem_or hs.ids hf' with rfl | ⟨hf', -⟩
    · exact hs.fresh f hreplaces.mem_old
    · exact hs.fresh f' hf'
  · obtain ⟨f', hf', hfid, howner⟩ := hs.sellers o ho
    have hne : f'.id ≠ f.id := by
      rw [hfid, hid]
      exact hoffer o ho
    exact ⟨f', hreplaces.mem_of_ne hf' hne, hfid, howner⟩

/-! ## How a fund changes hands -/

/-- `price` goes from the buyer to the owner, and no other account is touched. Interest
that is due is paid besides. -/
structure Moves (s t : Database) (buyer owner : AccountName) (price : Asset) : Prop where
  moved : ∀ n, n = buyer ∨ n = owner → ∃ a a', s.getAccount n = .ok a ∧ t.getAccount n = .ok a' ∧
    a'.liquid price.symbol = a.liquid price.symbol + s.interestDue a price.symbol
      - (if n = buyer then price.amount else 0) + (if n = owner then price.amount else 0)
  others : ∀ n, n ≠ buyer → n ≠ owner → t.getAccount n = s.getAccount n

/-- How `f'` comes to be the fund `f` after the call `c`. -/
inductive Passes (s : Database) (c : Call) (t : Database) (f f' : NonfungibleFund) : Prop
  | kept (howner : f'.owner = f.owner)
  | transferred (recipient : AccountName) (hcall : c = .transfer f.owner recipient f.id)
      (hsigner : c.signer = some f.owner)
      (hoffer : s.nonfungibleFundsOnSale.All fun o => o.fundId ≠ f.id)
        (howner : f'.owner = recipient)
  | bought (buyer : AccountName) (o : NonfungibleFundOnSale) (hcall : c = .buy buyer f.id)
      (hoffer : o ∈ s.nonfungibleFundsOnSale.rows) (hfund : o.fundId = f.id)
      (hseller : o.seller = f.owner) (howner : f'.owner = buyer)
      (hmoves : Moves s t buyer f.owner o.sellingPrice)

/-- What a call leaves: the offers still fit, and every fund has passed as it may. -/
structure Orderly (s : Database) (c : Call) (t : Database) : Prop where
  listed : Listed t
  passes : ∀ f ∈ s.nonfungibleFunds.rows, ∃ f' ∈ t.nonfungibleFunds.rows,
    f'.id = f.id ∧ Passes s c t f f'

/-- The funds are the same ones. -/
theorem Orderly.of_funds {c : Call} (ht : Listed t)
    (h : t.nonfungibleFunds.rows = s.nonfungibleFunds.rows) : Orderly s c t :=
  ⟨ht, fun f hf => ⟨f, h ▸ hf, rfl, .kept rfl⟩⟩

/-- One fund is given to `owner`. -/
theorem Orderly.of_replaces {c : Call} (hs : Listed s) {f' : NonfungibleFund}
    (h : Replaces f f' s.nonfungibleFunds.rows t.nonfungibleFunds.rows) (hid : f'.id = f.id)
    (ht : Listed t) (hpasses : Passes s c t f f') : Orderly s c t := by
  refine ⟨ht, fun g hg => ?_⟩
  by_cases hne : g.id = f.id
  · have hgf : g = f := hs.fund_unique h.mem_old hg hne
    subst hgf
    exact ⟨f', h.mem_new, hid, hpasses⟩
  · exact ⟨g, h.mem_of_ne hg hne, rfl, .kept rfl⟩

/-! ## The operations -/

theorem create_orderly (hs : Listed s) (creator owner : AccountName) (metaData : String) :
    Returns (s.nonfungibleFundCreate creator owner metaData)
      (Orderly s (.create creator owner metaData)) := by
  unfold nonfungibleFundCreate validateName
  refine .ensure fun _ => .ensure fun _ => .ensure fun _ => .ensure fun _ =>
    .bind_any fun c => .bind_any fun w => .pure ⟨⟨?_, ?_, hs.offers, ?_⟩, ?_⟩
  · -- the new id is above all others
    exact nodup_map_append_single hs.ids fun f hf => (hs.fresh f hf).ne
  · intro f hf
    rcases List.mem_append.mp hf with hf | hf
    · exact (hs.fresh f hf).trans (Nat.lt_succ_self _)
    · rw [List.mem_singleton.mp hf]
      exact Nat.lt_succ_self _
  · intro o ho
    obtain ⟨f, hf, hfund⟩ := hs.sellers o ho
    exact ⟨f, List.mem_append_left _ hf, hfund⟩
  · exact fun f hf => ⟨f, List.mem_append_left _ hf, rfl, .kept rfl⟩

theorem transfer_orderly (hs : Listed s) (sender recipient : AccountName) (fundId : Nat) :
    Returns (s.nonfungibleFundTransfer sender recipient fundId)
      (Orderly s (.transfer sender recipient fundId)) := by
  unfold nonfungibleFundTransfer validateName
  refine .ensure fun _ => .ensure fun _ => .ensure fun _ => .ensure fun _ => .bind_eq fun a ha =>
    .bind_eq fun b hb => .bind_eq fun f hf => .ensure fun howner => .ensure fun hnone => .pure ?_
  have hoffer := findOnSale_eq_none hnone
  have hid := (getNonfungibleFund_mem hf).2
  have hsender : f.owner = sender := (of_decide_eq_true howner).trans (getAccount_mem ha).2
  refine .of_replaces hs (setFundOwner_replaces hf b.name) rfl (hs.setFundOwner hf hoffer b.name) ?_
  refine .transferred recipient ?_ ?_ ?_ (getAccount_mem hb).2
  · rw [hsender, hid]
  · rw [hsender, Call.signer]
  · rw [hid]
    exact hoffer

theorem putUpForSale_orderly (hs : Listed s) (seller : AccountName) (fundId : Nat) (price : Asset)
    (expiration : Nat) :
    Returns (s.nonfungibleFundPutUpForSale seller fundId price expiration)
      (Orderly s (.putUpForSale seller fundId price expiration)) := by
  unfold nonfungibleFundPutUpForSale validateName
  refine .ensure fun _ => .ensure fun _ => .ensure fun _ => .ensure fun _ => .ensure fun _ =>
    .bind_eq fun a ha => .bind_eq fun f hf => .ensure fun howner => .ensure fun hnone => .pure ?_
  have hoffer := findOnSale_eq_none hnone
  obtain ⟨hmem, hid⟩ := getNonfungibleFund_mem hf
  have hseller : f.owner = seller := (of_decide_eq_true howner).trans (getAccount_mem ha).2
  refine .of_funds ⟨hs.ids, hs.fresh, ?_, ?_⟩ rfl
  · exact nodup_map_append_single hs.offers hoffer
  · exact hs.sellers.create _ ⟨f, hmem, hid, hseller⟩

theorem withdrawFromSale_orderly (hs : Listed s) (seller : AccountName) (fundId : Nat) :
    Returns (s.nonfungibleFundWithdrawFromSale seller fundId)
      (Orderly s (.withdrawFromSale seller fundId)) := by
  unfold nonfungibleFundWithdrawFromSale validateName
  refine .ensure fun _ => .ensure fun _ => .bind_any fun a => .bind_any fun f => .ensure fun _ =>
    .bind_any fun _ => .pure ?_
  exact .of_funds (hs.removeOnSale fundId) rfl

/-- What is paid for a fund. -/
theorem moves_of_credited {u v : Database} {buyer owner : AccountName} {price : Asset}
    (hpay : Credited s u buyer (-price)) (hget : Credited u v owner price) :
    Moves s v buyer owner price := by
  obtain ⟨b, b', hb, hb', hpaid, hsettled⟩ := hpay.here
  obtain ⟨w, w', hw, hw', hgot, -⟩ := hget.here
  change b'.liquid price.symbol = b.liquid price.symbol + s.interestDue b price.symbol
    + -price.amount at hpaid
  change u.interestDue b' price.symbol = 0 at hsettled
  refine ⟨fun n hn => ?_, fun n hbuyer howner => ?_⟩
  · by_cases hsame : buyer = owner
    · subst hsame
      have hn : n = buyer := hn.elim id id
      subst hn
      have hbw : b' = w := Except.ok.inj (hb'.symm.trans hw)
      subst hbw
      refine ⟨b, w', hb, hw', ?_⟩
      rw [hgot, hsettled, hpaid, if_pos rfl]
      omega
    · rcases hn with rfl | rfl
      · refine ⟨b, b', hb, (hget.elsewhere n hsame).trans hb', ?_⟩
        rw [hpaid, if_pos rfl, if_neg hsame]
        omega
      · refine ⟨w, w', (hpay.elsewhere n (Ne.symm hsame)).symm.trans hw, hw', ?_⟩
        rw [hgot, hpay.interestDue_eq, if_neg (Ne.symm hsame), if_pos rfl]
        omega
  · exact (hget.elsewhere n howner).trans (hpay.elsewhere n hbuyer)

theorem Credited.sameFunds {name : AccountName} {delta : Asset} (h : Credited s t name delta) :
    SameFunds s t := by
  rw [h.rest]
  exact ⟨rfl, rfl⟩

theorem buy_orderly (hs : Listed s) (buyer : AccountName) (fundId : Nat) :
    Returns (s.nonfungibleFundBuy buyer fundId) (Orderly s (.buy buyer fundId)) := by
  unfold nonfungibleFundBuy validateName
  refine .ensure fun _ => .ensure fun _ => .bind_eq fun f hf => .bind_eq fun o ho =>
    .bind_eq fun balance hbalance => .ensure fun _ => .bind_eq fun u hu => .bind_eq fun v hv =>
    .pure ?_
  obtain ⟨hoffer, hfund⟩ := findOnSale_eq_some (require_eq_ok.mp ho)
  obtain ⟨hmem, hid⟩ := getNonfungibleFund_mem hf
  -- `get_balance` knows no vesting shares
  have hsymbol : o.sellingPrice.symbol ≠ .gbs := by
    intro hgbs
    unfold getBalance at hbalance
    rw [hgbs] at hbalance
    obtain ⟨a, -, herror⟩ := bind_eq_ok.mp hbalance
    cases herror
  have hpay : Credited s u buyer (-o.sellingPrice) := adjustBalance_credited hsymbol hu
  have hget : Credited u v o.seller o.sellingPrice := adjustBalance_credited hsymbol hv
  have hsu := Credited.sameFunds hpay
  have huv := Credited.sameFunds hget
  have hsv : SameFunds s v := ⟨huv.funds.trans hsu.funds, huv.onSale.trans hsu.onSale⟩
  have hseller : o.seller = f.owner := by
    obtain ⟨g, hg, hgid, howner⟩ := hs.sellers o hoffer
    have hgf : g = f := hs.fund_unique hmem hg (hgid.trans (hfund.trans hid.symm))
    rw [← howner, hgf]
  have hv' := hsv.listed hs
  have hfound : (v.removeOnSale fundId).getNonfungibleFund fundId = .ok f := by
    show require (v.nonfungibleFunds.find? _) = _
    rw [hsv.funds]
    exact hf
  have hreplaces := setFundOwner_replaces hfound buyer
  have hrows : (v.removeOnSale fundId).nonfungibleFunds.rows = s.nonfungibleFunds.rows :=
    congrArg Table.rows hsv.funds
  rw [hrows] at hreplaces
  refine .of_replaces hs hreplaces rfl ?_ ?_
  · exact (hv'.removeOnSale fundId).setFundOwner hfound (not_onSale_removeOnSale hv' fundId) buyer
  · refine .bought buyer o (by rw [hid]) hoffer (hfund.trans hid.symm) hseller rfl ?_
    have hmoves := moves_of_credited hpay hget
    rw [hseller] at hmoves
    exact ⟨hmoves.moved, hmoves.others⟩

theorem clearExpired_orderly (hs : Listed s) :
    Returns s.clearExpiredNonfungibleFundsOnSale (Orderly s .clearExpired) := by
  unfold clearExpiredNonfungibleFundsOnSale
  have hloop : Returns (drain expiredOnSale (fun o s => .ok (s.removeOnSale o.fundId))
      (s.nonfungibleFundsOnSale.rows.length + 1) s) fun t =>
      Listed t ∧ t.nonfungibleFunds = s.nonfungibleFunds :=
    .drain ⟨hs, rfl⟩ fun u o hu _ => .ok ⟨hu.1.removeOnSale o.fundId, hu.2⟩
  exact hloop.mono fun t ht => .of_funds ht.1 (congrArg Table.rows ht.2)

/-- The sweep ends when no offer has run out. -/
theorem clearExpired_exhausts (s : Database) :
    Returns s.clearExpiredNonfungibleFundsOnSale fun t => expiredOnSale t = none := by
  refine @drain_exhausts _ _ _ _ (fun s => s.nonfungibleFundsOnSale.rows.length)
    (fun u o ho => ?_) _ _
    (Nat.lt_succ_self _)
  have hmem : o ∈ u.nonfungibleFundsOnSale.rows := by
    obtain ⟨hfirst, -⟩ := Option.filter_eq_some_iff.mp ho
    exact Table.mem_of_least hfirst
  have herased : ((u.removeOnSale o.fundId).nonfungibleFundsOnSale.rows).length =
      u.nonfungibleFundsOnSale.rows.length - 1 :=
    List.length_eraseP_of_mem hmem (by simp)
  have hpos := List.length_pos_of_mem hmem
  exact .ok (by omega)

/-! ## Runs -/

theorem Step.orderly {c : Call} (hs : Listed s) (h : Step s c t) : Orderly s c t := by
  cases h with
  | other h => exact .of_funds (h.listed hs) (congrArg Table.rows h.funds)
  | call h =>
      cases c with
      | create creator owner metaData => exact create_orderly hs creator owner metaData t h
      | transfer sender recipient fundId => exact transfer_orderly hs sender recipient fundId t h
      | putUpForSale seller fundId price expiration =>
          exact putUpForSale_orderly hs seller fundId price expiration t h
      | withdrawFromSale seller fundId => exact withdrawFromSale_orderly hs seller fundId t h
      | buy buyer fundId => exact buy_orderly hs buyer fundId t h
      | clearExpired => exact clearExpired_orderly hs t h
      | other =>
          cases h
          exact .of_funds hs rfl

theorem Reachable.listed (h : Reachable s) : Listed s := by
  induction h with
  | genesis supply => exact ⟨List.nodup_nil, Table.all_empty, List.nodup_nil, Table.all_empty⟩
  | step _ hstep ih => exact (hstep.orderly ih).listed

/-- **Sales of nonfungible funds.** In every state that is reached a fund has at
most one offer, whose seller owns the fund, and every step keeps the owner of
a fund, or is a transfer signed by the owner of a fund that is not on sale, or
a sale in which exactly the price goes from the buyer to the owner. -/
theorem nonfungible_sales (h : Reachable s) :
    (s.nonfungibleFunds.rows.map NonfungibleFund.id).Nodup ∧
    (s.nonfungibleFundsOnSale.rows.map NonfungibleFundOnSale.fundId).Nodup ∧
    (∀ o ∈ s.nonfungibleFundsOnSale.rows, ∃ f ∈ s.nonfungibleFunds.rows,
      f.id = o.fundId ∧ f.owner = o.seller) ∧
    ∀ c t, Step s c t → ∀ f ∈ s.nonfungibleFunds.rows, ∃ f' ∈ t.nonfungibleFunds.rows,
      f'.id = f.id ∧ Passes s c t f f' :=
  ⟨h.listed.ids, h.listed.offers, h.listed.sellers,
    fun _ _ hstep => (hstep.orderly h.listed).passes⟩

theorem Reachable.run {calls : List Call} (hs : Reachable s)
    (h : calls.foldlM perform s = .ok t) : Reachable t := by
  have hcalls : Returns (calls.foldlM perform s) Reachable :=
    .foldlM hs fun _ hu _ _ _ hcall => .step hu (.call hcall)
  exact hcalls t h

/-- `initminer` buys a fund that `miners` has put up for sale. -/
theorem nonfungible_sales_to_initminer :
    ∃ s t, Reachable s ∧ Step s (.buy "initminer" 1) t ∧ s.nonfungibleFundsOnSale.rows ≠ [] ∧
      ∀ f ∈ s.nonfungibleFunds.rows, ∃ f' ∈ t.nonfungibleFunds.rows,
        f'.id = f.id ∧ Passes s (.buy "initminer" 1) t f f' := by
  obtain ⟨s, hs, hbuys⟩ :
    ∃ s, [.create "miners" "miners" "first", .create "miners" "miners" "second",
      .putUpForSale "miners" 1 (.gbc 5) 1459440000].foldlM perform (Database.genesis 1000) = .ok s ∧
      ((perform s (.buy "initminer" 1)).toOption.isSome &&
        !s.nonfungibleFundsOnSale.rows.isEmpty) = true :=
    ⟨_, rfl, by decide +kernel⟩
  rw [Bool.and_eq_true] at hbuys
  obtain ⟨t, ht⟩ := Option.isSome_iff_exists.mp hbuys.1
  have hstep : Step s (.buy "initminer" 1) t := .call (toOption_eq_some.mp ht)
  have hreached : Reachable s := .run (.genesis 1000) hs
  refine ⟨s, t, hreached, hstep, fun hnil => ?_, (nonfungible_sales hreached).2.2.2 _ t hstep⟩
  rw [hnil] at hbuys
  exact absurd hbuys.2 (by decide)

end Gamebank.Ledger.Funds
