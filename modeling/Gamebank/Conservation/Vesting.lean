import Gamebank.Conservation.Reserves
import Gamebank.Stake.Totals

/-!
# Vesting withdrawals and the null account

A weekly withdrawal takes shares from an account and gives them, or the GBC
that they are worth, to the receivers along its routes; what is left is
converted for the account itself. The null account has everything it holds
taken off the supplies. That is right as long as what it holds is worth
something: a sum below zero is not taken off (`NullInCredit`).
-/

namespace Gamebank.Conservation

open Gamebank.Lib Gamebank.Protocol Gamebank.Ledger
open Gamebank.Ledger.Database (getAccount_mem routeDeposit_nonneg weeklyWithdrawal_le mem_routesOf)

variable {s t u : Database} {d e : Entry} {name : AccountName} {a : Account}

/-! ## Routes -/

theorem routes_kept (hs : Sound s) {table : Table WithdrawVestingRoute}
    (h : ∀ r ∈ table.rows, 0 ≤ r.percent ∧ r.percent ≤ hundredPercent) :
    Kept s { s with withdrawVestingRoutes := table } 0 :=
  ⟨(add_zero _).symm, { hs with routes := h }⟩

theorem setWithdrawVestingRoute_kept (hs : Sound s) (fromAccount toAccount : AccountName)
    (percent : Int) (autoVest : Bool) :
    Returns (s.setWithdrawVestingRoute fromAccount toAccount percent autoVest) fun t =>
      Kept s t 0 := by
  unfold Database.setWithdrawVestingRoute
  refine .bind_any fun _ => .ensure fun hpercent => .bind_any fun a => .bind_any fun _ => ?_
  have hpercent : 0 ≤ percent ∧ percent ≤ hundredPercent := of_decide_eq_true hpercent
  refine .bind (?_ : Returns _ fun t => Kept s t 0) fun t ht => .ensure fun _ => .pure ht
  have hmodified : ∀ {t}, Kept s t 0 → ∀ {f : Account → Account},
      (∀ a, accountHolds (f a) = accountHolds a) →
      Returns (t.modifyAccount a.name f) fun u => Kept s u 0 := fun ht _ hf =>
    (modifyAccount_kept ht.sound a.name hf).mono fun u hu => (ht.trans hu).of_eq (add_zero 0)
  unfold Database.changeRoute
  split
  · refine .ensure fun _ => .ensure fun _ => hmodified (routes_kept hs ?_) fun _ => rfl
    exact Table.All.create hs.routes _ hpercent
  · refine .ite (fun _ => hmodified (routes_kept hs ?_) fun _ => rfl) fun _ => .ok ?_
    · exact Table.All.remove hs.routes
    · exact routes_kept hs (Table.All.modify hs.routes fun _ _ => hpercent)

/-! ## Withdrawals -/

theorem weeklyWithdrawal_range (ha : InRange a) :
    Returns (Database.weeklyWithdrawal a) fun toWithdraw =>
      -9223372036854775808 ≤ toWithdraw ∧ toWithdraw < 9223372036854775808 := by
  obtain ⟨hshares, hrate, htotal⟩ := ha
  simp only [fitsInt64, decide_eq_true_eq] at hshares hrate htotal
  intro toWithdraw h
  have hle := weeklyWithdrawal_le a toWithdraw h
  refine ⟨?_, by omega⟩
  have hmod : -9223372036854775808 ≤ a.toWithdraw.tmod a.vestingWithdrawRate := by
    have hlast := Int.natAbs_tmod a.toWithdraw a.vestingWithdrawRate
    have hmod := Nat.mod_le a.toWithdraw.natAbs a.vestingWithdrawRate.natAbs
    omega
  have hlow : Returns (Database.weeklyWithdrawal a) fun toWithdraw =>
      -9223372036854775808 ≤ toWithdraw := by
    unfold Database.weeklyWithdrawal
    refine .bind_any fun _ => .ite (fun _ => .ensure fun _ => .pure ?_) fun _ => .pure ?_
    · exact le_min hshares.1 hmod
    · exact le_min hshares.1 hrate.1
  exact hlow toWithdraw h

section

variable {toWithdraw : Int} {r : WithdrawVestingRoute} {st : Database × Int}

/-- In both passes the deposits so far are missing from the shares of the
account that withdraws. -/
def Deposited (s : Database) (st : Database × Int) : Prop := Enters s st.1 (entry .shares st.2)

theorem depositVests_deposited (h : Deposited s st)
    (hdeposit : Returns (Database.routeDeposit toWithdraw r) fun deposit => 0 ≤ deposit) :
    Returns (Database.depositVests toWithdraw st r) (Deposited s) := by
  unfold Database.depositVests
  refine .ite (fun _ => .bind hdeposit fun deposit hnonneg => .ensure fun _ => ?_) fun _ => .ok h
  refine .ite (fun _ => ?_) fun hzero => .pure ?_
  · refine .bind (modifyAccount_enters st.1 r.toAccount fun a =>
      accountHolds_addShares a deposit) fun t ht => ?_
    refine .bind (adjustProxiedWitnessVotes_enters t r.toAccount deposit) fun u hu => .pure ?_
    refine ((Enters.trans h ht).trans hu).of_eq ?_
    rw [← entry_add, add_zero]
  · rw [le_antisymm (not_lt.mp hzero) hnonneg, add_zero]
    exact h

theorem depositGbc_deposited (h : Deposited s st)
    (hdeposit : Returns (Database.routeDeposit toWithdraw r) fun deposit => 0 ≤ deposit) :
    Returns (Database.depositGbc toWithdraw st r) (Deposited s) := by
  unfold Database.depositGbc
  refine .ite (fun _ => .ok h) fun _ => .bind_any fun _ => .bind hdeposit fun deposit hnonneg =>
    .ensure fun _ => .bind_any fun price => .bind_any fun converted => ?_
  refine .ite (fun _ => ?_) fun hzero => .pure ?_
  · have hbalance : ∀ a : Account, accountHolds { a with
        balance := a.balance + converted.amount } =
          accountHolds a + entry .gbc converted.amount := by
      intro a
      funext b
      cases b <;> simp [accountHolds, entry_apply]
      omega
    refine .bind (modifyAccount_enters st.1 r.toAccount hbalance) fun t ht => ?_
    refine .bind (modifyProps_enters t (supplies_removeShares t.props deposit converted.amount))
      fun u hu => .pure ?_
    refine ((Enters.trans h ht).trans hu).of_eq ?_
    rw [entry_add]
    abel
  · rw [le_antisymm (not_lt.mp hzero) hnonneg, add_zero]
    exact h

end

theorem processVestingWithdrawal_kept (hs : Sound s) (account : AccountName) :
    Returns (s.processVestingWithdrawal account) fun t => Kept s t 0 := by
  unfold Database.processVestingWithdrawal
  refine .bind_eq fun a ha => .ensure fun _ => ?_
  refine .bind (weeklyWithdrawal_range (hs.fair.accounts a (getAccount_mem ha).1))
    fun toWithdraw ⟨hlow, hlt⟩ => ?_
  have hdeposit : ∀ r ∈ s.routesOf account,
      Returns (Database.routeDeposit toWithdraw r) fun deposit => 0 ≤ deposit :=
    fun r hr => routeDeposit_nonneg hlow hlt (hs.routes r (mem_routesOf hr))
  have hstart : Deposited s (s, 0) := (Enters.refl s).of_eq (entry_zero _).symm
  refine .bind (Returns.foldlM hstart fun st hst r hr =>
    depositVests_deposited hst (hdeposit r hr)) fun ⟨t, asVests⟩ ht => ?_
  have hagain : Deposited t (t, 0) := (Enters.refl t).of_eq (entry_zero _).symm
  refine .bind (Returns.foldlM hagain fun st hst r hr =>
    depositGbc_deposited hst (hdeposit r hr)) fun ⟨u, asGbc⟩ hu => ?_
  refine .ensure fun _ => .bind_any fun price => .bind_any fun converted => ?_
  have hweek : ∀ a : Account, accountHolds { a.withdrawWeek toWithdraw with
      balance := a.balance + converted.amount } =
        accountHolds a + (entry .gbc converted.amount - entry .shares toWithdraw) := by
    intro a
    funext b
    cases b <;> simp [accountHolds, Account.withdrawWeek, entry_apply]
    · omega
    · omega
  refine .bind (modifyAccount_enters u account hweek) fun v hv => ?_
  have hfund := supplies_removeShares v.props (toWithdraw - asGbc - asVests) converted.amount
  refine .bind (modifyProps_enters v hfund) fun w hw => ?_
  have hmoved := (((Enters.trans ht hu).trans hv).trans hw).of_eq (e := 0) (by
    rw [entry_sub, entry_sub]
    abel)
  refine .ite (fun _ => ?_) fun _ => .ok (hmoved.kept hs)
  exact (adjustProxiedWitnessVotes_enters w account _).mono fun x hx =>
    ((hmoved.trans hx).of_eq (add_zero 0)).kept hs

/-! ## The null account -/

/-- What is left alone when balances are emptied: the part of an account that
is about vesting. -/
def vesting (a : Account) : AccountName × Int × Int × Int :=
  (a.name, a.vestingShares, a.rewardVestingBalance, a.rewardVestingGbc)

structure SameVesting (s t : Database) : Prop where
  accounts : t.accounts.rows.map vesting = s.accounts.rows.map vesting
  fund : t.props.totalVestingFundGbc = s.props.totalVestingFundGbc
  shares : t.props.totalVestingShares = s.props.totalVestingShares

namespace SameVesting

theorem refl (s : Database) : SameVesting s s := ⟨rfl, rfl, rfl⟩

theorem trans (h : SameVesting s t) (h' : SameVesting t u) : SameVesting s u :=
  ⟨h'.accounts.trans h.accounts, h'.fund.trans h.fund, h'.shares.trans h.shares⟩

theorem price (h : SameVesting s t) :
    t.props.getVestingSharePrice = s.props.getVestingSharePrice := by
  unfold GlobalProperties.getVestingSharePrice
  rw [h.fund, h.shares]

theorem getAccount (h : SameVesting s t) (ha : t.getAccount name = .ok a) :
    ∃ b, s.getAccount name = .ok b ∧ vesting b = vesting a := by
  have hfind : ∀ l : List Account, (l.map vesting).find? (fun v => v.1 = name) =
      (l.find? fun a => a.name = name).map vesting := by
    intro l
    rw [List.find?_map]
    rfl
  have hmap := congrArg (List.find? fun v => decide (v.1 = name)) h.accounts
  rw [hfind, hfind, show t.accounts.rows.find? (fun a => a.name = name) = some a from
    Database.getAccount_eq_ok.mp ha] at hmap
  obtain ⟨b, hb, hvesting⟩ := Option.map_eq_some_iff.mp hmap.symm
  exact ⟨b, Database.getAccount_eq_ok.mpr hb, hvesting⟩

end SameVesting

theorem modifyAccount_sameVesting (s : Database) (name : AccountName) {f : Account → Account}
    (hf : ∀ a, vesting (f a) = vesting a) : Returns (s.modifyAccount name f) (SameVesting s) := by
  refine (Database.modifyAccount_spec s name f).mono fun t ⟨a, he⟩ => ?_
  rw [he.rest]
  exact ⟨he.replaces.map_eq (hf a), rfl, rfl⟩

theorem payInterest_sameVesting (s : Database) (i : Accrual) :
    Returns (s.payInterest i) (SameVesting s) := by
  unfold Database.payInterest
  refine .ite (fun _ => .bind_any fun _ => .ensure fun _ => ?_) fun _ => .ok (.refl s)
  refine (Database.modifyProps_spec s _).mono fun t ht => ?_
  rw [ht.2]
  exact ⟨rfl, rfl, rfl⟩

theorem adjustBalance_sameVesting (s : Database) (name : AccountName) {delta : Asset}
    (h : delta.symbol ≠ .gbs) : Returns (s.adjustBalance name delta) (SameVesting s) := by
  unfold Database.adjustBalance Database.modifyBalance
  refine .bind_any fun a => ?_
  cases hsymbol : delta.symbol with
  | gbc => exact .ensure fun _ => modifyAccount_sameVesting s name fun _ => rfl
  | gbd =>
      refine .bind_any fun i => .bind (payInterest_sameVesting s i) fun t ht => .ensure fun _ => ?_
      exact Returns.mono (modifyAccount_sameVesting t name fun _ => rfl) fun _ hu => ht.trans hu
  | gbs => exact absurd hsymbol h

theorem adjustSavingsBalance_sameVesting (s : Database) (name : AccountName) (delta : Asset) :
    Returns (s.adjustSavingsBalance name delta) (SameVesting s) := by
  unfold Database.adjustSavingsBalance
  refine .bind_any fun a => ?_
  cases delta.symbol with
  | gbc => exact .ensure fun _ => modifyAccount_sameVesting s name fun _ => rfl
  | gbd =>
      refine .bind_any fun i => .bind (payInterest_sameVesting s i) fun t ht => .ensure fun _ => ?_
      exact Returns.mono (modifyAccount_sameVesting t name fun _ => rfl) fun _ hu => ht.trans hu
  | gbs => exact .error

theorem adjustRewardBalance_sameVesting (s : Database) (name : AccountName) (value : Asset) :
    Returns (s.adjustRewardBalance name value (.gbs 0)) (SameVesting s) := by
  unfold Database.adjustRewardBalance Database.modifyRewardBalance
  refine .ensure fun _ => .bind_any fun a => ?_
  cases value.symbol with
  | gbc =>
      refine .ite (fun _ => .ensure fun _ => ?_) fun hshare => absurd rfl hshare
      exact modifyAccount_sameVesting s name fun _ => rfl
  | gbd => exact .ensure fun _ => .ensure fun _ => modifyAccount_sameVesting s name fun _ => rfl
  | gbs => exact .error

theorem positivePart_nonneg (x : Int) : 0 ≤ Database.positivePart x := by
  unfold Database.positivePart
  split <;> omega

/-- `t` is `s` without some of what the null account had. -/
structure Burnt (s t : Database) (d : Entry) : Prop where
  enters : Enters s t (-d)
  vesting : SameVesting s t

namespace Burnt

theorem refl (s : Database) : Burnt s s 0 := ⟨(Enters.refl s).of_eq neg_zero.symm, .refl s⟩

theorem trans (h : Burnt s t d) (h' : Burnt t u e) : Burnt s u (d + e) :=
  ⟨(h.enters.trans h'.enters).of_eq (neg_add d e).symm, h.vesting.trans h'.vesting⟩

/-- A balance is emptied if there is something in it. -/
theorem positive (b : Book) (amount : Int) {x : Except String Database}
    (hx : Returns x fun t => Enters s t (entry b (-amount)))
    (hvesting : Returns x (SameVesting s)) :
    Returns (if 0 < amount then x else .ok s) fun t =>
      Burnt s t (entry b (Database.positivePart amount)) := by
  unfold Database.positivePart
  refine .ite (fun hpos t ht => ?_) fun hzero => .ok ?_
  · rw [if_pos hpos]
    exact ⟨(hx t ht).of_eq (entry_neg b amount), hvesting t ht⟩
  · rw [if_neg hzero, entry_zero]
    exact .refl s

end Burnt

theorem burnBalances_burnt (s : Database) :
    Returns s.burnBalances fun r => Burnt s r.1 (entry .gbc r.2.1 + entry .gbd r.2.2) ∧
      0 ≤ r.2.1 ∧ 0 ≤ r.2.2 := by
  unfold Database.burnBalances
  refine .bind_any fun a => ?_
  refine .bind (Burnt.positive .gbc a.balance (adjustBalance_enters s _ _)
    (adjustBalance_sameVesting s _ (by simp [Asset.gbc]))) fun t1 h1 => ?_
  refine .bind (Burnt.positive .gbc a.savingsBalance (adjustSavingsBalance_enters t1 _ _)
    (adjustSavingsBalance_sameVesting t1 _ _)) fun t2 h2 => ?_
  refine .bind (Burnt.positive .gbd a.gbdBalance (adjustBalance_enters t2 _ _)
    (adjustBalance_sameVesting t2 _ (by simp [Asset.gbd]))) fun t3 h3 => ?_
  refine .bind (Burnt.positive .gbd a.savingsGbdBalance (adjustSavingsBalance_enters t3 _ _)
    (adjustSavingsBalance_sameVesting t3 _ _)) fun t4 h4 => .pure ⟨?_, ?_, ?_⟩
  · have hburnt := ((h1.trans h2).trans h3).trans h4
    rwa [add_assoc, ← entry_add, ← entry_add] at hburnt
  · exact add_nonneg (positivePart_nonneg _) (positivePart_nonneg _)
  · exact add_nonneg (positivePart_nonneg _) (positivePart_nonneg _)

/-- What the null account has is worth something. -/
structure NullInCredit (s : Database) : Prop where
  rewards : ∀ a, s.getAccount nullAccount = .ok a → 0 ≤ a.rewardVestingGbc
  shares : ∀ a price worth, s.getAccount nullAccount = .ok a →
    s.props.getVestingSharePrice = .ok price → (Asset.gbs a.vestingShares).times price = .ok worth →
    0 ≤ worth.amount

theorem NullInCredit.of_sameVesting (hs : NullInCredit s) (h : SameVesting s t) :
    NullInCredit t := by
  refine ⟨fun a ha => ?_, fun a price worth ha hprice hworth => ?_⟩
  · obtain ⟨b, hb, hvesting⟩ := h.getAccount ha
    simp only [vesting, Prod.mk.injEq] at hvesting
    rw [← hvesting.2.2.2]
    exact hs.rewards b hb
  · obtain ⟨b, hb, hvesting⟩ := h.getAccount ha
    simp only [vesting, Prod.mk.injEq] at hvesting
    rw [h.price] at hprice
    rw [← hvesting.2.1] at hworth
    exact hs.shares b price worth hb hprice hworth

/-- The shares of the null account are worth what is taken off. -/
theorem burnVestingShares_enters (hs : NullInCredit s) :
    Returns s.burnVestingShares fun r => Enters s r.1 (-entry .gbc r.2) ∧ 0 ≤ r.2 ∧
      ∀ a, r.1.getAccount nullAccount = .ok a → 0 ≤ a.rewardVestingGbc := by
  unfold Database.burnVestingShares
  refine .bind_eq fun a ha => .ite (fun _ => ?_) fun _ => .pure ⟨?_, le_rfl, hs.rewards⟩
  · refine .bind_eq fun price hprice => .bind_eq fun converted hconverted => ?_
    refine .bind_eq fun t ht => .bind_eq fun u hu => .pure ?_
    have hprops := modifyProps_enters s
      (supplies_removeShares s.props a.vestingShares converted.amount) t ht
    have haccounts : t.getAccount nullAccount = .ok a := by
      rw [(Database.modifyProps_spec s _ t ht).2]
      exact ha
    obtain ⟨c, he⟩ := Database.modifyAccount_spec t nullAccount _ u hu
    obtain rfl : c = a := he.found_eq haccounts
    have hemptied : accountHolds { c with vestingShares := 0 } =
        accountHolds c + -entry .shares c.vestingShares := by
      funext b
      cases b <;> simp [accountHolds, entry_apply]
    refine ⟨?_, hs.shares c price converted ha hprice hconverted, fun b hb => ?_⟩
    · refine (hprops.trans (.of_edited he hemptied)).of_eq ?_
      abel
    · rw [Database.getAccount_modify hu (fun _ => rfl), if_pos rfl, haccounts] at hb
      obtain rfl := Except.ok.inj hb
      exact hs.rewards c ha
  · exact (Enters.refl s).of_eq (by rw [entry_zero, neg_zero])

theorem adjustRewardBalance_empties (s : Database) (name : AccountName) (value : Asset) :
    Returns (s.adjustRewardBalance name value (.gbs 0)) fun t =>
      Enters s t (assetEntry value) := by
  refine returns_of_eq (adjustRewardBalance_enters s name value (.gbs 0)) ?_
  rw [rewardEntry, show (Asset.gbs 0).amount = 0 from rfl, if_pos rfl, entry_zero, add_zero,
    add_zero]

theorem burnRewards_enters (s : Database)
    (hs : ∀ a, s.getAccount nullAccount = .ok a → 0 ≤ a.rewardVestingGbc) :
    Returns s.burnRewards fun r => Enters s r.1 (-(entry .gbc r.2.1 + entry .gbd r.2.2)) ∧
      0 ≤ r.2.1 ∧ 0 ≤ r.2.2 := by
  unfold Database.burnRewards
  refine .bind_eq fun a ha => ?_
  refine .bind (Burnt.positive .gbc a.rewardGbcBalance (adjustRewardBalance_empties s _ _)
    (adjustRewardBalance_sameVesting s _ _)) fun t1 h1 => ?_
  refine .bind (Burnt.positive .gbd a.rewardGbdBalance (adjustRewardBalance_empties t1 _ _)
    (adjustRewardBalance_sameVesting t1 _ _)) fun t2 h2 => ?_
  have hburnt := h1.trans h2
  have hgbc := positivePart_nonneg a.rewardGbcBalance
  have hgbd := positivePart_nonneg a.rewardGbdBalance
  refine .ite (fun _ => ?_) fun _ => .pure ⟨hburnt.enters, hgbc, hgbd⟩
  have hpending : ∀ p : GlobalProperties, supplies { p with
      pendingRewardedVestingShares := p.pendingRewardedVestingShares - a.rewardVestingBalance
      pendingRewardedVestingGbc := p.pendingRewardedVestingGbc - a.rewardVestingGbc } =
        supplies p - (entry .rewardShares a.rewardVestingBalance +
          entry .rewardGbc a.rewardVestingGbc) := by
    intro p
    funext b
    cases b <;> simp [supplies, entry_apply]
  refine .bind_eq fun u hu => ?_
  have hprops := modifyProps_enters t2 (hpending t2.props) u hu
  have haccounts : u.getAccount nullAccount = t2.getAccount nullAccount := by
    rw [(Database.modifyProps_spec t2 _ u hu).2]
    rfl
  refine .bind (Database.modifyAccount_spec u nullAccount _) fun v hv => .pure ?_
  obtain ⟨c, he⟩ := hv
  obtain ⟨b, hb, hvesting⟩ := hburnt.vesting.getAccount (haccounts ▸ he.found)
  obtain rfl : b = a := Except.ok.inj (hb.symm.trans ha)
  simp only [vesting, Prod.mk.injEq] at hvesting
  have hemptied : accountHolds { c with rewardVestingGbc := 0, rewardVestingBalance := 0 } =
      accountHolds c + -(entry .gbc b.rewardVestingGbc +
        entry .rewardShares b.rewardVestingBalance + entry .rewardGbc b.rewardVestingGbc) := by
    rw [hvesting.2.2.1, hvesting.2.2.2]
    funext k
    cases k <;> simp [accountHolds, entry_apply]
  refine ⟨?_, add_nonneg hgbc (hs b ha), hgbd⟩
  refine ((hburnt.enters.trans hprops).trans (.of_edited he hemptied)).of_eq ?_
  rw [entry_add]
  abel

/-- What is left to be taken off a supply is taken off. -/
theorem takeOff_enters (s : Database) {b : Book} {amount : Int} {delta : Asset} (h : 0 ≤ amount)
    (hdelta : assetEntry delta = -entry b amount) :
    Returns (if 0 < amount then s.adjustSupply delta false else .ok s) fun t =>
      Enters s t (entry b amount) := by
  refine .ite (fun _ => ?_) fun hzero => .ok ?_
  · refine returns_of_eq (adjustSupply_enters s delta false) ?_
    rw [hdelta, neg_neg]
  · rw [le_antisymm (not_lt.mp hzero) h, entry_zero]
    exact .refl s

theorem clearNullAccountBalance_keeps (hs : NullInCredit s) :
    Returns s.clearNullAccountBalance (Keeps s) := by
  unfold Database.clearNullAccountBalance
  refine .bind (burnBalances_burnt s) fun ⟨t, gbc, gbd⟩ ⟨ht, hgbc, hgbd⟩ => ?_
  refine .bind (burnVestingShares_enters (hs.of_sameVesting ht.vesting))
    fun ⟨u, vested⟩ ⟨hu, hvested, hrewards⟩ => ?_
  refine .bind (burnRewards_enters u hrewards)
    fun ⟨v, rewardGbc, rewardGbd⟩ ⟨hv, hrewardGbc, hrewardGbd⟩ => ?_
  dsimp only at hgbc hgbd hvested hrewardGbc hrewardGbd
  refine .bind (takeOff_enters v (b := .gbc) (add_nonneg (add_nonneg hgbc hvested) hrewardGbc)
    (entry_neg _ _)) fun w hw => ?_
  refine Returns.mono (takeOff_enters w (add_nonneg hgbd hrewardGbd)
    (entry_neg .gbd (gbd + rewardGbd))) fun x hx => ?_
  refine ((((ht.enters.trans hu).trans hv).trans hw).trans hx).of_eq ?_
  simp only [entry_add]
  abel

end Gamebank.Conservation
