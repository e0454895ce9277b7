import Gamebank.Stake.Accounts
import Mathlib.Tactic.Linarith

/-!
# No share is used twice

What an account has not delegated covers what it has still to withdraw. The
weekly withdrawals keep this because the rate divides what has been withdrawn,
so that the last week takes exactly the rest.

When `initminer` creates an account it delegates shares without asking whether
they are leaving, so there the call has to leave room.
-/

namespace Gamebank.Ledger

open Gamebank.Lib Gamebank.Protocol

namespace Database

variable {s t : Database} {a c : Account}

/-- The shares of an account cover its promises. -/
structure Covered (a : Account) : Prop where
  delegated : 0 ≤ a.delegatedVestingShares
  withdrawn : 0 ≤ a.withdrawn
  leaving : a.withdrawn ≤ a.toWithdraw
  covered : a.toWithdraw - a.withdrawn ≤ a.vestingShares - a.delegatedVestingShares
  rate : 0 ≤ a.vestingWithdrawRate
  done : a.vestingWithdrawRate = 0 → a.withdrawn = a.toWithdraw
  weeks : a.vestingWithdrawRate = 0 ∨ a.vestingWithdrawRate ∣ a.withdrawn
  null : a.name = nullAccount → a.delegatedVestingShares = 0 ∧ a.withdrawn = a.toWithdraw

/-- The shares that are neither delegated nor leaving. -/
def room (a : Account) : Int :=
  a.vestingShares - a.delegatedVestingShares - (a.toWithdraw - a.withdrawn)

/-! ## Steps -/

/-- The rate divides what has been withdrawn, so the remainder is what is left. -/
theorem Covered.tmod_eq (ha : Covered a)
    (hlast : a.toWithdraw - a.withdrawn < a.vestingWithdrawRate) :
    a.toWithdraw.tmod a.vestingWithdrawRate = a.toWithdraw - a.withdrawn := by
  have hleaving := ha.leaving
  obtain ⟨k, hk⟩ := ha.weeks.resolve_left (by omega)
  rw [Int.tmod_eq_emod_of_nonneg (ha.withdrawn.trans hleaving)]
  have hsplit : a.toWithdraw = a.toWithdraw - a.withdrawn + a.vestingWithdrawRate * k := by omega
  rw [hsplit, Int.add_mul_emod_self_left, hsplit.symm]
  exact Int.emod_eq_of_lt (by omega) hlast

/-- A week takes the rate, and the last week takes the rest. -/
theorem weeklyWithdrawal_of_covered (ha : Covered a) :
    Returns (weeklyWithdrawal a) fun toWithdraw =>
      toWithdraw = a.toWithdraw - a.withdrawn ∨
        (toWithdraw = a.vestingWithdrawRate ∧ 0 < a.vestingWithdrawRate ∧
          a.vestingWithdrawRate ≤ a.toWithdraw - a.withdrawn) := by
  have hdelegated := ha.delegated
  have hcovered := ha.covered
  have hleaving := ha.leaving
  unfold weeklyWithdrawal
  refine .bind_eq fun left hleft =>
    .ite (fun hlast => .ensure fun _ => .pure ?_) fun hmore => .pure ?_
  · -- the last week
    obtain rfl := checkedSub_eq_ok hleft
    rw [ha.tmod_eq hlast]
    left
    omega
  · obtain rfl := checkedSub_eq_ok hleft
    rcases ha.rate.eq_or_lt with hzero | hpos
    · have hdone := ha.done hzero.symm
      left
      omega
    · right
      omega

/-- After a week's withdrawal, if it is the one that `a` began it with. -/
theorem Covered.withdrawWeek (hc : Covered c) {toWithdraw : Int}
    (hweek : toWithdraw = a.toWithdraw - a.withdrawn ∨
      (toWithdraw = a.vestingWithdrawRate ∧ 0 < a.vestingWithdrawRate ∧
        a.vestingWithdrawRate ≤ a.toWithdraw - a.withdrawn)) (hgrown : a.GrownTo c) :
    Covered (c.withdrawWeek toWithdraw) := by
  have hto := congrArg Account.toWithdraw hgrown.1
  have hwithdrawn := congrArg Account.withdrawn hgrown.1
  have hrate := congrArg Account.vestingWithdrawRate hgrown.1
  change c.toWithdraw = a.toWithdraw at hto
  change c.withdrawn = a.withdrawn at hwithdrawn
  change c.vestingWithdrawRate = a.vestingWithdrawRate at hrate
  rw [← hto, ← hwithdrawn, ← hrate] at hweek
  obtain ⟨hdelegated, hnonneg, hleaving, hcovered, hratenonneg, hdone, hweeks, hnull⟩ := hc
  exact
    { delegated := hdelegated
      withdrawn := by
        show 0 ≤ c.withdrawn + toWithdraw
        omega
      leaving := by
        show c.withdrawn + toWithdraw ≤ c.toWithdraw
        omega
      covered := by
        show c.toWithdraw - (c.withdrawn + toWithdraw) ≤
          c.vestingShares - toWithdraw - c.delegatedVestingShares
        omega
      rate := by
        show 0 ≤ if _ then 0 else c.vestingWithdrawRate
        split
        · exact le_rfl
        · exact hratenonneg
      done := by
        show (if _ then 0 else c.vestingWithdrawRate) = 0 → c.withdrawn + toWithdraw = c.toWithdraw
        split
        · omega
        · omega
      weeks := by
        show (if _ then 0 else c.vestingWithdrawRate) = 0 ∨
          (if _ then 0 else c.vestingWithdrawRate) ∣ c.withdrawn + toWithdraw
        split
        · exact Or.inl rfl
        next hmore =>
          -- not the last week, so the rate was taken
          have htaken : toWithdraw = c.vestingWithdrawRate := by omega
          have hdvd := hweeks.resolve_left (by omega)
          rw [htaken]
          exact Or.inr (dvd_add hdvd dvd_rfl)
      null := by
        intro hname
        obtain ⟨h1, h2⟩ := hnull hname
        refine ⟨h1, ?_⟩
        show c.withdrawn + toWithdraw = c.toWithdraw
        omega }

theorem covered_kept :
    Kept (fun a x => 0 ≤ x ∧ x ≤ room a)
      (fun a x => a.name ≠ nullAccount ∧ 0 ≤ x ∧ x ≤ a.delegatedVestingShares) Covered where
  congr := by
    intro a a' hpower ha
    have hcovered : Covered a.power := { ha with }
    rw [← hpower] at hcovered
    exact { hcovered with }
  create := fun name amount =>
    { delegated := le_rfl
      withdrawn := le_rfl
      leaving := le_rfl
      covered := le_rfl
      rate := le_rfl
      done := fun _ => rfl
      weeks := Or.inl rfl
      null := fun _ => ⟨rfl, rfl⟩ }
  gain := by
    intro a x hx ha
    exact { ha with covered := by have := ha.covered; dsimp only; omega }
  receive := fun x ha => { ha with }
  delegate := by
    intro a x hnull hx hle ha
    exact
      { ha with
        delegated := add_nonneg ha.delegated hx
        covered := by dsimp only; omega
        null := fun hname => absurd hname hnull }
  lend := by
    intro a x hnull hx ha
    have hroom : x ≤ a.vestingShares - a.delegatedVestingShares - (a.toWithdraw - a.withdrawn) :=
      hx.2
    exact
      { ha with
        delegated := add_nonneg ha.delegated hx.1
        covered := by dsimp only; omega
        null := fun hname => absurd hname hnull }
  back := by
    intro a x hx ha
    have hcovered := ha.covered
    exact
      { ha with
        delegated := sub_nonneg.mpr hx.2.2
        covered := by dsimp only; omega
        null := fun hname => absurd hname hx.1 }
  withdraw := by
    intro a rate shares next hnull hrate hshares hle ha
    exact
      { delegated := ha.delegated
        withdrawn := le_rfl
        leaving := hshares.le
        covered := by dsimp only; omega
        rate := hrate.le
        done := fun hzero => absurd hzero hrate.ne'
        weeks := Or.inr (dvd_zero _)
        null := fun hname => absurd hname hnull }
  week := by
    intro a c toWithdraw hweek hgrown ha hc
    exact hc.withdrawWeek (weeklyWithdrawal_of_covered ha toWithdraw hweek) hgrown
  burn := by
    intro a hnull ha
    obtain ⟨hdelegated, hdone⟩ := ha.null hnull
    exact { ha with covered := by dsimp only; omega }

/-! ## Runs -/

/-- Delegated shares are counted, so what comes back was counted. -/
theorem Delegated.back (h : Delegated s) :
    ∀ e ∈ s.vestingDelegationExpirations.rows, ∀ a ∈ s.accounts.rows, a.name = e.delegator →
      a.name ≠ nullAccount ∧ 0 ≤ e.vestingShares ∧ e.vestingShares ≤ a.delegatedVestingShares := by
  intro e he a ha hname
  have hnonneg := Delegations.returned h e he
  refine ⟨hname ▸ (Delegations.returning h e he).2, hnonneg, ?_⟩
  have hactive : 0 ≤ s.vestingDelegations.total
      fun d => if d.delegator = a.name then d.vestingShares else 0 := by
    apply sumOf_nonneg
    intro d hd
    split
    · exact Delegations.positive h d hd
    · exact le_rfl
  have hreturning : (if e.delegator = a.name then e.vestingShares else 0) ≤
      s.vestingDelegationExpirations.total
        fun e => if e.delegator = a.name then e.vestingShares else 0 := by
    apply le_sumOf_of_mem he
    intro e he
    split
    · exact Delegations.returned h e he
    · exact le_rfl
  rw [if_pos hname.symm] at hreturning
  have hcounter := Delegations.delegated h a ha
  unfold delegatedBy at hcounter
  omega

theorem Delegated.received_nonneg (h : Delegated s) (ha : a ∈ s.accounts.rows) :
    0 ≤ a.receivedVestingShares := by
  rw [Delegations.received h a ha]
  show 0 ≤ s.delegatedTo a.name + 0
  rw [add_zero]
  apply sumOf_nonneg
  intro d hd
  split
  · exact Delegations.positive h d hd
  · exact le_rfl

/-- GBC turned into shares, and the fee `initminer` delegates, is worth fewer
than `2 ^ 63` shares, and `initminer` does not delegate what is leaving. -/
def stakeFits (s : Database) (c : Call) : Prop :=
  sharesFit s c ∧ feeFits s c ∧
    ∀ fee ∈ lentFee c, ∀ a ∈ s.accounts.rows, a.name = initMinerName →
      s.props.sharesFor fee ≤ room a

instance (s : Database) (c : Call) : Decidable (stakeFits s c) :=
  inferInstanceAs (Decidable (_ ∧ _ ∧ ∀ fee ∈ lentFee c, _))

theorem covered_genesis (supply : Int) : (genesis supply).accounts.All Covered := by
  intro a ha
  simp only [genesis, List.mem_cons, List.not_mem_nil, or_false] at ha
  have hcovered : ∀ name balance, Covered (genesisAccount name balance) := fun _ _ =>
    { delegated := le_rfl
      withdrawn := le_rfl
      leaving := le_rfl
      covered := le_rfl
      rate := by show (0 : Int) ≤ 1; decide
      done := fun _ => rfl
      weeks := Or.inr (dvd_zero _)
      null := fun _ => ⟨rfl, rfl⟩ }
  rcases ha with rfl | rfl | rfl | rfl <;> exact hcovered _ _

theorem Reachable.covered (h : Reachable stakeFits s) : s.accounts.All Covered := by
  refine h.invariant covered_genesis (fun s t c hs hcovered hc ht => ?_) fun s t hs hst =>
    (SamePower.of_sameStake hst).all hs covered_kept.congr
  have hdelegated : Delegated s := (hs.mono fun _ _ hc => hc.2.1).delegated
  refine covered_kept.perform hcovered (Delegations.names hdelegated) c hc.1
    (fun fee hfee a ha hname => ?_)
    hdelegated.back t ht
  have hnonneg := s.props.sharesFor_nonneg fee
  have hsame : toInt64 (s.props.sharesFor fee) = s.props.sharesFor fee := if_pos (hc.2.1 fee hfee)
  rw [hsame]
  exact ⟨hnonneg, hc.2.2 fee hfee a ha hname⟩

/-- A power-down is active. -/
def poweringDown (a : Account) : Prop := a.nextVestingWithdrawal ≠ maximumTime

instance (a : Account) : Decidable (poweringDown a) := inferInstanceAs (Decidable (_ ≠ _))

/-- No share of the account is used twice. -/
structure UsedOnce (a : Account) : Prop where
  delegated : a.delegatedVestingShares ≤ a.vestingShares
  leaving : poweringDown a → 0 ≤ a.toWithdraw - a.withdrawn ∧
    a.toWithdraw - a.withdrawn ≤ a.vestingShares - a.delegatedVestingShares
  effective :
    Returns (effectiveVestingShares a) fun shares => 0 ≤ shares ∧ toUInt128 shares = shares

/-- **No stake is used twice.** -/
theorem no_stake_used_twice (h : Reachable stakeFits s) : ∀ a ∈ s.accounts.rows, UsedOnce a := by
  intro a ha
  have hcovered := h.covered a ha
  have hdelegated : Delegated s := (h.mono fun _ _ hc => hc.2.1).delegated
  have hreceived := hdelegated.received_nonneg ha
  have h1 := hcovered.leaving
  have h2 := hcovered.covered
  refine ⟨by omega, fun _ => by omega, ?_⟩
  unfold effectiveVestingShares
  refine .bind_eq fun own hown => .ensure fun hfits => .pure ?_
  obtain rfl := checkedSub_eq_ok hown
  unfold fitsInt64 at hfits
  unfold toUInt128
  simp only [decide_eq_true_eq] at hfits
  omega

/-- `initminer` powers down half of its shares and delegates some of the rest. -/
def firstPowerDown : List Call :=
  [.transferToVesting "initminer" "" (.gbc 1000), .withdrawVesting "initminer" 500000,
    .accountCreate "initminer" "alice" [] 100, .delegateVestingShares "initminer" "temp" 400000]

theorem no_stake_used_twice_first :
    ∃ t, run stakeFits (genesis 1000) firstPowerDown = .ok t ∧
      (∃ a ∈ t.accounts.rows, poweringDown a ∧ room a = 0) ∧ ∀ a ∈ t.accounts.rows, UsedOnce a := by
  obtain ⟨t, hrun, hroom⟩ := exists_run stakeFits (genesis 1000) firstPowerDown
    (fun t => ∃ a ∈ t.accounts.rows, poweringDown a ∧ room a = 0) (by decide +kernel)
  exact ⟨t, hrun, by simpa using hroom, no_stake_used_twice (.run (.genesis 1000) hrun)⟩

/-- `initminer` powers down all of its shares, and then delegates them to an
account it creates. -/
theorem stake_used_twice :
    ∃ s, Reachable anyCall s ∧ ¬∀ a ∈ s.accounts.rows, UsedOnce a := by
  obtain ⟨t, hrun, hfails⟩ := exists_run anyCall (genesis 1000)
    [.transferToVesting "initminer" "" (.gbc 1000), .withdrawVesting "initminer" 1000000,
      .accountCreate "initminer" "alice" [] 1000]
    (fun t => ∃ a ∈ t.accounts.rows, poweringDown a ∧
      ¬a.toWithdraw - a.withdrawn ≤ a.vestingShares - a.delegatedVestingShares) (by decide +kernel)
  obtain ⟨a, ha, hactive, htwice⟩ := of_decide_eq_true hfails
  exact ⟨t, .run (.genesis 1000) hrun, fun hall => htwice ((hall a ha).leaving hactive).2⟩

end Database

end Gamebank.Ledger
