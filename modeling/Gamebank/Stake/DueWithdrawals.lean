import Gamebank.Stake.Withdrawals
import Mathlib.Data.Finset.Prod
import Mathlib.Data.Prod.Lex
import Mathlib.Data.String.Basic

/-!
# The loop over the withdrawals that are due

The loop of `process_vesting_withdrawals` goes through the accounts in the
order of the next withdrawal and of the name. An account that has withdrawn
moves back in this order, maybe to a place the loop has still to come to; so
what ends it is that the place it has come to only moves on, up to the time of
the head block.
-/

namespace Gamebank.Ledger

open Gamebank.Lib Gamebank.Protocol

namespace Database

variable {s t u : Database} {name account : AccountName} {a b c : Account}

/-! ## What a withdrawal leaves alone -/

/-- The time of the next withdrawal, if the account is another one. -/
def timeOf (account : AccountName) (c : Account) : AccountName × Nat :=
  (c.name, if c.name = account then 0 else c.nextVestingWithdrawal)

/-- The accounts, but for `account`, withdraw when they did, and no time has
passed. -/
structure SameTimes (account : AccountName) (s t : Database) : Prop where
  accounts : t.accounts.rows.map (timeOf account) = s.accounts.rows.map (timeOf account)
  now : t.headBlockTime = s.headBlockTime

namespace SameTimes

theorem edit (h : SameTimes account s t) (he : Edited t u name a b)
    (hsame : timeOf account b = timeOf account a) : SameTimes account s u :=
  ⟨(he.replaces.map_eq hsame).trans h.accounts, by
    rw [← h.now, he.rest]
    rfl⟩

theorem modifyProps (h : SameTimes account s t) {f : GlobalProperties → GlobalProperties}
    (hf : (f t.props).time = t.props.time) :
    Returns (t.modifyProps f) (SameTimes account s) :=
  (modifyProps_spec t f).mono fun u ⟨_, hu⟩ => by
    rw [hu]
    exact ⟨h.accounts, hf.trans h.now⟩

theorem adjustProxiedWitnessVotes (h : SameTimes account s t) (name : AccountName) (d : Int) :
    Returns (t.adjustProxiedWitnessVotes name d) (SameTimes account s) := by
  refine ((OnlyVotes.refl t).adjustProxiedWitnessVotes name d).mono fun u hu => ?_
  have htimes := congrArg (List.map (timeOf account)) hu.accounts
  rw [List.map_map, List.map_map] at htimes
  refine ⟨Eq.trans ?_ h.accounts, ?_⟩
  · exact htimes
  · rw [← h.now, hu.rest]
    rfl

end SameTimes

theorem processVestingWithdrawal_sameTimes (s : Database) (account : AccountName) :
    Returns (s.processVestingWithdrawal account) (SameTimes account s) := by
  refine processVestingWithdrawal_cases ?_ ?_ ?_ ?_ ?_ ⟨rfl, rfl⟩
  · exact fun name x ht => (modifyAccount_spec _ name _).mono fun u ⟨c, he⟩ => ht.edit he rfl
  · exact fun name x ht => (modifyAccount_spec _ name _).mono fun u ⟨c, he⟩ => ht.edit he rfl
  · refine fun w x ht => (modifyAccount_spec _ account _).mono fun u ⟨c, he⟩ => ht.edit he ?_
    have hname : c.name = account := he.name_eq
    unfold timeOf Account.withdrawWeek
    dsimp only
    rw [if_pos hname, if_pos hname]
  · exact fun x y ht => ht.modifyProps rfl
  · exact fun name d ht => ht.adjustProxiedWitnessVotes name d

/-! ## The order of the accounts -/

/-- The place of an account in `by_next_vesting_withdrawal`. -/
def place (a : Account) : Nat ×ₗ AccountName := toLex (a.nextVestingWithdrawal, a.name)

theorem withdrawsBefore_iff : withdrawsBefore a b = true ↔ place a < place b := by
  unfold withdrawsBefore place
  rw [decide_eq_true_eq, Prod.Lex.toLex_lt_toLex]

theorem withdrawsAfter_mem (h : s.withdrawsAfter a = some b) :
    b ∈ s.accounts.rows ∧ place a < place b := by
  have hmem := Table.mem_of_least h
  obtain ⟨hb, hlt⟩ := List.mem_filter.mp hmem
  exact ⟨hb, withdrawsBefore_iff.mp hlt⟩

/-- The places up to the time of the head block that are not before `p`. -/
def ahead (s : Database) (p : Nat ×ₗ AccountName) : Finset (Nat × AccountName) :=
  (Finset.range (s.headBlockTime + 1) ×ˢ (s.accounts.rows.map Account.name).toFinset).filter
    fun q => p ≤ toLex q

/-- The loop moves on. -/
theorem ahead_card_lt (ha : a ∈ s.accounts.rows) (hdue : a.nextVestingWithdrawal ≤ s.headBlockTime)
    (hlt : place a < place b) : (s.ahead (place b)).card < (s.ahead (place a)).card := by
  apply Finset.card_lt_card
  refine ⟨fun q hq => ?_, fun hsub => ?_⟩
  · obtain ⟨hmem, hle⟩ := Finset.mem_filter.mp hq
    exact Finset.mem_filter.mpr ⟨hmem, hlt.le.trans hle⟩
  · have hself : (a.nextVestingWithdrawal, a.name) ∈ s.ahead (place a) := by
      refine Finset.mem_filter.mpr ⟨Finset.mem_product.mpr ⟨?_, ?_⟩, le_rfl⟩
      · exact Finset.mem_range.mpr (Nat.lt_succ_of_le hdue)
      · exact List.mem_toFinset.mpr (List.mem_map_of_mem ha)
    exact absurd (Finset.mem_filter.mp (hsub hself)).2 (not_le.mpr hlt)

theorem SameTimes.names (h : SameTimes account s t) :
    t.accounts.rows.map Account.name = s.accounts.rows.map Account.name := by
  have hnames := congrArg (List.map Prod.fst) h.accounts
  rwa [List.map_map, List.map_map] at hnames

theorem SameTimes.ahead_eq (h : SameTimes account s t) (p : Nat ×ₗ AccountName) :
    t.ahead p = s.ahead p := by
  unfold ahead
  rw [h.now, h.names]

/-- Another account is where it was. -/
theorem SameTimes.found (h : SameTimes account s t)
    (hnames : (s.accounts.rows.map Account.name).Nodup)
    (hb : b ∈ s.accounts.rows) (hne : b.name ≠ account) :
    ∃ c ∈ t.accounts.rows, t.getAccount b.name = .ok c ∧ place c = place b := by
  have hmem : timeOf account b ∈ t.accounts.rows.map (timeOf account) := by
    rw [h.accounts]
    exact List.mem_map_of_mem hb
  obtain ⟨c, hc, htime⟩ := List.mem_map.mp hmem
  obtain ⟨hname, hnext⟩ := Prod.mk.inj htime
  rw [hname, if_neg hne, if_neg hne] at hnext
  refine ⟨c, hc, ?_, by rw [place, place, hname, hnext]⟩
  rw [← hname]
  exact require_eq_ok.mpr (find?_eq_some_of_nodup (h.names ▸ hnames) hc)

/-! ## Runs -/

/-- GBC turned into shares, and the fee `initminer` delegates, is worth fewer
than `2 ^ 63` shares. -/
def sharesStay (s : Database) (c : Call) : Prop := sharesFit s c ∧ feeFits s c

instance (s : Database) (c : Call) : Decidable (sharesStay s c) :=
  inferInstanceAs (Decidable (_ ∧ _))

theorem leaving_genesis (supply : Int) : (genesis supply).accounts.All Leaving := by
  intro a ha
  have hcovered := covered_genesis supply a ha
  simp only [genesis, List.mem_cons, List.not_mem_nil, or_false] at ha
  rcases ha with rfl | rfl | rfl | rfl <;> exact ⟨le_rfl, hcovered⟩

theorem Reachable.leaving (h : Reachable sharesStay s) : s.accounts.All Leaving := by
  refine h.invariant leaving_genesis (fun s t c hs hall hc ht => ?_) fun s t hs hst =>
    (SamePower.of_sameStake hst).all hs leaving_kept.congr
  have hdelegated : Delegated s := (hs.mono fun _ _ hc => hc.2).delegated
  refine leaving_kept.perform hall (Delegations.names hdelegated) c hc.1 (fun fee hfee a _ _ => ?_)
    (fun e he a ha hname => (hdelegated.back e he a ha hname).2) t ht
  have hsame : toInt64 (s.props.sharesFor fee) = s.props.sharesFor fee := if_pos (hc.2 fee hfee)
  rw [hsame]
  exact s.props.sharesFor_nonneg fee

theorem Reachable.sound (h : Reachable sharesStay s) : Sound s where
  tallied := h.tallied
  accounted := h.accounted.1
  routed := h.accounted.2
  shares := (h.mono fun _ _ hc => hc.1).shares_nonneg
  leaving := h.leaving

/-- The loop, at the account `current` in the state `s`, comes to the withdrawal
of `a` in the state `u`. -/
inductive Visits : Database → Option AccountName → Database → Account → Prop
  | here {s : Database} {current : AccountName} {a : Account} (ha : s.getAccount current = .ok a)
      (hdue : a.nextVestingWithdrawal ≤ s.headBlockTime) : Visits s (some current) s a
  | later {s t u : Database} {current : AccountName} {a c : Account}
      (ha : s.getAccount current = .ok a) (hdue : a.nextVestingWithdrawal ≤ s.headBlockTime)
      (ht : s.processVestingWithdrawal current = .ok t)
      (h : Visits t ((s.withdrawsAfter a).map Account.name) u c) : Visits s (some current) u c

/-- The loop from an account on. -/
theorem processFrom_returns (hs : Reachable sharesStay s) (ha : a ∈ s.accounts.rows)
    (hroom : ∀ u c, Visits s (some a.name) u c → Withdrawable u c) :
    ∃ fuel t, processFrom fuel s (some a.name) = .ok t := by
  -- the induction is on how many places are ahead
  obtain ⟨n, hn⟩ : ∃ n, (s.ahead (place a)).card = n := ⟨_, rfl⟩
  induction n using Nat.strong_induction_on generalizing s a with
  | _ n ih =>
      have hnames := Books.names hs.tallied
      have hfound : s.getAccount a.name = .ok a :=
        require_eq_ok.mpr (find?_eq_some_of_nodup hnames ha)
      by_cases hdue : a.nextVestingWithdrawal ≤ s.headBlockTime
      · obtain ⟨t, ht, -⟩ := processVestingWithdrawal_completes hs.sound
          (hroom s a (.here hfound hdue)) hfound hdue
        have hstep : Reachable sharesStay t := by
          refine .step hs ⟨fun _ hamount => ?_, fun _ hfee => ?_⟩
            (.call (c := .processVestingWithdrawal a.name) ht)
          · cases hamount
          · cases hfee
        have hbody : ∀ fuel, processFrom (fuel + 1) s (some a.name) =
            processFrom fuel t ((s.withdrawsAfter a).map Account.name) := by
          intro fuel
          rw [processFrom, hfound]
          show (if a.nextVestingWithdrawal ≤ s.headBlockTime then _ else _) = _
          rw [if_pos hdue, ht]
          rfl
        cases hnext : s.withdrawsAfter a with
        | none =>
            refine ⟨2, t, ?_⟩
            rw [hbody, hnext]
            rfl
        | some b =>
            obtain ⟨hb, hlt⟩ := withdrawsAfter_mem hnext
            have hne : b.name ≠ a.name := by
              intro heq
              have hsame : b = a := List.inj_on_of_nodup_map hnames hb ha heq
              exact absurd (hsame ▸ hlt) (lt_irrefl _)
            have htimes := processVestingWithdrawal_sameTimes s a.name t ht
            obtain ⟨c, hc, hfoundc, hplace⟩ := htimes.found hnames hb hne
            have hcname := (getAccount_mem hfoundc).2
            have hless : (t.ahead (place c)).card < n := by
              rw [htimes.ahead_eq, hplace, ← hn]
              exact ahead_card_lt ha hdue hlt
            have hlater : ∀ u c', Visits t (some c.name) u c' → Withdrawable u c' := by
              intro u c' hvisits
              refine hroom u c' (.later hfound hdue ht ?_)
              rw [hnext, Option.map_some, ← hcname]
              exact hvisits
            obtain ⟨fuel, v, hv⟩ := ih _ hless hstep hc hlater rfl
            refine ⟨fuel + 1, v, ?_⟩
            rw [hbody, hnext, Option.map_some, ← hcname]
            exact hv
      · refine ⟨1, s, ?_⟩
        rw [processFrom, hfound]
        show (if a.nextVestingWithdrawal ≤ s.headBlockTime then _ else _) = _
        rw [if_neg hdue]
        rfl

/-- **Processing the withdrawals returns**, if each withdrawal finds room. -/
theorem power_downs_processed (h : Reachable sharesStay s)
    (hroom : ∀ u a, Visits s s.firstWithdrawal u a → Withdrawable u a) :
    ∃ fuel t, s.processVestingWithdrawals fuel = .ok t := by
  unfold processVestingWithdrawals
  cases hfirst : s.accounts.first withdrawsBefore with
  | none =>
      have hnone : s.firstWithdrawal = none := by
        unfold firstWithdrawal
        rw [hfirst]
        rfl
      exact ⟨1, s, by rw [hnone]; rfl⟩
  | some a =>
      have hsome : s.firstWithdrawal = some a.name := by
        unfold firstWithdrawal
        rw [hfirst]
        rfl
      rw [hsome] at hroom ⊢
      exact processFrom_returns h (Table.mem_of_least hfirst) hroom

instance (s : Database) (a : Account) : Decidable (Withdrawable s a) :=
  decidable_of_iff (s.props.fits = true ∧ (∀ c ∈ s.accounts.rows, c.fits = true) ∧
    (0 < s.props.totalVestingShares → 0 < s.props.totalVestingFundGbc) ∧
    (∀ c ∈ s.accounts.rows, c.balance + s.props.totalVestingFundGbc < 9223372036854775808) ∧
    s.props.totalVestingShares + sumOf (sharesAlong a) (s.routesOf a.name) <
      9223372036854775808 ∧
    ∀ w ∈ s.witnesses.rows,
      (∃ r ∈ s.routesOf a.name, 0 < sharesAlong a r ∧ s.supports r.toAccount w.owner) →
      w.votes + s.supportAlong a w.owner (s.routesOf a.name) ≤ s.props.totalVestingShares)
    ⟨fun ⟨h₁, h₂, h₃, h₄, h₅, h₆⟩ => ⟨h₁, h₂, h₃, h₄, h₅, h₆⟩,
      fun ⟨h₁, h₂, h₃, h₄, h₅, h₆⟩ => ⟨h₁, h₂, h₃, h₄, h₅, h₆⟩⟩

/-- Walks the loop and looks whether each withdrawal it comes to finds room. -/
def findsRoom : Nat → Database → Option AccountName → Bool
  | _, _, none => true
  | 0, _, some _ => false
  | fuel + 1, s, some current =>
      match s.getAccount current with
      | .error _ => true
      | .ok a =>
          if a.nextVestingWithdrawal ≤ s.headBlockTime then
            decide (Withdrawable s a) &&
              match s.processVestingWithdrawal current with
              | .error _ => true
              | .ok t => findsRoom fuel t ((s.withdrawsAfter a).map Account.name)
          else true

theorem Visits.withdrawable {u : Database} {c : Account} {current : Option AccountName} {fuel : Nat}
    (h : Visits s current u c) (hroom : findsRoom fuel s current = true) : Withdrawable u c := by
  induction h generalizing fuel with
  | here ha hdue =>
      cases fuel with
      | zero => cases hroom
      | succ fuel =>
          rw [findsRoom, ha] at hroom
          dsimp only at hroom
          rw [if_pos hdue, Bool.and_eq_true] at hroom
          exact of_decide_eq_true hroom.1
  | later ha hdue ht _ ih =>
      cases fuel with
      | zero => cases hroom
      | succ fuel =>
          rw [findsRoom, ha] at hroom
          dsimp only at hroom
          rw [if_pos hdue, Bool.and_eq_true, ht] at hroom
          exact ih hroom.2

/-- `initminer` powers down, to `alice`, and both vote for the only witness. -/
def powerDownTo (autoVest : Bool) : List Call :=
  [.accountCreate "initminer" "alice" [] 0, .transferToVesting "initminer" "" (.gbc 1000),
    .accountWitnessVote "initminer" "initminer" true, .accountWitnessVote "alice" "initminer" true,
    .setWithdrawVestingRoute "initminer" "alice" 10000 autoVest,
    .withdrawVesting "initminer" 1000000]

/-- Paid out in GBC, the same withdrawal is processed. -/
theorem power_downs_processed_in_gbc :
    ∃ s, Reachable sharesStay s ∧ ∃ fuel t, s.processVestingWithdrawals fuel = .ok t := by
  obtain ⟨t, hrun, hroom⟩ := exists_run sharesStay (genesis 1000) (powerDownTo false)
    (fun t => findsRoom 5 (t.atTime 1459440000) (t.atTime 1459440000).firstWithdrawal &&
      ((t.atTime 1459440000).getAccount "initminer").toOption.any (fun a =>
        a.nextVestingWithdrawal ≤ (t.atTime 1459440000).headBlockTime))
    (by decide +kernel)
  rw [Bool.and_eq_true] at hroom
  have hreached : Reachable sharesStay (t.atTime 1459440000) := by
    refine .step (.run (.genesis 1000) hrun) ⟨fun _ hamount => ?_, fun _ hfee => ?_⟩
      (atTime_step t _)
    · cases hamount
    · cases hfee
  exact ⟨t.atTime 1459440000, hreached,
    power_downs_processed hreached fun _ _ hvisits => hvisits.withdrawable hroom.1⟩

/-- If the first withdrawal throws, so does the loop. -/
theorem processVestingWithdrawals_throws (hfirst : s.firstWithdrawal = some name)
    (hdue : (s.getAccount name).toOption.any
      (fun a => a.nextVestingWithdrawal ≤ s.headBlockTime) = true)
    (hthrows : (s.processVestingWithdrawal name).toOption.isNone = true) :
    ¬∃ fuel t, s.processVestingWithdrawals fuel = .ok t := by
  rintro ⟨fuel, t, ht⟩
  unfold processVestingWithdrawals at ht
  rw [hfirst] at ht
  cases fuel with
  | zero => cases ht
  | succ fuel =>
      rw [processFrom] at ht
      obtain ⟨a, ha, ht⟩ := bind_eq_ok.mp ht
      rw [ha] at hdue
      have hle : a.nextVestingWithdrawal ≤ s.headBlockTime := of_decide_eq_true hdue
      rw [if_pos hle] at ht
      obtain ⟨u, hu, -⟩ := bind_eq_ok.mp ht
      rw [hu] at hthrows
      cases hthrows

/-- A week later, the shares that `alice` gets would be voted for twice. -/
theorem power_down_blocks :
    ∃ s, Reachable anyCall s ∧ ¬∃ fuel t, s.processVestingWithdrawals fuel = .ok t := by
  obtain ⟨t, hrun, hfails⟩ := exists_run anyCall (genesis 1000) (powerDownTo true)
    (fun t => (t.atTime 1459440000).firstWithdrawal = some "initminer" &&
      ((t.atTime 1459440000).getAccount "initminer").toOption.any (fun a =>
        a.nextVestingWithdrawal ≤ (t.atTime 1459440000).headBlockTime) &&
      ((t.atTime 1459440000).processVestingWithdrawal "initminer").toOption.isNone)
    (by decide +kernel)
  rw [Bool.and_eq_true, Bool.and_eq_true, decide_eq_true_eq] at hfails
  obtain ⟨⟨hfirst, hdue⟩, hthrows⟩ := hfails
  exact ⟨t.atTime 1459440000, .step (.run (.genesis 1000) hrun) trivial (atTime_step t _),
    processVestingWithdrawals_throws hfirst hdue hthrows⟩

end Database

end Gamebank.Ledger
