import Gamebank.Stake.DueWithdrawals

/-!
# The instalments of a power-down

A power-down is a promise of shares, and each week keeps a part of it. What an
account has promised and has withdrawn so far is its plan: only `withdraw_vesting`
and the weekly withdrawal change it (`perform_samePlan`). So the instalments
add up to what has been withdrawn, and what has been withdrawn stays below the
promise and reaches it when the rate is reset. A plan cannot be given up: the
branch of `withdraw_vesting` that would is behind an assertion that refuses it.
-/

namespace Gamebank.Ledger

open Gamebank.Lib Gamebank.Protocol

/-- What an account withdraws: each week, in all, and so far. -/
def Account.plan (a : Account) : Int × Int × Int :=
  (a.vestingWithdrawRate, a.toWithdraw, a.withdrawn)

namespace Database

variable {s t u : Database} {account name : AccountName} {a a' c : Account}

/-! ## The plan is left alone -/

/-- The account is still there, and its plan is what it was. -/
def SamePlan (account : AccountName) (s t : Database) : Prop :=
  ∀ a ∈ s.accounts.rows, a.name = account →
    ∃ a' ∈ t.accounts.rows, a'.name = account ∧ a'.plan = a.plan

namespace SamePlan

theorem refl (account : AccountName) (s : Database) : SamePlan account s s :=
  fun a ha hname => ⟨a, ha, hname, rfl⟩

theorem trans (h : SamePlan account s t) (h' : SamePlan account t u) : SamePlan account s u := by
  intro a ha hname
  obtain ⟨b, hb, hbname, hbplan⟩ := h a ha hname
  obtain ⟨c, hc, hcname, hcplan⟩ := h' b hb hbname
  exact ⟨c, hc, hcname, hcplan.trans hbplan⟩

theorem of_samePower (h : SamePower s t) : SamePlan account s t := by
  intro a ha hname
  have hmem : a.power ∈ t.accounts.rows.map Account.power := by
    rw [h.accounts]
    exact List.mem_map_of_mem ha
  obtain ⟨b, hb, hpower⟩ := List.mem_map.mp hmem
  have hbname := congrArg Account.name hpower
  have hbplan := congrArg Account.plan hpower
  exact ⟨b, hb, hbname.trans hname, hbplan⟩

/-- An account is modified: another one, or in something else. -/
theorem of_edited (he : Edited s t name a a') (hname : a'.name = a.name)
    (hplan : a.name = account → a'.plan = a.plan) : SamePlan account s t := by
  intro b hb hbname
  rcases he.replaces.mem_of_mem hb with rfl | hb
  · exact ⟨a', he.replaces.mem_new, hname.trans hbname, hplan hbname⟩
  · exact ⟨b, hb, hbname, rfl⟩

theorem rows (h : SamePlan account s t) (hrows : u.accounts.rows = t.accounts.rows) :
    SamePlan account s u := by
  intro a ha hname
  rw [hrows]
  exact h a ha hname

theorem modifyAccount (h : SamePlan account s t) (name : AccountName) {f : Account → Account}
    (hname : ∀ a, (f a).name = a.name) (hplan : ∀ a, (f a).plan = a.plan) :
    Returns (t.modifyAccount name f) (SamePlan account s) :=
  (modifyAccount_spec t name f).mono fun _ ⟨a, he⟩ =>
    h.trans (.of_edited he (hname a) fun _ => hplan a)

theorem modifyProps (h : SamePlan account s t) (f : GlobalProperties → GlobalProperties) :
    Returns (t.modifyProps f) (SamePlan account s) := by
  refine (modifyProps_spec t f).mono fun u hu => h.rows ?_
  rw [hu.2]

theorem adjustProxiedWitnessVotes (h : SamePlan account s t) (name : AccountName) (d : Int) :
    Returns (t.adjustProxiedWitnessVotes name d) (SamePlan account s) :=
  ((SamePower.refl t).adjustProxiedWitnessVotes name d).mono fun _ hu => h.trans (.of_samePower hu)

theorem createVesting (h : SamePlan account s t) (name : AccountName) (liquid : Asset) :
    Returns (t.createVesting name liquid) (SamePlan account s) := by
  refine createVesting_cases t name liquid fun _ shares _ _ _ u a he v hv => ?_
  have hu := h.trans (.of_edited he rfl fun _ => rfl)
  exact (hu.rows (u := v) (by rw [hv])).adjustProxiedWitnessVotes name _

theorem createAccount (h : SamePlan account s t) (newName creator : AccountName) (received : Int) :
    Returns (t.createAccount newName creator received) (SamePlan account s) := by
  refine (createAccount_spec t newName creator received).mono fun u ⟨_, a, _, hu⟩ => ?_
  intro b hb hname
  obtain ⟨c, hc, hplan⟩ := h b hb hname
  rw [hu]
  exact ⟨c, List.mem_append_left _ hc, hplan⟩

theorem createDelegation (h : SamePlan account s t) (delegator delegatee : AccountName)
    (shares : Int) : SamePlan account s (t.createDelegation delegator delegatee shares) :=
  h.rows (by rw [(createDelegation_accounts t delegator delegatee shares).1])

end SamePlan

/-! ## One instalment -/

/-- The vesting shares of the account `name`. -/
def held (s : Database) (name : AccountName) : Int :=
  s.accounts.total fun a => if a.name = name then a.vestingShares else 0

/-- What goes along a route when `removed` shares are withdrawn: to the
account `name` as shares, ... -/
def vestsTo (removed : Int) (name : AccountName) (r : WithdrawVestingRoute) : Int :=
  if r.autoVest ∧ r.toAccount = name then depositOf removed r else 0

/-- ... as shares at all, ... -/
def asVests (removed : Int) (r : WithdrawVestingRoute) : Int :=
  if r.autoVest then depositOf removed r else 0

/-- ... and as GBC. -/
def asGbc (removed : Int) (r : WithdrawVestingRoute) : Int :=
  if r.autoVest then 0 else depositOf removed r

/-- `account` has been debited `removed` shares, of which `converted` were
converted for itself and the rest went along its routes. -/
structure Pays (account : AccountName) (removed converted : Int) (s t : Database) : Prop where
  nonneg : 0 ≤ removed ∧ 0 ≤ converted
  along : ∀ r ∈ s.routesOf account, 0 ≤ depositOf removed r
  held : ∀ name, t.held name = s.held name + sumOf (vestsTo removed name) (s.routesOf account)
    - if name = account then removed else 0
  total : t.props.totalVestingShares =
    s.props.totalVestingShares - sumOf (asGbc removed) (s.routesOf account) - converted
  split : sumOf (depositOf removed) (s.routesOf account) + converted = removed

theorem held_edited {d : Int} (he : Edited s t name a a') (hname : a'.name = a.name)
    (hshares : a'.vestingShares = a.vestingShares + d) (n : AccountName) :
    t.held n = s.held n + if name = n then d else 0 := by
  have hsum := he.replaces.sumOf_eq fun a => if a.name = n then a.vestingShares else 0
  change t.held n = s.held n - _ + _ at hsum
  rw [hsum, hname, hshares, he.name_eq]
  split
  · omega
  · omega

theorem held_samePower (h : SamePower s t) (n : AccountName) : t.held n = s.held n :=
  sumOf_eq_of_map_eq h.accounts fun _ => rfl

theorem SamePower.names (h : SamePower s t) :
    t.accounts.rows.map Account.name = s.accounts.rows.map Account.name :=
  map_eq_of_map_eq h.accounts fun _ => rfl

/-- Between two routes of the first pass. -/
structure VestsPass (s : Database) (removed : Int) (routes todo : List WithdrawVestingRoute)
    (st : Database × Int) : Prop where
  held : ∀ n, st.1.held n + sumOf (vestsTo removed n) todo =
    s.held n + sumOf (vestsTo removed n) routes
  total : st.1.props.totalVestingShares = s.props.totalVestingShares
  sum : st.2 + sumOf (asVests removed) todo = sumOf (asVests removed) routes
  plan : ∀ n, SamePlan n s st.1
  names : st.1.accounts.rows.map Account.name = s.accounts.rows.map Account.name

/-- Between two routes of the second pass. -/
structure GbcPass (s : Database) (removed : Int) (routes todo : List WithdrawVestingRoute)
    (st : Database × Int) : Prop where
  held : ∀ n, st.1.held n = s.held n
  total : st.1.props.totalVestingShares - sumOf (asGbc removed) todo =
    s.props.totalVestingShares - sumOf (asGbc removed) routes
  sum : st.2 + sumOf (asGbc removed) todo = sumOf (asGbc removed) routes
  plan : ∀ n, SamePlan n s st.1
  names : st.1.accounts.rows.map Account.name = s.accounts.rows.map Account.name

section

variable {removed : Int} {routes rest : List WithdrawVestingRoute} {r : WithdrawVestingRoute}
  {st : Database × Int}

theorem VestsPass.skip (h : VestsPass s removed routes (r :: rest) st)
    (hzero : asVests removed r = 0) : VestsPass s removed routes rest st where
  held := by
    intro n
    have hheld := h.held n
    have hnone : vestsTo removed n r = 0 := by
      unfold vestsTo asVests at *
      split
      next hto =>
        rw [if_pos hto.1] at hzero
        exact hzero
      · rfl
    rwa [sumOf_cons, hnone, zero_add] at hheld
  total := h.total
  sum := by
    have hsum := h.sum
    rwa [sumOf_cons, hzero, zero_add] at hsum
  plan := h.plan
  names := h.names

theorem VestsPass.step (h : VestsPass s removed routes (r :: rest) st)
    (hdeposit : routeDeposit removed r = .ok (depositOf removed r))
      (hnonneg : 0 ≤ depositOf removed r) :
    Returns (depositVests removed st r) (VestsPass s removed routes rest) := by
  unfold Database.depositVests
  refine .ite (fun hauto => ?_) fun hauto => .ok (h.skip (if_neg hauto))
  have hvests : asVests removed r = depositOf removed r := if_pos hauto
  refine .bind_eq fun deposit heq => .ensure fun _ => .ite (fun hpos => ?_) fun hzero => .pure ?_
  · obtain rfl := Except.ok.inj (heq.symm.trans hdeposit)
    refine .bind (modifyAccount_spec st.1 r.toAccount _) fun t ⟨a, he⟩ => ?_
    refine .bind ((OnlyVotes.refl t).adjustProxiedWitnessVotes r.toAccount _) fun u hu => .pure ?_
    have hpower := SamePower.of_onlyVotes hu
    exact
      { held := by
          intro n
          have hheld := h.held n
          have hto : vestsTo removed n r = if r.toAccount = n then depositOf removed r else 0 := by
            unfold vestsTo
            simp only [hauto, true_and]
          rw [sumOf_cons, hto] at hheld
          dsimp only
          rw [held_samePower hpower, held_edited he rfl rfl]
          omega
        total := by
          dsimp only
          rw [hu.rest, he.rest]
          exact h.total
        sum := by
          have hsum := h.sum
          rw [sumOf_cons, hvests] at hsum
          dsimp only
          omega
        plan := fun n => (h.plan n).trans
          ((SamePlan.of_edited he rfl fun _ => rfl).trans (.of_samePower hpower))
        names := (hpower.names.trans (he.replaces.map_eq rfl)).trans h.names }
  · obtain rfl := Except.ok.inj (heq.symm.trans hdeposit)
    have hnone : depositOf removed r = 0 := by omega
    rw [hnone, add_zero]
    exact h.skip (hvests.trans hnone)

theorem GbcPass.skip (h : GbcPass s removed routes (r :: rest) st) (hzero : asGbc removed r = 0) :
    GbcPass s removed routes rest st where
  held := h.held
  total := by
    have htotal := h.total
    rwa [sumOf_cons, hzero, zero_add] at htotal
  sum := by
    have hsum := h.sum
    rwa [sumOf_cons, hzero, zero_add] at hsum
  plan := h.plan
  names := h.names

theorem GbcPass.step (h : GbcPass s removed routes (r :: rest) st)
    (hdeposit : routeDeposit removed r = .ok (depositOf removed r))
      (hnonneg : 0 ≤ depositOf removed r) :
    Returns (depositGbc removed st r) (GbcPass s removed routes rest) := by
  unfold Database.depositGbc
  refine .ite (fun hauto => .ok (h.skip (if_pos hauto))) fun hauto => .bind_any fun _ => ?_
  have hgbc : asGbc removed r = depositOf removed r := if_neg hauto
  refine .bind_eq fun deposit heq => .ensure fun _ => .bind_any fun _ => .bind_any fun converted =>
    .ite (fun hpos => ?_) fun hzero => .pure ?_
  · obtain rfl := Except.ok.inj (heq.symm.trans hdeposit)
    refine .bind (modifyAccount_spec st.1 r.toAccount _) fun t ⟨a, he⟩ => ?_
    refine .bind (modifyProps_spec t _) fun u ⟨_, hu⟩ => .pure ?_
    exact
      { held := by
          intro n
          have hheld : t.held n = st.1.held n + _ :=
            held_edited he rfl (add_zero _).symm n
          have hsame : u.held n = t.held n := by rw [hu]; rfl
          dsimp only
          rw [hsame, hheld, ite_self, add_zero]
          exact h.held n
        total := by
          have htotal := h.total
          rw [sumOf_cons, hgbc] at htotal
          have hprops : t.props = st.1.props := by rw [he.rest]
          rw [hu]
          dsimp only
          rw [hprops]
          omega
        sum := by
          have hsum := h.sum
          rw [sumOf_cons, hgbc] at hsum
          dsimp only
          omega
        plan := fun n => ((h.plan n).trans (.of_edited he rfl fun _ => rfl)).rows (by rw [hu])
        names := by
          have hnames := (he.replaces.map_eq (g := Account.name) rfl).trans h.names
          rw [hu]
          exact hnames }
  · obtain rfl := Except.ok.inj (heq.symm.trans hdeposit)
    have hnone : depositOf removed r = 0 := by omega
    rw [hnone, add_zero]
    exact h.skip (hgbc.trans hnone)

end

/-- What the account `account` withdraws is one instalment on, and the plans of
the others are what they were. -/
structure Advances (account : AccountName) (removed : Int) (s t : Database) : Prop where
  others : ∀ name, name ≠ account → SamePlan name s t
  toWithdraw : ∀ a ∈ s.accounts.rows, a.name = account → ∃ a' ∈ t.accounts.rows,
    a'.name = account ∧ a'.toWithdraw = a.toWithdraw ∧ a'.withdrawn = a.withdrawn + removed

theorem Advances.of_edited {removed : Int} (he : Edited s t account a a') (hname : a'.name = a.name)
    (htoWithdraw : a'.toWithdraw = a.toWithdraw) (hwithdrawn : a'.withdrawn = a.withdrawn + removed)
    (hnames : (s.accounts.rows.map Account.name).Nodup) : Advances account removed s t where
  others := fun name hne => .of_edited he hname fun heq => absurd (heq.symm.trans he.name_eq) hne
  toWithdraw := by
    intro b hb hbname
    obtain rfl := List.inj_on_of_nodup_map hnames hb he.mem (hbname.trans he.name_eq.symm)
    exact ⟨a', he.replaces.mem_new, hname.trans hbname, htoWithdraw, hwithdrawn⟩

theorem Advances.of_plans {removed : Int} (h : ∀ n, SamePlan n s t)
    (h' : Advances account removed t u) :
    Advances account removed s u where
  others := fun name hne => (h name).trans (h'.others name hne)
  toWithdraw := by
    intro a ha hname
    obtain ⟨b, hb, hbname, hplan⟩ := h account a ha hname
    obtain ⟨c, hc, hcname, hto, hwithdrawn⟩ := h'.toWithdraw b hb hbname
    have hbto : b.toWithdraw = a.toWithdraw := congrArg (fun plan => plan.2.1) hplan
    have hbwithdrawn : b.withdrawn = a.withdrawn := congrArg (fun plan => plan.2.2) hplan
    exact ⟨c, hc, hcname, hto.trans hbto, by rw [hwithdrawn, hbwithdrawn]⟩

theorem Advances.then_plans {removed : Int} (h : Advances account removed s t)
    (h' : ∀ n, SamePlan n t u) : Advances account removed s u where
  others := fun name hne => (h.others name hne).trans (h' name)
  toWithdraw := by
    intro a ha hname
    obtain ⟨b, hb, hbname, hbto, hbwithdrawn⟩ := h.toWithdraw a ha hname
    obtain ⟨c, hc, hcname, hplan⟩ := h' account b hb hbname
    have hcto : c.toWithdraw = b.toWithdraw := congrArg (fun plan => plan.2.1) hplan
    have hcwithdrawn : c.withdrawn = b.withdrawn := congrArg (fun plan => plan.2.2) hplan
    exact ⟨c, hc, hcname, hcto.trans hbto, hcwithdrawn.trans hbwithdrawn⟩

/-- Votes that are carried to the witnesses are no part of it. -/
theorem Pays.onlyVotes {removed converted : Int} (h : Pays account removed converted s t)
    (hvotes : OnlyVotes t u) : Pays account removed converted s u :=
  { h with
    held := fun n => (held_samePower (.of_onlyVotes hvotes) n).trans (h.held n)
    total := by
      rw [hvotes.rest]
      exact h.total }

theorem sumOf_split (removed : Int) (routes : List WithdrawVestingRoute) :
    sumOf (asVests removed) routes + sumOf (asGbc removed) routes =
      sumOf (depositOf removed) routes := by
  rw [← sumOf_add]
  apply sumOf_congr
  intro r _
  unfold asVests asGbc
  split
  · rw [add_zero]
  · rw [zero_add]

theorem Leaving.instalment {removed : Int} (ha : Leaving a) (h : weeklyWithdrawal a = .ok removed) :
    0 ≤ removed ∧ a.withdrawn + removed ≤ a.toWithdraw := by
  have hleaving := ha.2.leaving
  have hweek := weeklyWithdrawal_of_covered ha.2 removed h
  dsimp only [Account.undelegated] at hleaving hweek
  omega

/-- **The instalment of one account**: all that is removed goes along the routes
or is converted. -/
theorem processVestingWithdrawal_pays (hs : Reachable sharesStay s)
    (ha : s.getAccount account = .ok a) :
    Returns (s.processVestingWithdrawal account) fun t => ∃ removed converted,
      weeklyWithdrawal a = .ok removed ∧ Pays account removed converted s t ∧
        Advances account removed s t := by
  obtain ⟨hmem, hname⟩ := getAccount_mem ha
  unfold Database.processVestingWithdrawal
  refine .bind_eq fun a' ha' => .ensure fun _ => .bind_eq fun removed hweek => ?_
  obtain rfl := Except.ok.inj (ha'.symm.trans ha)
  have hbounded := Books.bounded hs.tallied a' hmem
  have hle := weeklyWithdrawal_le a' removed hweek
  obtain ⟨hremoved, -⟩ := (hs.leaving a' hmem).instalment hweek
  have hpercents : ∀ r ∈ s.routesOf account, 0 ≤ r.percent ∧ r.percent ≤ hundredPercent :=
    fun r hr => Books.percents hs.tallied r (mem_routesOf hr)
  have hdeposit : ∀ r ∈ s.routesOf account, routeDeposit removed r = .ok (depositOf removed r) :=
    fun r hr => routeDeposit_eq hremoved (hle.trans_lt hbounded.belowMax) (hpercents r hr)
  have hnonneg : ∀ r ∈ s.routesOf account, 0 ≤ depositOf removed r := fun r hr =>
    depositOf_nonneg hremoved (hpercents r hr).1
  -- the two passes over the routes
  refine .bind (Returns.foldlM_rest (I := fun todo st => (∀ r ∈ todo, r ∈ s.routesOf account) ∧
      VestsPass s removed (s.routesOf account) todo st) (fun r rest st hst => ?_)
    ⟨fun _ hr => hr, fun _ => rfl, rfl, zero_add _, fun n => .refl n s, rfl⟩)
    fun ⟨t, asVests⟩ ⟨_, ht⟩ => ?_
  · have hr := hst.1 r List.mem_cons_self
    exact (hst.2.step (hdeposit r hr) (hnonneg r hr)).mono fun _ h =>
      ⟨fun r hr => hst.1 r (List.mem_cons_of_mem _ hr), h⟩
  refine .bind (Returns.foldlM_rest (I := fun todo st => (∀ r ∈ todo, r ∈ s.routesOf account) ∧
      GbcPass t removed (s.routesOf account) todo st) (fun r rest st hst => ?_)
    ⟨fun _ hr => hr, fun _ => rfl, rfl, zero_add _, fun n => .refl n t, rfl⟩)
    fun ⟨u, asGbc⟩ ⟨_, hu⟩ => ?_
  · have hr := hst.1 r List.mem_cons_self
    exact (hst.2.step (hdeposit r hr) (hnonneg r hr)).mono fun _ h =>
      ⟨fun r hr => hst.1 r (List.mem_cons_of_mem _ hr), h⟩
  have hsumVests := ht.sum
  have hsumGbc := hu.sum
  have hsplit := sumOf_split removed (s.routesOf account)
  simp only [sumOf_nil, add_zero] at hsumVests hsumGbc
  refine .ensure fun hconvert => .bind_any fun price => .bind_any fun converted => ?_
  rw [decide_eq_true_eq] at hconvert
  -- the account is debited
  refine .bind (modifyAccount_spec u account _) fun v ⟨c, he⟩ => ?_
  refine .bind (modifyProps_spec v _) fun w ⟨_, hw⟩ => ?_
  have hnames : (u.accounts.rows.map Account.name).Nodup := by
    rw [hu.names, ht.names]
    exact Books.names hs.tallied
  have hadvances : Advances account removed s v :=
    .of_plans (fun n => (ht.plan n).trans (hu.plan n)) (.of_edited he rfl rfl rfl hnames)
  have hpays : Pays account removed (removed - asGbc - asVests) s w :=
    { nonneg := ⟨hremoved, hconvert⟩
      along := hnonneg
      held := by
        intro n
        have hsame : w.held n = v.held n := by
          rw [hw]
          rfl
        have hheldVests := ht.held n
        have hheldGbc := hu.held n
        rw [sumOf_nil, add_zero] at hheldVests
        dsimp only at hheldVests hheldGbc
        rw [hsame, held_edited he (d := -removed) rfl (sub_eq_add_neg _ _), hheldGbc, hheldVests]
        simp only [eq_comm (a := account)]
        split
        · omega
        · omega
      total := by
        have htotal := hu.total
        have hsame := ht.total
        have hprops : v.props = u.props := by rw [he.rest]
        rw [sumOf_nil, sub_zero] at htotal
        rw [hw]
        dsimp only at htotal hsame ⊢
        rw [hprops, htotal, hsame]
      split := by omega }
  have hw' : Advances account removed s w :=
    hadvances.then_plans fun n => (SamePlan.refl n v).rows (by rw [hw])
  refine .ite (fun _ => ?_) fun _ => .ok ⟨removed, _, hweek, hpays, hw'⟩
  refine ((OnlyVotes.refl w).adjustProxiedWitnessVotes account _).mono fun x hx => ?_
  exact ⟨removed, _, hweek, hpays.onlyVotes hx, hw'.then_plans fun n =>
    .of_samePower (.of_onlyVotes hx)⟩

/-! ## Calls and the plan -/

theorem withdrawVesting_samePlan (s : Database) {name : AccountName} (hne : name ≠ account)
    (shares : Int) : Returns (s.withdrawVesting name shares) (SamePlan account s) := by
  refine withdrawVesting_cases s name shares fun _ _ _ _ _ _ _ _ => ?_
  refine (modifyAccount_spec s name _).mono fun t ⟨a, he⟩ => ?_
  exact .of_edited he rfl fun hname => absurd (he.name_eq.symm.trans hname) hne

theorem SamePlan.withDelegations (h : SamePlan account s t) (delegations : Table VestingDelegation)
    (expirations : Table VestingDelegationExpiration) :
    SamePlan account s
      { t with
        vestingDelegations := delegations
        vestingDelegationExpirations := expirations } :=
  h

theorem delegateVestingShares_samePlan (s : Database) (delegator delegatee : AccountName)
    (shares : Int) :
    Returns (s.delegateVestingShares delegator delegatee shares) (SamePlan account s) := by
  have hs := SamePlan.refl account s
  unfold Database.delegateVestingShares
  refine .bind_any fun _ => .ensure fun _ => .ensure fun _ => .bind_any fun _ => .bind_any fun _ =>
    .bind_any fun _ => .bind_any fun _ => .bind_any fun _ => .bind_any fun ⟨_, _⟩ => ?_
  dsimp only
  split
  · refine .ensure fun _ => .ensure fun _ => ?_
    refine .bind ((hs.withDelegations _ _).modifyAccount delegator (fun _ => rfl) fun _ => rfl)
      fun t ht => ?_
    exact ht.modifyAccount delegatee (fun _ => rfl) fun _ => rfl
  · refine .ite (fun _ => ?_) fun _ => ?_
    · refine .bind_any fun _ => .ensure fun _ => .ensure fun _ => ?_
      refine .bind (hs.modifyAccount delegator (fun _ => rfl) fun _ => rfl) fun t ht => ?_
      refine .bind (ht.modifyAccount delegatee (fun _ => rfl) fun _ => rfl) fun u hu => .pure ?_
      exact hu.withDelegations _ _
    · refine .bind_any fun _ => .bind_any fun _ => ?_
      refine .bind ((hs.withDelegations _ _).modifyAccount delegatee (fun _ => rfl) fun _ => rfl)
        fun t ht => .pure ?_
      exact ht.withDelegations _ _

theorem accountCreate_samePlan (s : Database) (creator newName : AccountName)
    (auths : List AccountName) (fee : Int) :
    Returns (s.accountCreate creator newName auths fee) (SamePlan account s) := by
  have hs := SamePlan.refl account s
  refine accountCreate_cases s creator newName auths fee (fun _ _ shares _ _ => ?_) fun _ => ?_
  · refine .bind (hs.modifyAccount creator (fun _ => rfl) fun _ => rfl) fun t ht => ?_
    exact .bind (ht.createAccount newName creator _) fun u hu => .pure (hu.createDelegation _ _ _)
  · refine .bind (hs.modifyAccount creator (fun _ => rfl) fun _ => rfl) fun t ht => ?_
    refine .bind (ht.createAccount newName creator 0) fun u hu => ?_
    exact .ite (fun _ => hu.createVesting newName _) fun _ => .ok hu

theorem accountCreateWithDelegation_samePlan (s : Database) (creator newName : AccountName)
    (auths : List AccountName) (fee delegation : Int) :
    Returns (s.accountCreateWithDelegation creator newName auths fee delegation)
      (SamePlan account s) := by
  have hs := SamePlan.refl account s
  refine accountCreateWithDelegation_cases s creator newName auths fee delegation
    fun _ _ _ _ _ => ?_
  refine .bind (hs.modifyAccount creator (fun _ => rfl) fun _ => rfl) fun t ht => ?_
  refine .bind (ht.createAccount newName creator delegation) fun u hu => ?_
  have hv := hu.createDelegation creator newName delegation
  exact .ite (fun _ => hv.createVesting newName _) fun _ => .ok hv

theorem createClaimedAccount_samePlan (s : Database) (creator newName : AccountName)
    (auths : List AccountName) :
    Returns (s.createClaimedAccount creator newName auths) (SamePlan account s) := by
  refine createClaimedAccount_cases s creator newName auths ?_
  refine .bind ((SamePlan.refl account s).modifyAccount creator (fun _ => rfl) fun _ => rfl)
    fun t ht => ?_
  exact ht.createAccount newName creator 0

theorem claimRewardBalance_samePlan (s : Database) (name : AccountName) (gbc gbd vests : Int) :
    Returns (s.claimRewardBalance name gbc gbd vests) (SamePlan account s) := by
  refine claimRewardBalance_cases s name gbc gbd vests fun _ t ht u a _ he v hv _ => ?_
  have ht' : SamePlan account s t := .of_samePower (.of_sameStake ht)
  have hu := ht'.trans (.of_edited he rfl fun _ => rfl)
  exact (hu.rows (u := v) (by rw [hv])).adjustProxiedWitnessVotes name _

theorem clearNullAccountBalance_samePlan (s : Database) :
    Returns s.clearNullAccountBalance (SamePlan account s) := by
  refine clearNullAccountBalance_cases (.refl account s)
    (fun h ht => h.trans (.of_samePower (.of_sameStake ht))) fun t ht => ?_
  refine burnVestingShares_cases ht fun a _ x => .bind (ht.modifyProps _) fun u hu => ?_
  exact hu.modifyAccount nullAccount (fun _ => rfl) fun _ => rfl

theorem processVestingWithdrawal_samePlan (s : Database) {name : AccountName}
    (hne : name ≠ account) :
    Returns (s.processVestingWithdrawal name) (SamePlan account s) := by
  refine processVestingWithdrawal_cases ?_ ?_ ?_ ?_ ?_ (.refl account s)
  · exact fun name x ht => ht.modifyAccount name (fun _ => rfl) fun _ => rfl
  · exact fun name x ht => ht.modifyAccount name (fun _ => rfl) fun _ => rfl
  · refine fun w x ht => (modifyAccount_spec _ name _).mono fun u ⟨c, he⟩ => ?_
    exact ht.trans (.of_edited he rfl fun hname => absurd (he.name_eq.symm.trans hname) hne)
  · exact fun x y ht => ht.modifyProps _
  · exact fun name d ht => ht.adjustProxiedWitnessVotes name d

/-- The calls that change the plan of `account`. -/
def changesPlan (account : AccountName) : Call → Prop
  | .withdrawVesting name _ => name = account
  | .processVestingWithdrawal name => name = account
  | _ => False

/-- **What the other calls do to a plan**: nothing. -/
theorem perform_samePlan (s : Database) {c : Call} (hc : ¬changesPlan account c) :
    Returns (s.perform c) (SamePlan account s) := by
  have hs := SamePlan.refl account s
  have same : ∀ {x}, Returns x (SamePower s) → Returns x (SamePlan account s) :=
    fun hx => hx.mono fun _ ht => .of_samePower ht
  cases c with
  | createVesting name liquid => exact hs.createVesting name liquid
  | transferToVesting sender recipient amount =>
      exact transferToVesting_cases s sender recipient amount fun t name ht _ =>
        SamePlan.createVesting (.of_samePower (.of_sameStake ht)) name amount
  | claimRewardBalance name gbc gbd vests => exact claimRewardBalance_samePlan s name gbc gbd vests
  | withdrawVesting name shares => exact withdrawVesting_samePlan s hc shares
  | setWithdrawVestingRoute sender recipient percent autoVest =>
      exact same (setWithdrawVestingRoute_samePower s sender recipient percent autoVest)
  | processVestingWithdrawal name => exact processVestingWithdrawal_samePlan s hc
  | accountWitnessProxy name proxy => exact same (accountWitnessProxy_samePower s name proxy)
  | accountWitnessVote name witness approve =>
      exact same (accountWitnessVote_samePower s name witness approve)
  | declineVotingRights name decline => exact same (declineVotingRights_samePower s name decline)
  | processDeclineVotingRights name => exact same (processDeclineVotingRights_samePower s name)
  | delegateVestingShares delegator delegatee shares =>
      exact delegateVestingShares_samePlan s delegator delegatee shares
  | clearExpiredDelegation id =>
      refine .bind_any fun e => .ensure fun _ => ?_
      exact .bind (hs.modifyAccount e.delegator (fun _ => rfl) fun _ => rfl) fun t ht => .pure ht
  | reclaimAccountCreationDelegation id =>
      refine .bind_any fun d => .ensure fun _ => ?_
      exact .bind (hs.modifyAccount d.delegatee (fun _ => rfl) fun _ => rfl) fun t ht => .pure ht
  | accountCreate creator name auths fee => exact accountCreate_samePlan s creator name auths fee
  | accountCreateWithDelegation creator name auths fee delegation =>
      exact accountCreateWithDelegation_samePlan s creator name auths fee delegation
  | createClaimedAccount creator name auths =>
      exact createClaimedAccount_samePlan s creator name auths
  | clearNullAccountBalance => exact clearNullAccountBalance_samePlan s
  | witnessUpdate owner key fee size rate =>
      exact same (witnessUpdate_samePower s owner key fee size rate)
  | witnessSetProperties owner key newKey fee size rate limit =>
      exact same (witnessSetProperties_samePower s owner key newKey fee size rate limit)
  | recordMissedBlock owner => exact same (recordMissedBlock_samePower s owner)
  | updateWitnessSchedule =>
      exact same ((updateWitnessSchedule_same s).mono fun _ ht => .of_sameWitnesses ht)
  | other => exact .ok hs

/-! ## Runs -/

/-- A run since `account` began to withdraw `shares` shares, in which it begins
nothing else; `total` is what its instalments have removed so far. -/
inductive PowerDown (C : Database → Call → Prop) (account : AccountName) (shares : Int) :
    Int → Database → Prop
  | start {s t : Database} (hs : Reachable C s) (hc : C s (.withdrawVesting account shares))
      (ht : s.perform (.withdrawVesting account shares) = .ok t) : PowerDown C account shares 0 t
  | instalment {total removed : Int} {s t : Database} {a : Account}
      (hs : PowerDown C account shares total s) (hc : C s (.processVestingWithdrawal account))
      (ha : s.getAccount account = .ok a) (hweek : weeklyWithdrawal a = .ok removed)
      (ht : s.perform (.processVestingWithdrawal account) = .ok t) :
      PowerDown C account shares (total + removed) t
  | step {total : Int} {s t : Database} {c : Call} (hs : PowerDown C account shares total s)
      (hc : C s c) (hplan : ¬changesPlan account c) (ht : Step s c t) :
      PowerDown C account shares total t

theorem PowerDown.reachable {C : Database → Call → Prop} {shares total : Int}
    (h : PowerDown C account shares total s) : Reachable C s := by
  induction h with
  | start hs hc ht => exact .step hs hc (.call ht)
  | instalment _ hc _ _ ht ih => exact .step ih hc (.call ht)
  | step _ hc _ ht ih => exact .step ih hc ht

/-- The instalments of a power-down add up: they are never more than `shares`,
and exactly that when the rate has been reset; what one of them removes is
sent along the routes or converted. -/
structure AddsUp (account : AccountName) (shares total : Int) (s : Database) : Prop where
  atMost : total ≤ shares
  ended : ∀ a, s.getAccount account = .ok a → a.vestingWithdrawRate = 0 → total = shares
  instalment : ∀ t, s.perform (.processVestingWithdrawal account) = .ok t →
    ∃ removed converted, Pays account removed converted s t ∧ total + removed ≤ shares
  percents : routed s.withdrawVestingRoutes account ≤ hundredPercent

/-- What the account has withdrawn is the sum of the instalments. -/
theorem PowerDown.withdrawn {shares total : Int} (h : PowerDown sharesStay account shares total s) :
    ∃ a ∈ s.accounts.rows, a.name = account ∧ a.toWithdraw = shares ∧ a.withdrawn = total := by
  induction h with
  | start hs hc ht =>
      change withdrawVesting _ _ _ = _ at ht
      revert ht
      suffices hreturns : Returns (withdrawVesting _ account shares) fun t =>
          ∃ a ∈ t.accounts.rows, a.name = account ∧ a.toWithdraw = shares ∧ a.withdrawn = 0 from
        fun ht => hreturns _ ht
      unfold withdrawVesting
      refine .bind_any fun _ => .ensure fun _ => .bind_any fun _ => .ensure fun _ =>
        .bind_any fun _ => .ensure fun _ => .ensure fun _ => ?_
      exact (modifyAccount_spec _ account _).mono fun t ⟨a, he⟩ =>
        ⟨_, he.replaces.mem_new, he.name_eq, rfl, rfl⟩
  | @instalment total removed s t a hs _ ha hweek ht ih =>
      obtain ⟨b, hb, hname, hto, hwithdrawn⟩ := ih
      obtain ⟨removed', _, hweek', _, hadvances⟩ :=
        processVestingWithdrawal_pays hs.reachable ha t ht
      obtain rfl := Except.ok.inj (hweek.symm.trans hweek')
      obtain ⟨c, hc, hcname, hcto, hcwithdrawn⟩ := hadvances.toWithdraw b hb hname
      exact ⟨c, hc, hcname, hcto.trans hto, by rw [hcwithdrawn, hwithdrawn]⟩
  | @step total s t c hs _ hplan ht ih =>
      obtain ⟨b, hb, hname, hto, hwithdrawn⟩ := ih
      have hsame : SamePlan account s t := by
        cases ht with
        | call ht => exact perform_samePlan s hplan t ht
        | other ht => exact .of_samePower (.of_sameStake ht)
      obtain ⟨c, hc, hcname, hcplan⟩ := hsame b hb hname
      have hcto : c.toWithdraw = b.toWithdraw := congrArg (fun plan => plan.2.1) hcplan
      have hcwithdrawn : c.withdrawn = b.withdrawn := congrArg (fun plan => plan.2.2) hcplan
      exact ⟨c, hc, hcname, hcto.trans hto, hcwithdrawn.trans hwithdrawn⟩

/-- **The instalments of a power-down add up.** -/
theorem power_down_adds_up {shares total : Int} (h : PowerDown sharesStay account shares total s) :
    AddsUp account shares total s := by
  obtain ⟨a, ha, hname, hto, hwithdrawn⟩ := h.withdrawn
  have hs := h.reachable
  have hleaving := hs.leaving a ha
  have hatMost := hleaving.2.leaving
  dsimp only [Account.undelegated] at hatMost
  have hfound : s.getAccount account = .ok a := by
    rw [← hname]
    exact require_eq_ok.mpr (find?_eq_some_of_nodup (Books.names hs.tallied) ha)
  refine ⟨by omega, fun a' ha' hrate => ?_, fun t ht => ?_, hs.accounted.2.percents account⟩
  · obtain rfl := Except.ok.inj (ha'.symm.trans hfound)
    have hdone := hleaving.2.done hrate
    dsimp only [Account.undelegated] at hdone
    omega
  · obtain ⟨removed, converted, hweek, hpays, -⟩ := processVestingWithdrawal_pays hs hfound t ht
    obtain ⟨-, hle⟩ := hleaving.instalment hweek
    exact ⟨removed, converted, hpays, by omega⟩

/-- After `calls`, `initminer` begins to withdraw, and a week later it is paid
the first instalment; how much that is comes with the state. -/
def firstInstalment (C : Database → Call → Prop) [∀ s c, Decidable (C s c)] (calls : List Call)
    (shares : Int) : Except String (Int × Database) := do
  let s ← run C (genesis 1000) (calls ++ [.withdrawVesting initMinerName shares])
  let t := s.atTime 1459440000
  let a ← t.getAccount initMinerName
  let removed ← weeklyWithdrawal a
  let u ← t.processVestingWithdrawal initMinerName
  return (removed, u)

theorem firstInstalment_powerDown {C : Database → Call → Prop} [∀ s c, Decidable (C s c)]
    (hother : ∀ s, C s .other) (hprocess : ∀ s name, C s (.processVestingWithdrawal name))
    (calls : List Call) (shares : Int) :
    Returns (firstInstalment C calls shares) fun r => PowerDown C initMinerName shares r.1 r.2 := by
  unfold firstInstalment
  refine .bind_eq fun s hs => .bind_eq fun a ha => .bind_eq fun removed hweek =>
    .bind_eq fun u hu =>
    .pure ?_
  unfold run at hs
  rw [List.foldlM_append] at hs
  obtain ⟨s₀, hs₀, hs⟩ := bind_eq_ok.mp hs
  rw [List.foldlM_cons] at hs
  obtain ⟨s₁, hs₁, hs⟩ := bind_eq_ok.mp hs
  obtain ⟨hc, hs₁⟩ := ensure_bind_eq_ok.mp hs₁
  rw [List.foldlM_nil, pure_eq_ok] at hs
  have hstart : PowerDown C initMinerName shares 0 s :=
    hs ▸ .start (.run (.genesis 1000) hs₀) (of_decide_eq_true hc) hs₁
  have hlater := hstart.step (hother s) (fun h => h) (atTime_step s 1459440000)
  rw [← zero_add removed]
  exact hlater.instalment (hprocess _ _) ha hweek hu

/-- Half of what `initminer` withdraws goes to `temp`, as shares. -/
theorem power_down_adds_up_first :
    ∃ s, PowerDown sharesStay "initminer" 26 2 s ∧ s.held "initminer" = 999998 ∧
      s.held "temp" = 1 ∧ AddsUp "initminer" 26 2 s := by
  obtain ⟨⟨removed, s⟩, hs, hvalues⟩ := exists_of_any (P := fun r : Int × Database =>
      r.1 = 2 ∧ r.2.held "initminer" = 999998 ∧ r.2.held "temp" = 1)
    (x := firstInstalment sharesStay [.transferToVesting "initminer" "" (.gbc 1000),
      .setWithdrawVestingRoute "initminer" "temp" 5000 true] 26) (by decide +kernel)
  obtain ⟨rfl, hinit, htemp⟩ := of_decide_eq_true hvalues
  have hrun : PowerDown sharesStay "initminer" 26 2 s := by
    refine firstInstalment_powerDown (fun s => ?_) (fun s name => ?_) _ _ _ hs
    · exact ⟨fun _ h => (Option.not_mem_none _ h).elim, fun _ h => (Option.not_mem_none _ h).elim⟩
    · exact ⟨fun _ h => (Option.not_mem_none _ h).elim, fun _ h => (Option.not_mem_none _ h).elim⟩
  exact ⟨s, hrun, hinit, htemp, power_down_adds_up hrun⟩

/-- `initminer` has delegated a negative number of shares, so that it may
withdraw shares it does not have. -/
theorem power_down_falls_short :
    ∃ account shares total s, PowerDown anyCall account shares total s ∧
      ¬AddsUp account shares total s := by
  obtain ⟨⟨removed, s⟩, hs, hvalues⟩ := exists_of_any (P := fun r : Int × Database =>
      r.1 = 0 ∧ (r.2.getAccount "initminer").toOption.any fun a => a.vestingWithdrawRate = 0)
    (x := firstInstalment anyCall
      [.accountCreate "initminer" "alice" [] 10000000000000000] 26) (by decide +kernel)
  obtain ⟨rfl, hrate⟩ := of_decide_eq_true hvalues
  obtain ⟨a, ha, hzero⟩ := exists_of_any hrate
  refine ⟨"initminer", 26, 0, s, firstInstalment_powerDown (fun _ => trivial)
    (fun _ _ => trivial) _ _ _
    hs, fun hadds => ?_⟩
  have hended := hadds.ended a ha (of_decide_eq_true hzero)
  omega

/-! ## Cancelling -/

/-- The account withdraws nothing any more. -/
structure Cancelled (account : AccountName) (t : Database) : Prop where
  account : ∀ a, t.getAccount account = .ok a → a.vestingWithdrawRate = 0 ∧ a.toWithdraw = 0 ∧
    a.withdrawn = 0 ∧ a.nextVestingWithdrawal = maximumTime

/-- **No power-down can be cancelled**: no shares at all is what the first
assertion refuses. -/
theorem withdrawVesting_never_cancels (s : Database) (account : AccountName) :
    ¬Completes (s.withdrawVesting account 0) (Cancelled account) := by
  rintro ⟨t, ht, -⟩
  unfold withdrawVesting at ht
  obtain ⟨_, -, ht⟩ := bind_eq_ok.mp ht
  obtain ⟨hpos, -⟩ := ensure_bind_eq_ok.mp ht
  exact absurd hpos (by decide)

/-- `initminer` cannot stop what it has begun. -/
theorem power_down_goes_on :
    ∃ s a, Reachable anyCall s ∧ s.getAccount "initminer" = .ok a ∧ a.vestingWithdrawRate = 2 ∧
      ¬Completes (s.withdrawVesting "initminer" 0) (Cancelled "initminer") := by
  obtain ⟨s, hrun, hstate⟩ := exists_run anyCall (genesis 1000)
    [.transferToVesting "initminer" "" (.gbc 1000), .withdrawVesting "initminer" 26]
    (fun s => (s.getAccount "initminer").toOption.any (fun a => a.vestingWithdrawRate = 2) &&
      (s.withdrawVesting "initminer" 0).toOption.isNone) (by decide +kernel)
  rw [Bool.and_eq_true] at hstate
  obtain ⟨a, ha, hrate⟩ := exists_of_any hstate.1
  refine ⟨s, a, .run (.genesis 1000) hrun, ha, of_decide_eq_true hrate, ?_⟩
  rintro ⟨t, ht, -⟩
  have hnone := hstate.2
  rw [ht] at hnone
  cases hnone

end Database

end Gamebank.Ledger
