import Gamebank.Stake.Completions

/-!
# Processing the withdrawals

`process_vesting_withdrawals` deposits along the routes of an account before
it debits the account, so for a moment there are more shares than are counted
and a witness may be voted for with more than all of them. Nothing else can
stop it: `Withdrawable` lists what the state has to leave room for, each pass
over the routes keeps what the next needs, and so the routine returns.
-/

namespace Gamebank.Ledger

open Gamebank.Lib Gamebank.Protocol

namespace Database

variable {s t u : Database} {name : AccountName} {a c : Account} {r : WithdrawVestingRoute}
  {rest todo : List WithdrawVestingRoute} {st : Database × Int}

/-- What an account deposits as shares along a route this week. -/
def sharesAlong (a : Account) (r : WithdrawVestingRoute) : Int :=
  if r.autoVest then depositOf (weekOf a) r else 0

/-- What it deposits as GBC, in shares. -/
def gbcAlong (a : Account) (r : WithdrawVestingRoute) : Int :=
  if r.autoVest then 0 else depositOf (weekOf a) r

/-- What of the shares deposited along routes is voted for `witness`. -/
def supportAlong (s : Database) (a : Account) (witness : AccountName)
    (routes : List WithdrawVestingRoute) : Int :=
  sumOf (fun r => if s.supports r.toAccount witness then sharesAlong a r else 0) routes

/-- The state leaves room for the withdrawal of `a`: every amount is in the
range of its type, and stays there when the shares that `a` deposits are
counted twice and the fund is paid out to one account; the votes of a witness
do not exceed all shares when what is deposited for it is added. -/
structure Withdrawable (s : Database) (a : Account) : Prop where
  props : s.props.fits = true
  accounts : ∀ c ∈ s.accounts.rows, c.fits = true
  fund : 0 < s.props.totalVestingShares → 0 < s.props.totalVestingFundGbc
  balances : ∀ c ∈ s.accounts.rows, c.balance + s.props.totalVestingFundGbc < 9223372036854775808
  shares : s.props.totalVestingShares + sumOf (sharesAlong a) (s.routesOf a.name) <
    9223372036854775808
  votes : ∀ w ∈ s.witnesses.rows,
    (∃ r ∈ s.routesOf a.name, 0 < sharesAlong a r ∧ s.supports r.toAccount w.owner) →
    w.votes + s.supportAlong a w.owner (s.routesOf a.name) ≤ s.props.totalVestingShares

/-- What holds in every state that is reached. -/
structure Sound (s : Database) : Prop where
  tallied : Tallied s
  accounted : Accounted s 0 s
  routed : Routed s
  shares : s.accounts.All fun a => 0 ≤ a.vestingShares
  leaving : s.accounts.All Leaving

/-! ## What goes along the routes -/

theorem sharesAlong_nonneg (ha : Leaving a) (hr : 0 ≤ r.percent) : 0 ≤ sharesAlong a r := by
  unfold sharesAlong
  split
  · exact depositOf_nonneg ha.week_nonneg hr
  · exact le_rfl

theorem gbcAlong_nonneg (ha : Leaving a) (hr : 0 ≤ r.percent) : 0 ≤ gbcAlong a r := by
  unfold gbcAlong
  split
  · exact le_rfl
  · exact depositOf_nonneg ha.week_nonneg hr

/-- Rounding down, the parts are not more than the whole. -/
theorem sumOf_depositOf_le (toWithdraw : Int) (routes : List WithdrawVestingRoute) :
    hundredPercent * sumOf (depositOf toWithdraw) routes ≤
      toWithdraw * sumOf (fun r => r.percent) routes := by
  induction routes with
  | nil => simp
  | cons r rest ih =>
      rw [sumOf_cons, sumOf_cons, mul_add, mul_add]
      exact add_le_add (Int.mul_ediv_self_le (by decide)) ih

/-- Not more goes along the routes than is withdrawn. -/
theorem Sound.along_le (h : Sound s) (ha : a ∈ s.accounts.rows) :
    sumOf (sharesAlong a) (s.routesOf a.name) + sumOf (gbcAlong a) (s.routesOf a.name) ≤
      weekOf a := by
  have hnonneg := (h.leaving a ha).week_nonneg
  have hsplit : sumOf (sharesAlong a) (s.routesOf a.name) + sumOf (gbcAlong a) (s.routesOf a.name) =
      sumOf (depositOf (weekOf a)) (s.routesOf a.name) := by
    rw [← sumOf_add]
    apply sumOf_congr
    intro r _
    unfold sharesAlong gbcAlong
    split
    · rw [add_zero]
    · rw [zero_add]
  have hpercents : sumOf (fun r => r.percent) (s.routesOf a.name) ≤ hundredPercent := by
    rw [sumOf_routesOf]
    exact h.routed.percents a.name
  have hparts := sumOf_depositOf_le (weekOf a) (s.routesOf a.name)
  have hwhole := mul_le_mul_of_nonneg_left hpercents hnonneg
  rw [hsplit]
  unfold hundredPercent at hparts hwhole
  omega

/-- What goes along the routes of an account is no debt. -/
theorem Sound.along_nonneg (h : Sound s) (ha : a ∈ s.accounts.rows)
    (htodo : ∀ r ∈ todo, r ∈ s.withdrawVestingRoutes.rows) :
    (∀ r ∈ todo, 0 ≤ sharesAlong a r) ∧ ∀ r ∈ todo, 0 ≤ gbcAlong a r := by
  have hleaving := h.leaving a ha
  have hpercent : ∀ r ∈ todo, 0 ≤ r.percent :=
    fun r hr => (Books.percents h.tallied r (htodo r hr)).1
  exact ⟨fun r hr => sharesAlong_nonneg hleaving (hpercent r hr),
    fun r hr => gbcAlong_nonneg hleaving (hpercent r hr)⟩

theorem Sound.totalVestingShares_nonneg (h : Sound s) : 0 ≤ s.props.totalVestingShares := by
  have htotal := h.accounted.shares
  have hnonneg : 0 ≤ s.accounts.total Account.vestingShares := sumOf_nonneg h.shares
  omega

theorem supportAlong_nonneg (h : ∀ r ∈ todo, 0 ≤ sharesAlong a r) (witness : AccountName) :
    0 ≤ s.supportAlong a witness todo := by
  apply sumOf_nonneg
  intro r hr
  split
  · exact h r hr
  · exact le_rfl

theorem supportOf_nonneg (h : s.accounts.All fun c => 0 ≤ c.vestingShares)
    (witness : AccountName) : 0 ≤ s.supportOf witness := by
  apply sumOf_nonneg
  intro c hc
  split
  · exact h c hc
  · exact le_rfl

/-! ## The first pass -/

/-- An account while the withdrawal of `a` is under way, with `fund` left. -/
structure InPass (fund : Int) (a c : Account) : Prop where
  fits : c.fits = true
  shares : 0 ≤ c.vestingShares
  balance : c.balance + fund < 9223372036854775808
  grown : c.name = a.name → a.GrownTo c

/-- Between two routes of the first pass, with those of `todo` to come: what
has been deposited is owned twice. -/
structure FirstPass (s : Database) (a : Account) (todo : List WithdrawVestingRoute)
    (st : Database × Int) : Prop where
  tallied : Tallied st.1
  accounted : Accounted s st.2 st.1
  voters : SameVoters s st.1
  props : st.1.props = s.props
  accounts : st.1.accounts.All (InPass s.props.totalVestingFundGbc a)
  nonneg : 0 ≤ st.2
  sum : st.2 + sumOf (sharesAlong a) todo = sumOf (sharesAlong a) (s.routesOf a.name)
  routes : ∀ r ∈ todo, r ∈ s.withdrawVestingRoutes.rows
  room : ∀ w, (∃ r ∈ todo, 0 < sharesAlong a r ∧ s.supports r.toAccount w) →
    st.1.supportOf w + s.supportAlong a w todo ≤ s.props.totalVestingShares

section

variable (hs : Sound s) (ha : a ∈ s.accounts.rows) (hroom : Withdrawable s a)

include hs ha hroom in
theorem FirstPass.start : FirstPass s a (s.routesOf a.name) (s, 0) where
  tallied := hs.tallied
  accounted := hs.accounted
  voters := .refl s
  props := rfl
  accounts := by
    refine fun c hc => ⟨hroom.accounts c hc, hs.shares c hc, hroom.balances c hc, fun hname => ?_⟩
    have hsame : c = a := List.inj_on_of_nodup_map (Books.names hs.tallied) hc ha hname
    exact hsame ▸ ⟨rfl, le_rfl⟩
  nonneg := le_rfl
  sum := zero_add _
  routes := fun r hr => mem_routesOf hr
  room := by
    rintro w ⟨r, hr, hpos, hsupports⟩
    obtain ⟨p, hp, hballot, hchain⟩ := hsupports
    obtain ⟨witness, hw, rfl⟩ := List.mem_map.mp (Books.candidate hs.tallied _ hballot)
    rw [← hs.tallied.votes_eq hw]
    exact hroom.votes witness hw ⟨r, hr, hpos, p, hp, hballot, hchain⟩

/-- Nothing is deposited. -/
theorem FirstPass.skip (h : FirstPass s a (r :: rest) st) (hzero : sharesAlong a r = 0) :
    FirstPass s a rest st :=
  { h with
    sum := by
      have hsum := h.sum
      rwa [sumOf_cons, hzero, zero_add] at hsum
    routes := fun r hr => h.routes r (List.mem_cons_of_mem _ hr)
    room := by
      rintro w ⟨r', hr', hpos, hsupports⟩
      have hle := h.room w ⟨r', List.mem_cons_of_mem _ hr', hpos, hsupports⟩
      unfold supportAlong at hle ⊢
      rw [sumOf_cons, hzero, ite_self, zero_add] at hle
      exact hle }

/-- The shares are deposited, and the votes carried to the witnesses. -/
theorem FirstPass.deposit (h : FirstPass s a (r :: rest) st)
    (he : Edited st.1 t r.toAccount c { c with vestingShares := c.vestingShares + sharesAlong a r })
    (hvotes : OnlyVotes t u) (hu : Tallied u) (hpos : 0 < sharesAlong a r) :
    FirstPass s a rest (u, st.2 + sharesAlong a r) := by
  have hnames := Books.names h.tallied
  have hprops : u.props = st.1.props := by rw [hvotes.rest, he.rest]
  have ht : t.accounts.All (InPass s.props.totalVestingFundGbc a) := by
    have hc := h.accounts c he.mem
    exact he.all h.accounts ⟨he.fits, add_nonneg hc.shares hpos.le, hc.balance,
      fun hname => (hc.grown hname).gain hpos.le⟩
  exact
    { tallied := hu
      accounted := (h.accounted.edit he rfl rfl).onlyVotes hvotes
      voters :=
        h.voters.trans ((SameVoters.of_edited he rfl rfl hnames).trans (.of_onlyVotes hvotes))
      props := hprops.trans h.props
      accounts := by
        intro p hp
        have hmem : p.withoutVotes ∈ t.accounts.rows.map Account.withoutVotes := by
          rw [← hvotes.accounts]
          exact List.mem_map_of_mem hp
        obtain ⟨q, hq, hqp⟩ := List.mem_map.mp hmem
        have hold := ht q hq
        have hshares := congrArg Account.vestingShares hqp
        have hbalance := congrArg Account.balance hqp
        have hname := congrArg Account.name hqp
        have hpower := congrArg Account.power hqp.symm
        change p.power = q.power at hpower
        refine ⟨?_, hold.shares.trans hshares.le, ?_, fun heq => ?_⟩
        · rcases hvotes.fits p hp with hp | hfits
          · exact (ht p hp).fits
          · exact hfits
        · have := hold.balance
          change q.balance = p.balance at hbalance
          omega
        · exact (hold.grown (hname.trans heq)).congr hpower
      nonneg := add_nonneg h.nonneg hpos.le
      sum := by
        have hsum := h.sum
        rw [sumOf_cons] at hsum
        dsimp only
        omega
      routes := fun r hr => h.routes r (List.mem_cons_of_mem _ hr)
      room := by
        rintro w ⟨r', hr', hpos', hsupports⟩
        have hle := h.room w ⟨r', List.mem_cons_of_mem _ hr', hpos', hsupports⟩
        have hsupport := supportOf_edit he hnames hvotes w
        simp only [h.voters.supports_iff] at hsupport
        unfold supportAlong at hle ⊢
        rw [sumOf_cons] at hle
        dsimp only
        omega }

include hs ha hroom in
/-- **A route of the first pass.** -/
theorem FirstPass.step (h : FirstPass s a (r :: rest) st) :
    Completes (depositVests (weekOf a) st r) (FirstPass s a rest) := by
  have hleaving := hs.leaving a ha
  have hr := h.routes r List.mem_cons_self
  have hpercent := Books.percents hs.tallied r hr
  unfold Database.depositVests
  refine .ite (fun hauto => ?_) fun hauto => .ok (h.skip (if_neg hauto))
  have halong : sharesAlong a r = depositOf (weekOf a) r := if_pos hauto
  have hmax := (fitsInt64_iff.mp (fits_amounts (hroom.accounts a ha)).1).2
  have hdeposit : routeDeposit (weekOf a) r = .ok (sharesAlong a r) := by
    rw [halong]
    exact routeDeposit_eq hleaving.week_nonneg (by have := hleaving.week_le; omega) hpercent
  refine .bind (.of_eq hdeposit rfl) fun deposit hdep => ?_
  subst hdep
  -- all that is deposited has room above all shares
  have hlater := (hs.along_nonneg ha fun r' hr' => h.routes r' (List.mem_cons_of_mem _ hr')).1
  have hrest : 0 ≤ sumOf (sharesAlong a) rest := sumOf_nonneg hlater
  have hsum := h.sum
  rw [sumOf_cons] at hsum
  have hbound := hroom.shares
  have hshares : st.1.accounts.All fun c => 0 ≤ c.vestingShares :=
    fun c hc => (h.accounts c hc).shares
  have htotal := h.accounted.shares
  rw [h.props] at htotal
  have htotalNonneg := hs.totalVestingShares_nonneg
  have hst := h.nonneg
  have hnonneg := sharesAlong_nonneg hleaving hpercent.1
  refine .ensure (fitsInt64_iff.mpr (by omega)) (.ite (fun hpos => ?_) fun hzero => .pure ?_)
  · have hexists : r.toAccount ∈ st.1.accounts.rows.map Account.name := by
      rw [h.voters.names]
      exact hs.routed.receiver r hr
    obtain ⟨c, hc, -⟩ := getAccount_completes hexists
    obtain ⟨hmem, -⟩ := getAccount_mem hc
    have hle := shares_le_total hshares hmem
    have hin := h.accounts c hmem
    have hfits : { c with vestingShares := c.vestingShares + sharesAlong a r }.fits = true := by
      obtain ⟨-, h2, h3, h4, -⟩ := fits_amounts hin.fits
      have := hin.shares
      exact fits_power hin.fits (fitsInt64_iff.mpr (by omega)) h2 h3 h4
    refine .bind (modifyAccount_completes hc hfits) fun t he => ?_
    have hbounded := h.tallied.bounded_of he
    have hprops : t.props = s.props := by
      rw [he.rest]
      exact h.props
    have hcarry :=
      h.tallied.carry (u := t) he rfl rfl rfl rfl hbounded.rate hbounded.toWithdraw rfl rfl
    have hcompletes := h.tallied.adjust_completes (u := t) he rfl rfl rfl rfl hbounded.rate
      hbounded.toWithdraw rfl rfl (by rw [hprops]; omega) (fun c hc => (h.accounts c hc).fits)
      (fun p hp i _ => ?_) fun owner hsupports => ?_
    · refine .bind ((hcompletes.and hcarry).and
        ((OnlyVotes.refl t).adjustProxiedWitnessVotes r.toAccount _)) fun u ⟨⟨_, hu⟩, hvotes⟩ => ?_
      exact .pure (h.deposit he hvotes hu hpos)
    -- a proxy's votes stay below all shares, a witness's below its room
    · have hlow := (fitsInt64_iff.mp (fits_proxied_get (h.accounts p hp).fits i)).1
      have hhigh := h.tallied.proxied_le_total hshares hp i
      exact fitsInt64_iff.mpr (by omega)
    · have hsupports' := (h.voters.supports_iff r.toAccount owner).mp hsupports
      have hle := h.room owner ⟨r, List.mem_cons_self, hpos, hsupports'⟩
      have halongLater : 0 ≤ s.supportAlong a owner rest := supportAlong_nonneg hlater owner
      have hsupport := supportOf_nonneg hshares owner
      unfold supportAlong at hle halongLater
      rw [sumOf_cons, if_pos hsupports'] at hle
      rw [hprops]
      omega
  · have hnone : sharesAlong a r = 0 := by omega
    rw [hnone, add_zero]
    exact h.skip hnone

/-! ## The second pass -/

/-- Between two routes of the second pass: what has been converted is no longer
counted, but `a` still has it. -/
structure SecondPass (s : Database) (a : Account) (asVests : Int)
    (todo : List WithdrawVestingRoute) (st : Database × Int) : Prop where
  tallied : Tallied st.1
  accounted : Accounted s (asVests + st.2) st.1
  total : st.1.props.totalVestingShares = s.props.totalVestingShares - st.2
  fits : st.1.props.fits = true
  funded : Funded st.1.props
  accounts : st.1.accounts.All (InPass st.1.props.totalVestingFundGbc a)
  nonneg : 0 ≤ st.2
  sum : st.2 + sumOf (gbcAlong a) todo = sumOf (gbcAlong a) (s.routesOf a.name)
  routes : ∀ r ∈ todo, r ∈ s.withdrawVestingRoutes.rows

include hs hroom in
theorem SecondPass.start (h : FirstPass s a [] st) :
    SecondPass s a st.2 (s.routesOf a.name) (st.1, 0) where
  tallied := h.tallied
  accounted := by
    rw [add_zero]
    exact h.accounted
  total := by rw [h.props, sub_zero]
  fits := by
    rw [h.props]
    exact hroom.props
  funded := by
    rw [h.props]
    obtain ⟨hfund, hshares⟩ := fits_totals hroom.props
    exact ⟨hs.totalVestingShares_nonneg, (fitsInt64_iff.mp hshares).2, hroom.fund,
      (fitsInt64_iff.mp hfund).2⟩
  accounts := by
    rw [h.props]
    exact h.accounts
  nonneg := le_rfl
  sum := zero_add _
  routes := fun r hr => mem_routesOf hr

theorem SecondPass.skip {asVests : Int} (h : SecondPass s a asVests (r :: rest) st)
    (hzero : gbcAlong a r = 0) : SecondPass s a asVests rest st :=
  { h with
    sum := by
      have hsum := h.sum
      rwa [sumOf_cons, hzero, zero_add] at hsum
    routes := fun r hr => h.routes r (List.mem_cons_of_mem _ hr) }

/-- What is paid out of the fund keeps every amount in range. -/
theorem InPass.pay {fund paid : Int} (h : InPass fund a c) (hpaid : 0 ≤ paid) :
    InPass (fund - paid) a c :=
  ⟨h.fits, h.shares, by have := h.balance; omega, h.grown⟩

theorem Worth.fits {p : GlobalProperties} {x converted : Int} (hworth : Worth p x converted)
    (hp : Funded p) (hx : 0 ≤ x) (hle : x ≤ p.totalVestingShares) (hfits : p.fits = true) :
    { p with
      totalVestingFundGbc := p.totalVestingFundGbc - converted
      totalVestingShares := p.totalVestingShares - x }.fits = true := by
  obtain ⟨hfund, -⟩ := fits_totals hfits
  rw [fitsInt64_iff] at hfund
  have h1 := hworth.nonneg
  have h2 := hworth.none
  have h3 := hworth.atMost
  have h4 := hp.nonneg
  have h5 := hp.shares
  apply fits_props hfits
  · exact fitsInt64_iff.mpr (by omega)
  · exact fitsInt64_iff.mpr (by omega)

theorem Worth.balance {p : GlobalProperties} {x converted : Int} (hworth : Worth p x converted)
    (hp : Funded p) (hc : InPass p.totalVestingFundGbc a c) :
    fitsInt64 (c.balance + converted) = true := by
  have h1 := hworth.nonneg
  have h2 := hworth.none
  have h3 := hworth.atMost
  have h4 := hp.nonneg
  have h5 := hc.balance
  obtain ⟨-, hbalance, -⟩ := fits_amounts hc.fits
  rw [fitsInt64_iff] at hbalance
  exact fitsInt64_iff.mpr (by omega)

include hs ha in
/-- What is converted is still counted. -/
theorem SecondPass.along {asVests : Int} (h : SecondPass s a asVests (r :: rest) st) :
    0 ≤ gbcAlong a r ∧ gbcAlong a r ≤ st.1.props.totalVestingShares ∧
      st.2 + gbcAlong a r ≤ s.props.totalVestingShares := by
  have hleaving := hs.leaving a ha
  have hpercent := Books.percents hs.tallied r (h.routes r List.mem_cons_self)
  have hlater : 0 ≤ sumOf (gbcAlong a) rest := sumOf_nonneg
    (hs.along_nonneg ha fun r' hr' => h.routes r' (List.mem_cons_of_mem _ hr')).2
  have hvests : 0 ≤ sumOf (sharesAlong a) (s.routesOf a.name) :=
    sumOf_nonneg (hs.along_nonneg ha fun r' hr' => mem_routesOf hr').1
  have hsum := h.sum
  rw [sumOf_cons] at hsum
  have hweek := hleaving.week_le
  have halongLe := hs.along_le ha
  have hshares := shares_le_total hs.shares ha
  have htotal := hs.accounted.shares
  have hnow := h.total
  exact ⟨gbcAlong_nonneg hleaving hpercent.1, by omega, by omega⟩

/-- The pass goes on after a payment. -/
theorem SecondPass.pay {asVests converted : Int} {t u : Database} {c : Account}
    {name : AccountName} (h : SecondPass s a asVests (r :: rest) st)
    (hworth : Worth st.1.props (gbcAlong a r) converted)
    (hin : InPass st.1.props.totalVestingFundGbc a c)
    (he : Edited st.1 t name c { c with balance := c.balance + converted })
    (hnonneg : 0 ≤ gbcAlong a r) (hle : gbcAlong a r ≤ st.1.props.totalVestingShares)
    (haccounts : u.accounts = t.accounts)
    (hprops : u.props =
      { st.1.props with
        totalVestingFundGbc := st.1.props.totalVestingFundGbc - converted
        totalVestingShares := st.1.props.totalVestingShares - gbcAlong a r })
    (htallied : Tallied u) (haccounted : Accounted s (asVests + (st.2 + gbcAlong a r)) u) :
    SecondPass s a asVests rest (u, st.2 + gbcAlong a r) where
  tallied := htallied
  accounted := haccounted
  total := by
    have hnow := h.total
    dsimp only
    rw [hprops]
    dsimp only
    omega
  fits := by
    dsimp only
    rw [hprops]
    exact hworth.fits h.funded hnonneg hle h.fits
  funded := by
    dsimp only
    rw [hprops]
    exact h.funded.convert hnonneg hle hworth
  accounts := by
    dsimp only
    rw [hprops, haccounts]
    refine he.all (fun p hp => (h.accounts p hp).pay hworth.nonneg)
      ⟨he.fits, hin.shares, ?_, hin.grown⟩
    have := hin.balance
    dsimp only
    omega
  nonneg := add_nonneg h.nonneg hnonneg
  sum := by
    have hsum := h.sum
    rw [sumOf_cons] at hsum
    dsimp only
    omega
  routes := fun r hr => h.routes r (List.mem_cons_of_mem _ hr)

include hs ha hroom in
/-- **A route of the second pass.** -/
theorem SecondPass.step {asVests : Int} (h : SecondPass s a asVests (r :: rest) st) :
    Completes (depositGbc (weekOf a) st r) (SecondPass s a asVests rest) := by
  have hleaving := hs.leaving a ha
  have hr := h.routes r List.mem_cons_self
  have hpercent := Books.percents hs.tallied r hr
  have hmax := (fitsInt64_iff.mp (fits_amounts (hroom.accounts a ha)).1).2
  have hweek := hleaving.week_le
  have hdeposit := routeDeposit_eq hleaving.week_nonneg (by omega) hpercent
  have hreturns : Returns (routeDeposit (weekOf a) r) fun deposit => 0 ≤ deposit := by
    rw [hdeposit]
    exact .ok (depositOf_nonneg hleaving.week_nonneg hpercent.1)
  have hlow : -9223372036854775808 ≤ weekOf a := by
    have := hleaving.week_nonneg
    omega
  have hbooks : Tallied st.1 ∧ (weekOf a < 0 → st.2 = 0) :=
    ⟨h.tallied, fun hneg => absurd hleaving.week_nonneg (not_le.mpr hneg)⟩
  have htallied := Tallied.depositGbc hlow hpercent hbooks
  have hbase : Accounted s (asVests + st.2) st.1 := h.accounted
  have haccounted := Accounted.depositGbc hreturns hbase
  suffices hrest : Completes (depositGbc (weekOf a) st r) fun st' => Tallied st'.1 →
      Accounted s (asVests + st'.2) st'.1 → SecondPass s a asVests rest st' from
    ((hrest.and htallied).and haccounted).mono fun st' hst' => hst'.1.1 hst'.1.2.1 hst'.2
  unfold Database.depositGbc
  refine .ite (fun hauto => .ok fun _ _ => h.skip (if_pos hauto)) fun hauto => ?_
  have halong : gbcAlong a r = depositOf (weekOf a) r := if_neg hauto
  rw [← halong] at hdeposit
  have hexists := h.accounted.names _ (hs.routed.receiver r hr)
  obtain ⟨c, hc, -⟩ := getAccount_completes hexists
  obtain ⟨hmem, -⟩ := getAccount_mem hc
  refine .bind (.of_eq hc trivial) fun _ (_ : True) =>
    .bind (.of_eq hdeposit rfl) fun deposit hdep => ?_
  subst hdep
  obtain ⟨hnonneg, hle, hall⟩ := h.along hs ha
  have hst := h.nonneg
  have hbound := (fits_totals hroom.props).2
  rw [fitsInt64_iff] at hbound
  refine .ensure (fitsInt64_iff.mpr (by omega)) ?_
  refine .bind (convert_completes h.funded hnonneg hle) fun price hprice => .bind hprice
    fun converted hworth => .ite (fun hpos => ?_) fun hzero => .pure fun _ _ => ?_
  · have hin := h.accounts c hmem
    have hbalance := hworth.balance h.funded hin
    have hfits : { c with balance := c.balance + converted.amount }.fits = true := by
      obtain ⟨h1, -, h3, h4, -⟩ := fits_amounts hin.fits
      exact fits_power hin.fits h1 hbalance h3 h4
    refine .bind (modifyAccount_completes hc hfits) fun t he => ?_
    have hprops : t.props = st.1.props := by rw [he.rest]
    have hpropsFits := hworth.fits h.funded hnonneg hle h.fits
    rw [← hprops] at hpropsFits
    refine .bind (modifyProps_completes hpropsFits) fun u hu => .pure fun hu1 hu2 => ?_
    refine h.pay hworth hin he hnonneg hle ?_ ?_ hu1 hu2
    · rw [hu]
    · rw [hu]
      dsimp only
      rw [hprops]
  · have hnone : gbcAlong a r = 0 := by omega
    rw [hnone, add_zero]
    exact h.skip hnone

/-! ## The debit -/

include hs hroom in
/-- **The withdrawal of one account returns.** -/
theorem processVestingWithdrawal_completes (hname : s.getAccount name = .ok a)
    (hdue : a.nextVestingWithdrawal ≤ s.headBlockTime) :
    Completes (s.processVestingWithdrawal name) fun _ => True := by
  obtain ⟨ha, rfl⟩ := getAccount_mem hname
  have hleaving := hs.leaving a ha
  obtain ⟨hweekShares, hweekLeft⟩ := hleaving.week_le
  have hweekNonneg := hleaving.week_nonneg
  have hmax := (fitsInt64_iff.mp (fits_amounts (hroom.accounts a ha)).2.2.2.2).2
  unfold Database.processVestingWithdrawal
  refine .bind (.of_eq hname rfl) fun a' ha' => ?_
  subst ha'
  have hweek : weeklyWithdrawal a = .ok (weekOf a) :=
    weeklyWithdrawal_eq (a := a.undelegated) hleaving.2 hmax
  refine .ensure (decide_eq_true hdue) (.bind (.of_eq hweek rfl) fun week hweek => ?_)
  subst hweek
  refine .bind (Completes.foldlM (fun _ _ _ h => h.step hs ha hroom) (FirstPass.start hs ha hroom))
    fun ⟨t, asVests⟩ hfirst => ?_
  refine .bind
    (Completes.foldlM (fun _ _ _ h => h.step hs ha hroom) (SecondPass.start hs hroom hfirst))
    fun ⟨u, asGbc⟩ hsecond => ?_
  have hvests := hfirst.sum
  have hgbc := hsecond.sum
  rw [sumOf_nil, add_zero] at hvests hgbc
  dsimp only at hvests hgbc ⊢
  have halong := hs.along_le ha
  have hconvert : 0 ≤ weekOf a - asGbc - asVests := by omega
  have htotal := hs.accounted.shares
  have hshares := shares_le_total hs.shares ha
  have hnow := hsecond.total
  have hvestsNonneg := hfirst.nonneg
  dsimp only at hnow hvestsNonneg
  have hle : weekOf a - asGbc - asVests ≤ u.props.totalVestingShares := by omega
  refine .ensure (decide_eq_true hconvert) ?_
  refine .bind (convert_completes hsecond.funded hconvert hle) fun price hprice => .bind hprice
    fun converted hworth => ?_
  -- the account is debited
  have hexists := hsecond.accounted.names _ (List.mem_map_of_mem ha)
  obtain ⟨c, hc, -⟩ := getAccount_completes hexists
  obtain ⟨hmem, hcname⟩ := getAccount_mem hc
  have hin := hsecond.accounts c hmem
  obtain ⟨hpledges, hgrown⟩ := hin.grown hcname
  have hwithdrawn := congrArg Account.withdrawn hpledges
  have htoWithdraw := congrArg Account.toWithdraw hpledges
  change c.withdrawn = a.withdrawn at hwithdrawn
  change c.toWithdraw = a.toWithdraw at htoWithdraw
  obtain ⟨hcShares, hcBalance, hcWithdrawn, hcRate, hcTo⟩ := fits_amounts hin.fits
  rw [fitsInt64_iff] at hcShares hcWithdrawn hcTo
  refine .bind (modifyAccount_completes hc ?_) fun v he => ?_
  · refine fits_power hin.fits (fitsInt64_iff.mpr (by omega)) (hworth.balance hsecond.funded hin)
      (fitsInt64_iff.mpr (by omega)) ?_
    split
    · decide
    · exact hcRate
  have hprops : v.props = u.props := by rw [he.rest]
  have hpropsFits := hworth.fits hsecond.funded hconvert hle hsecond.fits
  rw [← hprops] at hpropsFits
  refine .bind (modifyProps_completes hpropsFits) fun w hw => .ite (fun hpos => ?_) fun _ =>
    .ok trivial
  -- its votes are taken back; before, it had what it withdraws
  have hbounded := hsecond.tallied.bounded_of he
  have hall : u.accounts.All fun c => 0 ≤ c.vestingShares :=
    fun c hc => (hsecond.accounts c hc).shares
  have howned := hsecond.accounted.shares
  have hcounted : w.props.totalVestingShares =
      u.props.totalVestingShares - (weekOf a - asGbc - asVests) := by
    rw [hw]
    dsimp only
    rw [hprops]
  have hbelow := hsecond.funded.shares
  dsimp only at howned hbelow
  refine hsecond.tallied.adjust_completes he rfl rfl rfl rfl ?_ hbounded.toWithdraw
    (sub_eq_add_neg _ _) (by rw [hw]) (by omega) (fun c hc => (hsecond.accounts c hc).fits)
    (fun p hp i habove => ?_) fun owner hsupports => ?_
  · dsimp only
    split
    · exact le_rfl
    · exact hbounded.rate
  · rw [← hcname] at habove
    have hlow := hsecond.tallied.shares_le_proxied hall hmem hp habove
    have hhigh := (fitsInt64_iff.mp (fits_proxied_get (hsecond.accounts p hp).fits i)).2
    exact fitsInt64_iff.mpr (by omega)
  · rw [← hcname] at hsupports
    have hlow := shares_le_supportOf hall hmem hsupports
    have hhigh := supportOf_le_total hall owner
    dsimp only
    omega

end

end Database

end Gamebank.Ledger
