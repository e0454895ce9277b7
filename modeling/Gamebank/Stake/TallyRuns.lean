import Gamebank.Stake.Tally
import Mathlib.Tactic.FinCases
import Mathlib.Tactic.Linarith

/-!
# The tally along a run

Every call that is made in a run keeps the tally, so it is right in every
state that is reached: `proxied_votes_by_depth` and `witness_votes_tally`.
-/

namespace Gamebank.Ledger

open Gamebank.Lib Gamebank.Protocol Finset

namespace Database

variable {s t u : Database} {name : AccountName} {a a' : Account}

/-! ## Accounts modified -/

/-- An account of which nothing is modified that is in the books. -/
theorem Tallied.editQuiet (h : Tallied s) (he : Edited s t name a a') (hname : a'.name = a.name)
    (hproxy : a'.proxy = a.proxy) (hvoted : a'.witnessesVotedFor = a.witnessesVotedFor)
    (hvotes : a'.proxiedVsfVotes = a.proxiedVsfVotes) (hshares : a'.vestingShares = a.vestingShares)
    (hrate : 0 ≤ a'.vestingWithdrawRate) (hwithdraw : 0 ≤ a'.toWithdraw) : Tallied t := by
  have ht := Books.editShares h he hname hproxy hvoted hvotes hrate hwithdraw (d := 0)
    (by rw [hshares, add_zero])
  refine ht.tallied rfl (fun p i _ => ?_) fun w => ?_
  · show 0 - hits s.page.up (i + 1) name p * 0 = 0
    ring
  · show 0 - ballot s.page.ballots w name * 0 = 0
    ring

/-- What an account contributes to the books. -/
def entry (a : Account) : Account :=
  { Account.make a.name with
    proxy := a.proxy
    vestingShares := a.vestingShares
    vestingWithdrawRate := a.vestingWithdrawRate
    toWithdraw := a.toWithdraw
    proxiedVsfVotes := a.proxiedVsfVotes
    witnessesVotedFor := a.witnessesVotedFor }

theorem Tallied.modifyQuiet (h : Tallied s) (name : AccountName) {f : Account → Account}
    (hf : ∀ a, entry (f a) = entry a) : Returns (s.modifyAccount name f) Tallied := by
  refine (modifyAccount_spec s name f).mono fun t ⟨a, he⟩ => ?_
  have ha := Books.bounded h a he.mem
  have hentry : ∀ {β : Type} (g : Account → β), g (entry (f a)) = g (entry a) :=
    fun g => congrArg g (hf a)
  refine h.editQuiet he (hentry Account.name) (hentry Account.proxy)
    (hentry Account.witnessesVotedFor) (hentry Account.proxiedVsfVotes)
    (hentry Account.vestingShares) ?_ ?_
  · exact ha.rate.trans_eq (hentry Account.vestingWithdrawRate).symm
  · exact ha.toWithdraw.trans_eq (hentry Account.toWithdraw).symm

/-- **Vesting shares come or go**, and the change is carried to the witnesses. -/
theorem Tallied.carry (h : Tallied s) (he : Edited s t name a a') (hname : a'.name = a.name)
    (hproxy : a'.proxy = a.proxy) (hvoted : a'.witnessesVotedFor = a.witnessesVotedFor)
    (hvotes : a'.proxiedVsfVotes = a.proxiedVsfVotes) (hrate : 0 ≤ a'.vestingWithdrawRate)
    (hwithdraw : 0 ≤ a'.toWithdraw) {d : Int} (hshares : a'.vestingShares = a.vestingShares + d)
    (hu : u = { t with props := u.props }) :
    Returns (u.adjustProxiedWitnessVotes name d) Tallied := by
  have ht := Books.editShares h he hname hproxy hvoted hvotes hrate hwithdraw hshares
  have hu' := ht.same (t := u) (by rw [hu]) (by rw [hu]) (by rw [hu]) (by rw [hu])
  refine (hu'.adjustProxiedWitnessVotes name d).mono fun v hv =>
    hv.tallied rfl (fun p i _ => ?_) fun w => ?_
  · show 0 - hits s.page.up (i + 1) name p * d + hits s.page.up (i + 1) name p * d = 0
    ring
  · show 0 - ballot s.page.ballots w name * d + ballot s.page.ballots w name * d = 0
    ring

theorem Tallied.bounded_of (h : Tallied s) (he : Edited s t name a a') : Bounded a :=
  Books.bounded h a he.mem

/-! ## Vesting shares created -/

theorem Tallied.createVesting (h : Tallied s) (name : AccountName) (liquid : Asset) :
    Returns (s.createVesting name liquid) Tallied := by
  refine createVesting_cases s name liquid fun _ shares _ _ _ t a he u hu => ?_
  have ha := h.bounded_of he
  exact h.carry he rfl rfl rfl rfl ha.rate ha.toWithdraw rfl (by rw [hu])

theorem Tallied.transferToVesting (h : Tallied s) (sender recipient : AccountName)
    (amount : Asset) :
    Returns (s.transferToVesting sender recipient amount) Tallied :=
  transferToVesting_cases s sender recipient amount fun _ name ht _ =>
    (h.sameStake ht).createVesting name amount

theorem Tallied.claimRewardBalance (h : Tallied s) (account : AccountName) (gbc gbd vests : Int) :
    Returns (s.claimRewardBalance account gbc gbd vests) Tallied := by
  refine claimRewardBalance_cases s account gbc gbd vests fun _ t ht u a _ he v hv _ => ?_
  have htallied := h.sameStake ht
  have ha := htallied.bounded_of he
  exact htallied.carry he rfl rfl rfl rfl ha.rate ha.toWithdraw rfl hv

/-! ## Powering down -/

theorem Tallied.withdrawVesting (h : Tallied s) (account : AccountName) (shares : Int) :
    Returns (s.withdrawVesting account shares) Tallied := by
  refine withdrawVesting_cases s account shares fun _ hshares _ _ _ rate hrate time => ?_
  refine (modifyAccount_spec s account _).mono fun t ⟨a, he⟩ => ?_
  exact h.editQuiet he rfl rfl rfl rfl rfl hrate.le hshares.le

theorem Tallied.setRoutes (h : Tallied s) {routes : Table WithdrawVestingRoute}
    (hroutes : ∀ r ∈ routes.rows, 0 ≤ r.percent ∧ r.percent ≤ hundredPercent) :
    Tallied { s with withdrawVestingRoutes := routes } :=
  { h with percents := hroutes }

theorem Tallied.changeRoute (h : Tallied s) (a : Account) (toAccount : AccountName) {percent : Int}
    (hpercent : 0 ≤ percent ∧ percent ≤ hundredPercent) (autoVest : Bool) :
    Returns (s.changeRoute a toAccount percent autoVest) Tallied := by
  unfold Database.changeRoute
  split
  · refine .ensure fun _ => .ensure fun _ => ?_
    exact (h.setRoutes (Table.All.create (Books.percents h) _ hpercent)).modifyQuiet _ fun _ => rfl
  · refine .ite (fun _ => ?_) fun _ => ?_
    · exact (h.setRoutes (Table.All.remove (Books.percents h))).modifyQuiet _ fun _ => rfl
    · exact .ok (h.setRoutes (Table.All.modify (Books.percents h) fun _ _ => hpercent))

theorem Tallied.setWithdrawVestingRoute (h : Tallied s) (fromAccount toAccount : AccountName)
    (percent : Int) (autoVest : Bool) :
    Returns (s.setWithdrawVestingRoute fromAccount toAccount percent autoVest) Tallied := by
  unfold Database.setWithdrawVestingRoute
  refine .bind_any fun _ => .ensure fun hpercent => .bind_any fun a => .bind_any fun _ => ?_
  refine .bind (h.changeRoute a toAccount (by simpa using hpercent) autoVest) fun t ht => ?_
  exact .ensure fun _ => .pure ht

/-- An account whose shares are negative withdraws nothing along its routes:
the product does not fit. -/
theorem routeDeposit_of_neg {toWithdraw : Int} (hneg : toWithdraw < 0)
    (hlow : -9223372036854775808 ≤ toWithdraw) {r : WithdrawVestingRoute}
    (hr : 0 ≤ r.percent ∧ r.percent ≤ hundredPercent) :
    Returns (routeDeposit toWithdraw r) fun d => d = 0 := by
  unfold routeDeposit lowWord
  refine .ensure fun hfits => .pure ?_
  rw [decide_eq_true_eq] at hfits
  unfold hundredPercent at hr hfits ⊢
  rcases hr.1.eq_or_lt with hzero | hpos
  · rw [← hzero]
    simp [toUInt128, toInt64]
  · exfalso
    -- the product is just below `2 ^ 128`
    have hlower : -92233720368547758080000 ≤ toWithdraw * r.percent := by nlinarith
    have hupper : toWithdraw * r.percent < 0 := by nlinarith
    have hprod : toUInt128 (toUInt128 toWithdraw * r.percent) =
        340282366920938463463374607431768211456 + toWithdraw * r.percent := by
      unfold toUInt128
      rw [Int.mul_emod, Int.emod_emod, ← Int.mul_emod]
      generalize toWithdraw * r.percent = x at *
      omega
    rw [hprod] at hfits
    generalize toWithdraw * r.percent = x at *
    omega

theorem weeklyWithdrawal_low (ha : Bounded a) :
    Returns (weeklyWithdrawal a) fun toWithdraw => -9223372036854775808 ≤ toWithdraw := by
  unfold weeklyWithdrawal
  have hlow : (-9223372036854775808 : Int) ≤ 0 := by decide
  refine .bind_any fun left => .ite (fun _ => .ensure fun _ => .pure ?_) fun _ => .pure ?_
  · exact le_min ha.vestingShares (hlow.trans (Int.tmod_nonneg _ ha.toWithdraw))
  · exact le_min ha.vestingShares (hlow.trans ha.rate)

theorem mem_routesOf {r : WithdrawVestingRoute} (h : r ∈ s.routesOf name) :
    r ∈ s.withdrawVestingRoutes.rows := by
  unfold routesOf at h
  rw [List.mem_insertionSort] at h
  exact (List.mem_filter.mp h).1

theorem Tallied.depositVests {toWithdraw : Int} (hlow : -9223372036854775808 ≤ toWithdraw)
    {r : WithdrawVestingRoute} (hr : 0 ≤ r.percent ∧ r.percent ≤ hundredPercent)
    {st : Database × Int} (h : Tallied st.1 ∧ (toWithdraw < 0 → st.2 = 0)) :
    Returns (Database.depositVests toWithdraw st r) fun st' =>
      Tallied st'.1 ∧ (toWithdraw < 0 → st'.2 = 0) := by
  unfold Database.depositVests
  refine .ite (fun _ => .bind_eq fun deposit hdeposit => .ensure fun _ => ?_) fun _ => .ok h
  have hzero : toWithdraw < 0 → st.2 + deposit = 0 := by
    intro hneg
    rw [h.2 hneg, routeDeposit_of_neg hneg hlow hr deposit hdeposit, add_zero]
  refine .ite (fun _ => ?_) fun _ => .pure ⟨h.1, hzero⟩
  refine .bind (modifyAccount_spec st.1 r.toAccount _) fun t ⟨a, he⟩ => ?_
  have ha := h.1.bounded_of he
  refine .bind (h.1.carry he rfl rfl rfl rfl ha.rate ha.toWithdraw rfl rfl) fun u hu => ?_
  exact .pure ⟨hu, hzero⟩

theorem Tallied.depositGbc {toWithdraw : Int} (hlow : -9223372036854775808 ≤ toWithdraw)
    {r : WithdrawVestingRoute} (hr : 0 ≤ r.percent ∧ r.percent ≤ hundredPercent)
    {st : Database × Int} (h : Tallied st.1 ∧ (toWithdraw < 0 → st.2 = 0)) :
    Returns (Database.depositGbc toWithdraw st r) fun st' =>
      Tallied st'.1 ∧ (toWithdraw < 0 → st'.2 = 0) := by
  unfold Database.depositGbc
  refine .ite (fun _ => .ok h) fun _ => .bind_any fun _ => .bind_eq fun deposit hdeposit =>
    .ensure fun _ => .bind_any fun _ => .bind_any fun converted => ?_
  have hzero : toWithdraw < 0 → st.2 + deposit = 0 := by
    intro hneg
    rw [h.2 hneg, routeDeposit_of_neg hneg hlow hr deposit hdeposit, add_zero]
  refine .ite (fun _ => ?_) fun _ => .pure ⟨h.1, hzero⟩
  refine .bind (h.1.modifyQuiet r.toAccount fun _ => rfl) fun t ht => ?_
  refine .bind (modifyProps_props t _) fun u hu => .pure ⟨?_, hzero⟩
  exact ht.of_same (by rw [hu]) (by rw [hu]) (by rw [hu]) (by rw [hu])

theorem Tallied.processVestingWithdrawal (h : Tallied s) (account : AccountName) :
    Returns (s.processVestingWithdrawal account) Tallied := by
  unfold Database.processVestingWithdrawal
  refine .bind_eq fun a ha => .ensure fun _ => .bind_eq fun toWithdraw hweek => ?_
  have hlow := weeklyWithdrawal_low (Books.bounded h a (getAccount_mem ha).1) toWithdraw hweek
  have hpercent : ∀ r ∈ s.routesOf account, 0 ≤ r.percent ∧ r.percent ≤ hundredPercent :=
    fun r hr => Books.percents h r (mem_routesOf hr)
  refine .bind (Returns.foldlM (P := fun st => Tallied st.1 ∧ (toWithdraw < 0 → st.2 = 0))
    ⟨h, fun _ => rfl⟩ fun st hst r hr => Tallied.depositVests hlow (hpercent r hr) hst)
    fun ⟨t, asVests⟩ ⟨ht, hvests⟩ => ?_
  refine .bind (Returns.foldlM (P := fun st => Tallied st.1 ∧ (toWithdraw < 0 → st.2 = 0))
    ⟨ht, fun _ => rfl⟩ fun st hst r hr => Tallied.depositGbc hlow (hpercent r hr) hst)
    fun ⟨u, asGbc⟩ ⟨hu, hgbc⟩ => ?_
  refine .ensure fun hconvert => .bind_any fun price => .bind_any fun converted => ?_
  refine .bind (modifyAccount_spec u account _) fun v ⟨c, he⟩ => ?_
  refine .bind (modifyProps_props v _) fun w hw => ?_
  have hc := hu.bounded_of he
  have hrate : 0 ≤ if c.toWithdraw ≤ c.withdrawn + toWithdraw ∨ c.vestingShares - toWithdraw = 0
      then 0 else c.vestingWithdrawRate := by
    split
    · exact le_rfl
    · exact hc.rate
  refine .ite (fun _ => ?_) fun hnot => ?_
  · exact hu.carry he rfl rfl rfl rfl hrate hc.toWithdraw (sub_eq_add_neg _ _) hw
  · -- nothing is withdrawn: less than nothing would not have come this far
    have hzero : toWithdraw = 0 := by
      by_contra hne
      have hneg : toWithdraw < 0 := by omega
      have h1 : asVests = 0 := hvests hneg
      have h2 : asGbc = 0 := hgbc hneg
      rw [h1, h2, decide_eq_true_eq] at hconvert
      omega
    refine .ok ((hu.editQuiet he rfl rfl rfl rfl ?_ hrate hc.toWithdraw).of_same (by rw [hw])
      (by rw [hw]) (by rw [hw]) (by rw [hw]))
    show c.vestingShares - toWithdraw = c.vestingShares
    omega

/-! ## New accounts -/

/-- Whoever has votes handed to it exists. -/
theorem Books.ancestor_exists {b : Page} (h : Books b s) {k : Nat} {n p : AccountName}
    (hk : ancestor b.up (k + 1) n = some p) : p ∈ s.accounts.rows.map Account.name := by
  induction k generalizing n with
  | zero =>
      cases hup : b.up n with
      | none =>
          rw [ancestor_succ_of_none hup] at hk
          cases hk
      | some q =>
          rw [ancestor_succ_of_some hup, ancestor_zero, Option.some.injEq] at hk
          exact hk ▸ h.proxyExists n q hup
  | succ k ih =>
      cases hup : b.up n with
      | none =>
          rw [ancestor_succ_of_none hup] at hk
          cases hk
      | some q =>
          rw [ancestor_succ_of_some hup] at hk
          exact ih hk

/-- An account with nothing in the books. -/
theorem Tallied.addAccount (h : Tallied s) (hfresh : a.name ∉ s.accounts.rows.map Account.name)
    (hproxy : a.proxy = proxyToSelfAccount) (hshares : a.vestingShares = 0)
    (hvotes : a.proxiedVsfVotes = #v[0, 0, 0, 0]) (hvoted : a.witnessesVotedFor = 0)
    (hrate : a.vestingWithdrawRate = 0) (hwithdraw : a.toWithdraw = 0) (n : Nat) :
    Tallied { s with accounts := ⟨n, s.accounts.rows ++ [a]⟩ } := by
  -- the new account votes for itself, so the forest stays
  have hup : proxyOf (s.accounts.rows ++ [a]) = proxyOf s.accounts.rows := by
    funext n
    unfold proxyOf
    rw [List.find?_append]
    cases hfind : s.accounts.rows.find? fun a => a.name = n with
    | some c => rfl
    | none =>
        by_cases hn : a.name = n
        · simp [hn, hproxy]
        · simp [hn]
  have hweight : a.witnessVoteWeight = 0 := by
    rw [Account.witnessVoteWeight, hshares, hvotes]
    rfl
  have hlevel : ∀ k p, Lib.level (proxyOf s.accounts.rows) Prod.fst Prod.snd
      (s.stakes ++ [(a.name, 0)]) k p = s.page.level k p := by
    intro k p
    rw [Lib.level, sumOf_append, sumOf_cons, sumOf_nil, mul_zero, add_zero, add_zero]
    rfl
  have hnames : (s.accounts.rows ++ [a]).map Account.name =
      s.accounts.rows.map Account.name ++ [a.name] := by
    rw [List.map_append]
    rfl
  have hbooks : Books { s.page with stakes := s.stakes ++ [(a.name, 0)] }
      { s with accounts := ⟨n, s.accounts.rows ++ [a]⟩ } :=
    { h with
      up := hup
      stakes := by
        show (s.accounts.rows ++ [a]).map _ = _
        rw [List.map_append, ← hshares]
        rfl
      names := by
        rw [hnames]
        exact nodup_append_single h.names hfresh
      proxyExists := fun n p hp => by
        rw [hnames]
        exact List.mem_append_left _ (h.proxyExists n p hp)
      voterExists := fun v hv => by
        rw [hnames]
        exact List.mem_append_left _ (h.voterExists v hv)
      bounded := fun c hc => by
        rcases List.mem_append.mp hc with hc | hc
        · exact h.bounded c hc
        · obtain rfl := List.mem_singleton.mp hc
          exact ⟨by omega, hrate.ge, hwithdraw.ge, by omega⟩
      counted := fun c hc => by
        rcases List.mem_append.mp hc with hc | hc
        · exact h.counted c hc
        · obtain rfl := List.mem_singleton.mp hc
          rw [hvoted]
          symm
          apply List.countP_eq_zero.mpr
          intro v hv hname
          rw [decide_eq_true_eq] at hname
          exact hfresh (hname ▸ h.voterExists v hv)
      proxied := fun c hc i => by
        show _ = Lib.level (proxyOf s.accounts.rows) Prod.fst Prod.snd
          (s.stakes ++ [(a.name, 0)]) _ _ + 0
        rw [hlevel]
        rcases List.mem_append.mp hc with hc | hc
        · exact h.proxied c hc i
        · obtain rfl := List.mem_singleton.mp hc
          -- whoever an account votes through exists already
          have hzero : s.page.level (i.val + 1) c.name = 0 := by
            apply sumOf_eq_zero
            intro x _
            rw [hits_eq_zero, zero_mul]
            exact fun hx => hfresh (Books.ancestor_exists h hx)
          rw [hzero, hvotes]
          fin_cases i <;> rfl
      votes := fun w hw => by
        show w.votes = sumOf _ (s.accounts.rows ++ [a]) + 0
        rw [sumOf_append, sumOf_cons, sumOf_nil, hweight, mul_zero, add_zero, add_zero]
        exact h.votes w hw }
  exact hbooks.tallied rfl (fun _ _ _ => rfl) fun _ => rfl

theorem Tallied.createAccount (h : Tallied s) (name creator : AccountName) (received : Int) :
    Returns (s.createAccount name creator received) Tallied := by
  refine (createAccount_spec s name creator received).mono fun t ⟨hfresh, a, ha, ht⟩ => ?_
  have hname : a.name = name := congrArg Account.name ha
  rw [← hname] at hfresh
  rw [ht]
  exact h.addAccount hfresh (congrArg Account.proxy ha)
    (congrArg Account.vestingShares ha) (congrArg Account.proxiedVsfVotes ha)
    (congrArg Account.witnessesVotedFor ha) (congrArg Account.vestingWithdrawRate ha)
    (congrArg Account.toWithdraw ha) _

theorem Tallied.createDelegation (h : Tallied s) (delegator delegatee : AccountName)
    (shares : Int) :
    Tallied (s.createDelegation delegator delegatee shares) := by
  unfold Database.createDelegation
  split
  · exact h.of_same rfl rfl rfl rfl
  · exact h

theorem Tallied.accountCreate (h : Tallied s) (creator newName : AccountName)
    (auths : List AccountName) (fee : Int) :
    Returns (s.accountCreate creator newName auths fee) Tallied := by
  refine accountCreate_cases s creator newName auths fee (fun _ _ shares _ _ => ?_) fun _ => ?_
  · refine .bind (h.modifyQuiet creator fun _ => rfl) fun t ht => ?_
    refine .bind (ht.createAccount newName creator shares.amount) fun u hu => .pure ?_
    exact hu.createDelegation creator newName shares.amount
  · refine .bind (h.modifyQuiet creator fun _ => rfl) fun t ht => ?_
    refine .bind (ht.createAccount newName creator 0) fun u hu => ?_
    exact .ite (fun _ => hu.createVesting newName _) fun _ => .ok hu

theorem Tallied.accountCreateWithDelegation (h : Tallied s) (creator newName : AccountName)
    (auths : List AccountName) (fee delegation : Int) :
    Returns (s.accountCreateWithDelegation creator newName auths fee delegation) Tallied := by
  refine accountCreateWithDelegation_cases s creator newName auths fee delegation
    fun _ _ _ _ _ => ?_
  refine .bind (h.modifyQuiet creator fun _ => rfl) fun t ht => ?_
  refine .bind (ht.createAccount newName creator delegation) fun u hu => ?_
  have hv := hu.createDelegation creator newName delegation
  exact .ite (fun _ => hv.createVesting newName _) fun _ => .ok hv

theorem Tallied.createClaimedAccount (h : Tallied s) (creator newName : AccountName)
    (auths : List AccountName) :
    Returns (s.createClaimedAccount creator newName auths) Tallied := by
  refine createClaimedAccount_cases s creator newName auths ?_
  exact .bind (h.modifyQuiet creator fun _ => rfl) fun t ht => ht.createAccount newName creator 0

/-! ## Delegations and requests -/

theorem Tallied.delegateVestingShares (h : Tallied s) (delegator delegatee : AccountName)
    (shares : Int) : Returns (s.delegateVestingShares delegator delegatee shares) Tallied := by
  unfold Database.delegateVestingShares
  refine .bind_any fun _ => .ensure fun _ => .ensure fun _ => .bind_any fun _ => .bind_any fun _ =>
    .bind_any fun _ => .bind_any fun _ => .bind_any fun _ => .bind_any fun ⟨_, _⟩ => ?_
  dsimp only
  split
  · refine .ensure fun _ => .ensure fun _ => ?_
    refine .bind (Tallied.modifyQuiet ?_ delegator fun _ => rfl) fun t ht => ?_
    · exact h.of_same rfl rfl rfl rfl
    · exact ht.modifyQuiet delegatee fun _ => rfl
  · refine .ite (fun _ => ?_) fun _ => ?_
    · refine .bind_any fun _ => .ensure fun _ => .ensure fun _ => ?_
      refine .bind (h.modifyQuiet delegator fun _ => rfl) fun t ht => ?_
      refine .bind (ht.modifyQuiet delegatee fun _ => rfl) fun u hu => .pure ?_
      exact hu.of_same rfl rfl rfl rfl
    · refine .bind_any fun _ => .bind_any fun _ => ?_
      refine .bind (Tallied.modifyQuiet ?_ delegatee fun _ => rfl) fun t ht => .pure ?_
      · exact h.of_same rfl rfl rfl rfl
      · exact ht.of_same rfl rfl rfl rfl

theorem Tallied.clearExpiredDelegation (h : Tallied s) (id : Nat) :
    Returns (s.clearExpiredDelegation id) Tallied := by
  unfold Database.clearExpiredDelegation
  refine .bind_any fun _ => .ensure fun _ => ?_
  exact .bind (h.modifyQuiet _ fun _ => rfl) fun t ht => .pure (ht.of_same rfl rfl rfl rfl)

theorem Tallied.reclaimAccountCreationDelegation (h : Tallied s) (id : Nat) :
    Returns (s.reclaimAccountCreationDelegation id) Tallied := by
  unfold Database.reclaimAccountCreationDelegation
  refine .bind_any fun _ => .ensure fun _ => ?_
  exact .bind (h.modifyQuiet _ fun _ => rfl) fun t ht => .pure (ht.of_same rfl rfl rfl rfl)

theorem Tallied.declineVotingRights (h : Tallied s) (account : AccountName) (decline : Bool) :
    Returns (s.declineVotingRights account decline) Tallied := by
  unfold Database.declineVotingRights
  refine .bind_any fun _ => .bind_any fun _ => .ite (fun _ => .ensure fun _ => .pure ?_)
    fun _ => .ensure fun _ => .pure ?_
  · exact h.of_same rfl rfl rfl rfl
  · exact h.of_same rfl rfl rfl rfl

/-! ## The null account -/

/-- The null account has no proxy and no votes, so its shares may go without
a word to anybody. -/
theorem Tallied.burnVestingShares (h : Tallied s) :
    Returns s.burnVestingShares fun r => Tallied r.1 := by
  refine burnVestingShares_cases h fun a _ x => .bind (modifyProps_props s _) fun t ht => ?_
  refine (modifyAccount_spec t nullAccount _).mono fun u ⟨c, he⟩ => ?_
  have htallied : Tallied t := h.of_same (by rw [ht]) (by rw [ht]) (by rw [ht]) (by rw [ht])
  have hc := htallied.bounded_of he
  have hu := Books.editShares htallied he rfl rfl rfl rfl hc.rate hc.toWithdraw
    (d := -c.vestingShares) (by show (0 : Int) = _; ring)
  refine hu.tallied rfl (fun p i _ => ?_) fun w => ?_
  · show 0 - hits t.page.up (i + 1) nullAccount p * _ = 0
    rw [hits_succ_of_none (Books.nullRoot htallied)]
    ring
  · have hballot : ballot t.page.ballots w nullAccount = 0 := by
      apply if_neg
      exact fun hv => Books.voterNull htallied _ hv rfl
    show 0 - ballot t.page.ballots w nullAccount * _ = 0
    rw [hballot]
    ring

theorem Tallied.clearNullAccountBalance (h : Tallied s) :
    Returns s.clearNullAccountBalance Tallied :=
  clearNullAccountBalance_cases h Tallied.sameStake fun _ ht => Tallied.burnVestingShares ht

/-! ## Witnesses -/

theorem Tallied.sameWitnesses (h : Tallied s) (hs : SameWitnesses s t) : Tallied t := by
  have hvotes :=
    congrArg (List.map fun p : Nat × AccountName × Int × Option Nat => (p.2.1, p.2.2.1))
    hs.witnesses
  rw [List.map_map, List.map_map] at hvotes
  exact h.of_same (by rw [hs.rest]) hvotes (by rw [hs.rest]) (by rw [hs.rest])

/-- A witness modified without its votes. -/
theorem Tallied.modifyWitness (h : Tallied s) {owner : AccountName} {w : Witness}
    (hw : s.getWitness owner = .ok w) {f : Witness → Witness} (howner : (f w).owner = w.owner)
    (hvotes : (f w).votes = w.votes) : Tallied (s.modifyWitness owner f) := by
  have ht := Books.editWitness h (editedWitness_modifyWitness hw f) howner (d := 0)
    (by rw [hvotes, add_zero])
  refine ht.tallied rfl (fun _ _ _ => rfl) fun o => ?_
  show 0 + (if o = owner then (0 : Int) else 0) = 0
  simp

/-- Nobody votes for a new witness yet. -/
theorem Tallied.addWitness (h : Tallied s) {w : Witness}
    (hfresh : w.owner ∉ s.witnesses.rows.map Witness.owner) (hvotes : w.votes = 0) (n : Nat) :
    Tallied { s with witnesses := ⟨n, s.witnesses.rows ++ [w]⟩ } := by
  have howners : (s.witnesses.rows ++ [w]).map Witness.owner =
      s.witnesses.rows.map Witness.owner ++ [w.owner] := by
    rw [List.map_append]
    rfl
  exact
    { h with
      owners := by
        rw [howners]
        exact nodup_append_single h.owners hfresh
      candidate := fun v hv => by
        rw [howners]
        exact List.mem_append_left _ (h.candidate v hv)
      votes := fun c hc => by
        rcases List.mem_append.mp hc with hc | hc
        · exact h.votes c hc
        · obtain rfl := List.mem_singleton.mp hc
          rw [hvotes, sumOf_eq_zero]
          · rfl
          · intro a _
            have hballot : ballot s.witnessVotes c.owner a.name = 0 := by
              apply if_neg
              exact fun hv => hfresh (h.candidate _ hv)
            show ballot s.witnessVotes c.owner a.name * _ = 0
            rw [hballot, zero_mul] }

theorem Tallied.witnessUpdate (h : Tallied s) (owner : AccountName) (key : Option Nat) (fee : Int)
    (size rate : Nat) : Returns (s.witnessUpdate owner key fee size rate) Tallied := by
  unfold Database.witnessUpdate
  refine .bind_any fun _ => .ensure fun _ => .ensure fun _ => .ensure fun _ => .bind_any fun _ => ?_
  split
  next w hw => exact .pure (h.modifyWitness (require_eq_ok.mpr hw) rfl rfl)
  next hnone =>
    have hfresh : owner ∉ s.witnesses.rows.map Witness.owner := find?_key_eq_none.mp hnone
    exact .pure (Tallied.addWitness h (by exact hfresh) rfl _)

theorem Tallied.witnessSetProperties (h : Tallied s) (owner : AccountName) (key : Option Nat)
    (newKey : Option (Option Nat)) (fee : Option Int) (size rate limit : Option Nat) :
    Returns (s.witnessSetProperties owner key newKey fee size rate limit) Tallied := by
  unfold Database.witnessSetProperties
  refine .ensure fun _ => .bind_eq fun w hw => .ensure fun _ => .pure ?_
  exact h.modifyWitness hw rfl rfl

theorem Tallied.recordMissedBlock (h : Tallied s) (owner : AccountName) :
    Returns (s.recordMissedBlock owner) Tallied := by
  unfold Database.recordMissedBlock
  exact .bind_eq fun w hw => .pure (h.modifyWitness hw rfl rfl)

/-! ## Runs -/

/-- Nobody has shares, proxies or votes yet. -/
theorem tallied_of_blank (hvotes : s.witnessVotes = [])
    (hroutes : s.withdrawVestingRoutes.rows = [])
    (hnames : (s.accounts.rows.map Account.name).Nodup)
    (howners : (s.witnesses.rows.map Witness.owner).Nodup)
    (haccounts : ∀ a ∈ s.accounts.rows, a.proxy = proxyToSelfAccount ∧ a.vestingShares = 0 ∧
      a.proxiedVsfVotes = #v[0, 0, 0, 0] ∧ a.witnessesVotedFor = 0 ∧ Bounded a)
    (hwitnesses : ∀ w ∈ s.witnesses.rows, w.votes = 0) : Tallied s := by
  have hup : ∀ n, s.page.up n = none := by
    intro n
    show proxyOf s.accounts.rows n = none
    unfold proxyOf
    cases hfind : s.accounts.rows.find? fun a => a.name = n with
    | none => rfl
    | some a => exact if_pos (haccounts a (List.mem_of_find?_eq_some hfind)).1
  have hlevel : ∀ k n, s.page.level (k + 1) n = 0 := by
    intro k n
    apply sumOf_eq_zero
    intro x _
    rw [hits_succ_of_none (hup x.1), zero_mul]
  have hpage : s.page.ballots = [] := hvotes
  exact
    { ballots := rfl
      up := rfl
      stakes := rfl
      names := hnames
      owners := howners
      acyclic := fun n k => by
        rw [ancestor_succ_of_none (hup n)]
        simp
      proxyExists := fun n p hp => by
        rw [hup n] at hp
        cases hp
      nullRoot := hup nullAccount
      nodup := by rw [hpage]; exact List.nodup_nil
      voterExists := by rw [hpage]; simp
      voterRoot := by rw [hpage]; simp
      voterNull := by rw [hpage]; simp
      candidate := by rw [hpage]; simp
      bounded := fun a ha => (haccounts a ha).2.2.2.2
      percents := by rw [hroutes]; simp
      counted := fun a ha => by
        rw [(haccounts a ha).2.2.2.1]
        show 0 = countBallots s.witnessVotes a.name
        rw [hvotes]
        rfl
      proxied := fun a ha i => by
        rw [(haccounts a ha).2.2.1, hlevel]
        fin_cases i <;> rfl
      votes := fun w hw => by
        rw [hwitnesses w hw, hpage, sumOf_eq_zero]
        · rfl
        · intro a _
          simp [ballot] }

theorem tallied_genesis (supply : Int) : Tallied (genesis supply) := by
  apply tallied_of_blank rfl rfl
  · show ["miners", "null", "temp", "initminer"].Nodup
    decide
  · exact List.nodup_singleton _
  · intro a ha
    simp only [genesis, List.mem_cons, List.not_mem_nil, or_false] at ha
    have hbounded : ∀ name balance, Bounded (genesisAccount name balance) := fun _ _ =>
      ⟨by show (-9223372036854775808 : Int) ≤ 0; decide, by show (0 : Int) ≤ 1; decide, le_rfl,
        by show (0 : Int) < 9223372036854775808; decide⟩
    rcases ha with rfl | rfl | rfl | rfl <;> exact ⟨rfl, rfl, rfl, rfl, hbounded _ _⟩
  · intro w hw
    simp only [genesis, List.mem_cons, List.not_mem_nil, or_false] at hw
    rw [hw]
    rfl

/-- **What one call does to the tally**: nothing. -/
theorem Tallied.perform (h : Tallied s) (c : Call) : Returns (s.perform c) Tallied := by
  cases c with
  | createVesting name liquid => exact h.createVesting name liquid
  | transferToVesting sender recipient amount => exact h.transferToVesting sender recipient amount
  | claimRewardBalance account gbc gbd vests => exact h.claimRewardBalance account gbc gbd vests
  | withdrawVesting account shares => exact h.withdrawVesting account shares
  | setWithdrawVestingRoute sender recipient percent autoVest =>
      exact h.setWithdrawVestingRoute sender recipient percent autoVest
  | processVestingWithdrawal account => exact h.processVestingWithdrawal account
  | accountWitnessProxy account proxy => exact h.accountWitnessProxy account proxy
  | accountWitnessVote account witness approve => exact h.accountWitnessVote account witness approve
  | declineVotingRights account decline => exact h.declineVotingRights account decline
  | processDeclineVotingRights account => exact h.processDeclineVotingRights account
  | delegateVestingShares delegator delegatee shares =>
      exact h.delegateVestingShares delegator delegatee shares
  | clearExpiredDelegation id => exact h.clearExpiredDelegation id
  | reclaimAccountCreationDelegation id => exact h.reclaimAccountCreationDelegation id
  | accountCreate creator name auths fee => exact h.accountCreate creator name auths fee
  | accountCreateWithDelegation creator name auths fee delegation =>
      exact h.accountCreateWithDelegation creator name auths fee delegation
  | createClaimedAccount creator name auths => exact h.createClaimedAccount creator name auths
  | clearNullAccountBalance => exact h.clearNullAccountBalance
  | witnessUpdate owner key fee size rate => exact h.witnessUpdate owner key fee size rate
  | witnessSetProperties owner key newKey fee size rate limit =>
      exact h.witnessSetProperties owner key newKey fee size rate limit
  | recordMissedBlock owner => exact h.recordMissedBlock owner
  | updateWitnessSchedule =>
      exact (updateWitnessSchedule_same s).mono fun t ht => h.sameWitnesses ht
  | other => exact .ok h

theorem Reachable.tallied {C : Database → Call → Prop} (h : Reachable C s) : Tallied s :=
  h.invariant tallied_genesis (fun _ t c _ hs _ hc => hs.perform c t hc)
    fun _ _ hs hst => hs.sameStake hst

/-- The vesting shares of the accounts whose chain of proxies reaches `name`
over exactly `k` links. -/
def sharesBelow (s : Database) (k : Nat) (name : AccountName) : Int :=
  sumOf (fun a => if ancestor (proxyOf s.accounts.rows) k a.name = some name
    then a.vestingShares else 0) s.accounts.rows

theorem page_level (s : Database) (k : Nat) (name : AccountName) :
    s.page.level k name = s.sharesBelow k name := by
  rw [Page.level, Lib.level, page, stakes, sumOf_map, sharesBelow]
  apply sumOf_congr
  intro a _
  unfold hits
  split
  · rw [one_mul]
  · rw [zero_mul]

/-- **Proxied votes.** The proxies form a forest, and an account has at depth
`i` the vesting shares of the accounts `i + 1` links below it. -/
theorem proxied_votes_by_depth (h : Reachable anyCall s) :
    Acyclic (proxyOf s.accounts.rows) ∧
      ∀ p ∈ s.accounts.rows, ∀ i : Fin 4,
        p.proxiedVsfVotes.get i = s.sharesBelow (i.val + 1) p.name := by
  have ht := h.tallied
  refine ⟨Books.acyclic ht, fun p hp i => ?_⟩
  rw [Books.proxied ht p hp i, page_level]
  exact add_zero _

/-- `alice` hands her votes to `bob`, who votes. -/
def firstVotes : List Call :=
  [.accountCreate "initminer" "alice" [] 0, .accountCreate "initminer" "bob" [] 0,
    .transferToVesting "initminer" "alice" (.gbc 1), .transferToVesting "initminer" "bob" (.gbc 2),
    .accountWitnessProxy "alice" "bob", .accountWitnessVote "bob" "initminer" true]

theorem proxied_votes_first :
    ∃ t, run anyCall (genesis 3) firstVotes = .ok t ∧
      (t.accounts.rows.map fun p => (p.name, p.proxiedVsfVotes.get 0)) =
        [("miners", 0), ("null", 0), ("temp", 0), ("initminer", 0), ("alice", 0), ("bob", 1000)] ∧
      Acyclic (proxyOf t.accounts.rows) ∧
      ∀ p ∈ t.accounts.rows, ∀ i : Fin 4,
        p.proxiedVsfVotes.get i = t.sharesBelow (i.val + 1) p.name := by
  obtain ⟨t, hrun, hvotes⟩ := exists_run anyCall (genesis 3) firstVotes
    (fun t => (t.accounts.rows.map fun p => (p.name, p.proxiedVsfVotes.get 0)) =
      [("miners", 0), ("null", 0), ("temp", 0), ("initminer", 0), ("alice", 0), ("bob", 1000)])
    (by decide +kernel)
  exact ⟨t, hrun, by simpa using hvotes, proxied_votes_by_depth (.run (.genesis 3) hrun)⟩

/-- **Votes of witnesses.** A witness has what the accounts weigh that have a
vote for it; an account counts its votes, of which it has none while its proxy
is set. -/
theorem witness_votes_tally (h : Reachable anyCall s) :
    (∀ w ∈ s.witnesses.rows, w.votes =
      sumOf (fun a => if ⟨w.owner, a.name⟩ ∈ s.witnessVotes then a.witnessVoteWeight else 0)
        s.accounts.rows) ∧
    ∀ a ∈ s.accounts.rows, a.witnessesVotedFor = countBallots s.witnessVotes a.name ∧
      (a.proxy ≠ proxyToSelfAccount → a.witnessesVotedFor = 0) := by
  have ht := h.tallied
  refine ⟨fun w hw => ?_, fun a ha => ⟨Books.counted ht a ha, fun hproxy => ?_⟩⟩
  · rw [Books.votes ht w hw]
    show _ + 0 = _
    rw [add_zero]
    apply sumOf_congr
    intro a _
    show (if _ ∈ s.witnessVotes then (1 : Int) else 0) * _ = _
    split
    · rw [one_mul]
    · rw [zero_mul]
  · rw [Books.counted ht a ha]
    apply List.countP_eq_zero.mpr
    intro v hv hname
    rw [decide_eq_true_eq] at hname
    have hroot := Books.voterRoot ht v hv
    rw [hname, Books.up_eq ht ha, if_neg hproxy] at hroot
    cases hroot

theorem witness_votes_first :
    ∃ t, run anyCall (genesis 3) firstVotes = .ok t ∧ t.witnesses.rows.map Witness.votes = [3000] ∧
      (∀ w ∈ t.witnesses.rows, w.votes =
        sumOf (fun a => if ⟨w.owner, a.name⟩ ∈ t.witnessVotes then a.witnessVoteWeight else 0)
          t.accounts.rows) ∧
      ∀ a ∈ t.accounts.rows, a.witnessesVotedFor = countBallots t.witnessVotes a.name ∧
        (a.proxy ≠ proxyToSelfAccount → a.witnessesVotedFor = 0) := by
  obtain ⟨t, hrun, hvotes⟩ := exists_run anyCall (genesis 3) firstVotes
    (fun t => t.witnesses.rows.map Witness.votes = [3000]) (by decide +kernel)
  exact ⟨t, hrun, by simpa using hvotes, witness_votes_tally (.run (.genesis 3) hrun)⟩

end Database

end Gamebank.Ledger
