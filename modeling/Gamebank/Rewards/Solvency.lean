import Gamebank.Lib.Runs
import Gamebank.Rewards.Payouts
import Gamebank.Stake.Power
import Mathlib.Data.Prod.Lex

/-!
# The reward fund is solvent

The claims of the comments that are due are added to the recent claims first,
so that every comment gets its share of one balance. The loop that pays them
starts over with the first comment after each one; what it has paid is
covered by the claims it has paid, and the comments that are still due claim
the rest (`Cashing`). So it never pays more than the balance it started with,
and it pays nobody but those whom a comment that was due pays (`Credited`).

A state is reached from genesis by operations on comments and votes, by the
routines `process_funds` and `process_comment_cashout`, and by anything that
has to do with neither.
-/

namespace Gamebank.Rewards

open Gamebank.Lib Gamebank.Protocol Gamebank.Ledger
open Gamebank.Ledger.Database (modifyAccount_spec modifyProps_spec require_eq_ok OnlyVotes)

variable {s t : Database} {c : Comment}

/-! ## What is due -/

/-- What a comment that is due adds to the recent claims. -/
def Claim.due (now : Nat) (a : Claim) : Int :=
  if a.cashoutTime ≤ now then max 0 a.netRshares else 0

def due (v : View) : Int := sumOf (Claim.due v.now) v.claims

theorem Claim.due_nonneg (now : Nat) (a : Claim) : 0 ≤ a.due now := by
  unfold Claim.due
  split <;> omega

theorem Claim.due_cashedOut (now : Nat) (a : Claim) : a.cashedOut.due now = 0 := by
  have hnet : max 0 a.cashedOut.netRshares = 0 := by
    show max 0 (if 0 < a.netRshares then 0 else a.netRshares) = 0
    split <;> omega
  unfold Claim.due
  rw [hnet]
  split <;> rfl

theorem Claim.Sound.due_le {votes : List CommentVote} {a : Claim} (h : a.Sound votes) (now : Nat) :
    a.due now ≤ a.capacity := by
  have hnet := h.net
  have hpaid := h.paid
  unfold Claim.due Claim.capacity
  split
  · split
    next hmax =>
      have := hpaid hmax
      omega
    next => omega
  · split <;> omega

theorem dueComment_some (h : s.dueComment = some c) :
    c ∈ s.comments.rows ∧ c.cashoutTime ≤ s.headBlockTime := by
  unfold Database.dueComment at h
  rw [Option.filter_eq_some_iff] at h
  exact ⟨Table.mem_of_least h.1, by simpa using h.2⟩

/-- The order of `by_cashout_time`. -/
def cashoutRank (c : Comment) : Nat ×ₗ Nat := toLex (c.cashoutTime, c.id)

theorem dueComment_none (h : s.dueComment = none) : due (view s) = 0 := by
  refine sumOf_eq_zero fun a ha => ?_
  obtain ⟨c, hc, rfl⟩ := List.mem_map.mp ha
  unfold Claim.due
  rw [if_neg]
  intro hdue
  unfold Database.dueComment at h
  cases hfirst : s.comments.first Database.cashesOutBefore with
  | none =>
      rw [Table.first, Table.least_eq_none] at hfirst
      rw [hfirst] at hc
      cases hc
  | some d =>
      have hrank := Table.rank_least_le cashoutRank (fun a _ b _ => by
        rw [cashoutRank, cashoutRank, Prod.Lex.toLex_lt_toLex]
        exact decide_eq_true_iff) hfirst c hc
      have hle : d.cashoutTime ≤ c.cashoutTime := by
        rw [cashoutRank, cashoutRank, Prod.Lex.toLex_le_toLex] at hrank
        rcases hrank with hlt | heq
        · exact hlt.le
        · exact heq.1.le
      rw [hfirst, Option.filter_some, if_pos] at h
      · cases h
      · exact decide_eq_true (hle.trans hdue)

/-! ## The first loop -/

/-- What the recent claims of a fund may grow to. -/
def claimsBound (nextId : Nat) : Int :=
    (RewardFund.post 0 0 0).recentClaims + 9223372036854775808 * nextId

theorem claimsBound_lt {n : Nat} (h : n ≤ idRange) :
    claimsBound n < 340282366920938463463374607431768211456 := by
  unfold idRange at h
  show 140797515942543623 + 9223372036854775808 * (n : Int) < _
  omega

theorem capacity_nonneg (v : View) : 0 ≤ sumOf Claim.capacity v.claims :=
  sumOf_nonneg fun a _ => a.capacity_nonneg

theorem Sound.due_le {v : View} (h : Sound v) : due v ≤ sumOf Claim.capacity v.claims :=
  sumOf_le_sumOf fun a ha => (h.claims a ha).due_le v.now

/-- The recent claims decay, but not to nothing. -/
theorem decay_bounds {f : RewardFund} (now : Nat) (hpos : 0 < f.recentClaims)
    (hlt : f.recentClaims < 340282366920938463463374607431768211456) (hupdated : f.lastUpdate ≤ now)
    (hrecent : (now : Int) < f.lastUpdate + Database.recentRsharesDecayTime) :
    0 < (Database.decay now f).recentClaims ∧
      (Database.decay now f).recentClaims ≤ f.recentClaims := by
  unfold Database.recentRsharesDecayTime at hrecent
  obtain ⟨elapsed, helapsed⟩ : ∃ e : Int, e = (now : Int) - f.lastUpdate := ⟨_, rfl⟩
  have hproduct : 0 ≤ f.recentClaims * elapsed := Int.mul_nonneg hpos.le (by omega)
  have hwrapped : 0 ≤ toUInt128 (f.recentClaims * elapsed) ∧
      toUInt128 (f.recentClaims * elapsed) ≤ f.recentClaims * elapsed := by
    unfold toUInt128
    omega
  have hpart : f.recentClaims * elapsed ≤ f.recentClaims * 1295999 :=
    Int.mul_le_mul_of_nonneg_left (by omega) hpos.le
  have hdecayed : (Database.decay now f).recentClaims =
      toUInt128 (f.recentClaims - toUInt128 (f.recentClaims * elapsed) / 1296000) := by
    rw [helapsed]
    rfl
  rw [hdecayed]
  generalize toUInt128 (f.recentClaims * elapsed) = lost at hwrapped ⊢
  unfold toUInt128
  omega

theorem decayFunds_sound (h : Sound (view s))
    (hrecent : ∀ f ∈ s.rewardFunds.rows,
      (s.headBlockTime : Int) < f.lastUpdate + Database.recentRsharesDecayTime) :
    ∃ f d, s.rewardFunds.rows = [f] ∧ d.rewardBalance = f.rewardBalance ∧
      Sound (view s.decayFunds) ∧
      Funded (view s.decayFunds) d := by
  obtain ⟨f, hf⟩ := h.fund
  have hrows : s.rewardFunds.rows = [f] := hf.funds
  have hview : view s.decayFunds = { view s with funds := [Database.decay s.headBlockTime f] } := by
    unfold Database.decayFunds
    rw [hrows]
    rfl
  have hroom :
    f.recentClaims + sumOf Claim.capacity (view s).claims ≤ claimsBound (view s).nextId := hf.room
  have hlt := claimsBound_lt h.range
  have hcapacity := capacity_nonneg (view s)
  obtain ⟨hpos, hle⟩ := decay_bounds s.headBlockTime hf.claims (by omega) hf.updated
    (hrecent f (hrows ▸ List.mem_singleton_self f))
  have hfunded : Funded { view s with funds := [Database.decay s.headBlockTime f] }
      (Database.decay s.headBlockTime f) :=
    { funds := rfl
      post := by
        have hpost := hf.post
        unfold Database.decay
        rw [hpost]
        rfl
      solvent := hf.solvent
      fits := hf.fits
      updated := le_rfl
      claims := hpos
      room := by
        show _ + sumOf Claim.capacity (view s).claims ≤ claimsBound (view s).nextId
        omega }
  refine ⟨f, Database.decay s.headBlockTime f, hrows, rfl, ?_, hview ▸ hfunded⟩
  rw [hview]
  exact { h with fund := ⟨_, hfunded⟩ }

/-- The claims of all comments that are due are added to the recent claims. -/
theorem addClaims_spec (h : Sound (view s)) {f : RewardFund} (hf : Funded (view s) f) :
    Returns ((s.comments.rows.filter fun c => c.cashoutTime ≤ s.headBlockTime).foldlM s.addClaim
      [Database.RewardFundContext.of f]) fun funds =>
      funds = [⟨f.recentClaims + due (view s), f.rewardBalance, 0⟩] := by
  have hlt := claimsBound_lt h.range
  have hroom :
    f.recentClaims + sumOf Claim.capacity (view s).claims ≤ claimsBound (view s).nextId := hf.room
  have hdue := h.due_le
  have hcurve : f.authorRewardCurve = .linear := by rw [hf.post]; rfl
  have hid : f.id = 0 := by rw [hf.post]; rfl
  have hsum : sumOf (fun c => max 0 c.netRshares)
      (s.comments.rows.filter fun c => c.cashoutTime ≤ s.headBlockTime) = due (view s) := by
    rw [sumOf_filter]
    show _ = sumOf (Claim.due s.headBlockTime) (s.comments.rows.map claim)
    rw [sumOf_map]
    simp only [decide_eq_true_eq]
    rfl
  refine Returns.foldlM_rest (I := fun (rest : List Comment) (funds : List RewardFundContext) =>
    ∃ sum, funds = [⟨f.recentClaims + sum, f.rewardBalance, 0⟩] ∧ 0 ≤ sum ∧
      sum + sumOf (fun c => max 0 c.netRshares) rest = due (view s)) ?_ ?_ |>.mono ?_
  · rintro c rest funds ⟨sum, rfl, hnonneg, htotal⟩
    rw [sumOf_cons] at htotal
    have hrest : 0 ≤ sumOf (fun c : Comment => max 0 c.netRshares) rest :=
      sumOf_nonneg fun _ _ => le_max_left _ _
    unfold Database.addClaim
    refine .ite (fun hpos => ?_) fun hneg => .pure ⟨sum, rfl, hnonneg, by omega⟩
    refine .bind_eq fun fund hfund => .pure ⟨sum + c.netRshares, ?_, by omega, by omega⟩
    cases (getRewardFund_eq hf).symm.trans hfund
    have hexact : toUInt128 (f.recentClaims + sum + c.netRshares) =
        f.recentClaims + (sum + c.netRshares) := by
      have := hf.claims
      have := capacity_nonneg (view s)
      rw [toUInt128_eq (by omega) (by omega)]
      omega
    rw [hid, hcurve]
    show [_] = [_]
    rw [← hexact]
    rfl
  · refine ⟨0, ?_, le_rfl, by omega⟩
    rw [Int.add_zero]
    rfl
  · rintro funds ⟨sum, rfl, -, htotal⟩
    rw [sumOf_nil, Int.add_zero] at htotal
    rw [htotal]

/-! ## The second loop -/

/-- Only comments and votes are different. -/
structure SameBlock (v w : View) : Prop where
  now : w.now = v.now
  supply : w.supply = v.supply
  nextId : w.nextId = v.nextId
  funds : w.funds = v.funds

theorem CashedOut.sameBlock {x : Int} (h : CashedOut s t c x) : SameBlock (view s) (view t) := by
  rw [h.rest]
  exact ⟨rfl, rfl, rfl, rfl⟩

theorem SameBlock.trans {v w x : View} (h : SameBlock v w) (h' : SameBlock w x) : SameBlock v x :=
  ⟨h'.now.trans h.now, h'.supply.trans h.supply, h'.nextId.trans h.nextId, h'.funds.trans h.funds⟩

/-- Who is credited when the comments that are due are cashed out. -/
def Credited (s : Database) (name : AccountName) : Prop :=
  ∃ c ∈ s.comments.rows, c.cashoutTime ≤ s.headBlockTime ∧ Recipient s c name

/-- The loop that pays from the balance of `f`, with `total` recent claims, has
come from `s` to `t` and has awarded `awarded`. -/
structure Cashing (s : Database) (f : RewardFund) (total : Int) (t : Database) (awarded : Int) :
    Prop where
  nonneg : 0 ≤ awarded
  sound : Sound (view t)
  same : SameBlock (view s) (view t)
  held : held t = held s + awarded
  gains : ∀ name, holding s name ≤ holding t name
  others : ∀ name, ¬Credited s name → holding t name = holding s name
  credited : ∀ name, Credited t name → Credited s name
  covered : Covered f.rewardBalance total awarded (due (view t))
  room : total + sumOf Claim.capacity (view t).claims - due (view t) ≤ claimsBound (view s).nextId

variable {f : RewardFund} {total awarded : Int}

theorem Recipient.of_payees {d : Comment} {name : AccountName} (h : Recipient t d name)
    (hvotes : (view t).votes ⊆ (view s).votes) (hpayees : payeesOf c = payeesOf d) :
    Recipient s c name := by
  simp only [payeesOf, Prod.mk.injEq] at hpayees
  obtain ⟨hid, hauthor, hcuration, hbeneficiaries⟩ := hpayees
  rcases h with hname | hname | ⟨hallowed, v, hv, hcomment, hvoter⟩
  · exact .inl (hname.trans hauthor.symm)
  · exact .inr (.inl (hbeneficiaries ▸ hname))
  · exact .inr (.inr ⟨hcuration.trans hallowed, v, hvotes hv, hcomment.trans hid.symm, hvoter⟩)

/-- Nobody else is to be credited after a comment that was due. -/
theorem CashedOut.credited {x : Int} (hs : Sound (view s)) (h : CashedOut s t c x)
    (hdue : c.cashoutTime ≤ s.headBlockTime) {name : AccountName} (hname : Credited t name) :
    Credited s name := by
  obtain ⟨d, hd, htime, hrecipient⟩ := hname
  have hnow : t.headBlockTime = s.headBlockTime := h.sameBlock.now
  rw [hnow] at htime
  obtain ⟨b, hb, hpayees⟩ : ∃ b ∈ s.comments.rows, payeesOf b = payeesOf d :=
    List.mem_map.mp (h.payees ▸ List.mem_map_of_mem hd)
  have hid : b.id = d.id := congrArg Prod.fst hpayees
  have hmem : claim b ∈ (view s).claims := List.mem_map_of_mem hb
  have hvotes : (view t).votes ⊆ (view s).votes := by
    rw [h.rest]
    exact List.filter_subset_self _
  refine ⟨b, hb, ?_, hrecipient.of_payees hvotes hpayees⟩
  -- it is the comment that was cashed out, or has not changed
  rcases h.claims.symm.mem_of_mem (List.mem_map_of_mem hd) with heq | hold
  · have hb : claim b = claim c :=
      hs.eq_of_id hmem h.claims.mem_old (hid.trans (congrArg Claim.id heq))
    exact (congrArg Claim.cashoutTime hb).trans_le hdue
  · exact (congrArg Claim.cashoutTime (hs.eq_of_id hmem hold hid)).trans_le htime

/-- One comment more. -/
theorem Cashing.step {u : Database} {x : Int} (h : Cashing s f total t awarded)
    (hc : c ∈ t.comments.rows) (hx : CashedOut t u c x) (hdue : c.cashoutTime ≤ (view t).now)
    (hshare : x * total ≤ f.rewardBalance * max 0 c.netRshares) :
    Cashing s f total u (awarded + x) := by
  have hnow := hx.sameBlock.now
  have hrecipient : ∀ name, Recipient t c name → Credited s name :=
    fun name hname => h.credited name ⟨c, hc, hdue, hname⟩
  have hclaim : (claim c).due (view t).now = max 0 c.netRshares := if_pos hdue
  have hsum : due (view t) = max 0 c.netRshares + due (view u) := by
    unfold due
    rw [hnow, hx.claims.sumOf_eq, Claim.due_cashedOut, hclaim]
    omega
  refine ⟨Int.add_nonneg h.nonneg hx.nonneg, hx.sound h.sound, h.same.trans hx.sameBlock, ?_,
    fun name => (h.gains name).trans (hx.gains name), fun name hname => ?_,
    fun name hname => h.credited name (hx.credited h.sound hdue hname), ?_, ?_⟩
  · rw [hx.held, h.held, Int.add_assoc]
  · rw [hx.others name (mt (hrecipient name) hname), h.others name hname]
  · have hcovered := h.covered
    rw [hsum] at hcovered
    exact hcovered.pay hshare
  · have hroom := h.room
    have hle := (h.sound.claims _ hx.claims.mem_old).due_le (view t).now
    rw [hx.claims.sumOf_eq, Claim.capacity_cashedOut]
    omega

theorem cashoutComments_spec (hf : Funded (view s) f) (fuel : Nat)
    (h : Cashing s f total t awarded) :
    Returns (Database.cashoutComments fuel t [⟨total, f.rewardBalance, awarded⟩]) fun r =>
      ∃ awarded', r.2 = [⟨total, f.rewardBalance, awarded'⟩] ∧ Cashing s f total r.1 awarded' ∧
        due (view r.1) = 0 := by
  have hid : f.id = 0 := by rw [hf.post]; rfl
  induction fuel generalizing t awarded with
  | zero =>
      unfold Database.cashoutComments
      split
      next hnone => exact .ok ⟨awarded, rfl, h, dueComment_none hnone⟩
      next => exact .error
  | succ fuel ih =>
      unfold Database.cashoutComments
      split
      next hnone => exact .ok ⟨awarded, rfl, h, dueComment_none hnone⟩
      next c hc =>
        obtain ⟨hmem, hdue⟩ := dueComment_some hc
        obtain ⟨g, hg⟩ := h.sound.fund
        obtain rfl : g = f := by
          have hfunds := hg.funds.symm.trans (h.same.funds.trans hf.funds)
          simpa using hfunds
        refine .bind_eq fun fund hfund => ?_
        cases (getRewardFund_eq hg).symm.trans hfund
        rw [hid]
        refine .bind_eq fun ctx hctx => ?_
        rw [require_eq_ok] at hctx
        cases hctx
        refine .bind (cashoutCommentHelper_spec h.sound hmem hf.solvent hf.fits _) ?_
        rintro ⟨u, x⟩ ⟨hx, hshare⟩
        exact ih (h.step hmem hx hdue hshare)

/-- What is awarded is taken from the fund, which has enough. -/
theorem cashoutDue_spec (h : Sound (view s)) (hf : Funded (view s) f) :
    Returns s.cashoutDue fun t => Sound (view t) ∧ ∃ g, t.rewardFunds.rows = [g] ∧
      0 ≤ g.rewardBalance ∧ g.rewardBalance ≤ f.rewardBalance ∧
      held t = held s + (f.rewardBalance - g.rewardBalance) ∧
      ∀ name, holding s name ≤ holding t name ∧
        (¬Credited s name → holding t name = holding s name) := by
  have hrows : s.rewardFunds.rows = [f] := hf.funds
  have hid : f.id = 0 := by rw [hf.post]; rfl
  have hclaims := hf.claims
  have hdue : 0 ≤ due (view s) := sumOf_nonneg fun a _ => a.due_nonneg _
  have hstart : Cashing s f (f.recentClaims + due (view s)) s 0 :=
    { nonneg := le_rfl
      sound := h
      same := ⟨rfl, rfl, rfl, rfl⟩
      held := (Int.add_zero _).symm
      gains := fun _ => le_rfl
      others := fun _ _ => rfl
      credited := fun _ hname => hname
      covered := Covered.start hf.solvent (by omega)
      room := by
        have hroom : f.recentClaims + sumOf Claim.capacity (view s).claims ≤
          claimsBound (view s).nextId := hf.room
        omega }
  unfold Database.cashoutDue
  rw [hrows]
  refine .bind (addClaims_spec h hf) fun funds hfunds => ?_
  subst hfunds
  refine .bind (cashoutComments_spec hf _ hstart) ?_
  rintro ⟨u, funds⟩ ⟨awarded, hfunds, hu, hnone⟩
  dsimp only at hfunds hu hnone ⊢
  subst hfunds
  have hle := hu.covered.le (by omega) hf.solvent (by rw [hnone])
  have hurows : u.rewardFunds.rows = [f] := hu.same.funds.trans hf.funds
  rw [hurows]
  refine .bind_eq fun rows hmap => .pure ?_
  obtain ⟨g, hg, rfl⟩ := mapM_singleton hmap
  unfold Database.writeBack at hg
  rw [hid] at hg
  obtain ⟨ctx, hctx, hg⟩ := bind_eq_ok.mp hg
  cases require_eq_ok.mp hctx
  obtain ⟨hfits, hg⟩ := ensure_bind_eq_ok.mp hg
  rw [← pure_eq_ok.mp hg]
  have hroom := hu.room
  rw [hnone, Int.sub_zero, ← hu.same.nextId] at hroom
  have hnonneg := hu.nonneg
  have hfits' := hf.fits
  refine ⟨?_, _, rfl, ?_, ?_, ?_, fun name => ⟨hu.gains name, hu.others name⟩⟩
  · refine { hu.sound with fund := ⟨_, rfl, ?_, ?_, ?_, ?_, ?_, hroom⟩ }
    · rw [hf.post]
      rfl
    · show 0 ≤ f.rewardBalance - awarded
      omega
    · show f.rewardBalance - awarded < _
      omega
    · exact hf.updated.trans_eq hu.same.now.symm
    · show 0 < f.recentClaims + due (view s)
      omega
  · show 0 ≤ f.rewardBalance - awarded
    omega
  · show f.rewardBalance - awarded ≤ f.rewardBalance
    omega
  · show held u = _
    rw [hu.held]
    show held s + awarded = held s + (f.rewardBalance - (f.rewardBalance - awarded))
    omega

/-- What `process_comment_cashout` awards is taken from the fund, which has
enough. -/
theorem processCommentCashout_spec (h : Sound (view s))
    (hrecent : ∀ f ∈ s.rewardFunds.rows,
      (s.headBlockTime : Int) < f.lastUpdate + Database.recentRsharesDecayTime) :
    Returns s.processCommentCashout fun t => Sound (view t) ∧ ∃ f g, s.rewardFunds.rows = [f] ∧
      t.rewardFunds.rows = [g] ∧ 0 ≤ g.rewardBalance ∧ g.rewardBalance ≤ f.rewardBalance ∧
      held t = held s + (f.rewardBalance - g.rewardBalance) ∧
      ∀ name, holding s name ≤ holding t name ∧
        (¬Credited s name → holding t name = holding s name) := by
  obtain ⟨f, d, hrows, hbalance, hsound, hd⟩ := decayFunds_sound h hrecent
  refine (cashoutDue_spec hsound hd).mono fun t ⟨ht, g, hg, hrest⟩ => ⟨ht, f, g, hrows, hg, ?_⟩
  rw [hbalance] at hrest
  exact hrest

/-! ## Inflation -/

theorem createVesting_view (s : Database) (name : AccountName) (liquid : Asset) :
    Returns (s.createVesting name liquid) fun t => view t = view s := by
  refine Database.createVesting_cases s name liquid fun price shares _ _ _ t a ht u hu => ?_
  have hview : view u = view s := by
    rw [hu, ht.rest]
    rfl
  refine ((OnlyVotes.refl u).adjustProxiedWitnessVotes name _).mono fun w hw => ?_
  rw [hw.rest]
  exact hview

/-- The one fund gets the whole content reward. -/
theorem payRewardFunds_spec (hf : Funded (view s) f) {reward : Int} (hreward : 0 ≤ reward) :
    Returns (s.payRewardFunds reward) fun r => r.2 = reward ∧
      f.rewardBalance + reward < 9223372036854775808 ∧
      r.1 = { s with
        rewardFunds := { s.rewardFunds with
          rows := [{ f with rewardBalance := f.rewardBalance + reward }] } } := by
  have hrows : s.rewardFunds.rows = [f] := hf.funds
  have hpercent : f.percentContentRewards = hundredPercent := by rw [hf.post]; rfl
  have hall : (reward * f.percentContentRewards).tdiv hundredPercent = reward := by
    rw [hpercent]
    unfold hundredPercent
    rw [Int.tdiv_eq_ediv_of_nonneg (by omega)]
    omega
  unfold Database.payRewardFunds
  rw [hrows, List.foldlM_cons, hall]
  refine .bind (Q := fun r => r = ([{ f with rewardBalance := f.rewardBalance + reward }], reward) ∧
    f.rewardBalance + reward < 9223372036854775808) ?_ ?_
  · refine .bind
      (Q := fun r => r = ([{ f with rewardBalance := f.rewardBalance + reward }], reward) ∧
      f.rewardBalance + reward < 9223372036854775808) ?_ fun r hr => .pure hr
    refine .ensure fun _ => .ensure fun hfits => .ensure fun _ => .pure ⟨?_, ?_⟩
    · rw [Int.zero_add]
      rfl
    · simp only [fitsInt64, decide_eq_true_eq] at hfits
      exact hfits.2
  · rintro r ⟨rfl, hfits⟩
    exact .pure ⟨rfl, hfits, rfl⟩

theorem processFunds_sound (h : Sound (view s)) :
    Returns s.processFunds fun t => Sound (view t) := by
  obtain ⟨f, hf⟩ := h.fund
  have hsupply : 0 ≤ s.props.virtualSupply := h.supply
  have hrate : 0 ≤ Database.inflationRate s.props.headBlockNumber := by
    unfold Database.inflationRate
    omega
  have hnew : 0 ≤ (s.props.virtualSupply * Database.inflationRate s.props.headBlockNumber).tdiv
      (hundredPercent * Database.blocksPerYear) :=
    Int.tdiv_nonneg (Int.mul_nonneg hsupply hrate) (by decide)
  unfold Database.processFunds
  refine .ensure fun _ => .ensure fun _ => ?_
  generalize (s.props.virtualSupply * Database.inflationRate s.props.headBlockNumber).tdiv
    (hundredPercent * Database.blocksPerYear) = newGbc at hnew ⊢
  have hcontent : 0 ≤ (newGbc * Database.contentRewardPercent).tdiv hundredPercent :=
    (tdiv_share hnew (by decide)).1
  have hvesting : 0 ≤ (newGbc * Database.vestingFundPercent).tdiv hundredPercent :=
    (tdiv_share hnew (by decide)).1
  have hshares : (newGbc * Database.contentRewardPercent).tdiv hundredPercent +
      (newGbc * Database.vestingFundPercent).tdiv hundredPercent ≤ newGbc := by
    unfold Database.contentRewardPercent Database.vestingFundPercent hundredPercent
    rw [Int.tdiv_eq_ediv_of_nonneg (by omega), Int.tdiv_eq_ediv_of_nonneg (by omega)]
    omega
  refine .bind (payRewardFunds_spec hf hcontent) ?_
  rintro ⟨s1, content⟩ ⟨hused, hfits, hs1⟩
  dsimp only at hused hs1 ⊢
  rw [← hused] at hcontent hshares hfits hs1
  refine .bind_any fun cwit => ?_
  generalize (newGbc * Database.vestingFundPercent).tdiv hundredPercent =
    vesting at hvesting hshares ⊢
  have hweighted : 0 ≤ (newGbc - content - vesting) * maxWitnesses *
      Database.payWeight s1.schedule cwit.schedule :=
    Int.mul_nonneg (Int.mul_nonneg (by omega) (by decide)) (Int.natCast_nonneg _)
  refine .ensure fun _ => .ensure fun _ => ?_
  have hwitness := Int.tdiv_nonneg hweighted
    (Int.natCast_nonneg s1.schedule.witnessPayNormalizationFactor)
  generalize ((newGbc - content - vesting) * maxWitnesses *
    Database.payWeight s1.schedule cwit.schedule).tdiv
      (s1.schedule.witnessPayNormalizationFactor : Int) = witness at hwitness ⊢
  refine .bind (modifyProps_spec s1 _) fun s2 ⟨_, hs2⟩ => ?_
  refine (createVesting_view s2 _ _).mono fun t ht => ?_
  rw [ht, hs2, hs1]
  exact { h with
    fund := ⟨_, rfl,
      by rw [hf.post]; rfl, by show 0 ≤ f.rewardBalance + content; have := hf.solvent; omega,
      hfits, hf.updated, hf.claims, hf.room⟩
    supply := by
      show 0 ≤ s.props.virtualSupply + (content + vesting + witness)
      omega }

/-! ## Runs -/

/-- What happens to comments, votes and the fund, and anything else. -/
inductive Event where
  | comment (o : CommentOperation)
  | deleteComment (o : DeleteCommentOperation)
  | commentOptions (o : CommentOptionsOperation)
  | vote (o : VoteOperation)
  | newBlock (time : Nat)
  | processFunds
  | processCommentCashout
  | elsewhere (t : Database)

/-- What the rest of the program leaves alone. The supply that inflation is a
share of is never negative. -/
def sameRewards (s t : Database) : Bool :=
  t.headBlockTime = s.headBlockTime && t.comments.nextId = s.comments.nextId &&
  t.comments.rows.map claim = s.comments.rows.map claim && t.commentVotes = s.commentVotes &&
  t.rewardFunds.rows = s.rewardFunds.rows && 0 ≤ t.props.virtualSupply

def perform (tools : TextTools) (s : Database) : Event → Except String Database
  | .comment o => do
      ensure (s.comments.nextId < idRange) "int64_t"
      o.validate tools
      s.comment tools o
  | .deleteComment o => do
      o.validate
      s.deleteComment o
  | .commentOptions o => do
      o.validate
      s.commentOptions o
  | .vote o => do
      o.validate
      s.vote o
  | .newBlock time => do
      ensure (s.headBlockTime < time) "head_block_time() < next_block.timestamp"
      return { s with props := { s.props with time := time } }
  | .processFunds => s.processFunds
  | .processCommentCashout => s.processCommentCashout
  | .elsewhere t => do
      ensure (sameRewards s t) "the rewards have been changed"
      return t

/-- The state after an event; one that throws changes nothing. -/
def step (tools : TextTools) (s : Database) (e : Event) : Database := attempt s (perform tools s e)

/-- `process_comment_cashout` runs in every block, so it ran in the last one:
less than 15 days ago. -/
def Recent (s : Database) : Event → Prop
  | .processCommentCashout => ∀ f ∈ s.rewardFunds.rows,
      (s.headBlockTime : Int) < f.lastUpdate + Database.recentRsharesDecayTime
  | _ => True

theorem perform_sound (tools : TextTools) (h : Sound (view s)) (e : Event) (he : Recent s e) :
    Returns (perform tools s e) fun t => Sound (view t) := by
  cases e with
  | comment o =>
      refine .ensure fun hroom => .bind_any fun _ => (comment_view tools s o).mono fun t ht => ?_
      rcases ht with ht | ht
      · exact ht ▸ h
      · exact ht ▸ h.create (of_decide_eq_true hroom)
  | deleteComment o =>
      refine .bind_any fun _ => (deleteComment_view s o).mono fun t ⟨claims', id, hsub, ht⟩ => ?_
      exact ht ▸ h.drop hsub id
  | commentOptions o => exact .bind_eq fun _ hvalid => commentOptions_sound h hvalid
  | vote o => exact .bind_any fun _ => vote_sound h o
  | newBlock time =>
      refine .ensure fun hlater => .pure ?_
      obtain ⟨f, hf⟩ := h.fund
      have hupdated : f.lastUpdate ≤ time := hf.updated.trans (of_decide_eq_true hlater).le
      exact { h with fund := ⟨f, { hf with updated := hupdated }⟩ }
  | processFunds => exact processFunds_sound h
  | processCommentCashout => exact (processCommentCashout_spec h he).mono fun t ht => ht.1
  | elsewhere t =>
      refine .ensure fun hsame => .pure ?_
      simp only [sameRewards, Bool.and_eq_true, decide_eq_true_eq] at hsame
      obtain ⟨⟨⟨⟨⟨htime, hnext⟩, hclaims⟩, hvotes⟩, hfunds⟩, hsupply⟩ := hsame
      have hview : view t = { view s with supply := t.props.virtualSupply } := by
        ext1
        case now => exact htime
        case nextId => exact hnext
        case claims => exact hclaims
        case votes => exact hvotes
        case funds => exact hfunds
        case supply => rfl
      obtain ⟨f, hf⟩ := h.fund
      rw [hview]
      exact { h with fund := ⟨f, { hf with }⟩, supply := hsupply }

theorem step_sound (tools : TextTools) (h : Sound (view s)) (e : Event) (he : Recent s e) :
    Sound (view (step tools s e)) := by
  unfold step attempt
  split
  next t ht => exact perform_sound tools h e he t ht
  next => exact h

theorem genesis_sound (initialSupply : Nat) : Sound (view (Database.genesis initialSupply)) where
  ids := List.nodup_nil
  fresh := fun _ hc => absurd hc List.not_mem_nil
  claims := fun _ hc => absurd hc List.not_mem_nil
  votes := fun _ hw => absurd hw List.not_mem_nil
  fund := ⟨.post 0 genesisTime 0, rfl, rfl, le_rfl, by decide, le_rfl, by decide,
    show (140797515942543623 : Int) + 0 ≤ 140797515942543623 + 9223372036854775808 * 0 by decide⟩
  supply := Int.natCast_nonneg initialSupply
  range := Nat.zero_le _

/-- **The reward fund is solvent.** In every state that is reached its balance
is not negative, and what `process_comment_cashout` takes from it, at most all of
it, is what the authors, curators and beneficiaries of the comments that are
due are credited with; nobody else's rewards change. -/
theorem reward_fund_solvent (tools : TextTools) (initialSupply : Nat) (events : List Event)
    (h : Along (step tools) Recent (Database.genesis initialSupply) events) :
    let s := events.foldl (step tools) (Database.genesis initialSupply)
    (∃ f, s.rewardFunds.rows = [f] ∧ 0 ≤ f.rewardBalance) ∧
      (Recent s .processCommentCashout → ∀ t, s.processCommentCashout = .ok t →
        ∃ f g, s.rewardFunds.rows = [f] ∧ t.rewardFunds.rows = [g] ∧ 0 ≤ g.rewardBalance ∧
          g.rewardBalance ≤ f.rewardBalance ∧
          held t - held s = f.rewardBalance - g.rewardBalance ∧
          ∀ name, holding s name ≤ holding t name ∧
            (¬Credited s name → holding t name = holding s name)) := by
  intro s
  have hsound : Sound (view s) :=
    h.keeps (I := fun s => Sound (view s)) (fun _ e hs he => step_sound tools hs e he)
      (genesis_sound initialSupply)
  constructor
  · obtain ⟨f, hf⟩ := hsound.fund
    exact ⟨f, hf.funds, hf.solvent⟩
  · intro hrecent t ht
    obtain ⟨-, f, g, hf, hg, hnonneg, hle, hheld, hgains⟩ :=
      processCommentCashout_spec hsound hrecent t ht
    exact ⟨f, g, hf, hg, hnonneg, hle, by omega, hgains⟩

/-- Accounts and a supply, as other operations have made them. -/
def populated : Database :=
  { Database.genesis 0 with
    props := { (Database.genesis 0).props with
      virtualSupply := 1000000000000000
      currentSupply := 1000000000000000
      totalVestingFundGbc := 1000
      totalVestingShares := 1000000 }
    accounts := ⟨7, (Database.genesis 0).accounts.rows ++
      [Account.make "alice", { Account.make "bobby" with vestingShares := 100000000000000000 },
        Account.make "carol"]⟩ }

/-- A post of alice, who shares with carol, and the vote of bobby for it. -/
def payoutEvents : List Event :=
  [.elsewhere populated,
    .comment ⟨"", "game", "alice", "post", "", "text", ""⟩,
    .commentOptions ⟨"alice", "post", .gbd 1000000, 10000, true, true, [[("carol", 1000)]]⟩,
    .newBlock (genesisTime + 3600),
    .vote ⟨"bobby", "alice", "post", 10000⟩,
    .processFunds,
    .newBlock (genesisTime + 604800)]

def plainTools : TextTools := ⟨fun _ => true, fun _ body => body⟩

/-- A week after the post. -/
def payoutState : Database := payoutEvents.foldl (step plainTools) (Database.genesis (0 : Nat))

/-- The three of them share 181023. -/
theorem reward_fund_solvent_payout :
    Along (step plainTools) Recent (Database.genesis (0 : Nat)) payoutEvents ∧
      ∃ t, payoutState.processCommentCashout = .ok t ∧ held t - held payoutState = 181023 ∧
        ∃ f g, payoutState.rewardFunds.rows = [f] ∧ t.rewardFunds.rows = [g] ∧ 0 ≤ g.rewardBalance ∧
          g.rewardBalance ≤ f.rewardBalance ∧
          held t - held payoutState = f.rewardBalance - g.rewardBalance ∧
          ∀ name, holding payoutState name ≤ holding t name ∧
            (¬Credited payoutState name → holding t name = holding payoutState name) := by
  have halong : Along (step plainTools) Recent (Database.genesis (0 : Nat)) payoutEvents :=
    ⟨trivial, trivial, trivial, trivial, trivial, trivial, trivial, trivial⟩
  have hpaid : payoutState.processCommentCashout.toOption.any fun t =>
      held t - held payoutState = 181023 := by
    decide +kernel
  have hrecent : Recent payoutState .processCommentCashout := by
    unfold Recent
    decide +kernel
  have hsolvent := reward_fund_solvent plainTools 0 payoutEvents halong
  rw [show payoutEvents.foldl (step plainTools) (Database.genesis (0 : Nat)) = payoutState from rfl]
    at hsolvent
  refine ⟨halong, ?_⟩
  generalize payoutState = s at *
  obtain ⟨t, ht, hheld⟩ := exists_of_any hpaid
  exact ⟨t, ht, of_decide_eq_true hheld, hsolvent.2 hrecent t ht⟩

end Gamebank.Rewards
