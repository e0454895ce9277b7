import Gamebank.Conservation.Evaluators
import Gamebank.Conservation.Reserves

/-!
# Rewards and inflation

`process_funds` adds to the supply what it puts into the reward fund and pays
to the witness. What the reward fund pays for comments is paid from its
balance. The GBC behind rewarded shares is the one book a payout may leave out
of balance: by the rewards that are too small for a share.
-/

namespace Gamebank.Conservation

open Gamebank.Lib Gamebank.Protocol Gamebank.Ledger

variable {s t u : Database} {d e : Entry} {x y : Int}

/-! ## What the reward fund pays -/

/-- `t` is `s` with `x` paid from outside the books, as liquid GBC or as GBC
behind shares. -/
def Rewarded (s t : Database) (x : Int) : Prop :=
  ∃ lost, Enters s t (entry .gbc x + entry .rewardGbc lost)

namespace Rewarded

theorem refl (s : Database) : Rewarded s s 0 :=
  ⟨0, (Enters.refl s).of_eq (by rw [entry_zero, entry_zero, add_zero])⟩

theorem trans (h : Rewarded s t x) (h' : Rewarded t u y) : Rewarded s u (x + y) := by
  obtain ⟨lost, ht⟩ := h
  obtain ⟨lost', hu⟩ := h'
  refine ⟨lost + lost', (ht.trans hu).of_eq ?_⟩
  rw [entry_add, entry_add]
  abel

theorem of_keeps (h : Keeps s t) : Rewarded s t 0 :=
  ⟨0, h.of_eq (by rw [entry_zero, entry_zero, add_zero])⟩

theorem keeps (h : Rewarded s t x) (h' : Keeps t u) : Rewarded s u x := by
  have := h.trans (of_keeps h')
  rwa [add_zero] at this

end Rewarded

theorem createRewardVesting_rewarded (s : Database) (name : AccountName) (x : Int) :
    Returns (s.createRewardVesting name (.gbc x)) fun t => Rewarded s t x :=
  createRewardVesting_enters s name x

theorem adjustBalance_rewarded (s : Database) (name : AccountName) (x : Int) :
    Returns (s.adjustBalance name (.gbc x)) fun t => Rewarded s t x :=
  (adjustBalance_enters s name (.gbc x)).mono fun _ ht =>
    ⟨0, ht.of_eq (by rw [entry_zero, add_zero, assetEntry_gbc])⟩

theorem payCurator_rewarded (s : Database) (maxRewards totalWeight unclaimed : Int)
    (v : CommentVote) :
    Returns (Database.payCurator maxRewards totalWeight (s, unclaimed) v) fun r =>
      Rewarded s r.1 (unclaimed - r.2) := by
  unfold Database.payCurator
  refine .bind_any fun claim => .ite (fun _ => ?_) fun _ => .pure ?_
  · refine .bind (createRewardVesting_rewarded s v.voter (toInt64 claim)) fun t ht => ?_
    refine .bind (modifyAccount_keeps t v.voter fun _ => rfl) fun u hu => .pure ?_
    rw [sub_sub_cancel]
    exact ht.keeps hu
  · rw [sub_self]
    exact .refl s

theorem payCurators_rewarded (s : Database) (c : Comment) (maxRewards : Int) :
    Returns (s.payCurators c maxRewards) fun r => Rewarded s r.1 r.2.2 := by
  unfold Database.payCurators
  refine .ite (fun _ => .pure (.refl s)) fun _ => .ite (fun _ => ?_) fun _ => .pure (.refl s)
  have hloop : Returns ((s.curators c).foldlM (Database.payCurator maxRewards c.totalVoteWeight)
      (s, maxRewards)) fun r => Rewarded s r.1 (maxRewards - r.2) := by
    refine Returns.foldlM ?_ fun ⟨t, unclaimed⟩ ht v _ => ?_
    · rw [sub_self]
      exact .refl s
    · refine (payCurator_rewarded t _ _ unclaimed v).mono fun r hr => ?_
      have hpaid := ht.trans hr
      rwa [sub_add_sub_cancel] at hpaid
  exact .bind hloop fun _ hr => .pure hr

theorem payBeneficiary_rewarded (s : Database) (authorTokens total : Int) (b : AccountName × Int) :
    Returns (Database.payBeneficiary authorTokens (s, total) b) fun r =>
      Rewarded s r.1 (r.2 - total) := by
  unfold Database.payBeneficiary
  refine .ensure fun _ => .bind (createRewardVesting_rewarded s b.1 _) fun t ht => .pure ?_
  rwa [add_sub_cancel_left]

/-- Curators, beneficiaries and the author get what the reward fund gives. -/
theorem payReward_rewarded (s : Database) (c : Comment) (reward : Int) (forward : Bool) :
    Returns (s.payReward c reward forward) fun r => Rewarded s r.1 r.2 := by
  unfold Database.payReward
  refine .bind_any fun fund => .bind_any fun share => ?_
  refine .bind (payCurators_rewarded s c share) fun ⟨t, remainder, curation⟩ ht => ?_
  dsimp only at ht ⊢
  generalize (if forward = true then reward - share + remainder else reward - share) = author
  have hloop : Returns (c.beneficiaries.foldlM (Database.payBeneficiary author) (t, 0)) fun r =>
      Rewarded t r.1 r.2 := by
    refine Returns.foldlM (.refl t) fun ⟨u, total⟩ hu b _ => ?_
    refine (payBeneficiary_rewarded u author total b).mono fun r hr => ?_
    have hpaid := hu.trans hr
    rwa [add_sub_cancel] at hpaid
  refine .bind hloop fun ⟨u, total⟩ hu => .ensure fun _ => ?_
  refine .bind (createRewardVesting_rewarded u c.author _) fun v hv => ?_
  refine .bind (adjustBalance_rewarded v c.author _) fun w hw => ?_
  refine .bind (modifyComment_keeps w c.id _) fun w1 h1 => ?_
  refine .bind (modifyComment_keeps w1 c.id _) fun w2 h2 => ?_
  refine .bind (modifyAccount_keeps w2 c.author fun _ => rfl) fun w3 h3 => .pure ?_
  have hpaid := ((((ht.trans hu).trans hv).trans hw).keeps h1).keeps h2 |>.keeps h3
  have hsum : ∀ liquid : Int, curation + total + (author - total - liquid) + liquid =
      author + curation := by
    intro liquid
    omega
  rwa [hsum] at hpaid

theorem cashoutCommentHelper_rewarded (s : Database) (ctx : RewardFundContext)
    (c : Comment) (forward : Bool) :
    Returns (s.cashoutCommentHelper ctx c forward) fun r => Rewarded s r.1 r.2 := by
  unfold Database.cashoutCommentHelper
  have hpaid : Returns (s.payComment ctx c forward) fun r => Rewarded s r.1 r.2 := by
    unfold Database.payComment
    refine .ite (fun _ => .bind_any fun _ => .bind_any fun reward => .ite (fun _ => ?_) fun _ => ?_)
      fun _ => .pure (.refl s)
    · exact payReward_rewarded s c reward forward
    · exact .pure (.refl s)
  refine .bind hpaid fun ⟨t, claimed⟩ ht => ?_
  refine .bind (modifyComment_keeps t c.id _) fun u hu => .pure ?_
  exact (ht.keeps hu).keeps (.of_same rfl rfl rfl)

/-! ## The cashout of a block -/

theorem Rewarded.rewardFunds (h : Rewarded s t x) : t.rewardFunds = s.rewardFunds := by
  obtain ⟨lost, ht⟩ := h
  exact ht.sameTables.2.2.2.2

theorem getRewardFund_id {f fund : RewardFund} (hrows : s.rewardFunds.rows = [f])
    (hid : f.id = 0) (hfund : s.getRewardFund = .ok fund) : fund.id = 0 := by
  have hmem := List.mem_of_find?_eq_some (Database.require_eq_ok.mp hfund)
  rw [hrows, List.mem_singleton] at hmem
  rw [hmem, hid]

/-- The loop over the comments pays what it notes as awarded. -/
theorem cashoutComments_rewarded {f : RewardFund} {ctx : RewardFundContext}
    (hrows : s.rewardFunds.rows = [f]) (hid : f.id = 0) (fuel : Nat) (t : Database)
    (ht : Rewarded s t ctx.gbcAwarded) :
    Returns (Database.cashoutComments fuel t [ctx]) fun r =>
      ∃ ctx', r.2 = [ctx'] ∧ Rewarded s r.1 ctx'.gbcAwarded := by
  induction fuel generalizing t ctx with
  | zero =>
      unfold Database.cashoutComments
      cases t.dueComment with
      | none => exact .ok ⟨ctx, rfl, ht⟩
      | some c => exact .error
  | succ fuel ih =>
      unfold Database.cashoutComments
      cases t.dueComment with
      | none => exact .ok ⟨ctx, rfl, ht⟩
      | some c =>
          refine .bind_eq fun fund hfund => .bind_any fun used => ?_
          have hfirst := getRewardFund_id (ht.rewardFunds ▸ hrows) hid hfund
          refine .bind (cashoutCommentHelper_rewarded t used c _) fun ⟨u, claimed⟩ hu => ?_
          rw [hfirst]
          exact @ih { ctx with gbcAwarded := ctx.gbcAwarded + claimed } u (ht.trans hu)

theorem addClaims_awarded {f : RewardFund} (hrows : s.rewardFunds.rows = [f]) (hid : f.id = 0)
    (due : List Comment) :
    Returns (due.foldlM s.addClaim (s.rewardFunds.rows.map Database.RewardFundContext.of))
      fun funds => ∃ ctx : RewardFundContext, funds = [ctx] ∧ ctx.gbcAwarded = 0 := by
  refine Returns.foldlM ⟨Database.RewardFundContext.of f, by rw [hrows]; rfl, rfl⟩ ?_
  rintro funds ⟨ctx, hfunds, hnone⟩ c -
  unfold Database.addClaim
  refine .ite (fun _ => .bind_eq fun fund hfund => .pure ?_) fun _ => .pure ⟨ctx, hfunds, hnone⟩
  rw [hfunds, getRewardFund_id hrows hid hfund]
  exact ⟨_, rfl, hnone⟩

/-- What the fund has more is entered. -/
theorem rewardFund_kept (hs : Sound s) {f g : RewardFund} (hrows : s.rewardFunds.rows = [f])
    (hid : g.id = 0) (h : g.rewardBalance = f.rewardBalance + x) :
    Kept s { s with rewardFunds := { s.rewardFunds with rows := [g] } } (entry .gbc x) := by
  refine ⟨?_, { hs with rewardFund := ⟨g, rfl, hid⟩ }⟩
  simp only [excess, Table.sum, hrows, List.map_cons, List.map_nil, List.sum_cons, List.sum_nil,
    fundHolds, h, entry_add]
  abel

/-- What was awarded is taken from the fund. -/
theorem writeBack_spec {f : RewardFund} (hid : f.id = 0) (ctx : RewardFundContext) :
    Returns (Database.writeBack [ctx] f) fun g =>
      g.id = 0 ∧ g.rewardBalance = f.rewardBalance + -ctx.gbcAwarded := by
  unfold Database.writeBack
  refine .bind_eq fun used hused => .ensure fun _ => .pure ⟨hid, ?_⟩
  rw [hid] at hused
  obtain rfl : ctx = used := Except.ok.inj hused
  exact Int.sub_eq_add_neg

theorem cashoutDue_kept (hs : Sound s) :
    Returns s.cashoutDue fun t => ∃ lost, Kept s t (entry .rewardGbc lost) := by
  obtain ⟨f, hrows, hid⟩ := hs.rewardFund
  unfold Database.cashoutDue
  refine .bind (addClaims_awarded hrows hid _) fun funds ⟨ctx, hfunds, hnone⟩ => ?_
  rw [hfunds]
  have hstart : Rewarded s s ctx.gbcAwarded := hnone ▸ .refl s
  refine .bind (cashoutComments_rewarded hrows hid _ s hstart)
    fun ⟨t, funds'⟩ ⟨ctx', hfunds', lost, ht⟩ => ?_
  dsimp only at hfunds' ht ⊢
  subst hfunds'
  have hpaid := ht.kept hs
  have hfund : t.rewardFunds.rows = [f] := by rw [Rewarded.rewardFunds ⟨lost, ht⟩, hrows]
  rw [hfund, List.mapM_cons, List.mapM_nil]
  simp only [bind_assoc, pure_bind]
  refine .bind (writeBack_spec hid ctx') fun g ⟨hgid, hbalance⟩ => .pure ⟨lost, ?_⟩
  refine (hpaid.trans (rewardFund_kept hpaid.sound hfund hgid hbalance)).of_eq ?_
  rw [entry_neg]
  abel

theorem decayFunds_kept (hs : Sound s) : Kept s s.decayFunds 0 := by
  obtain ⟨f, hrows, hid⟩ := hs.rewardFund
  unfold Database.decayFunds
  rw [hrows]
  exact (rewardFund_kept (g := Database.decay s.headBlockTime f) hs hrows hid
    (add_zero _).symm).of_eq (entry_zero _)

theorem processCommentCashout_kept (hs : Sound s) :
    Returns s.processCommentCashout fun t => ∃ lost, Kept s t (entry .rewardGbc lost) := by
  have hdecayed := decayFunds_kept hs
  refine (cashoutDue_kept hdecayed.sound).mono fun t ⟨lost, ht⟩ => ⟨lost, ?_⟩
  exact (hdecayed.trans ht).of_eq (zero_add _)

/-! ## Inflation -/

theorem payRewardFunds_kept (hs : Sound s) (reward : Int) :
    Returns (s.payRewardFunds reward) fun r => Kept s r.1 (entry .gbc r.2) := by
  obtain ⟨f, hrows, hid⟩ := hs.rewardFund
  unfold Database.payRewardFunds
  rw [hrows, List.foldlM_cons]
  simp only [bind_assoc, pure_bind, List.foldlM_nil]
  refine .ensure fun _ => .ensure fun _ => .ensure fun _ => .pure ?_
  refine rewardFund_kept hs hrows hid ?_
  rw [zero_add]

theorem processFunds_kept (hs : Sound s) : Returns s.processFunds fun t => Kept s t 0 := by
  unfold Database.processFunds
  refine .ensure fun _ => .ensure fun _ => ?_
  refine .bind (payRewardFunds_kept hs _) fun ⟨t, content⟩ ht => .bind_any fun cwit =>
    .ensure fun _ => .ensure fun _ => ?_
  dsimp only at ht
  generalize Int.tdiv _ t.schedule.witnessPayNormalizationFactor = witness
  generalize Int.tdiv _ hundredPercent = vesting
  have hminted : ∀ p : GlobalProperties, supplies { p with
      totalVestingFundGbc := p.totalVestingFundGbc + vesting
      currentSupply := p.currentSupply + (content + vesting + witness)
      virtualSupply := p.virtualSupply + (content + vesting + witness) } =
        supplies p - -entry .gbc (content + witness) := by
    intro p
    funext b
    cases b <;> simp [supplies, entry_apply]
    omega
  refine .bind (modifyProps_enters t (hminted t.props)) fun u hu => ?_
  refine (createVesting_enters u cwit.owner (.gbc witness)).mono fun v hv => ?_
  refine (ht.trans ((hu.trans hv).kept ht.sound)).of_eq ?_
  rw [entry_add, assetEntry_gbc]
  abel

/-- Nobody holds the virtual supply. -/
theorem updateVirtualSupply_keeps (s : Database) : Returns s.updateVirtualSupply (Keeps s) := by
  have hprops : ∀ {f : GlobalProperties → GlobalProperties},
      supplies (f s.props) = supplies s.props → Returns (s.modifyProps f) (Keeps s) :=
    fun hf => modifyProps_enters s (hf.trans (sub_zero _).symm)
  unfold Database.updateVirtualSupply
  refine .ite (fun _ => ?_) fun _ => .bind_any fun worth => .ensure fun _ => .ensure fun _ =>
    .ensure fun _ => ?_
  · refine hprops ?_
    funext b
    cases b <;> rfl
  · refine hprops ?_
    funext b
    cases b <;> rfl

end Gamebank.Conservation
