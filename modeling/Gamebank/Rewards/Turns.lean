import Gamebank.Rewards.Ballots

/-!
# The turns of the evaluators

What the evaluators of votes and comments, the payouts and the other routines make of
the forum. A vote spends part of the power that its voter has regenerated (`Spends`);
nothing else spends any.
-/

namespace Gamebank.Rewards

open Gamebank.Lib Gamebank.Protocol Gamebank.Ledger
open Gamebank.Ledger.Database (modifyAccount_spec modifyProps_spec getAccount_eq_ok require_eq_ok
  OnlyVotes)
open Gamebank.Discussion (getComment_mem comment_frame deleteComment_removed)
open Relation (ReflTransGen)

variable {s t : Database} {c : Comment} {name : AccountName}

/-! ## What leaves the forum alone -/

theorem modifyAccount_forum (s : Database) (name : AccountName) {f : Account → Account}
    (hf : ∀ a, (f a).votingPower = a.votingPower) :
    Returns (s.modifyAccount name f) fun t => forum t = forum s := by
  refine (modifyAccount_spec s name f).mono fun t ⟨a, h⟩ => ?_
  have hpowers : (forum t).powers = (forum s).powers := h.replaces.map_eq (hf a)
  ext1
  case powers => exact hpowers
  all_goals rw [h.rest]; rfl

theorem Rewritten.forum_eq {id : Nat} {d d' : Comment} (h : Rewritten s t id d d') :
    forum t = { forum s with rows := (forum t).rows } := by
  ext1
  case rows => rfl
  all_goals rw [h.rest]; rfl

theorem modifyComment_forum (s : Database) (id : Nat) {f : Comment → Comment}
    (hf : ∀ c, standing (f c) = standing c) :
    Returns (s.modifyComment id f) fun t => forum t = forum s ∧ t.accounts = s.accounts := by
  refine (modifyComment_spec s id f).mono fun t ⟨d, h⟩ => ?_
  have hrows : (forum t).rows = (forum s).rows := h.replaces.map_eq (hf d)
  refine ⟨?_, by rw [h.rest]⟩
  rw [h.forum_eq, hrows]

theorem modifyProps_forum (s : Database) {f : GlobalProperties → GlobalProperties}
    (hf : ∀ p, (f p).time = p.time) : Returns (s.modifyProps f) fun t => forum t = forum s := by
  refine (modifyProps_spec s f).mono fun t ht => ?_
  rw [ht.2]
  ext1
  case now => exact hf s.props
  all_goals rfl

theorem createRewardVesting_forum (s : Database) (name : AccountName) (x : Int) :
    Returns (s.createRewardVesting name (.gbc x)) fun t => forum t = forum s := by
  unfold Database.createRewardVesting Database.adjustRewardBalance Database.modifyRewardBalance
  refine .ensure fun _ => .bind_any fun price => .bind_any fun shares => ?_
  have hcredit : Returns (do
      ensure (!(Asset.gbc x).symbol.isVesting && shares.symbol.isVesting) "is_vesting"
      s.modifyRewardBalance name (.gbc x) shares s.hardfork01) fun t => forum t = forum s := by
    refine .ensure fun _ => .bind_any fun a => .ite (fun _ => .ensure fun _ => ?_)
      fun _ => .ensure fun _ => ?_
    · exact modifyAccount_forum s name fun _ => rfl
    · exact modifyAccount_forum s name fun _ => rfl
  refine .bind hcredit fun t ht => ?_
  exact Returns.mono (modifyProps_forum t fun _ => rfl) fun u hu => hu.trans ht

theorem adjustBalance_forum (s : Database) (name : AccountName) (x : Int) :
    Returns (s.adjustBalance name (.gbc x)) fun t => forum t = forum s := by
  unfold Database.adjustBalance Database.modifyBalance
  exact .bind_any fun _ => .ensure fun _ => modifyAccount_forum s name fun _ => rfl

theorem payCurators_forum (s : Database) (c : Comment) (maxRewards : Int) :
    Returns (s.payCurators c maxRewards) fun r => forum r.1 = forum s := by
  unfold Database.payCurators
  refine .ite (fun _ => .pure rfl) fun _ => .ite (fun _ => ?_) fun _ => .pure rfl
  refine .bind (Q := fun r => forum r.1 = forum s) (.foldlM rfl fun acc hacc v _ => ?_)
    fun r hr => .pure hr
  unfold Database.payCurator
  refine .bind_any fun claim => .ite (fun _ => ?_) fun _ => .pure hacc
  refine .bind (createRewardVesting_forum acc.1 _ _) fun t ht => ?_
  refine .bind (modifyAccount_forum t _ fun _ => rfl) fun u hu => .pure ?_
  exact hu.trans (ht.trans hacc)

theorem payBeneficiaries_forum (s : Database) (beneficiaries : List (AccountName × Int))
    (authorTokens total : Int) :
    Returns (beneficiaries.foldlM (Database.payBeneficiary authorTokens) (s, total))
      fun r => forum r.1 = forum s := by
  refine .foldlM rfl fun acc hacc b _ => ?_
  unfold Database.payBeneficiary
  refine .ensure fun _ => .bind (createRewardVesting_forum acc.1 _ _) fun t ht => .pure ?_
  exact ht.trans hacc

theorem payReward_forum (s : Database) (c : Comment) (reward : Int)
    (forwardCurationRemainder : Bool) :
    Returns (s.payReward c reward forwardCurationRemainder) fun r => forum r.1 = forum s := by
  unfold Database.payReward
  refine .bind_any fun fund => .bind_any fun curationTokens => ?_
  refine .bind (payCurators_forum s c _) fun r1 h1 => ?_
  refine .bind (payBeneficiaries_forum r1.1 _ _ _) fun r2 h2 => .ensure fun _ => ?_
  refine .bind (createRewardVesting_forum r2.1 _ _) fun s3 h3 => ?_
  refine .bind (adjustBalance_forum s3 _ _) fun s4 h4 => ?_
  refine .bind (modifyComment_forum s4 _ fun _ => rfl) fun s5 h5 => ?_
  refine .bind (modifyComment_forum s5 _ fun _ => rfl) fun s6 h6 => ?_
  refine .bind (modifyAccount_forum s6 _ fun _ => rfl) fun s7 h7 => .pure ?_
  calc forum s7 = forum s4 := h7.trans (h6.1.trans h5.1)
    _ = forum r2.1 := h4.trans h3
    _ = forum s := h2.trans h1

theorem payComment_forum (s : Database) (ctx : RewardFundContext) (c : Comment)
    (forwardCurationRemainder : Bool) :
    Returns (s.payComment ctx c forwardCurationRemainder) fun r => forum r.1 = forum s := by
  unfold Database.payComment
  refine .ite (fun _ => .bind_any fun fund => .bind_any fun reward => ?_) fun _ => .pure rfl
  exact .ite (fun _ => payReward_forum s c reward _) fun _ => .pure rfl

theorem createVesting_forum (s : Database) (name : AccountName) (liquid : Asset) :
    Returns (s.createVesting name liquid) fun t => forum t = forum s := by
  refine Database.createVesting_cases s name liquid fun price shares _ _ _ t a ht u hu => ?_
  have hpowers : (forum u).powers = (forum s).powers := by
    rw [hu]
    exact ht.replaces.map_eq rfl
  have hforum : forum u = forum s := by
    ext1
    case powers => exact hpowers
    all_goals rw [hu, ht.rest]; rfl
  refine ((OnlyVotes.refl u).adjustProxiedWitnessVotes name _).mono fun w hw => ?_
  have hsame : (forum w).powers = (forum u).powers := map_eq_of_map_eq hw.accounts fun _ => rfl
  rw [← hforum]
  ext1
  case powers => exact hsame
  all_goals rw [hw.rest]; rfl

/-- Every fund gets its share and keeps its curve. -/
theorem payRewardFunds_forum (s : Database) (reward : Int) :
    Returns (s.payRewardFunds reward) fun r => forum r.1 = forum s := by
  unfold Database.payRewardFunds
  refine .bind (Q := fun r => r.1.map terms = s.rewardFunds.rows.map terms) ?_ fun r hr => .pure ?_
  · refine Returns.foldlM_rest (I := fun (rest : List RewardFund) (acc : List RewardFund × Int) =>
      acc.1.map terms ++ rest.map terms = s.rewardFunds.rows.map terms) ?_ rfl |>.mono ?_
    · intro f rest acc hacc
      refine .ensure fun _ => .ensure fun _ => .ensure fun _ => .pure ?_
      rw [List.map_append, List.append_assoc]
      exact hacc
    · intro acc hacc
      rwa [List.map_nil, List.append_nil] at hacc
  · ext1
    case terms => exact hr
    all_goals rfl

theorem processFunds_forum (s : Database) : Returns s.processFunds fun t => forum t = forum s := by
  unfold Database.processFunds
  refine .ensure fun _ => .ensure fun _ => .bind (payRewardFunds_forum s _) fun r hr => ?_
  refine .bind_any fun cwit => .ensure fun _ => .ensure fun _ => ?_
  refine .bind (modifyProps_forum r.1 fun _ => rfl) fun t ht => ?_
  exact (createVesting_forum t _ _).mono fun u hu => hu.trans (ht.trans hr)

theorem commentOptions_forum (s : Database) (o : CommentOptionsOperation) :
    Returns (s.commentOptions o) fun t => forum t = forum s := by
  have hmodify : ∀ (t : Database) (p : Comment → Bool) (f : Comment → Comment),
      (∀ c, standing (f c) = standing c) → forum t = forum s →
      forum { t with comments := t.comments.modify p f } = forum s := by
    intro t p f hf ht
    rw [← ht]
    ext1
    case rows => exact map_modifyFirst hf t.comments.rows
    all_goals rfl
  unfold Database.commentOptions
  refine .bind_any fun c => .ensure fun _ => .ensure fun _ => .ensure fun _ => .ensure fun _ =>
    .ensure fun _ => .foldlM (hmodify s _ _ (fun _ => rfl) rfl) fun t ht bs _ => ?_
  unfold Database.addBeneficiaries
  refine .bind_any fun d => .ensure fun _ => .ensure fun _ => .ensure fun _ => .pure ?_
  exact hmodify t _ _ (fun _ => rfl) ht

/-! ## Comments -/

theorem comment_turns (tools : TextTools) (s : Database) (o : CommentOperation) :
    Returns (s.comment tools o) fun t => ReflTransGen Turn (forum s) (forum t) := by
  refine (comment_frame tools s o).mono fun t ht => ?_
  rcases ht with ⟨parent, ht⟩ | ht
  · have hrows := ht.rows (g := standing) fun _ _ => rfl
    have hpowers := ht.accounts (g := Account.votingPower) fun _ _ _ _ => rfl
    have hforum : forum t = { (forum s) with
        next := s.comments.nextId + 1
        rows := (forum s).rows ++ [Standing.made s.comments.nextId s.headBlockTime
          ((s.headBlockTime + cashoutWindowSeconds) % uint32Range)] } := by
      ext1
      case next => exact ht.next
      case rows => exact hrows
      case powers => exact hpowers
      all_goals rw [ht.rest]; rfl
    rw [hforum]
    exact .single (.made (forum s) _)
  · have hrows := ht.rows (g := standing) fun _ _ => rfl
    have hforum : forum t = forum s := by
      ext1
      case next => exact ht.next
      case rows => exact hrows
      all_goals rw [ht.rest]; rfl
    rw [hforum]

theorem deleteComment_turns (s : Database) (o : DeleteCommentOperation) :
    Returns (s.deleteComment o) fun t => ReflTransGen Turn (forum s) (forum t) := by
  refine (deleteComment_removed s o).mono fun t ⟨c, ht⟩ => ?_
  have hrows : (forum t).rows = (forum s).rows.eraseP fun d => d.id = c.id := by
    show t.comments.rows.map standing = (s.comments.rows.map standing).eraseP _
    rw [ht.rows fun _ _ => rfl, List.eraseP_map]
    rfl
  have hforum : forum t = { (forum s) with
      rows := (forum s).rows.eraseP fun d => d.id = c.id
      votes := (forum s).votes.filter fun v => v.comment ≠ c.id } := by
    ext1
    case next => exact ht.next
    case rows => exact hrows
    all_goals rw [ht.rest]; rfl
  rw [hforum]
  exact .single (.removed (forum s) c.id)

/-! ## Payouts -/

/-- A comment that is paid loses its votes. -/
theorem cashoutCommentHelper_turn (s : Database) (ctx : RewardFundContext) (c : Comment)
    (forwardCurationRemainder : Bool) :
    Returns (s.cashoutCommentHelper ctx c forwardCurationRemainder)
      fun r => Turn (forum s) (forum r.1) := by
  unfold Database.cashoutCommentHelper
  refine .bind (payComment_forum s ctx c _) fun r hr => ?_
  refine .bind (modifyComment_spec r.1 c.id _) fun t ⟨d, ht⟩ => .pure ?_
  have hrows : Replaces (standing d) (standing d).paid (forum r.1).rows (forum t).rows :=
    ht.replaces.map standing
  have hvotes : t.commentVotes = r.1.commentVotes := by rw [ht.rest]
  have hforum : forum { t with commentVotes := t.commentVotes.filter fun v => v.comment ≠ c.id } =
      { (forum r.1) with
        rows := (forum t).rows
        votes := (forum r.1).votes.filter fun v => v.comment ≠ (standing d).id } := by
    rw [hvotes, ← ht.id_eq]
    ext1
    case rows => rfl
    case votes => rfl
    all_goals rw [ht.rest]; rfl
  rw [hforum, ← hr]
  exact .paid hrows

theorem cashoutComments_turns (fuel : Nat) (s : Database) (funds : List RewardFundContext) :
    Returns (Database.cashoutComments fuel s funds)
      fun r => ReflTransGen Turn (forum s) (forum r.1) := by
  induction fuel generalizing s funds with
  | zero =>
      unfold Database.cashoutComments
      split
      next => exact .ok .refl
      next => exact .error
  | succ fuel ih =>
      unfold Database.cashoutComments
      split
      next => exact .ok .refl
      next c _ =>
        refine .bind_any fun fund => .bind_any fun ctx => ?_
        refine .bind (cashoutCommentHelper_turn s ctx c _) fun r hr => ?_
        exact (ih r.1 _).mono fun r' hr' => hr'.head hr

theorem writeBacks_terms (funds : List RewardFundContext) (rows : List RewardFund) :
    Returns (rows.mapM (Database.writeBack funds)) fun rows' =>
      rows'.map terms = rows.map terms := by
  induction rows with
  | nil =>
      rw [List.mapM_nil]
      exact .pure rfl
  | cons f rest ih =>
      rw [List.mapM_cons]
      have hwritten : Returns (Database.writeBack funds f) fun g => terms g = terms f := by
        unfold Database.writeBack
        exact .bind_any fun _ => .ensure fun _ => .pure rfl
      refine .bind hwritten fun g hg => .bind ih fun rest' hrest => .pure ?_
      rw [List.map_cons, List.map_cons, hg, hrest]

theorem decayFunds_forum (s : Database) : forum s.decayFunds = forum s := by
  ext1
  case terms =>
    show (s.rewardFunds.rows.map (Database.decay s.headBlockTime)).map terms = _
    rw [List.map_map]
    rfl
  all_goals rfl

theorem processCommentCashout_turns (s : Database) :
    Returns s.processCommentCashout fun t => ReflTransGen Turn (forum s) (forum t) := by
  unfold Database.processCommentCashout Database.cashoutDue
  refine .bind_any fun funds => .bind (cashoutComments_turns _ _ _) fun r hr => ?_
  refine .bind (writeBacks_terms _ _) fun rows hrows => .pure ?_
  have hforum : forum { r.1 with rewardFunds := { r.1.rewardFunds with rows := rows } } =
      forum r.1 := by
    ext1
    case terms => exact hrows
    all_goals rfl
  rw [hforum, ← decayFunds_forum s]
  exact hr

/-! ## Votes -/

/-- The power of an account, regenerated since its last vote. -/
def regeneratedPower (now : Nat) (a : Account) : Int :=
  min (a.votingPower + hundredPercent * ((now : Int) - a.lastVoteTime) / voteRegenerationSeconds)
    hundredPercent

/-- Of the power it has regenerated, the account `a` spends `used`. -/
structure Spends (s t : Database) (name : AccountName) (a : Account) (used : Int) : Prop where
  found : s.getAccount name = .ok a
  nonneg : 0 ≤ used
  le : used ≤ regeneratedPower s.headBlockTime a
  accounts : Replaces a { a with
      votingPower := regeneratedPower s.headBlockTime a - used, lastVoteTime := s.headBlockTime }
    s.accounts.rows t.accounts.rows

/-- What is left is a voting power, too. -/
theorem Spends.left_bounds {a : Account} {used : Int} (h : Spends s t name a used) :
    0 ≤ regeneratedPower s.headBlockTime a - used ∧
      regeneratedPower s.headBlockTime a - used ≤ hundredPercent := by
  have hnonneg := h.nonneg
  have hle := h.le
  have hfull : regeneratedPower s.headBlockTime a ≤ hundredPercent := min_le_right _ _
  omega

/-- The power a vote costs. -/
def Costs (s : Database) (a : Account) (power : VotePower) : Prop :=
  power.current = regeneratedPower s.headBlockTime a ∧ 0 ≤ power.used ∧ power.used ≤ power.current

theorem votePower_costs (s : Database) (a : Account) (weight : Int) :
    Returns (s.votePower a weight) (Costs s a) := by
  unfold Database.votePower
  refine .ensure fun _ => .ensure fun hpos => .ensure fun hdenom => .ensure fun hle => ?_
  simp only [decide_eq_true_eq] at hpos hdenom hle
  have hused : ∀ {current denominator : Int}, 0 < current → 0 < denominator →
      0 ≤ (current * weight.natAbs / hundredPercent * 86400 + denominator - 1) / denominator := by
    intro current denominator hcurrent hdenominator
    have hshare : 0 ≤ current * weight.natAbs / hundredPercent :=
      Int.ediv_nonneg (Int.mul_nonneg hcurrent.le (Int.natCast_nonneg _)) (by decide)
    exact Int.ediv_nonneg (by omega) hdenominator.le
  refine .bind_any fun shares => .ite (fun _ => .pure ⟨rfl, hused hpos hdenom, hle⟩)
    fun _ => .ensure fun _ => .pure ⟨rfl, hused hpos hdenom, hle⟩

theorem modifyAccount_spends {a : Account} {power : VotePower} (ha : s.getAccount name = .ok a)
    (hpower : Costs s a power) :
    Returns (s.modifyAccount name fun a =>
      { a with votingPower := power.current - power.used, lastVoteTime := s.headBlockTime })
      fun t => Spends s t name a power.used ∧
        t = { s with accounts := { s.accounts with rows := t.accounts.rows } } := by
  refine (modifyAccount_spec s name _).mono fun t ⟨d, ht⟩ => ?_
  obtain ⟨hcurrent, hnonneg, hle⟩ := hpower
  cases (getAccount_eq_ok.mp ha).symm.trans (getAccount_eq_ok.mp ht.found)
  rw [hcurrent] at hle
  refine ⟨⟨ha, hnonneg, hle, ?_⟩, ht.rest⟩
  rw [← hcurrent]
  exact ht.replaces

/-- The comment with the standing `b` is modified. -/
theorem modifyComment_standing (hids : ((forum s).rows.map Standing.id).Nodup) {b : Standing}
    (hb : b ∈ (forum s).rows) {f : Comment → Comment} {k : Standing → Standing}
    (hf : ∀ d, standing (f d) = k (standing d)) :
    Returns (s.modifyComment b.id f) fun t =>
      Replaces b (k b) (forum s).rows (forum t).rows ∧
        (k b).voteRshares < 9223372036854775808 ∧
        t = { s with comments := { s.comments with rows := t.comments.rows } } := by
  refine (modifyComment_spec s b.id f).mono fun t ⟨d, ht⟩ => ?_
  have hrows := ht.replaces.map standing
  have hup : (standing (f d)).voteRshares < 9223372036854775808 := ht.up
  have hd : standing d = b := List.inj_on_of_nodup_map hids hrows.mem_old hb ht.id_eq
  rw [hf, hd] at hrows hup
  exact ⟨hrows, hup, ht.rest⟩

/-- The weight of a vote for the total is what it adds to the curve, if anything. -/
theorem maxVoteWeight_cases (s : Database) (c : Comment) (rshares : Int) :
    Returns (s.maxVoteWeight c rshares) fun whole => whole = 0 ∨ 0 < rshares ∧
      ∃ t ∈ (forum s).terms, whole = toUInt64
        (evaluateRewardCurve (c.voteRshares + rshares) t.1 t.2 -
          evaluateRewardCurve c.voteRshares t.1 t.2) := by
  unfold Database.maxVoteWeight
  refine .ite (fun hc => .bind_eq fun fund hfund => ?_) fun _ => .pure (.inl rfl)
  have hmem : terms fund ∈ (forum s).terms :=
    List.mem_map_of_mem (List.mem_of_find?_eq_some (require_eq_ok.mp hfund))
  refine .ite (fun _ => ?_) fun _ => .pure (.inl rfl)
  refine .bind (checkedUInt64_eq _) fun old hold =>
    .bind (checkedUInt64_eq _) fun new hnew => .pure ?_
  exact .inr ⟨hc.1, terms fund, hmem, by rw [hold, hnew]; rfl⟩

/-- `t` is `s` after a vote. -/
inductive Voted (s t : Database) : Prop
  | cast {c c' : Standing} {v : CommentVote} {whole : Int}
      (hc : Casts (forum s).terms s.headBlockTime c c' v whole)
      (hrows : Replaces c c' (forum s).rows (forum t).rows)
      (hvotes : t.commentVotes = s.commentVotes ++ [v])
  | changed {c c' : Standing} {v v' : CommentVote} (hc : Changes c c' v v')
      (hrows : Replaces c c' (forum s).rows (forum t).rows)
      (hvotes : Replaces v v' s.commentVotes t.commentVotes)

/-- The steps both kinds of vote have in common: the voter pays, the comment counts the
shares, its root counts them, the comment counts the weight. The votes become `votes`. -/
theorem voted_of_steps {a : Account} {used : Int} {s1 s2 s3 : Database} {b b1 b2 : Standing}
    {votes : List CommentVote}
    (h1 : Spends s s1 name a used ∧
      s1 = { s with accounts := { s.accounts with rows := s1.accounts.rows } })
    (h2 : Replaces b b1 (forum s1).rows (forum s2).rows ∧
      s2 = { s1 with comments := { s1.comments with rows := s2.comments.rows } })
    (h3 : forum s3 = forum s2 ∧ s3.accounts = s2.accounts)
    (hids : ((forum s3).rows.map Standing.id).Nodup)
    (ht : Replaces b1 b2 (forum s3).rows (forum t).rows ∧
      forum t = { (forum s3) with rows := (forum t).rows, votes := votes } ∧
        t.accounts = s3.accounts) :
    Replaces b b2 (forum s).rows (forum t).rows ∧ Spends s t name a used ∧ t.commentVotes = votes ∧
      (forum t).now = (forum s).now ∧ (forum t).next = (forum s).next ∧
      (forum t).terms = (forum s).terms := by
  obtain ⟨hspends, hs1⟩ := h1
  obtain ⟨hcounts, hs2⟩ := h2
  obtain ⟨hweights, hforum, haccounts⟩ := ht
  have hrows : (forum s1).rows = (forum s).rows := by
    rw [hs1]
    rfl
  rw [h3.1] at hweights hids
  have hsame : t.accounts = s1.accounts := by
    rw [haccounts, h3.2, hs2]
  refine ⟨hrows ▸ hcounts.trans hweights hids,
    { hspends with accounts := hsame ▸ hspends.accounts },
    congrArg Forum.votes hforum, ?_⟩
  rw [hforum, h3.1, hs2, hs1]
  exact ⟨rfl, rfl, rfl⟩

/-- The weight is counted, and the votes may have become others. -/
theorem modifyComment_weighs (hids : ((forum s).rows.map Standing.id).Nodup) {b : Standing}
    {id : Nat}
    (hb : b ∈ (forum s).rows) (hid : b.id = id) (votes : List CommentVote) (total : Int → Int) :
    Returns ({ s with commentVotes := votes }.modifyComment id fun d =>
        { d with totalVoteWeight := total d.totalVoteWeight }) fun t =>
      Replaces b { b with totalVoteWeight := total b.totalVoteWeight } (forum s).rows
        (forum t).rows ∧
        forum t = { (forum s) with rows := (forum t).rows, votes := votes } ∧
        t.accounts = s.accounts := by
  subst hid
  have hmodified := modifyComment_standing (s := { s with commentVotes := votes }) hids hb
    (f := fun d => { d with totalVoteWeight := total d.totalVoteWeight })
    (k := fun b => { b with totalVoteWeight := total b.totalVoteWeight }) fun _ => rfl
  refine hmodified.mono fun t ⟨ht, _, hst⟩ => ⟨ht, ?_, by rw [hst]⟩
  ext1
  case rows => rfl
  all_goals rw [hst]; rfl

/-- What a vote does to the state. -/
structure Votes (s t : Database) (voter : AccountName) (a : Account) (used : Int) : Prop where
  voted : Voted s t
  spends : Spends s t voter a used
  now : (forum t).now = (forum s).now
  next : (forum t).next = (forum s).next
  terms : (forum t).terms = (forum s).terms

section

variable (hids : ((forum s).rows.map Standing.id).Nodup) (hc : c ∈ s.comments.rows)
  {o : VoteOperation} {a : Account} (ha : s.getAccount o.voter = .ok a) {power : VotePower}
  (hpower : Costs s a power)

include hids hc ha hpower

/-- The first vote of the voter on the comment. -/
theorem castVote_votes :
    Returns (s.castVote c o power) fun t => Votes s t o.voter a power.used := by
  unfold Database.castVote
  refine .ensure fun _ => .ensure fun _ => .bind (modifyAccount_spends ha hpower) fun s1 h1 =>
    .ensure fun habs => ?_
  have hne : (if o.weight < 0 then -power.absRshares else power.absRshares) ≠ 0 := by
    rw [decide_eq_true_eq] at habs
    split <;> omega
  generalize (if o.weight < 0 then -power.absRshares else power.absRshares) = rshares at hne ⊢
  have hrows : (forum s1).rows = (forum s).rows := by rw [h1.2]; rfl
  have hmem : standing c ∈ (forum s1).rows := hrows ▸ List.mem_map_of_mem hc
  refine .bind (modifyComment_standing (hrows ▸ hids) hmem (k := fun b => { b with
    netRshares := b.netRshares + rshares
    netVotes := if 0 < rshares then b.netVotes + 1 else b.netVotes - 1
    voteRshares := if 0 < rshares then b.voteRshares + rshares else b.voteRshares }) fun _ => rfl)
    fun s2 ⟨h2, hup, hs2⟩ => ?_
  refine .bind (modifyComment_forum s2 _ fun _ => rfl) fun s3 h3 => ?_
  have hids3 : ((forum s3).rows.map Standing.id).Nodup := by
    rw [h3.1, h2.map_eq rfl, hrows]
    exact hids
  have hterms : (forum s3).terms = (forum s).terms := by
    rw [h3.1, hs2, h1.2]
    rfl
  have hvotes : s3.commentVotes = s.commentVotes := by
    rw [show s3.commentVotes = s2.commentVotes from congrArg Forum.votes h3.1, hs2, h1.2]
  refine .bind (maxVoteWeight_cases s3 c rshares) fun whole hwhole => ?_
  rw [hterms] at hwhole
  refine Returns.mono (modifyComment_weighs hids3 (h3.1 ▸ h2.mem_new) rfl _
    fun total => toUInt64 (total + whole)) fun t ht => ?_
  obtain ⟨hreplaces, hspends, hcast, hnow, hnext, hkept⟩ :=
    voted_of_steps h1 ⟨h2, hs2⟩ h3 hids3 ht
  have hcasts : Casts (forum s).terms s.headBlockTime (standing c) _
      ⟨o.voter, c.id, Database.discountWeight whole s.headBlockTime c.created, rshares, o.weight,
        s.headBlockTime, 0⟩ whole :=
    { comment := rfl
      ne := hne
      grows := hwhole
      weight := rfl
      after := rfl
      fits := hup }
  exact ⟨.cast hcasts hreplaces (hvotes ▸ hcast), hspends, hnow, hnext, hkept⟩

/-- A vote is changed. -/
theorem changeVote_votes {v : CommentVote}
    (hv : (s.commentVotes.find? fun v => v.comment = c.id && v.voter = o.voter) = some v) :
    Returns (s.changeVote c v o power) fun t => Votes s t o.voter a power.used := by
  have hcomment : v.comment = c.id := by
    have hfound := List.find?_some hv
    rw [Bool.and_eq_true] at hfound
    exact of_decide_eq_true hfound.1
  unfold Database.changeVote
  refine .ensure fun _ => .ensure fun _ => .ensure fun _ =>
    .bind (modifyAccount_spends ha hpower) fun s1 h1 => ?_
  generalize (if o.weight < 0 then -power.absRshares else power.absRshares) = rshares
  have hrows : (forum s1).rows = (forum s).rows := by rw [h1.2]; rfl
  have hmem : standing c ∈ (forum s1).rows := hrows ▸ List.mem_map_of_mem hc
  refine .bind (modifyComment_standing (hrows ▸ hids) hmem (k := fun b => { b with
    netRshares := b.netRshares - v.rshares + rshares
    netVotes := b.netVotes + votesMoved v.rshares rshares }) fun _ => rfl) fun s2 ⟨h2, _, hs2⟩ => ?_
  refine .bind (modifyComment_forum s2 _ fun _ => rfl) fun s3 h3 => ?_
  have hids3 : ((forum s3).rows.map Standing.id).Nodup := by
    rw [h3.1, h2.map_eq rfl, hrows]
    exact hids
  have hvotes : s3.commentVotes = s.commentVotes := by
    rw [show s3.commentVotes = s2.commentVotes from congrArg Forum.votes h3.1, hs2, h1.2]
  refine .bind (modifyComment_weighs hids3 (h3.1 ▸ h2.mem_new) rfl s3.commentVotes
    fun total => toUInt64 (total - v.weight)) fun s4 h4 => .pure ?_
  obtain ⟨hreplaces, hspends, hsame, hnow, hnext, hkept⟩ :=
    voted_of_steps h1 ⟨h2, hs2⟩ h3 hids3 h4
  have hchanged := replaces_modifyFirst hv fun w : CommentVote =>
    { w with
      rshares := rshares
      votePercent := o.weight
      lastUpdate := s.headBlockTime
      weight := 0
      numChanges := w.numChanges + 1 }
  rw [hsame, hvotes]
  have hchanges : Changes (standing c) _ v { v with
      rshares := rshares
      votePercent := o.weight
      lastUpdate := s.headBlockTime
      weight := 0
      numChanges := v.numChanges + 1 } :=
    { comment := hcomment
      same := rfl
      weight := rfl
      after := rfl }
  exact ⟨.changed hchanges hreplaces hchanged, { hspends with }, hnow, hnext, hkept⟩

end

/-- A vote on a comment that has been paid changes nothing. -/
theorem vote_votes (hids : ((forum s).rows.map Standing.id).Nodup) (o : VoteOperation) :
    Returns (s.vote o) fun t => t = s ∨ ∃ a used, Votes s t o.voter a used := by
  unfold Database.vote
  refine .bind_eq fun c hc => .bind_eq fun a ha => .ensure fun _ => .ensure fun _ => ?_
  have hmem := (getComment_mem hc).1
  refine .ite (fun _ => .pure (.inl rfl)) fun _ => ?_
  refine .bind (votePower_costs s a o.weight) fun power hpower => ?_
  split
  next =>
    exact (castVote_votes hids hmem ha hpower).mono fun t ht => .inr ⟨a, power.used, ht⟩
  next v hv =>
    refine .ensure fun _ => ?_
    exact (changeVote_votes hids hmem ha hpower hv).mono fun t ht => .inr ⟨a, power.used, ht⟩

theorem Votes.turns {voter : AccountName} {a : Account} {used : Int} (h : Votes s t voter a used) :
    ReflTransGen Turn (forum s) (forum t) := by
  have hspent :
    Turn { (forum s) with rows := (forum t).rows, votes := t.commentVotes } (forum t) := by
    have hforum : forum t = { (forum s) with
        rows := (forum t).rows, votes := t.commentVotes, powers := (forum t).powers } := by
      ext1
      case now => exact h.now
      case next => exact h.next
      case terms => exact h.terms
      all_goals rfl
    rw [hforum]
    refine .rest le_rfl (.inl rfl) fun x hx => ?_
    obtain ⟨b, hb, rfl⟩ := List.mem_map.mp hx
    rcases h.spends.accounts.symm.mem_of_mem hb with rfl | hb
    · exact .inr h.spends.left_bounds
    · exact .inl (List.mem_map_of_mem hb)
  rcases h.voted with ⟨hc, hrows, hvotes⟩ | ⟨hc, hrows, hvotes⟩
  · rw [hvotes] at hspent
    exact .tail (.single (.cast hc hrows)) hspent
  · exact .tail (.single (.changed hc hrows hvotes)) hspent

/-! ## Events -/

/-- The time of a block has 32 bits. Everything else a block does leaves the standing of
the comments and the voting power of the accounts alone; a new account has all of it. -/
def unvoted (s : Database) : Event → Bool
  | .newBlock time => time < uint32Range
  | .elsewhere t =>
      t.comments.rows.map standing = s.comments.rows.map standing &&
      t.accounts.rows.all fun a => a.votingPower = hundredPercent ||
        s.accounts.rows.any fun b => b.name = a.name && b.votingPower = a.votingPower
  | _ => true

def performVotes (tools : TextTools) (s : Database) (e : Event) : Except String Database := do
  ensure (unvoted s e) "votes or voting power have been changed"
  perform tools s e

/-- The state after an event; one that throws changes nothing. -/
def stepVotes (tools : TextTools) (s : Database) (e : Event) : Database :=
  attempt s (performVotes tools s e)

theorem performVotes_turns (tools : TextTools) (hids : ((forum s).rows.map Standing.id).Nodup)
    (e : Event) :
    Returns (performVotes tools s e) fun t => ReflTransGen Turn (forum s) (forum t) := by
  refine .ensure fun hrest => ?_
  cases e with
  | comment o => exact .ensure fun _ => .bind_any fun _ => comment_turns tools s o
  | deleteComment o => exact .bind_any fun _ => deleteComment_turns s o
  | commentOptions o =>
      exact .bind_any fun _ => (commentOptions_forum s o).mono fun t ht => ht ▸ .refl
  | vote o =>
      refine .bind_any fun _ => (vote_votes hids o).mono fun t ht => ?_
      rcases ht with rfl | ⟨a, used, ht⟩
      · exact .refl
      · exact ht.turns
  | newBlock time =>
      refine .ensure fun hlater => .pure (.single ?_)
      exact .rest (of_decide_eq_true hlater).le (.inr (of_decide_eq_true hrest)) fun x hx => .inl hx
  | processFunds => exact (processFunds_forum s).mono fun t ht => ht ▸ .refl
  | processCommentCashout => exact processCommentCashout_turns s
  | elsewhere t =>
      refine .ensure fun hsame => .pure (.single ?_)
      simp only [unvoted, sameRewards, Bool.and_eq_true, Bool.or_eq_true, decide_eq_true_eq,
        List.all_eq_true, List.any_eq_true] at hrest hsame
      obtain ⟨hrows, hpowers⟩ := hrest
      obtain ⟨⟨⟨⟨⟨hnow, hnext⟩, -⟩, hvotes⟩, hfunds⟩, -⟩ := hsame
      have hforum :
        forum t = { (forum s) with now := t.headBlockTime, powers := (forum t).powers } := by
        ext1
        case next => exact hnext
        case rows => exact hrows
        case votes => exact hvotes
        case terms => exact congrArg (List.map terms) hfunds
        all_goals rfl
      rw [hforum]
      refine .rest hnow.ge (.inl hnow) fun x hx => ?_
      obtain ⟨a, ha, rfl⟩ := List.mem_map.mp hx
      rcases hpowers a ha with hfull | ⟨b, hb, -, hkept⟩
      · rw [hfull]
        exact .inr (by decide)
      · exact .inl (hkept ▸ List.mem_map_of_mem hb)

/-! ## Runs -/

/-- The curve of the fund all comments are paid from. -/
def postTerms : List (CurveId × Int) := [terms (.post 0 0 0)]

/-- What holds of every forum that is reached, if turns keep `P`. -/
structure Orderly (P : Nat → List CommentVote → Standing → Prop) (f : Forum) : Prop
    extends Polled P f where
  now : f.now < uint32Range
  terms : f.terms = postTerms
  powers : ∀ x ∈ f.powers, 0 ≤ x ∧ x ≤ hundredPercent

section

variable {P : Nat → List CommentVote → Standing → Prop} (hP : Kept postTerms P)

include hP

theorem Orderly.turns {f g : Forum} (h : Orderly P f) (hturns : ReflTransGen Turn f g) :
    Orderly P g := by
  obtain ⟨hpolled, hterms⟩ := h.toPolled.turns (h.terms ▸ hP) hturns
  exact { hpolled with
    now := now_of_turns h.now hturns
    terms := hterms.trans h.terms
    powers := powers_of_turns h.powers hturns }

theorem stepVotes_orderly (tools : TextTools) (h : Orderly P (forum s)) (e : Event) :
    Orderly P (forum (stepVotes tools s e)) := by
  unfold stepVotes attempt
  split
  next t ht => exact h.turns hP (performVotes_turns tools h.ids e t ht)
  next => exact h

theorem run_orderly (tools : TextTools) (events : List Event) (h : Orderly P (forum s)) :
    Orderly P (forum (events.foldl (stepVotes tools) s)) := by
  induction events generalizing s with
  | nil => exact h
  | cons e rest ih => exact ih (stepVotes_orderly hP tools h e)

end

theorem genesis_orderly (P : Nat → List CommentVote → Standing → Prop) (initialSupply : Int) :
    Orderly P (forum (Database.genesis initialSupply)) where
  ids := List.nodup_nil
  fresh := fun _ hc => absurd hc List.not_mem_nil
  votes := fun _ hv => absurd hv List.not_mem_nil
  holds := fun _ hc => absurd hc List.not_mem_nil
  now := show genesisTime < uint32Range by decide
  terms := rfl
  powers := by
    intro x hx
    have hfull :
      (forum (Database.genesis initialSupply)).powers = List.replicate 4 hundredPercent := rfl
    rw [hfull] at hx
    rw [List.eq_of_mem_replicate hx]
    decide

end Gamebank.Rewards
