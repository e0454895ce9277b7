import Gamebank.Rewards.Turns

/-!
# Curation weights

What a vote adds to the total weight of a comment is the growth of a curve, and the
curve is monotone; so the total never passes what the curve gives for all the votes
in favour, which fits in 64 bits. The weight of the vote itself is that or, in the
first minutes, less of it, and leaves the total when the vote is changed. Hence the
weights never add up to more than the total (`Weighed`), nothing wraps (`Exact`),
and the curators claim no more than there is to share.
-/

namespace Gamebank.Rewards

open Gamebank.Lib Gamebank.Protocol Gamebank.Ledger
open Relation (ReflTransGen)

variable {s t : Database} {c : Comment}

/-! ## The invariant -/

/-- The weights of the votes on a comment and its total. -/
structure Weighed (now : Nat) (votes : List CommentVote) (c : Standing) : Prop where
  nonneg : ∀ v ∈ votes, 0 ≤ v.weight
  votes : sumOf CommentVote.weight votes ≤ c.totalVoteWeight
  total : c.totalVoteWeight ≤ approxSqrt c.voteRshares.toNat
  up : 0 ≤ c.voteRshares
  fits : c.voteRshares < 9223372036854775808
  created : c.created ≤ now

section

variable {now : Nat} {votes : List CommentVote} {c c' : Standing} {v v' : CommentVote} {whole : Int}

theorem Weighed.total_nonneg (h : Weighed now votes c) : 0 ≤ c.totalVoteWeight :=
  (sumOf_nonneg h.nonneg).trans h.votes

theorem Weighed.total_lt (h : Weighed now votes c) : c.totalVoteWeight < 18446744073709551616 := by
  have hfits := h.fits
  have htotal := h.total
  have hlt := approxSqrt_lt (x := c.voteRshares.toNat) (by omega)
  omega

/-- What a vote adds to the curve, in integers. -/
def growth (c : Standing) (v : CommentVote) : Int :=
  approxSqrt (c.voteRshares + v.rshares).toNat - approxSqrt c.voteRshares.toNat

/-- A vote that adds weight adds the growth of the curve, and the total stays below it. -/
theorem Casts.growth (hc : Casts postTerms now c c' v whole) (h : Weighed now votes c) :
    (whole = 0 ∨ 0 < v.rshares ∧ whole = growth c v) ∧ 0 ≤ whole ∧
      c.totalVoteWeight + whole ≤ approxSqrt c'.voteRshares.toNat ∧
      approxSqrt c'.voteRshares.toNat < 18446744073709551616 := by
  have hfits := hc.fits
  have hup := h.up
  have htotal := h.total
  have hafter :
    c'.voteRshares = if 0 < v.rshares then c.voteRshares + v.rshares else c.voteRshares := by
    rw [hc.after]
  have hmono := approxSqrt_mono (show c.voteRshares.toNat ≤ c'.voteRshares.toNat by
    rw [hafter]
    split <;> omega)
  have hlt := approxSqrt_lt (x := c'.voteRshares.toNat) (by omega)
  rcases hc.grows with rfl | ⟨hpos, terms, hterms, hwhole⟩
  · exact ⟨.inl rfl, le_rfl, by omega, hlt⟩
  · rw [List.mem_singleton.mp hterms] at hwhole
    rw [if_pos hpos] at hafter
    rw [hafter] at hmono hlt ⊢
    have hexact : whole = Rewards.growth c v := by
      rw [hwhole]
      show toUInt64 ((approxSqrt _ : Int) - approxSqrt _) = _
      unfold toUInt64 Rewards.growth
      omega
    have hgrowth : Rewards.growth c v = approxSqrt (c.voteRshares + v.rshares).toNat -
        approxSqrt c.voteRshares.toNat := rfl
    exact ⟨.inr ⟨hpos, hexact⟩, by omega, by omega, hlt⟩

/-- The total after a first vote has not wrapped. -/
theorem Casts.total_eq (hc : Casts postTerms now c c' v whole) (h : Weighed now votes c) :
    c'.totalVoteWeight = c.totalVoteWeight + whole := by
  obtain ⟨-, hnonneg, hle, hlt⟩ := hc.growth h
  have htotal := h.total_nonneg
  rw [hc.after]
  show toUInt64 (c.totalVoteWeight + whole) = _
  unfold toUInt64
  omega

/-- Nor has the total after a change of vote. -/
theorem Changes.total_eq (hc : Changes c c' v v') (h : Weighed now votes c) (hv : v ∈ votes) :
    0 ≤ v.weight ∧ v.weight ≤ c.totalVoteWeight ∧
      c'.totalVoteWeight = c.totalVoteWeight - v.weight := by
  have hnonneg := h.nonneg v hv
  have hle := le_sumOf_of_mem hv h.nonneg
  have hvotes := h.votes
  have hlt := h.total_lt
  refine ⟨hnonneg, hle.trans hvotes, ?_⟩
  rw [hc.after]
  show toUInt64 (c.totalVoteWeight - v.weight) = _
  unfold toUInt64
  omega

end

theorem weighed_kept : Kept postTerms Weighed where
  later := fun hnow h => { h with created := h.created.trans hnow }
  made := fun id now cashoutTime =>
    { nonneg := fun _ hv => absurd hv List.not_mem_nil
      votes := le_rfl
      total := show (0 : Int) ≤ (approxSqrt 0 : Nat) by decide
      up := le_rfl
      fits := show (0 : Int) < _ by decide
      created := le_rfl }
  cast := by
    intro now votes c c' v whole hc h
    obtain ⟨-, hnonneg, hle, -⟩ := hc.growth h
    have htotal := hc.total_eq h
    have hweight := discountWeight_bounds hnonneg now c.created
    rw [← hc.weight] at hweight
    -- only an upvote adds to the shares
    have hafter : c'.voteRshares =
        if 0 < v.rshares then c.voteRshares + v.rshares else c.voteRshares := by
      rw [hc.after]
    constructor
    case nonneg =>
      intro w hw
      rcases List.mem_append.mp hw with hw | hw
      · exact h.nonneg w hw
      · rw [List.mem_singleton.mp hw]
        exact hweight.1
    case votes =>
      have hvotes := h.votes
      rw [sumOf_append, sumOf_cons, sumOf_nil, htotal]
      omega
    case total => rw [htotal]; exact hle
    case up =>
      have hup := h.up
      rw [hafter]
      split <;> omega
    case fits => exact hc.fits
    case created => rw [hc.after]; exact h.created
  changed := by
    intro now votes votes' c c' v v' hc hreplaces h
    obtain ⟨hnonneg, -, htotal⟩ := hc.total_eq h hreplaces.mem_old
    have hrshares : c'.voteRshares = c.voteRshares := by rw [hc.after]
    constructor
    case nonneg =>
      intro w hw
      rcases hreplaces.symm.mem_of_mem hw with rfl | hw
      · exact hc.weight.ge
      · exact h.nonneg w hw
    case votes =>
      have hvotes := h.votes
      rw [hreplaces.sumOf_eq, hc.weight, htotal]
      omega
    case total =>
      have hle := h.total
      rw [htotal, hrshares]
      omega
    case up => rw [hrshares]; exact h.up
    case fits => rw [hrshares]; exact h.fits
    case created => rw [hc.after]; exact h.created
  paid := fun h =>
    { nonneg := fun _ hv => absurd hv List.not_mem_nil
      votes := le_rfl
      total := show (0 : Int) ≤ (approxSqrt 0 : Nat) by decide
      up := le_rfl
      fits := show (0 : Int) < _ by decide
      created := h.created }

/-! ## Votes -/

/-- A vote from `s` to `t`, with its weights in integers: no computation wraps. -/
inductive Exact (s t : Database) : Prop
  | cast {c c' : Standing} {v : CommentVote} {whole : Int}
      (hrows : Replaces c c' (forum s).rows (forum t).rows)
      (hvotes : t.commentVotes = s.commentVotes ++ [v]) (hcomment : v.comment = c.id)
      (hwhole : whole = 0 ∨ 0 < v.rshares ∧ whole = growth c v)
      (hweight : v.weight = whole * min ((s.headBlockTime : Int) - c.created) reverseAuctionWindow /
        reverseAuctionWindow)
      (htotal : c'.totalVoteWeight = c.totalVoteWeight + whole)
      (hbounds : 0 ≤ whole ∧ c'.totalVoteWeight < 18446744073709551616)
  | changed {c c' : Standing} {v v' : CommentVote}
      (hrows : Replaces c c' (forum s).rows (forum t).rows)
      (hvotes : Replaces v v' s.commentVotes t.commentVotes) (hcomment : v.comment = c.id)
      (hweight : v'.weight = 0) (htotal : c'.totalVoteWeight = c.totalVoteWeight - v.weight)
      (hbounds : 0 ≤ v.weight ∧ v.weight ≤ c.totalVoteWeight)

theorem Voted.exact (h : Orderly Weighed (forum s))
    (hvoted : Voted s t) : Exact s t := by
  cases hvoted with
  | @cast c c' v whole hc hrows hvotes =>
      have hweighed := h.holds c hrows.mem_old
      rw [h.terms] at hc
      obtain ⟨hwhole, hnonneg, hle, hlt⟩ := hc.growth hweighed
      refine .cast hrows hvotes hc.comment hwhole ?_ (hc.total_eq hweighed) ⟨hnonneg, ?_⟩
      · have hcreated := hweighed.created
        have hnow : s.headBlockTime < uint32Range := h.now
        have helapsed :
          toUInt64 ((s.headBlockTime : Int) - c.created) = s.headBlockTime - c.created := by
          have hcreated' : c.created ≤ s.headBlockTime := hcreated
          unfold toUInt64
          unfold uint32Range at hnow
          omega
        rw [hc.weight, Database.discountWeight, helapsed]
      · rw [hc.total_eq hweighed]
        omega
  | @changed c c' v v' hc hrows hvotes =>
      have hweighed := h.holds c hrows.mem_old
      have hv : v ∈ votesOn (forum s).votes c.id :=
        List.mem_filter.mpr ⟨hvotes.mem_old, decide_eq_true hc.comment⟩
      obtain ⟨hnonneg, hle, htotal⟩ := hc.total_eq hweighed hv
      exact .changed hrows hvotes hc.comment hc.weight htotal ⟨hnonneg, hle⟩

/-! ## Payouts -/

/-- What a curator claims. -/
def curatorClaim (maxRewards : Int) (c : Comment) (v : CommentVote) : Int :=
  maxRewards * v.weight / c.totalVoteWeight

theorem payCurator_claims {maxRewards : Int} (hmax : 0 ≤ maxRewards)
    (hfits : maxRewards < 9223372036854775808) (hpos : 0 < c.totalVoteWeight) {v : CommentVote}
    (hv : 0 ≤ v.weight ∧ v.weight ≤ c.totalVoteWeight)
    (htotal : c.totalVoteWeight < 18446744073709551616) (s : Database) (unclaimed : Int) :
    Returns (Database.payCurator maxRewards c.totalVoteWeight (s, unclaimed) v)
      fun r => r.2 = unclaimed - curatorClaim maxRewards c v := by
  obtain ⟨hproduct, hexact, hnonneg⟩ := curatorClaim_exact hmax hfits hpos hv.1 hv.2 htotal
  unfold Database.payCurator curatorClaim
  refine .bind (checkedUInt64_eq _) fun claim hclaim => ?_
  rw [hclaim, hproduct, hexact]
  refine .ite (fun _ => .bind_any fun t => .bind_any fun u => .pure rfl) fun hzero => .pure ?_
  show unclaimed = _
  omega

/-- The claims of all curators, each rounded down. -/
theorem sumOf_curatorClaim_le {maxRewards : Int} (hmax : 0 ≤ maxRewards)
    (hpos : 0 < c.totalVoteWeight)
    {votes : List CommentVote} (hvotes : sumOf CommentVote.weight votes ≤ c.totalVoteWeight) :
    sumOf (curatorClaim maxRewards c) votes ≤ maxRewards := by
  have hshares : ∀ votes : List CommentVote,
      sumOf (curatorClaim maxRewards c) votes * c.totalVoteWeight ≤
        maxRewards * sumOf CommentVote.weight votes := by
    intro votes
    induction votes with
    | nil => simp
    | cons v rest ih =>
        rw [sumOf_cons, sumOf_cons, Int.add_mul, Int.mul_add]
        exact Int.add_le_add (share_mul_le maxRewards v.weight hpos) ih
  have hall : maxRewards * sumOf CommentVote.weight votes ≤ maxRewards * c.totalVoteWeight :=
    Int.mul_le_mul_of_nonneg_left hvotes hmax
  exact Int.le_of_mul_le_mul_right ((hshares votes).trans hall) hpos

/-- What is shared among the curators of a comment, and what is left of it. -/
structure CuratorShares (s : Database) (c : Comment) (maxRewards unclaimed : Int) : Prop where
  claims : sumOf (curatorClaim maxRewards c) (votesOn s.commentVotes c.id) ≤ maxRewards
  rest : unclaimed = if c.allowCurationRewards then
    maxRewards - sumOf (curatorClaim maxRewards c) (votesOn s.commentVotes c.id) else 0
  nonneg : 0 ≤ unclaimed

theorem curatorsLoop_claims {now : Nat} {votes : List CommentVote}
    (hperm : (s.curators c).Perm votes) (h : Weighed now votes (standing c)) {maxRewards : Int}
    (hmax : 0 ≤ maxRewards) (hfits : maxRewards < 9223372036854775808)
    (hpos : 0 < c.totalVoteWeight) :
    Returns ((s.curators c).foldlM (Database.payCurator maxRewards c.totalVoteWeight)
    (s, maxRewards))
      fun r => r.2 = maxRewards - sumOf (curatorClaim maxRewards c) votes := by
  have hvotes : sumOf CommentVote.weight votes ≤ c.totalVoteWeight := h.votes
  have hweights : ∀ v ∈ s.curators c, 0 ≤ v.weight ∧ v.weight ≤ c.totalVoteWeight := by
    intro v hv
    have hmem := hperm.subset hv
    exact ⟨h.nonneg v hmem, (le_sumOf_of_mem hmem h.nonneg).trans hvotes⟩
  -- the claims still to come are taken from what is unclaimed now
  refine Returns.foldlM_rest (I := fun (votes : List CommentVote) (r : Database × Int) =>
    (∀ v ∈ votes, 0 ≤ v.weight ∧ v.weight ≤ c.totalVoteWeight) ∧
      r.2 - sumOf (curatorClaim maxRewards c) votes =
        maxRewards - sumOf (curatorClaim maxRewards c) (s.curators c)) ?_ ⟨hweights, rfl⟩
    |>.mono fun r hr => ?_
  · rintro v rest ⟨t, unclaimed⟩ ⟨hall, hleft⟩
    have hv := hall v List.mem_cons_self
    refine (payCurator_claims hmax hfits hpos hv h.total_lt t unclaimed).mono fun r hr => ?_
    refine ⟨fun w hw => hall w (List.mem_cons_of_mem v hw), ?_⟩
    rw [sumOf_cons] at hleft
    omega
  · have hleft := hr.2
    rw [sumOf_nil, sumOf_perm hperm] at hleft
    omega

theorem payCurators_shares {now : Nat}
    (h : Weighed now (votesOn s.commentVotes c.id) (standing c)) {maxRewards : Int}
    (hmax : 0 ≤ maxRewards) (hfits : maxRewards < 9223372036854775808) :
    Returns (s.payCurators c maxRewards) fun r => CuratorShares s c maxRewards r.2.1 := by
  have hvotes : sumOf CommentVote.weight (votesOn s.commentVotes c.id) ≤ c.totalVoteWeight :=
    h.votes
  have hperm : (s.curators c).Perm (votesOn s.commentVotes c.id) := List.perm_insertionSort _ _
  have hclaims : sumOf (curatorClaim maxRewards c) (votesOn s.commentVotes c.id) ≤ maxRewards ∧
      (¬0 < c.totalVoteWeight →
        sumOf (curatorClaim maxRewards c) (votesOn s.commentVotes c.id) = 0) := by
    by_cases hpos : 0 < c.totalVoteWeight
    · exact ⟨sumOf_curatorClaim_le hmax hpos hvotes, fun hzero => absurd hpos hzero⟩
    · have hnone : sumOf (curatorClaim maxRewards c) (votesOn s.commentVotes c.id) = 0 := by
        refine sumOf_eq_zero fun v _ => ?_
        have hzero : c.totalVoteWeight = 0 := le_antisymm (not_lt.mp hpos) h.total_nonneg
        rw [curatorClaim, hzero, Int.ediv_zero]
      exact ⟨hnone.trans_le hmax, fun _ => hnone⟩
  unfold Database.payCurators
  refine .ite (fun hnone => ?_) fun hallowed => ?_
  · rw [Bool.not_eq_true'] at hnone
    exact .pure ⟨hclaims.1, by rw [hnone]; rfl, le_rfl⟩
  · have hallowed' : c.allowCurationRewards = true := by simpa using hallowed
    refine .ite (fun hpos => ?_) fun hzero => .pure ⟨hclaims.1, ?_, hmax⟩
    · refine .bind (curatorsLoop_claims hperm h hmax hfits hpos) fun r hr =>
        .pure ⟨hclaims.1, ?_, ?_⟩
      · show r.2 = _
        rw [hr, if_pos hallowed']
      · show 0 ≤ r.2
        rw [hr]
        omega
    · rw [if_pos hallowed', hclaims.2 hzero, Int.sub_zero]

/-! ## Runs -/

/-- One turn of the loop that pays the comments that are due. -/
def Cashes (s t : Database) : Prop :=
  ∃ ctx c forward claimed, s.cashoutCommentHelper ctx c forward = .ok (t, claimed)

theorem Cashes.turn (h : Cashes s t) : Turn (forum s) (forum t) := by
  obtain ⟨ctx, c, forward, claimed, hcash⟩ := h
  exact cashoutCommentHelper_turn s ctx c forward _ hcash

/-- **Curation weights.** In every state that is reached the weights of the votes on a
comment add up to no more than its total, which fits in 64 bits; and no vote makes a
computation of weights wrap. Whenever the curators of a comment are paid, before or
after other comments of the same block, they claim no more than there is to share. -/
theorem curation_weights (tools : TextTools) (initialSupply : Int) (events : List Event) :
    let s := events.foldl (stepVotes tools) (Database.genesis initialSupply)
    (∀ c ∈ s.comments.rows, (∀ v ∈ votesOn s.commentVotes c.id, 0 ≤ v.weight) ∧
      sumOf CommentVote.weight (votesOn s.commentVotes c.id) ≤ c.totalVoteWeight ∧
      c.totalVoteWeight < 18446744073709551616) ∧
    (∀ o t, performVotes tools s (.vote o) = .ok t → t = s ∨ Exact s t) ∧
    ∀ u, ReflTransGen Cashes s.decayFunds u → ∀ c ∈ u.comments.rows,
      ∀ maxRewards, 0 ≤ maxRewards → maxRewards < 9223372036854775808 →
        ∀ r, u.payCurators c maxRewards = .ok r → CuratorShares u c maxRewards r.2.1 := by
  intro s
  have horderly : Orderly Weighed (forum s) :=
    run_orderly weighed_kept tools events (genesis_orderly Weighed initialSupply)
  refine ⟨fun c hc => ?_, fun o t ht => ?_, fun u hu c hc maxRewards hmax hfits r hr => ?_⟩
  · have hweighed := horderly.holds (standing c) (List.mem_map_of_mem hc)
    exact ⟨hweighed.nonneg, hweighed.votes, hweighed.total_lt⟩
  · have hvote : Returns (performVotes tools s (.vote o)) fun t =>
        t = s ∨ ∃ a used, Votes s t o.voter a used :=
      .ensure fun _ => .bind_any fun _ => vote_votes horderly.ids o
    rcases hvote t ht with hsame | ⟨a, used, hvotes⟩
    · exact .inl hsame
    · exact .inr (hvotes.voted.exact horderly)
  · have hturns : ReflTransGen Turn (forum s.decayFunds) (forum u) :=
      hu.lift forum fun _ _ hcash => hcash.turn
    rw [decayFunds_forum] at hturns
    have hweighed :=
      (horderly.turns weighed_kept hturns).holds (standing c) (List.mem_map_of_mem hc)
    exact payCurators_shares hweighed hmax hfits r hr

/-- Half an hour after the post, a vote weighs as much as it adds to the total; a minute
after it, a thirtieth of that. -/
example :
    let votes (minutes : Nat) : List Event :=
      [.elsewhere populated, .comment ⟨"", "game", "alice", "post", "", "text", ""⟩,
        .newBlock (genesisTime + 60 * minutes), .vote ⟨"bobby", "alice", "post", 10000⟩]
    let states := [30, 1].map fun minutes =>
      (votes minutes).foldl (stepVotes plainTools) (Database.genesis 0)
    states.map (fun s => (s.comments.rows.map Comment.totalVoteWeight,
      s.commentVotes.map CommentVote.weight)) =
      [([46579538], [46579538]), ([46579538], [1552651])] := by
  decide +kernel

end Gamebank.Rewards
