import Gamebank.Rewards.Curves
import Gamebank.Stake.Frames

/-!
# What comments may claim from the reward fund

`View` is what the payouts of a block depend on. A `Claim` is what of it is
about one comment. The claims of a state are `Sound` if the weights of the
votes on a comment add up to no more than its total, which is no more than
the curve gives for all its votes; if nothing can be claimed twice; and if
there is `room` left: the recent claims of the fund stay in 128 bits even
when every comment that has not been paid yet claims all that an `int64_t`
can be.

A claim is replaced (`Sound.replace`), made (`Sound.create`), or dropped
(`Sound.drop`); nothing else happens to it.
-/

namespace Gamebank.Rewards

open Gamebank.Lib Gamebank.Protocol Gamebank.Ledger
open Gamebank.Ledger.Database (modifyAccount_spec modifyProps_spec require_eq_ok)

/-! ## The view of a state -/

/-- What a comment may claim. -/
structure Claim where
  id : Nat
  cashoutTime : Nat
  netRshares : Int
  voteRshares : Int
  totalVoteWeight : Int
  rewardWeight : Int
  beneficiaries : List (AccountName × Int)
deriving DecidableEq

def claim (c : Comment) : Claim :=
  ⟨c.id, c.cashoutTime, c.netRshares, c.voteRshares, c.totalVoteWeight, c.rewardWeight,
    c.beneficiaries⟩

/-- The claim of a new comment. -/
def Claim.new (id now : Nat) : Claim :=
  ⟨id, (now + cashoutWindowSeconds) % uint32Range, 0, 0, 0, hundredPercent, []⟩

@[ext]
structure View where
  now : Nat
  supply : Int
  nextId : Nat
  claims : List Claim
  votes : List CommentVote
  funds : List RewardFund

def view (s : Database) : View where
  now := s.headBlockTime
  supply := s.props.virtualSupply
  nextId := s.comments.nextId
  claims := s.comments.rows.map claim
  votes := s.commentVotes
  funds := s.rewardFunds.rows

/-! ## The invariant -/

/-- The weight of the votes on a comment. -/
def weightOn (votes : List CommentVote) (id : Nat) : Int :=
  sumOf (fun v => if v.comment = id then v.weight else 0) votes

/-- What is shared out among the beneficiaries is not more than everything. -/
structure Shared (beneficiaries : List (AccountName × Int)) : Prop where
  nonneg : ∀ b ∈ beneficiaries, 0 ≤ b.2
  total : sumOf Prod.snd beneficiaries ≤ hundredPercent

/-- `paid` is about the comments with a cashout time that never comes. -/
structure Claim.Sound (votes : List CommentVote) (c : Claim) : Prop where
  weight : c.rewardWeight = hundredPercent
  net : c.netRshares < 9223372036854775808
  paid : c.cashoutTime = maximumTime → c.netRshares ≤ 0
  votes : weightOn votes c.id ≤ c.totalVoteWeight
  total : c.totalVoteWeight ≤ approxSqrt c.voteRshares.toNat
  up : 0 ≤ c.voteRshares
  fits : c.voteRshares < 9223372036854775808
  shared : Shared c.beneficiaries

/-- What a comment can still add to the recent claims. -/
def Claim.capacity (c : Claim) : Int :=
  if c.cashoutTime = maximumTime then 0 else 9223372036854775808

/-- The reward fund of all comments. -/
structure Funded (v : View) (f : RewardFund) : Prop where
  funds : v.funds = [f]
  post : f = { RewardFund.post 0 f.lastUpdate f.rewardBalance with recentClaims := f.recentClaims }
  solvent : 0 ≤ f.rewardBalance
  fits : f.rewardBalance < 9223372036854775808
  updated : f.lastUpdate ≤ v.now
  claims : 0 < f.recentClaims
  room : f.recentClaims + sumOf Claim.capacity v.claims ≤
    (RewardFund.post 0 0 0).recentClaims + 9223372036854775808 * v.nextId

/-- Ids are of type `int64_t`. -/
def idRange : Nat := 9223372036854775808

structure Sound (v : View) : Prop where
  ids : (v.claims.map Claim.id).Nodup
  fresh : ∀ c ∈ v.claims, c.id < v.nextId
  claims : ∀ c ∈ v.claims, c.Sound v.votes
  votes : ∀ w ∈ v.votes, 0 ≤ w.weight ∧ w.comment < v.nextId
  fund : ∃ f, Funded v f
  supply : 0 ≤ v.supply
  range : v.nextId ≤ idRange

/-! ## Weights -/

variable {votes : List CommentVote} {n : Nat}

theorem weightOn_append (v : CommentVote) (i : Nat) :
    weightOn (votes ++ [v]) i = weightOn votes i + if v.comment = i then v.weight else 0 := by
  simp [weightOn]

theorem weightOn_nonneg (h : ∀ w ∈ votes, 0 ≤ w.weight) (i : Nat) : 0 ≤ weightOn votes i := by
  refine sumOf_nonneg fun w hw => ?_
  split
  · exact h w hw
  · exact le_rfl

theorem weight_le_weightOn (h : ∀ w ∈ votes, 0 ≤ w.weight) {w : CommentVote} (hw : w ∈ votes) :
    w.weight ≤ weightOn votes w.comment := by
  have hle := le_sumOf_of_mem (g := fun v => if v.comment = w.comment then v.weight else 0) hw
    fun v hv => by
      split
      · exact h v hv
      · exact le_rfl
  rwa [if_pos rfl] at hle

theorem weightOn_eq_zero_of_fresh (h : ∀ w ∈ votes, w.comment < n) : weightOn votes n = 0 := by
  refine sumOf_eq_zero fun w hw => if_neg ?_
  have := h w hw
  omega

/-- The votes on a comment that is gone are removed. -/
theorem weightOn_filter_le (h : ∀ w ∈ votes, 0 ≤ w.weight) (id i : Nat) :
    weightOn (votes.filter fun w => w.comment ≠ id) i ≤ weightOn votes i := by
  unfold weightOn
  rw [sumOf_filter]
  refine sumOf_le_sumOf fun w hw => ?_
  have := h w hw
  split <;> split <;> omega

theorem weightOn_filter_of_ne {id i : Nat} (hi : i ≠ id) :
    weightOn (votes.filter fun w => w.comment ≠ id) i = weightOn votes i := by
  unfold weightOn
  rw [sumOf_filter]
  refine congrArg (fun g => sumOf g votes) (funext fun w => ?_)
  by_cases hw : w.comment = i
  · have hne : w.comment ≠ id := hw ▸ hi
    simp [hne]
  · simp [hw]

theorem weightOn_filter_self (id : Nat) :
    weightOn (votes.filter fun w => w.comment ≠ id) id = 0 := by
  refine sumOf_eq_zero fun w hw => if_neg ?_
  simpa using List.of_mem_filter hw

/-- Another vote in the place of one on the same comment. -/
theorem weightOn_replaces {w w' : CommentVote} {votes' : List CommentVote}
    (h : Replaces w w' votes votes') (hsame : w'.comment = w.comment) (i : Nat) :
    weightOn votes' i = weightOn votes i + if w.comment = i then w'.weight - w.weight else 0 := by
  unfold weightOn
  rw [h.sumOf_eq, hsame]
  split <;> omega

/-! ## One claim after the other -/

theorem Claim.new_sound {id : Nat} (h : weightOn votes id = 0) (now : Nat) :
    (Claim.new id now).Sound votes where
  weight := rfl
  net := show (0 : Int) < _ by decide
  paid := fun _ => le_rfl
  votes := h.le
  total := show (0 : Int) ≤ (approxSqrt 0 : Nat) by decide
  up := le_rfl
  fits := show (0 : Int) < _ by decide
  shared := ⟨fun b hb => absurd hb List.not_mem_nil, show (0 : Int) ≤ hundredPercent by decide⟩

namespace Sound

variable {v : View} {c c' : Claim} {claims' : List Claim} {votes' : List CommentVote}

theorem eq_of_id (h : Sound v) (hc : c ∈ v.claims) (hc' : c' ∈ v.claims) (hid : c.id = c'.id) :
    c = c' :=
  List.inj_on_of_nodup_map h.ids hc hc' hid

theorem total_nonneg (h : Sound v) (hc : c ∈ v.claims) : 0 ≤ c.totalVoteWeight :=
  (weightOn_nonneg (fun w hw => (h.votes w hw).1) c.id).trans (h.claims c hc).votes

theorem total_lt (h : Sound v) (hc : c ∈ v.claims) : c.totalVoteWeight < 18446744073709551616 := by
  have hsound := h.claims c hc
  have hlt := approxSqrt_lt (x := c.voteRshares.toNat) (by have := hsound.fits; omega)
  have := hsound.total
  omega

/-- A claim is replaced; the votes change on its comment only. -/
theorem replace (h : Sound v) (hr : Replaces c c' v.claims claims') (hid : c'.id = c.id)
    (htime : c'.capacity ≤ c.capacity) (hc' : c'.Sound votes')
    (hother : ∀ i, i ≠ c.id → weightOn votes' i = weightOn v.votes i)
    (hvotes : ∀ w ∈ votes', 0 ≤ w.weight ∧ w.comment < v.nextId) :
    Sound { v with claims := claims', votes := votes' } where
  ids := by
    rw [show claims'.map Claim.id = v.claims.map Claim.id from hr.map_eq hid]
    exact h.ids
  fresh := by
    intro d hd
    rcases hr.mem_or h.ids hd with rfl | ⟨hd, -⟩
    · exact hid ▸ h.fresh c hr.mem_old
    · exact h.fresh d hd
  claims := by
    intro d hd
    rcases hr.mem_or h.ids hd with rfl | ⟨hd, hne⟩
    · exact hc'
    · exact { h.claims d hd with votes := (hother d.id hne).trans_le (h.claims d hd).votes }
  votes := hvotes
  fund := by
    obtain ⟨f, hf⟩ := h.fund
    refine ⟨f, { hf with room := ?_ }⟩
    have hroom := hf.room
    show f.recentClaims + sumOf Claim.capacity claims' ≤ _
    rw [hr.sumOf_eq]
    show _ ≤ _ + 9223372036854775808 * (v.nextId : Int)
    omega
  supply := h.supply
  range := h.range

/-- The votes stay. -/
theorem replace' (h : Sound v) (hr : Replaces c c' v.claims claims') (hid : c'.id = c.id)
    (htime : c'.capacity ≤ c.capacity) (hc' : c'.Sound v.votes) :
    Sound { v with claims := claims' } :=
  h.replace hr hid htime hc' (fun _ _ => rfl) h.votes

/-- A comment is made. -/
theorem create (h : Sound v) (hroom : v.nextId < idRange) :
    Sound { v with nextId := v.nextId + 1, claims := v.claims ++ [Claim.new v.nextId v.now] } where
  ids := nodup_map_append_single h.ids fun c hc => (h.fresh c hc).ne
  fresh := by
    intro c hc
    show c.id < v.nextId + 1
    rcases List.mem_append.mp hc with hc | hc
    · exact (h.fresh c hc).trans (Nat.lt_succ_self _)
    · rw [List.mem_singleton.mp hc]
      exact Nat.lt_succ_self _
  claims := by
    intro c hc
    rcases List.mem_append.mp hc with hc | hc
    · exact h.claims c hc
    · rw [List.mem_singleton.mp hc]
      have hzero : weightOn v.votes v.nextId = 0 :=
        weightOn_eq_zero_of_fresh fun w hw => (h.votes w hw).2
      exact Claim.new_sound hzero v.now
  votes := fun w hw => ⟨(h.votes w hw).1, (h.votes w hw).2.trans (Nat.lt_succ_self _)⟩
  fund := by
    obtain ⟨f, hf⟩ := h.fund
    refine ⟨f, { hf with room := ?_ }⟩
    have hroom := hf.room
    have hnew : (Claim.new v.nextId v.now).capacity ≤ 9223372036854775808 := by
      unfold Claim.capacity
      split <;> omega
    show f.recentClaims + sumOf Claim.capacity (v.claims ++ [Claim.new v.nextId v.now]) ≤
      _ + 9223372036854775808 * ((v.nextId + 1 : Nat) : Int)
    rw [sumOf_append, sumOf_cons, sumOf_nil]
    omega
  supply := h.supply
  range := hroom

/-- A comment is deleted, and with it the votes on it. -/
theorem drop (h : Sound v) (hsub : claims'.Sublist v.claims) (id : Nat) :
    Sound { v with claims := claims', votes := v.votes.filter fun w => w.comment ≠ id } where
  ids := h.ids.sublist (hsub.map Claim.id)
  fresh := fun c hc => h.fresh c (hsub.subset hc)
  claims := by
    intro c hc
    have hc := h.claims c (hsub.subset hc)
    exact { hc with
      votes := (weightOn_filter_le (fun w hw => (h.votes w hw).1) id c.id).trans hc.votes }
  votes := fun w hw => h.votes w (List.mem_of_mem_filter hw)
  fund := by
    obtain ⟨f, hf⟩ := h.fund
    refine ⟨f, { hf with room := ?_ }⟩
    have hroom := hf.room
    have hle : sumOf Claim.capacity claims' ≤ sumOf Claim.capacity v.claims :=
      sumOf_sublist hsub fun c _ => by
        unfold Claim.capacity
        split <;> omega
    show f.recentClaims + sumOf Claim.capacity claims' ≤ _ + 9223372036854775808 * (v.nextId : Int)
    omega
  supply := h.supply
  range := h.range

end Sound

end Gamebank.Rewards
