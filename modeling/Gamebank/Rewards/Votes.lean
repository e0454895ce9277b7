import Gamebank.Discussion.Frames
import Gamebank.Rewards.Claims

/-!
# Comments and votes keep the claims sound

The weight a vote adds to the total of a comment is the growth of a curve, so
the total never passes the curve (`maxVoteWeight_spec`). The weight of the
vote itself is that or, in the first minutes, less of it. When a vote is
changed, its weight leaves the total.
-/

namespace Gamebank.Rewards

open Gamebank.Lib Gamebank.Protocol Gamebank.Ledger
open Gamebank.Ledger.Database (modifyAccount_spec require_eq_ok)
open Gamebank.Discussion (getComment_mem comment_frame deleteComment_removed)

variable {s t : Database} {c : Comment}

/-! ## Comments -/

theorem modifyAccount_view (s : Database) (name : AccountName) (f : Account → Account) :
    Returns (s.modifyAccount name f) fun t => view t = view s :=
  (modifyAccount_spec s name f).mono fun _ ⟨_, h⟩ => by rw [h.rest]; rfl

theorem claims_modify {comments : Comments} {p : Comment → Bool} {f : Comment → Comment}
    (hf : ∀ c, claim (f c) = claim c) :
    (Table.modify comments p f).rows.map claim = comments.rows.map claim :=
  map_modifyFirst hf comments.rows

/-- With a comment made. -/
def View.commented (v : View) : View :=
  { v with nextId := v.nextId + 1, claims := v.claims ++ [Claim.new v.nextId v.now] }

theorem comment_view (tools : TextTools) (s : Database) (o : CommentOperation) :
    Returns (s.comment tools o) fun t => view t = view s ∨ view t = (view s).commented := by
  refine (comment_frame tools s o).mono fun t ht => ?_
  rcases ht with ⟨parent, ht⟩ | ht
  · have hclaims : (view t).claims = (view s).commented.claims := ht.rows fun _ _ => rfl
    right
    ext1
    case nextId => exact ht.next
    case claims => exact hclaims
    all_goals rw [ht.rest]; rfl
  · have hclaims : (view t).claims = (view s).claims := ht.rows fun _ _ => rfl
    left
    ext1
    case nextId => exact ht.next
    case claims => exact hclaims
    all_goals rw [ht.rest]; rfl

theorem deleteComment_view (s : Database) (o : DeleteCommentOperation) :
    Returns (s.deleteComment o) fun t => ∃ claims' id, claims'.Sublist (view s).claims ∧
      view t = { view s with
        claims := claims', votes := (view s).votes.filter fun v => v.comment ≠ id } := by
  refine (deleteComment_removed s o).mono fun t ⟨c, ht⟩ => ?_
  have hclaims : (view t).claims = (s.comments.rows.eraseP fun d => d.id = c.id).map claim :=
    ht.rows fun _ _ => rfl
  refine ⟨(s.comments.rows.eraseP fun d => d.id = c.id).map claim, c.id,
    List.eraseP_sublist.map claim, ?_⟩
  ext1
  case nextId => exact ht.next
  case claims => exact hclaims
  all_goals rw [ht.rest]; rfl

/-! ## A comment is modified -/

/-- `t` is `s` with `c'` in the place of the comment `c`. -/
structure Rewritten (s t : Database) (id : Nat) (c c' : Comment) : Prop where
  found : s.comments.find? (fun c => c.id = id) = some c
  net : c'.netRshares < 9223372036854775808
  up : c'.voteRshares < 9223372036854775808
  replaces : Replaces c c' s.comments.rows t.comments.rows
  rest : t = { s with comments := { s.comments with rows := t.comments.rows } }

theorem modifyComment_spec (s : Database) (id : Nat) (f : Comment → Comment) :
    Returns (s.modifyComment id f) fun t => ∃ c, Rewritten s t id c (f c) := by
  unfold Database.modifyComment
  refine .bind_eq fun c hc => .ensure fun hfits => .pure ⟨c, ?_⟩
  rw [require_eq_ok] at hc
  simp only [List.all_cons, Bool.and_eq_true, fitsInt64, decide_eq_true_eq] at hfits
  exact ⟨hc, hfits.1.2, hfits.2.2.1.2, replaces_modifyFirst hc f, rfl⟩

namespace Rewritten

variable {id : Nat} {c' : Comment}

theorem mem (h : Rewritten s t id c c') : claim c ∈ (view s).claims :=
  List.mem_map_of_mem (List.mem_of_find?_eq_some h.found)

theorem id_eq (h : Rewritten s t id c c') : c.id = id := by
  simpa using List.find?_some h.found

theorem claims (h : Rewritten s t id c c') :
    Replaces (claim c) (claim c') (view s).claims (view t).claims :=
  h.replaces.map claim

theorem view_eq (h : Rewritten s t id c c') :
    view t = { view s with claims := (view t).claims } := by
  ext1
  case claims => rfl
  all_goals rw [h.rest]; rfl

/-- What does not change a claim does not matter. -/
theorem view_keeps (h : Rewritten s t id c c') (hclaim : claim c' = claim c) : view t = view s := by
  have hclaims : (view t).claims = (view s).claims := h.replaces.map_eq hclaim
  rw [h.view_eq, hclaims]

end Rewritten

theorem modifyComment_keeps (s : Database) (id : Nat) {f : Comment → Comment}
    (hf : ∀ c, claim (f c) = claim c) :
    Returns (s.modifyComment id f) fun t => view t = view s :=
  (modifyComment_spec s id f).mono fun _ ⟨c, h⟩ => h.view_keeps (hf c)

/-! ## Beneficiaries -/

theorem checkBeneficiaries_total {bs : List (AccountName × Nat)} {sum : Nat}
    {previous : Option AccountName} (hsum : (sum : Int) ≤ hundredPercent)
    (h : checkBeneficiaries sum previous bs = .ok ()) :
    sum + sumOf (fun b => (b.2 : Int)) bs ≤ hundredPercent := by
  induction bs generalizing sum previous with
  | nil => simpa using hsum
  | cons b rest ih =>
      rw [checkBeneficiaries] at h
      obtain ⟨-, -, h⟩ := bind_eq_ok.mp h
      obtain ⟨-, h⟩ := ensure_bind_eq_ok.mp h
      obtain ⟨hle, h⟩ := ensure_bind_eq_ok.mp h
      obtain ⟨-, h⟩ := ensure_bind_eq_ok.mp h
      have := ih (of_decide_eq_true hle) h
      rw [sumOf_cons]
      push_cast at this
      omega

/-- A list of beneficiaries that `validate` accepts shares out what there is. -/
theorem validateBeneficiaries_shared {bs : List (AccountName × Nat)}
    (h : validateBeneficiaries bs = .ok ()) : Shared (bs.map fun b => (b.1, (b.2 : Int))) := by
  unfold validateBeneficiaries at h
  obtain ⟨-, h⟩ := ensure_bind_eq_ok.mp h
  obtain ⟨-, h⟩ := ensure_bind_eq_ok.mp h
  have htotal := checkBeneficiaries_total (by decide) h
  constructor
  · intro b hb
    obtain ⟨a, -, rfl⟩ := List.mem_map.mp hb
    exact Int.natCast_nonneg a.2
  · rw [sumOf_map]
    simpa using htotal

theorem addBeneficiaries_sound (h : Sound (view s)) (id : Nat) {bs : List (AccountName × Nat)}
    (hbs : validateBeneficiaries bs = .ok ()) :
    Returns (s.addBeneficiaries id bs) fun t => Sound (view t) := by
  unfold Database.addBeneficiaries
  refine .bind_eq fun c hc => .ensure fun _ => .ensure fun _ => .ensure fun _ => .pure ?_
  rw [require_eq_ok] at hc
  have hr := (replaces_modifyFirst hc fun c =>
    { c with beneficiaries := bs.map fun b => (b.1, (b.2 : Int)) }).map claim
  have hsound := h.claims (claim c) (List.mem_map_of_mem (List.mem_of_find?_eq_some hc))
  exact h.replace' hr rfl le_rfl { hsound with shared := validateBeneficiaries_shared hbs }

theorem commentOptions_sound (h : Sound (view s)) {o : CommentOptionsOperation}
    (hvalid : o.validate = .ok ()) : Returns (s.commentOptions o) fun t => Sound (view t) := by
  have hlists : o.extensions.forM validateBeneficiaries = .ok () := by
    unfold CommentOptionsOperation.validate at hvalid
    obtain ⟨_, -, hvalid⟩ := bind_eq_ok.mp hvalid
    obtain ⟨-, hvalid⟩ := ensure_bind_eq_ok.mp hvalid
    obtain ⟨-, hvalid⟩ := ensure_bind_eq_ok.mp hvalid
    obtain ⟨-, hvalid⟩ := ensure_bind_eq_ok.mp hvalid
    obtain ⟨_, -, hvalid⟩ := bind_eq_ok.mp hvalid
    exact hvalid
  unfold Database.commentOptions
  refine .bind_any fun c => .ensure fun _ => .ensure fun _ => .ensure fun _ => .ensure fun _ =>
    .ensure fun _ => .foldlM ?_ fun t ht bs hbs =>
      addBeneficiaries_sound ht c.id (forM_mem hlists bs hbs)
  have hsame : view { s with
      comments := s.comments.modify (fun d => d.id = c.id) fun d =>
        { d with
          maxAcceptedPayout := o.maxAcceptedPayout.amount
          percentGamebankDollars := o.percentGamebankDollars
          allowVotes := o.allowVotes
          allowCurationRewards := o.allowCurationRewards } } = view s := by
    ext1
    case claims => exact claims_modify fun _ => rfl
    all_goals rfl
  rw [hsame]
  exact h

/-! ## Votes -/

theorem getRewardFund_eq {f : RewardFund} (hf : Funded (view s) f) : s.getRewardFund = .ok f := by
  have hfunds : s.rewardFunds.rows = [f] := hf.funds
  have hname : f.name = postRewardFundName := by rw [hf.post]; rfl
  unfold Database.getRewardFund Table.find?
  rw [hfunds, List.find?_cons_of_pos (by simpa using hname)]
  rfl

theorem checkedUInt64_eq (n : Int) : Returns (checkedUInt64 n) fun m => m = n :=
  .ensure fun _ => .pure rfl

/-- The weight of a vote is what it adds to the curve. -/
theorem maxVoteWeight_spec {f : RewardFund} (hf : Funded (view s) f) (c : Comment) {rshares : Int}
    (hfits : c.voteRshares + max 0 rshares < 9223372036854775808) :
    Returns (s.maxVoteWeight c rshares) fun m => 0 ≤ m ∧
      approxSqrt c.voteRshares.toNat + m ≤ approxSqrt (c.voteRshares + max 0 rshares).toNat := by
  have hgrows : approxSqrt c.voteRshares.toNat ≤ approxSqrt (c.voteRshares + max 0 rshares).toNat :=
    approxSqrt_mono (by omega)
  have hnone : 0 ≤ (0 : Int) ∧ (approxSqrt c.voteRshares.toNat : Int) + 0 ≤
      approxSqrt (c.voteRshares + max 0 rshares).toNat := ⟨le_rfl, by omega⟩
  have hlt := approxSqrt_lt (x := (c.voteRshares + max 0 rshares).toNat) (by omega)
  have hcurve : f.curationRewardCurve = .squareRoot := by rw [hf.post]; rfl
  unfold Database.maxVoteWeight
  refine .ite (fun hc => ?_) fun _ => .pure hnone
  have hmax : max 0 rshares = rshares := max_eq_right hc.1.le
  refine .bind_eq fun fund hfund => ?_
  cases (getRewardFund_eq hf).symm.trans hfund
  refine .ite (fun _ => ?_) fun _ => .pure hnone
  refine .bind (checkedUInt64_eq _) fun old hold =>
    .bind (checkedUInt64_eq _) fun new hnew => .pure ?_
  rw [hcurve] at hold hnew
  have hold' : old = approxSqrt c.voteRshares.toNat := hold
  have hnew' : new = approxSqrt (c.voteRshares + max 0 rshares).toNat := by
    rw [hmax]
    exact hnew
  have hexact : toUInt64 (new - old) = new - old := by
    unfold toUInt64
    omega
  omega

theorem discountWeight_bounds {weight : Int} (h : 0 ≤ weight) (now created : Nat) :
    0 ≤ Database.discountWeight weight now created ∧
      Database.discountWeight weight now created ≤ weight := by
  unfold Database.discountWeight reverseAuctionWindow
  have hpart : 0 ≤ min (toUInt64 ((now : Int) - created)) 1800 := by
    unfold toUInt64
    omega
  have hwhole : min (toUInt64 ((now : Int) - created)) 1800 ≤ 1800 := min_le_right _ _
  constructor
  · exact Int.ediv_nonneg (Int.mul_nonneg h hpart) (by decide)
  · refine Int.ediv_le_of_le_mul (by decide) ?_
    exact Int.mul_le_mul_of_nonneg_left hwhole h

namespace Claim.Sound

variable {votes : List CommentVote} {a : Claim}

/-- The votes on a comment that has not been paid have changed. -/
theorem voted (h : a.Sound votes) (htime : a.cashoutTime ≠ maximumTime) {net up : Int}
    (hnet : net < 9223372036854775808) (hup : a.voteRshares ≤ up)
    (hfits : up < 9223372036854775808) :
    Claim.Sound votes { a with netRshares := net, voteRshares := up } where
  weight := h.weight
  net := hnet
  paid := fun hmax => absurd hmax htime
  votes := h.votes
  total := by
    have hmono := approxSqrt_mono (show a.voteRshares.toNat ≤ up.toNat by omega)
    have := h.total
    show a.totalVoteWeight ≤ approxSqrt up.toNat
    omega
  up := h.up.trans hup
  fits := hfits
  shared := h.shared

/-- A vote is added, and its weight to the total. -/
theorem weighed (h : a.Sound votes) {m : Int}
    (hm : a.totalVoteWeight + m ≤ approxSqrt a.voteRshares.toNat)
    {v : CommentVote} (hv : v.comment = a.id) (hw : v.weight ≤ m) :
    Claim.Sound (votes ++ [v]) { a with totalVoteWeight := a.totalVoteWeight + m } :=
  { h with
    votes := by
      have := h.votes
      show weightOn (votes ++ [v]) a.id ≤ a.totalVoteWeight + m
      rw [weightOn_append, if_pos hv]
      omega
    total := hm }

end Claim.Sound

/-- The shares of a vote are counted. -/
theorem modifyComment_voted (h : Sound (view s)) {a : Claim} (ha : a ∈ (view s).claims)
    (htime : a.cashoutTime ≠ maximumTime) {up : Int} (hup : 0 ≤ up) (net : Comment → Int)
    {f : Comment → Comment} (hf : ∀ d, claim (f d) =
      { claim d with netRshares := net d, voteRshares := d.voteRshares + up }) :
    Returns (s.modifyComment a.id f) fun t => Sound (view t) ∧ (view t).votes = (view s).votes ∧
      a.voteRshares + up < 9223372036854775808 ∧
      ∃ n, { a with netRshares := n, voteRshares := a.voteRshares + up } ∈ (view t).claims := by
  refine (modifyComment_spec s a.id f).mono fun t ⟨d, ht⟩ => ?_
  have hd : claim d = a := h.eq_of_id ht.mem ha ht.id_eq
  have hr : Replaces (claim d) _ (view s).claims (view t).claims := ht.claims
  rw [hf d, hd] at hr
  have hnet : (claim (f d)).netRshares < 9223372036854775808 := ht.net
  have hfits : (claim (f d)).voteRshares < 9223372036854775808 := ht.up
  have hd' : d.voteRshares = a.voteRshares := congrArg Claim.voteRshares hd
  rw [hf d] at hnet hfits
  rw [hd'] at hr
  have hfits' : a.voteRshares + up < 9223372036854775808 := hd' ▸ hfits
  have hvoted :=
    (h.claims a ha).voted htime hnet (show a.voteRshares ≤ a.voteRshares + up by omega) hfits'
  refine ⟨?_, by rw [ht.view_eq], hfits', net d, hr.mem_new⟩
  rw [ht.view_eq]
  exact h.replace' hr rfl le_rfl hvoted

/-- A vote is recorded, and its weight added to the total. -/
theorem modifyComment_weighed (h : Sound (view s)) {a : Claim} (ha : a ∈ (view s).claims) {m : Int}
    (hpos : 0 ≤ m) (hm : a.totalVoteWeight + m ≤ approxSqrt a.voteRshares.toNat) {v : CommentVote}
    (hv : v.comment = a.id) (hw : 0 ≤ v.weight ∧ v.weight ≤ m) :
    Returns ({ s with commentVotes := s.commentVotes ++ [v] }.modifyComment a.id fun d =>
      { d with totalVoteWeight := toUInt64 (d.totalVoteWeight + m) }) fun t => Sound (view t) := by
  refine (modifyComment_spec _ a.id _).mono fun t ⟨d, ht⟩ => ?_
  have hd : claim d = a := h.eq_of_id ht.mem ha ht.id_eq
  have hsound := h.claims a ha
  have htotal : toUInt64 (d.totalVoteWeight + m) = a.totalVoteWeight + m := by
    have hlt := approxSqrt_lt (x := a.voteRshares.toNat) (by have := hsound.fits; omega)
    have hnonneg := h.total_nonneg ha
    rw [show d.totalVoteWeight = a.totalVoteWeight from congrArg Claim.totalVoteWeight hd]
    unfold toUInt64
    omega
  have hr : Replaces (claim d) { claim d with totalVoteWeight := toUInt64 (d.totalVoteWeight + m) }
      (view s).claims (view t).claims := ht.claims
  rw [htotal, hd] at hr
  have hother : ∀ i, i ≠ a.id → weightOn ((view s).votes ++ [v]) i = weightOn (view s).votes i := by
    intro i hi
    rw [weightOn_append, if_neg (by omega), Int.add_zero]
  have hvotes : ∀ w ∈ (view s).votes ++ [v], 0 ≤ w.weight ∧ w.comment < (view s).nextId := by
    intro w hw'
    rcases List.mem_append.mp hw' with hw' | hw'
    · exact h.votes w hw'
    · rw [List.mem_singleton.mp hw']
      exact ⟨hw.1, hv ▸ h.fresh a ha⟩
  rw [ht.view_eq]
  exact h.replace hr rfl le_rfl (hsound.weighed hm hv hw.2) hother hvotes

/-- A vote is made. -/
theorem castVote_sound (h : Sound (view s)) (hc : c ∈ s.comments.rows)
    (htime : c.cashoutTime ≠ maximumTime) (o : VoteOperation) (power : VotePower) :
    Returns (s.castVote c o power) fun t => Sound (view t) := by
  unfold Database.castVote
  refine .ensure fun _ => .ensure fun _ => .bind (modifyAccount_view s _ _) fun s1 h1 =>
    .ensure fun _ => ?_
  generalize (if o.weight < 0 then -power.absRshares else power.absRshares) = rshares
  have hmem : claim c ∈ (view s1).claims := h1 ▸ List.mem_map_of_mem hc
  rw [← h1] at h
  have hgrows : ∀ d : Comment, (if 0 < rshares then d.voteRshares + rshares else d.voteRshares) =
      d.voteRshares + max 0 rshares := by
    intro d
    split <;> omega
  refine .bind (modifyComment_voted h hmem htime (le_max_left 0 rshares)
    (fun d => d.netRshares + rshares) fun d => ?_) fun s2 ⟨h2, _, hfits, n, ha⟩ => ?_
  · rw [← hgrows d]
    rfl
  refine .bind (modifyComment_keeps s2 _ fun _ => rfl) fun s3 h3 => ?_
  rw [← h3] at h2 ha
  obtain ⟨f, hf⟩ := h2.fund
  refine .bind (maxVoteWeight_spec hf c hfits) fun m ⟨hm, hcurve⟩ => ?_
  have htotal : c.totalVoteWeight ≤ approxSqrt c.voteRshares.toNat :=
    (h.claims (claim c) hmem).total
  refine modifyComment_weighed h2 ha hm ?_ rfl (discountWeight_bounds hm _ _)
  show c.totalVoteWeight + m ≤ approxSqrt (c.voteRshares + max 0 rshares).toNat
  omega

/-- The weight of a vote leaves the total, and the vote loses its weight. -/
theorem modifyComment_unweighed (h : Sound (view s)) {a : Claim} (ha : a ∈ (view s).claims)
    {p : CommentVote → Bool} {v : CommentVote} (hfind : s.commentVotes.find? p = some v)
    (hv : v.comment = a.id) {g : CommentVote → CommentVote}
    (hg : ∀ w, (g w).comment = w.comment ∧ (g w).weight = 0) :
    Returns (s.modifyComment a.id fun d =>
      { d with totalVoteWeight := toUInt64 (d.totalVoteWeight - v.weight) }) fun t =>
      Sound (view { t with commentVotes := modifyFirst p g t.commentVotes }) := by
  refine (modifyComment_spec _ a.id _).mono fun t ⟨d, ht⟩ => ?_
  have hd : claim d = a := h.eq_of_id ht.mem ha ht.id_eq
  have hsound := h.claims a ha
  have hmem : v ∈ (view s).votes := List.mem_of_find?_eq_some hfind
  have hnonneg := (h.votes v hmem).1
  have hle : v.weight ≤ weightOn (view s).votes a.id :=
    hv ▸ weight_le_weightOn (fun w hw => (h.votes w hw).1) hmem
  have hvotes := hsound.votes
  have htotal : toUInt64 (d.totalVoteWeight - v.weight) = a.totalVoteWeight - v.weight := by
    have hlt := h.total_lt ha
    rw [show d.totalVoteWeight = a.totalVoteWeight from congrArg Claim.totalVoteWeight hd]
    unfold toUInt64
    omega
  have hr :
    Replaces (claim d) { claim d with totalVoteWeight := toUInt64 (d.totalVoteWeight - v.weight) }
      (view s).claims (view t).claims := ht.claims
  rw [htotal, hd] at hr
  have hreplaced : Replaces v (g v) (view s).votes (modifyFirst p g (view s).votes) :=
    replaces_modifyFirst hfind g
  have hweights := weightOn_replaces hreplaced (hg v).1
  have hother : ∀ i, i ≠ a.id →
      weightOn (modifyFirst p g (view s).votes) i = weightOn (view s).votes i := by
    intro i hi
    rw [hweights, if_neg (by omega), Int.add_zero]
  have hclaim : Claim.Sound (modifyFirst p g (view s).votes)
      { a with totalVoteWeight := a.totalVoteWeight - v.weight } :=
    { hsound with
      votes := by
        show weightOn (modifyFirst p g (view s).votes) a.id ≤ a.totalVoteWeight - v.weight
        rw [hweights, if_pos hv, (hg v).2]
        omega
      total := by
        have := hsound.total
        show a.totalVoteWeight - v.weight ≤ approxSqrt a.voteRshares.toNat
        omega }
  have hrest : view { t with commentVotes := modifyFirst p g t.commentVotes } =
      { view s with claims := (view t).claims, votes := modifyFirst p g (view s).votes } := by
    have hsame : t.commentVotes = s.commentVotes := by rw [ht.rest]
    rw [hsame]
    ext1
    case claims => rfl
    case votes => rfl
    all_goals rw [ht.rest]; rfl
  rw [hrest]
  refine h.replace hr rfl le_rfl hclaim hother fun w hw => ?_
  rcases hreplaced.symm.mem_of_mem hw with rfl | hw
  · exact ⟨(hg v).2.ge, (hg v).1 ▸ (h.votes v hmem).2⟩
  · exact h.votes w hw

/-- A vote is changed. -/
theorem changeVote_sound (h : Sound (view s)) (hc : c ∈ s.comments.rows)
    (htime : c.cashoutTime ≠ maximumTime) (o : VoteOperation) {v : CommentVote}
    (hv : (s.commentVotes.find? fun v => v.comment = c.id && v.voter = o.voter) = some v)
    (power : VotePower) : Returns (s.changeVote c v o power) fun t => Sound (view t) := by
  have hcomment : v.comment = c.id := by
    have := List.find?_some hv
    simp only [Bool.and_eq_true, decide_eq_true_eq] at this
    exact this.1
  unfold Database.changeVote
  refine .ensure fun _ => .ensure fun _ => .ensure fun _ =>
    .bind (modifyAccount_view s _ _) fun s1 h1 => ?_
  generalize (if o.weight < 0 then -power.absRshares else power.absRshares) = rshares
  have hmem : claim c ∈ (view s1).claims := h1 ▸ List.mem_map_of_mem hc
  rw [← h1] at h
  refine .bind (modifyComment_voted h hmem htime le_rfl
    (fun d => d.netRshares - v.rshares + rshares) fun d => ?_) fun s2 ⟨h2, hvotes, _, n, ha⟩ => ?_
  · rw [Int.add_zero]
    rfl
  refine .bind (modifyComment_keeps s2 _ fun _ => rfl) fun s3 h3 => ?_
  rw [← h3] at h2 ha
  have hsame : s3.commentVotes = s.commentVotes :=
    (congrArg View.votes h3).trans (hvotes.trans (congrArg View.votes h1))
  refine .bind (modifyComment_unweighed h2 ha (hsame ▸ hv) hcomment
    (g := fun w => { w with
      rshares := rshares
      votePercent := o.weight
      lastUpdate := s.headBlockTime
      weight := 0
      numChanges := w.numChanges + 1 }) fun _ => ⟨rfl, rfl⟩) fun t ht => .pure ht

theorem vote_sound (h : Sound (view s)) (o : VoteOperation) :
    Returns (s.vote o) fun t => Sound (view t) := by
  unfold Database.vote
  refine .bind_eq fun c hc => .bind_any fun voter => .ensure fun _ => .ensure fun _ => ?_
  have hmem := (getComment_mem hc).1
  refine .ite (fun _ => .pure h) fun htime => .bind_any fun power => ?_
  split
  next => exact castVote_sound h hmem htime o power
  next v hv => exact .ensure fun _ => changeVote_sound h hmem htime o hv power

end Gamebank.Rewards
