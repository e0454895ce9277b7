import Gamebank.Rewards.Solvency
import Mathlib.Logic.Relation

/-!
# What votes can do

`Forum` is what votes are about: where the comments stand, the votes, and the power
that is left to vote. `Turn` lists what can become of it, with the arithmetic of the
evaluators; every event of a run makes a sequence of turns (`performVotes_turns`). So
what holds of a comment and the votes on it in all states is shown for one turn at a
time (`Kept`), and only for the comment the turn is about (`Polled`).
-/

namespace Gamebank.Rewards

open Gamebank.Lib Gamebank.Protocol Gamebank.Ledger
open Gamebank.Ledger.Database (modifyAccount_spec modifyProps_spec getAccount_eq_ok require_eq_ok
  Edited OnlyVotes)
open Gamebank.Discussion (getComment_mem comment_frame deleteComment_removed)
open Relation (ReflTransGen)

variable {s t : Database} {c : Comment} {name : AccountName}

/-! ## The forum -/

/-- What the votes on a comment have made of it. -/
@[ext]
structure Standing where
  id : Nat
  created : Nat
  cashoutTime : Nat
  netRshares : Int
  netVotes : Int
  voteRshares : Int
  totalVoteWeight : Int
deriving DecidableEq

def standing (c : Comment) : Standing :=
  ⟨c.id, c.created, c.cashoutTime, c.netRshares, c.netVotes, c.voteRshares, c.totalVoteWeight⟩

/-- The curve that weighs votes and its constant. -/
def terms (f : RewardFund) : CurveId × Int := (f.curationRewardCurve, f.contentConstant)

@[ext]
structure Forum where
  now : Nat
  next : Nat
  rows : List Standing
  votes : List CommentVote
  powers : List Int
  terms : List (CurveId × Int)

def forum (s : Database) : Forum where
  now := s.headBlockTime
  next := s.comments.nextId
  rows := s.comments.rows.map standing
  votes := s.commentVotes
  powers := s.accounts.rows.map Account.votingPower
  terms := s.rewardFunds.rows.map terms

/-- The votes on a comment. -/
def votesOn (votes : List CommentVote) (id : Nat) : List CommentVote :=
  votes.filter fun v => v.comment = id

namespace Standing

def made (id now cashoutTime : Nat) : Standing := ⟨id, now, cashoutTime, 0, 0, 0, 0⟩

def paid (c : Standing) : Standing :=
  { c with
    cashoutTime := maximumTime
    netRshares := if 0 < c.netRshares then 0 else c.netRshares
    voteRshares := 0
    totalVoteWeight := 0 }

end Standing

/-- `c'` is the comment `c` after the first vote `v` of a voter on it. The weight of
the vote for the total is `whole`. -/
structure Casts (terms : List (CurveId × Int)) (now : Nat) (c c' : Standing) (v : CommentVote)
    (whole : Int) : Prop where
  comment : v.comment = c.id
  ne : v.rshares ≠ 0
  grows : whole = 0 ∨ 0 < v.rshares ∧ ∃ t ∈ terms, whole = toUInt64
    (evaluateRewardCurve (c.voteRshares + v.rshares) t.1 t.2 -
      evaluateRewardCurve c.voteRshares t.1 t.2)
  weight : v.weight = Database.discountWeight whole now c.created
  after : c' = { c with
    netRshares := c.netRshares + v.rshares
    netVotes := if 0 < v.rshares then c.netVotes + 1 else c.netVotes - 1
    voteRshares := if 0 < v.rshares then c.voteRshares + v.rshares else c.voteRshares
    totalVoteWeight := toUInt64 (c.totalVoteWeight + whole) }
  fits : c'.voteRshares < 9223372036854775808

/-- `c'` is the comment `c` after the vote `v` on it has become `v'`. -/
structure Changes (c c' : Standing) (v v' : CommentVote) : Prop where
  comment : v.comment = c.id
  same : v'.comment = v.comment
  weight : v'.weight = 0
  after : c' = { c with
    netRshares := c.netRshares - v.rshares + v'.rshares
    netVotes := c.netVotes + votesMoved v.rshares v'.rshares
    totalVoteWeight := toUInt64 (c.totalVoteWeight - v.weight) }

/-- What can become of a forum. -/
inductive Turn : Forum → Forum → Prop
  | rest {f : Forum} {now : Nat} {powers : List Int} (hnow : f.now ≤ now)
      (hrange : now = f.now ∨ now < uint32Range)
      (hpowers : ∀ x ∈ powers, x ∈ f.powers ∨ 0 ≤ x ∧ x ≤ hundredPercent) :
      Turn f { f with now := now, powers := powers }
  | made (f : Forum) (cashoutTime : Nat) :
      Turn f { f with
        next := f.next + 1, rows := f.rows ++ [Standing.made f.next f.now cashoutTime] }
  | removed (f : Forum) (id : Nat) :
      Turn f { f with
        rows := f.rows.eraseP fun c => c.id = id, votes := f.votes.filter fun v => v.comment ≠ id }
  | cast {f : Forum} {c c' : Standing} {rows : List Standing} {v : CommentVote} {whole : Int}
      (hc : Casts f.terms f.now c c' v whole) (hrows : Replaces c c' f.rows rows) :
      Turn f { f with rows := rows, votes := f.votes ++ [v] }
  | changed {f : Forum} {c c' : Standing} {rows : List Standing} {v v' : CommentVote}
      {votes : List CommentVote} (hc : Changes c c' v v') (hrows : Replaces c c' f.rows rows)
      (hvotes : Replaces v v' f.votes votes) : Turn f { f with rows := rows, votes := votes }
  | paid {f : Forum} {c : Standing} {rows : List Standing} (hrows : Replaces c c.paid f.rows rows) :
      Turn f { f with rows := rows, votes := f.votes.filter fun v => v.comment ≠ c.id }

/-! ## What holds of every comment -/

section

variable {votes votes' : List CommentVote} {id i : Nat} {v v' : CommentVote}

theorem votesOn_append_self (hv : v.comment = i) :
    votesOn (votes ++ [v]) i = votesOn votes i ++ [v] := by
  simp [votesOn, hv]

theorem votesOn_append_of_ne (hv : v.comment ≠ i) : votesOn (votes ++ [v]) i = votesOn votes i := by
  simp [votesOn, hv]

theorem votesOn_filter_self : votesOn (votes.filter fun v => v.comment ≠ id) id = [] := by
  simp [votesOn]

theorem votesOn_filter_of_ne (hi : i ≠ id) :
    votesOn (votes.filter fun v => v.comment ≠ id) i = votesOn votes i := by
  unfold votesOn
  rw [List.filter_filter]
  refine List.filter_congr fun v _ => ?_
  by_cases hv : v.comment = i
  · simp [hv, hi]
  · simp [hv]

theorem votesOn_replaces_self (h : Replaces v v' votes votes') (hsame : v'.comment = v.comment) :
    Replaces v v' (votesOn votes v.comment) (votesOn votes' v.comment) := by
  obtain ⟨before, after, rfl, rfl⟩ := h
  refine ⟨votesOn before v.comment, votesOn after v.comment, ?_, ?_⟩
  · simp [votesOn]
  · simp [votesOn, hsame]

theorem votesOn_replaces_of_ne (h : Replaces v v' votes votes') (hsame : v'.comment = v.comment)
    (hi : v.comment ≠ i) : votesOn votes' i = votesOn votes i := by
  obtain ⟨before, after, rfl, rfl⟩ := h
  simp [votesOn, hsame, hi]

theorem votesOn_eq_nil (h : ∀ v ∈ votes, v.comment < id) : votesOn votes id = [] := by
  refine List.filter_eq_nil_iff.mpr fun v hv => ?_
  have := h v hv
  simp only [decide_eq_true_eq]
  omega

end

/-- `P` holds of every comment and the votes on it. -/
structure Polled (P : Nat → List CommentVote → Standing → Prop) (f : Forum) : Prop where
  ids : (f.rows.map Standing.id).Nodup
  fresh : ∀ c ∈ f.rows, c.id < f.next
  votes : ∀ v ∈ f.votes, v.comment < f.next
  holds : ∀ c ∈ f.rows, P f.now (votesOn f.votes c.id) c

/-- The turns that a comment takes part in keep `P`. -/
structure Kept (terms : List (CurveId × Int)) (P : Nat → List CommentVote → Standing → Prop) :
    Prop where
  later : ∀ {now now' votes c}, now ≤ now' → P now votes c → P now' votes c
  made : ∀ id now cashoutTime, P now [] (.made id now cashoutTime)
  cast : ∀ {now votes c c' v whole}, Casts terms now c c' v whole → P now votes c →
    P now (votes ++ [v]) c'
  changed : ∀ {now votes votes' c c' v v'}, Changes c c' v v' → Replaces v v' votes votes' →
    P now votes c → P now votes' c'
  paid : ∀ {now votes c}, P now votes c → P now [] c.paid

namespace Polled

variable {P : Nat → List CommentVote → Standing → Prop} {f g : Forum} {c c' : Standing}

/-- A comment has another standing; the votes change on it only. -/
theorem replace (h : Polled P f) {rows : List Standing} {votes : List CommentVote}
    (hrows : Replaces c c' f.rows rows) (hid : c'.id = c.id) (hc' : P f.now (votesOn votes c.id) c')
    (hother : ∀ i, i ≠ c.id → votesOn votes i = votesOn f.votes i)
    (hvotes : ∀ v ∈ votes, v.comment < f.next) :
    Polled P { f with rows := rows, votes := votes } where
  ids := by
    rw [show rows.map Standing.id = f.rows.map Standing.id from hrows.map_eq hid]
    exact h.ids
  fresh := by
    intro d hd
    rcases hrows.mem_or h.ids hd with rfl | ⟨hd, -⟩
    · exact hid ▸ h.fresh c hrows.mem_old
    · exact h.fresh d hd
  votes := hvotes
  holds := by
    intro d hd
    rcases hrows.mem_or h.ids hd with rfl | ⟨hd, hne⟩
    · exact hid ▸ hc'
    · show P f.now (votesOn votes d.id) d
      rw [hother d.id hne]
      exact h.holds d hd

/-- The step lemma. -/
theorem turn (hP : Kept f.terms P) (h : Polled P f) (hturn : Turn f g) : Polled P g := by
  cases hturn with
  | rest hnow => exact { h with holds := fun c hc => hP.later hnow (h.holds c hc) }
  | made cashoutTime =>
      constructor
      case ids =>
        exact nodup_map_append_single h.ids fun c hc => (h.fresh c hc).ne
      case fresh =>
        intro c hc
        rcases List.mem_append.mp hc with hc | hc
        · exact (h.fresh c hc).trans (Nat.lt_succ_self _)
        · rw [List.mem_singleton.mp hc]
          exact Nat.lt_succ_self _
      case votes => exact fun v hv => (h.votes v hv).trans (Nat.lt_succ_self _)
      case holds =>
        intro c hc
        rcases List.mem_append.mp hc with hc | hc
        · exact h.holds c hc
        · rw [List.mem_singleton.mp hc]
          show P f.now (votesOn f.votes f.next) _
          -- no vote has the next id yet
          rw [votesOn_eq_nil h.votes]
          exact hP.made _ _ _
  | removed id =>
      constructor
      case ids => exact h.ids.sublist (List.eraseP_sublist.map Standing.id)
      case fresh => exact fun c hc => h.fresh c (List.mem_of_mem_eraseP hc)
      case votes => exact fun v hv => h.votes v (List.mem_of_mem_filter hv)
      case holds =>
        intro c hc
        have hmem : c.id ∈ (f.rows.map Standing.id).erase id := by
          rw [List.erase_eq_eraseP', List.eraseP_map]
          exact List.mem_map_of_mem hc
        -- the comment that goes is the only one with its id
        have hne : c.id ≠ id := (h.ids.mem_erase_iff.mp hmem).1
        show P f.now (votesOn _ c.id) c
        rw [votesOn_filter_of_ne hne]
        exact h.holds c (List.mem_of_mem_eraseP hc)
  | @cast c c' rows v whole hc hrows =>
      refine h.replace hrows (by rw [hc.after]) ?_ (fun i hi => ?_) fun w hw => ?_
      · rw [votesOn_append_self hc.comment]
        exact hP.cast hc (h.holds c hrows.mem_old)
      · exact votesOn_append_of_ne (hc.comment ▸ hi.symm)
      · rcases List.mem_append.mp hw with hw | hw
        · exact h.votes w hw
        · rw [List.mem_singleton.mp hw, hc.comment]
          exact h.fresh c hrows.mem_old
  | @changed c c' rows v v' votes hc hrows hvotes =>
      refine h.replace hrows (by rw [hc.after]) ?_ (fun i hi => ?_) fun w hw => ?_
      · have hreplaces := votesOn_replaces_self hvotes hc.same
        rw [hc.comment] at hreplaces
        exact hP.changed hc hreplaces (h.holds c hrows.mem_old)
      · exact votesOn_replaces_of_ne hvotes hc.same (hc.comment ▸ hi.symm)
      · rcases hvotes.symm.mem_of_mem hw with rfl | hw
        · exact hc.same ▸ h.votes v hvotes.mem_old
        · exact h.votes w hw
  | @paid c rows hrows =>
      refine h.replace hrows rfl ?_ (fun i hi => votesOn_filter_of_ne hi)
        fun w hw => h.votes w (List.mem_of_mem_filter hw)
      rw [votesOn_filter_self]
      exact hP.paid (h.holds c hrows.mem_old)

end Polled

theorem Turn.terms_eq {f g : Forum} (h : Turn f g) : g.terms = f.terms := by
  cases h <;> rfl

/-- The run lemma. -/
theorem Polled.turns {P : Nat → List CommentVote → Standing → Prop} {f g : Forum}
    (hP : Kept f.terms P) (h : Polled P f) (hturns : ReflTransGen Turn f g) :
    Polled P g ∧ g.terms = f.terms := by
  induction hturns with
  | refl => exact ⟨h, rfl⟩
  | tail _ hturn ih => exact ⟨ih.1.turn (ih.2 ▸ hP) hturn, hturn.terms_eq.trans ih.2⟩

/-- The time stays one of 32 bits. -/
theorem now_of_turns {f g : Forum} (h : f.now < uint32Range) (hturns : ReflTransGen Turn f g) :
    g.now < uint32Range := by
  induction hturns with
  | refl => exact h
  | tail _ hturn ih =>
      cases hturn with
      | rest hnow hrange => exact hrange.elim (fun hsame => hsame ▸ ih) id
      | made => exact ih
      | removed => exact ih
      | cast => exact ih
      | changed => exact ih
      | paid => exact ih

/-- Voting power stays what it can be. -/
theorem powers_of_turns {f g : Forum} (h : ∀ x ∈ f.powers, 0 ≤ x ∧ x ≤ hundredPercent)
    (hturns : ReflTransGen Turn f g) : ∀ x ∈ g.powers, 0 ≤ x ∧ x ≤ hundredPercent := by
  induction hturns with
  | refl => exact h
  | tail _ hturn ih =>
      cases hturn with
      | rest hnow hrange hpowers => exact fun x hx => (hpowers x hx).elim (ih x) id
      | made => exact ih
      | removed => exact ih
      | cast => exact ih
      | changed => exact ih
      | paid => exact ih

end Gamebank.Rewards
