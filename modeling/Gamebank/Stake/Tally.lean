import Gamebank.Stake.Books

/-!
# The tally of the witness votes

In every state that a run reaches, the proxies form a forest, the proxied
votes of an account are the vesting shares below it by depth, and the votes
of a witness are what the accounts that vote for it weigh. Each operation and
routine keeps the books: it starts with a page on which nothing is off and
ends with one.
-/

namespace Gamebank.Ledger

open Gamebank.Lib Gamebank.Protocol Finset

namespace Database

variable {s t : Database} {b : Page} {name : AccountName} {a a' : Account}

/-! ## Proxies and votes set -/

/-- A changed proxy moves the levels, not the sums. -/
theorem Books.setProxy (h : Books b s) (he : Edited s t name a a') (hname : a'.name = a.name)
    (hvoted : a'.witnessesVotedFor = a.witnessesVotedFor)
    (hshares : a'.vestingShares = a.vestingShares)
    (hvotes : a'.proxiedVsfVotes = a.proxiedVsfVotes)
    (hrate : a'.vestingWithdrawRate = a.vestingWithdrawRate)
    (hwithdraw : a'.toWithdraw = a.toWithdraw)
    {v : Option AccountName}
    (hv : (if a'.proxy = proxyToSelfAccount then none else some a'.proxy) = v)
    (hacyclic : Acyclic (Function.update b.up name v))
    (hset : ∀ q, v = some q → q ∈ s.accounts.rows.map Account.name ∧ name ≠ nullAccount ∧
      ∀ x ∈ b.ballots, x.account ≠ name) :
    Books
      { b with
        up := Function.update b.up name v
        gap := fun p i => b.gap p i + (b.level (i + 1) p -
          Page.level { b with up := Function.update b.up name v } (i + 1) p) } t := by
  have hrest := he.rest
  have hrows := he.replaces
  have hn := he.name_eq
  have hnames : t.accounts.rows.map Account.name = s.accounts.rows.map Account.name :=
    hrows.map_eq hname
  have hwitnesses : t.witnesses = s.witnesses := by rw [hrest]
  have hweight : a'.witnessVoteWeight = a.witnessVoteWeight := by
    rw [Account.witnessVoteWeight, hshares, hvotes, Account.witnessVoteWeight]
  have hbounded := h.bounded a he.mem
  -- who is not `name` has the proxy it had
  have hother : ∀ n q, Function.update b.up name v n = some q → n ≠ name ∧ b.up n = some q ∨
      n = name ∧ v = some q := by
    intro n q hnq
    by_cases hne : n = name
    · subst hne
      rw [Function.update_self] at hnq
      exact Or.inr ⟨rfl, hnq⟩
    · rw [Function.update_of_ne hne] at hnq
      exact Or.inl ⟨hne, hnq⟩
  exact
    { ballots := by rw [hrest]; exact h.ballots
      up := by
        funext n
        show proxyOf t.accounts.rows n = Function.update b.up name v n
        rw [proxyOf, hrows.find?_key hname h.names]
        by_cases hne : n = name
        · subst hne
          rw [if_pos hn.symm, Function.update_self]
          exact hv
        · rw [if_neg (hn ▸ hne), Function.update_of_ne hne, ← h.up]
          rfl
      stakes := by
        rw [← h.stakes]
        exact hrows.map_eq (by rw [hname, hshares])
      names := by rw [hnames]; exact h.names
      owners := by rw [hwitnesses]; exact h.owners
      acyclic := hacyclic
      proxyExists := by
        intro n q hnq
        rw [hnames]
        rcases hother n q hnq with ⟨-, hq⟩ | ⟨-, hq⟩
        · exact h.proxyExists n q hq
        · exact (hset q hq).1
      nullRoot := by
        show Function.update b.up name v nullAccount = none
        cases hnull : Function.update b.up name v nullAccount with
        | none => rfl
        | some q =>
            rcases hother _ q hnull with ⟨-, hq⟩ | ⟨hn, hq⟩
            · rw [h.nullRoot] at hq
              cases hq
            · exact absurd hn.symm (hset q hq).2.1
      nodup := h.nodup
      voterExists := by rw [hnames]; exact h.voterExists
      voterRoot := by
        intro x hx
        show Function.update b.up name v x.account = none
        cases hroot : Function.update b.up name v x.account with
        | none => rfl
        | some q =>
            rcases hother _ q hroot with ⟨-, hq⟩ | ⟨hn, hq⟩
            · rw [h.voterRoot x hx] at hq
              cases hq
            · exact absurd hn ((hset q hq).2.2 x hx)
      voterNull := h.voterNull
      candidate := by rw [hwitnesses]; exact h.candidate
      percents := by rw [hrest]; exact h.percents
      bounded := by
        intro c hc
        rcases hrows.mem_or h.names hc with rfl | ⟨hc, -⟩
        · exact ⟨hshares ▸ hbounded.1, hrate ▸ hbounded.2, hwithdraw ▸ hbounded.3,
            hshares ▸ hbounded.4⟩
        · exact h.bounded c hc
      counted := by
        intro c hc
        rcases hrows.mem_or h.names hc with rfl | ⟨hc, -⟩
        · rw [hvoted, hname]
          exact h.counted a he.mem
        · exact h.counted c hc
      proxied := by
        intro c hc i
        show _ = Page.level { b with up := Function.update b.up name v } _ _ + _
        dsimp only
        rcases hrows.mem_or h.names hc with rfl | ⟨hc, -⟩
        · rw [hvotes, hname, h.proxied a he.mem i]
          ring
        · rw [h.proxied c hc i]
          ring
      votes := by
        intro w hw
        rw [hwitnesses] at hw
        rw [hrows.sumOf_eq, hname, hweight, h.votes w hw]
        ring }

/-- Other votes: the sums are off by what the votes that come or go weigh. -/
theorem Books.setBallots (h : Books b s) (ballots : List WitnessVote) (hnodup : ballots.Nodup)
    (hok : ∀ v ∈ ballots, v ∈ b.ballots ∨
      v.account ∈ s.accounts.rows.map Account.name ∧ b.up v.account = none ∧
        v.account ≠ nullAccount ∧ v.witness ∈ s.witnesses.rows.map Witness.owner) :
    Books
      { b with
        ballots := ballots
        off := fun w => b.off w + sumOf (fun a =>
          (ballot b.ballots w a.name - ballot ballots w a.name) * a.witnessVoteWeight)
            s.accounts.rows }
      { s with witnessVotes := ballots } where
  ballots := rfl
  up := h.up
  stakes := h.stakes
  names := h.names
  owners := h.owners
  acyclic := h.acyclic
  proxyExists := h.proxyExists
  nullRoot := h.nullRoot
  nodup := hnodup
  voterExists := fun v hv => (hok v hv).elim (h.voterExists v) fun h => h.1
  voterRoot := fun v hv => (hok v hv).elim (h.voterRoot v) fun h => h.2.1
  voterNull := fun v hv => (hok v hv).elim (h.voterNull v) fun h => h.2.2.1
  candidate := fun v hv => (hok v hv).elim (h.candidate v) fun h => h.2.2.2
  percents := h.percents
  bounded := h.bounded
  counted := h.counted
  proxied := h.proxied
  votes := by
    intro w hw
    dsimp only
    rw [h.votes w hw, add_comm (b.off w.owner), ← add_assoc, ← sumOf_add]
    congr 1
    apply sumOf_congr
    intro c _
    ring

/-- Votes of one account come or go. -/
theorem Books.setBallotsOf (h : Books b s) (ha : a ∈ s.accounts.rows) (ballots : List WitnessVote)
    (hnodup : ballots.Nodup)
    (hok : ∀ v ∈ ballots, v ∈ b.ballots ∨
      v.account ∈ s.accounts.rows.map Account.name ∧ b.up v.account = none ∧
        v.account ≠ nullAccount ∧ v.witness ∈ s.witnesses.rows.map Witness.owner)
    (hother : ∀ w n, n ≠ a.name → ballot ballots w n = ballot b.ballots w n) :
    Books
      { b with
        ballots := ballots
        off := fun w => b.off w +
          (ballot b.ballots w a.name - ballot ballots w a.name) * a.witnessVoteWeight }
      { s with witnessVotes := ballots } := by
  refine (h.setBallots ballots hnodup hok).congr (fun _ _ _ => rfl) fun w => ?_
  dsimp only
  rw [sumOf_eq_single h.names ha]
  intro c _ hne
  rw [hother w c.name hne, sub_self, zero_mul]

theorem Books.addBallot (h : Books b s) (ha : a ∈ s.accounts.rows) (hname : a.name = name)
    {w : AccountName} (hnew : (⟨w, name⟩ : WitnessVote) ∉ b.ballots) (hroot : b.up name = none)
    (hnull : name ≠ nullAccount) (hw : w ∈ s.witnesses.rows.map Witness.owner) :
    Books
      { b with
        ballots := b.ballots ++ [⟨w, name⟩]
        off := fun o => b.off o - if o = w then a.witnessVoteWeight else 0 }
      { s with witnessVotes := b.ballots ++ [⟨w, name⟩] } := by
  subst hname
  have hnodup : (b.ballots ++ [(⟨w, a.name⟩ : WitnessVote)]).Nodup :=
    nodup_append_single h.nodup hnew
  refine (h.setBallotsOf ha _ hnodup (fun v hv => ?_) fun o n hn => ?_).congr (fun _ _ _ => rfl)
    fun o => ?_
  · rcases List.mem_append.mp hv with hv | hv
    · exact Or.inl hv
    · obtain rfl := List.mem_singleton.mp hv
      exact Or.inr ⟨List.mem_map_of_mem ha, hroot, hnull, hw⟩
  · simp [ballot, hn]
  · by_cases ho : o = w
    · subst ho
      simp [ballot, hnew]
      ring
    · simp [ballot, ho]

theorem Books.removeBallot (h : Books b s) (ha : a ∈ s.accounts.rows) (hname : a.name = name)
    {w : AccountName} (hold : (⟨w, name⟩ : WitnessVote) ∈ b.ballots) :
    Books
      { b with
        ballots := b.ballots.filter fun v => v ≠ ⟨w, name⟩
        off := fun o => b.off o + if o = w then a.witnessVoteWeight else 0 }
      { s with witnessVotes := b.ballots.filter fun v => v ≠ ⟨w, name⟩ } := by
  subst hname
  refine (h.setBallotsOf ha _ (h.nodup.filter _) (fun v hv => Or.inl (List.mem_filter.mp hv).1)
    fun o n hn => ?_).congr (fun _ _ _ => rfl) fun o => ?_
  · simp [ballot, hn]
  · by_cases ho : o = w
    · subst ho
      simp [ballot, hold]
    · simp [ballot, ho]

/-- The votes of one account are dropped. -/
theorem Books.clearWitnessVotes (h : Books b s) (name : AccountName) :
    Returns (s.clearWitnessVotes name) fun t => ∃ a, s.getAccount name = .ok a ∧
      Books
        { b with
          ballots := b.ballots.filter fun v => v.account ≠ name
          counted := Function.update b.counted name 0
          off := fun w => b.off w + ballot b.ballots w name * a.witnessVoteWeight } t := by
  unfold Database.clearWitnessVotes
  refine (modifyAccount_spec _ name _).mono fun t ⟨a, he⟩ => ⟨a, he.found, ?_⟩
  have hmem : a ∈ s.accounts.rows := he.mem
  obtain rfl : a.name = name := he.name_eq
  rw [h.ballots] at he
  have hdrop := h.setBallotsOf hmem (b.ballots.filter fun v => v.account ≠ a.name)
    (h.nodup.filter _) (fun v hv => Or.inl (List.mem_filter.mp hv).1) fun w n hn => by
      simp [ballot, hn]
  have hold := h.bounded a hmem
  refine (hdrop.editCounted he rfl rfl rfl rfl hold.rate hold.toWithdraw).congr
    (fun _ _ _ => rfl) fun w => ?_
  simp [ballot]

/-! ## A page on which nothing is off -/

/-- The page that a state should keep. -/
def page (s : Database) : Page where
  up := proxyOf s.accounts.rows
  ballots := s.witnessVotes
  counted := countBallots s.witnessVotes
  stakes := s.stakes
  gap := fun _ _ => 0
  off := fun _ => 0

/-- Every sum is right. -/
def Tallied (s : Database) : Prop := Books s.page s

theorem Books.tallied (h : Books b s) (hcounted : b.counted = countBallots b.ballots)
    (hgap : ∀ p, ∀ i < 4, b.gap p i = 0) (hoff : ∀ w, b.off w = 0) : Tallied s := by
  have hpage : s.page = { b with gap := fun _ _ => 0, off := fun _ => 0 } := by
    rw [page, h.up, h.ballots, h.stakes, hcounted]
  rw [Tallied, hpage]
  exact h.congr hgap hoff

/-- Only names, proxies, shares, votes and routes matter. -/
theorem Tallied.of_same (h : Tallied s)
    (haccounts : t.accounts.rows.map Account.stake = s.accounts.rows.map Account.stake)
    (hwitnesses : t.witnesses.rows.map (fun w => (w.owner, w.votes)) =
      s.witnesses.rows.map fun w => (w.owner, w.votes))
    (hvotes : t.witnessVotes = s.witnessVotes)
    (hroutes : t.withdrawVestingRoutes = s.withdrawVestingRoutes) : Tallied t :=
  (Books.same h haccounts hwitnesses hvotes hroutes).tallied rfl (fun _ _ _ => rfl) fun _ => rfl

theorem Tallied.sameStake (h : Tallied s) (hs : SameStake s t) : Tallied t :=
  h.of_same hs.accounts (map_eq_of_map_eq hs.witnesses fun _ => rfl) hs.witnessVotes
    hs.withdrawVestingRoutes

theorem Books.names_eq (h : Books b s) :
    s.accounts.rows.map Account.name = b.stakes.map Prod.fst := by
  rw [← h.stakes, Database.stakes, List.map_map]
  rfl

theorem Books.mem_stakes (h : Books b s) (ha : a ∈ s.accounts.rows) :
    b.level 0 a.name = a.vestingShares := by
  have hmem : (a.name, a.vestingShares) ∈ b.stakes := by
    rw [← h.stakes]
    exact List.mem_map_of_mem ha
  have hnodup : (b.stakes.map Prod.fst).Nodup := by
    rw [← h.names_eq]
    exact h.names
  exact level_zero_of_nodup hnodup hmem

/-- What an account weighs, by depth. -/
theorem Books.weight_eq (h : Books b s) (ha : a ∈ s.accounts.rows)
    (hgap : ∀ i < 4, b.gap a.name i = 0) :
    a.witnessVoteWeight = b.level 0 a.name + (b.level 1 a.name + b.level 2 a.name
      + b.level 3 a.name + b.level 4 a.name) := by
  have hp : ∀ i : Fin 4, a.proxiedVsfVotes.get i = b.level (i.val + 1) a.name := by
    intro i
    rw [h.proxied a ha i, hgap i.val i.isLt, add_zero]
  have h0 : a.proxiedVsfVotes[0] = b.level 1 a.name := hp 0
  have h1 : a.proxiedVsfVotes[1] = b.level 2 a.name := hp 1
  have h2 : a.proxiedVsfVotes[2] = b.level 3 a.name := hp 2
  have h3 : a.proxiedVsfVotes[3] = b.level 4 a.name := hp 3
  rw [Account.witnessVoteWeight, h0, h1, h2, h3, h.mem_stakes ha]

theorem Books.stakeByDepth_eq (h : Books b s) (ha : a ∈ s.accounts.rows)
    (hgap : ∀ i < 4, b.gap a.name i = 0) {j : Nat} (hj : j ≤ 4) :
    a.stakeByDepth j = b.level j a.name := by
  cases j with
  | zero => exact (h.mem_stakes ha).symm
  | succ i =>
      have hi : i < 4 := by omega
      have := h.proxied a ha ⟨i, hi⟩
      rw [hgap i hi, add_zero] at this
      rw [Account.stakeByDepth, Vector.getElem?_eq_getElem hi]
      exact this

/-! ## The stake below an account -/

/-- The levels of an account, carried up from it, are what its subtree
contributes above it. -/
theorem carried_level {up : AccountName → Option AccountName} (hacyclic : Acyclic up)
    {stakes : List (AccountName × Int)} {delta : Nat → Int}
    (hdelta : ∀ j ≤ 4, delta j = level up Prod.fst Prod.snd stakes j name) (p : AccountName)
    {i : Nat} (hi : i < 4) :
    carried up 4 name delta p i = level up Prod.fst Prod.snd stakes (i + 1) p -
      level (Function.update up name none) Prod.fst Prod.snd stakes (i + 1) p := by
  cases hup : up name with
  | none =>
      rw [carried_root hup, ← hup, Function.update_eq_self, sub_self]
  | some q =>
      have havoid := hacyclic.avoids hup
      have hself : Function.update (Function.update up name none) name (some q) = up := by
        rw [Function.update_idem, ← hup, Function.update_eq_self]
      have hlevel : level up Prod.fst Prod.snd stakes (i + 1) p =
          level (Function.update up name none) Prod.fst Prod.snd stakes (i + 1) p +
            ∑ d ∈ range (i + 1), hits (Function.update up name none) d q p *
              level (Function.update up name none) Prod.fst Prod.snd stakes (i + 1 - 1 - d)
                name := by
        conv_lhs => rw [← hself]
        exact level_attach (Function.update_self name none up) havoid (i + 1) p
      have hterm : ∀ e, hits up (e + 1) name p = hits (Function.update up name none) e q p := by
        intro e
        conv_lhs => rw [← hself]
        exact hits_attach_self havoid e p
      rw [hlevel, add_sub_cancel_left, carried]
      -- beyond `i` links nothing arrives at depth `i`
      rw [← sum_subset (range_subset_range.mpr (by omega : i + 1 ≤ 4))]
      · apply sum_congr rfl
        intro e he
        have hle : e ≤ i := by have := mem_range.mp he; omega
        rw [hterm, if_pos (by omega), hdelta _ (by omega), hacyclic.level_detach]
        congr 2
        omega
      · intro e _ he
        have hlt : i < e := by
          rw [mem_range] at he
          omega
        rw [if_neg (by omega), mul_zero]

theorem carried_neg (up : AccountName → Option AccountName) (remaining : Nat) (name : AccountName)
    (delta : Nat → Int) (p : AccountName) (i : Nat) :
    carried up remaining name (fun j => -delta j) p i = -carried up remaining name delta p i := by
  rw [carried, carried, ← sum_neg_distrib]
  apply sum_congr rfl
  intro e _
  split
  · ring
  · ring

/-- The account's whole stake is taken away above it. -/
theorem Tallied.takeStake (h : Tallied s) (ha : s.getAccount name = .ok a) :
    Returns (Database.adjustProxiedBy maxProxyRecursionDepth s name fun i => -a.stakeByDepth i)
      (Books
        { s.page with
          gap := fun p i =>
            Page.level { s.page with up := Function.update s.page.up name none } (i + 1) p
              - s.page.level (i + 1) p
          off := fun w => -(ballot s.page.ballots w name * a.witnessVoteWeight) }) := by
  obtain ⟨hmem, rfl⟩ := getAccount_mem ha
  have hstake : ∀ j ≤ 4, a.stakeByDepth j = s.page.level j a.name :=
    fun j hj => Books.stakeByDepth_eq h hmem (fun _ _ => rfl) hj
  refine (Books.adjustProxiedBy le_rfl h a.name _).mono fun t ht =>
    ht.congr (fun p i hi => ?_) fun w => ?_
  · show 0 + carried s.page.up 4 a.name (fun j => -a.stakeByDepth j) p i = _
    rw [carried_neg, carried_level h.acyclic hstake p hi, Page.level, Page.level]
    ring
  · have hsum : sumUpTo (fun j => -a.stakeByDepth j) 4 = -a.witnessVoteWeight := by
      rw [Books.weight_eq h hmem fun _ _ => rfl]
      simp only [sumUpTo, hstake 0 (by omega), hstake 1 (by omega), hstake 2 (by omega),
        hstake 3 (by omega), hstake 4 (by omega)]
      ring
    show 0 + ballot s.page.ballots w a.name * sumUpTo (fun j => -a.stakeByDepth j) 4 = _
    rw [hsum]
    ring

theorem countBallots_filter (ballots : List WitnessVote) (name : AccountName) :
    countBallots (ballots.filter fun v => v.account ≠ name) =
      Function.update (countBallots ballots) name 0 := by
  funext n
  unfold countBallots
  rw [List.countP_filter]
  by_cases hn : n = name
  · subst hn
    rw [Function.update_self, List.countP_eq_zero]
    intro v _
    simp
  · rw [Function.update_of_ne hn]
    apply List.countP_congr
    intro v _
    simp only [Bool.and_eq_true, decide_eq_true_eq]
    constructor
    · exact fun h => h.1
    · exact fun h => ⟨h, h ▸ hn⟩

theorem ballot_filter (ballots : List WitnessVote) (w name : AccountName) :
    ballot (ballots.filter fun v => v.account ≠ name) w name = 0 := by
  simp [ballot]

/-- Then its votes are dropped: what it voted for is right again. -/
theorem Tallied.clearStake (h : Tallied s) (ha : s.getAccount name = .ok a)
    (ht : Books
      { s.page with
        gap := fun p i =>
          Page.level { s.page with up := Function.update s.page.up name none } (i + 1) p
            - s.page.level (i + 1) p
        off := fun w => -(ballot s.page.ballots w name * a.witnessVoteWeight) } t) :
    Returns (t.clearWitnessVotes name)
      (Books
        { s.page with
          ballots := s.page.ballots.filter fun v => v.account ≠ name
          counted := countBallots (s.page.ballots.filter fun v => v.account ≠ name)
          gap := fun p i =>
            Page.level { s.page with up := Function.update s.page.up name none } (i + 1) p
              - s.page.level (i + 1) p
          off := fun _ => 0 }) := by
  refine (ht.clearWitnessVotes name).mono fun u ⟨c, hc, hu⟩ => ?_
  obtain ⟨hmem, rfl⟩ := getAccount_mem ha
  obtain ⟨hcmem, hcname⟩ := getAccount_mem hc
  have hgap : ∀ i < 4, Page.level { s.page with up := Function.update s.page.up a.name none }
      (i + 1) a.name - s.page.level (i + 1) a.name = 0 := by
    intro i _
    rw [Page.level, Page.level, sub_eq_zero]
    exact Acyclic.level_detach h.acyclic _
  have hweight : c.witnessVoteWeight = a.witnessVoteWeight := by
    rw [ht.weight_eq hcmem (by rw [hcname]; exact hgap), Books.weight_eq h hmem fun _ _ => rfl,
      hcname]
    rfl
  rw [countBallots_filter]
  refine hu.congr (fun _ _ _ => rfl) fun w => ?_
  dsimp only
  rw [hweight]
  ring

/-- The chain above the new proxy avoids every account met before. -/
theorem checkProxyChain_avoids (h : Books b s) {room : Nat} {chain : List AccountName}
    {c : Account} (hc : c ∈ s.accounts.rows) (hok : s.checkProxyChain room chain c = .ok ())
    {x : AccountName} (hx : x ∈ chain) (hne : c.name ≠ x) (k : Nat) :
    ancestor b.up k c.name ≠ some x := by
  induction room generalizing chain c k with
  | zero =>
      unfold checkProxyChain at hok
      split at hok
      next hself =>
        cases k with
        | zero => simpa using hne
        | succ k =>
            rw [ancestor_succ_of_none (by rw [h.up_eq hc, if_pos hself])]
            simp
      next =>
        obtain ⟨next, -, hok⟩ := bind_eq_ok.mp hok
        simp at hok
  | succ room ih =>
      unfold checkProxyChain at hok
      split at hok
      next hself =>
        cases k with
        | zero => simpa using hne
        | succ k =>
            rw [ancestor_succ_of_none (by rw [h.up_eq hc, if_pos hself])]
            simp
      next hself =>
        obtain ⟨next, hnext, hok⟩ := bind_eq_ok.mp hok
        obtain ⟨hfresh, hok⟩ := ensure_bind_eq_ok.mp hok
        obtain ⟨hmem, hname⟩ := getAccount_mem hnext
        cases k with
        | zero => simpa using hne
        | succ k =>
            have hup : b.up c.name = some next.name := by rw [h.up_eq hc, if_neg hself, hname]
            rw [ancestor_succ_of_some hup]
            apply ih hmem hok (List.mem_cons_of_mem _ hx)
            intro heq
            simp [heq, hx] at hfresh

/-! ## Operations on proxies and votes -/

theorem Tallied.accountWitnessProxy (h : Tallied s) (account proxy : AccountName) :
    Returns (s.accountWitnessProxy account proxy) Tallied := by
  unfold Database.accountWitnessProxy
  refine .bind_eq fun _ hsigned => .ensure fun hself => .bind_eq fun a ha => .ensure fun hchange =>
    .ensure fun _ => .bind (h.takeStake ha) fun t ht => ?_
  have hnull : account ≠ nullAccount := signedBy_eq_ok.mp hsigned
  obtain ⟨hmem, rfl⟩ := getAccount_mem ha
  refine .ite (fun hproxy => ?_) fun hproxy => ?_
  · refine .bind_eq fun q hq => .bind_eq fun _ hchain => .bind (h.clearStake ha ht) fun u hu => ?_
    refine .bind (modifyAccount_spec u a.name _) fun v ⟨c, he⟩ => ?_
    obtain ⟨hqmem, rfl⟩ := getAccount_mem hq
    have havoid : ∀ k, ancestor (Function.update s.page.up a.name none) k q.name ≠ some a.name := by
      intro k hk
      have hne : q.name ≠ a.name := by simpa using hself
      exact checkProxyChain_avoids ht hqmem hchain (List.mem_cons_self) hne k
        (ancestor_of_detached hk)
    have hacyclic : Acyclic (Function.update s.page.up a.name (some q.name)) := by
      have := (Acyclic.detach h.acyclic a.name).attach (Function.update_self _ _ _) havoid
      rwa [Function.update_idem] at this
    have hv := hu.setProxy he rfl rfl rfl rfl rfl rfl (v := some q.name)
      (if_neg hproxy) hacyclic (fun p hp => ?_)
    · refine (hv.adjustProxiedBy le_rfl a.name a.stakeByDepth).mono fun u' hu' =>
        hu'.tallied rfl (fun p i hi => ?_) fun w => ?_
      · -- the levels of the account do not depend on its proxy
        have hstake : ∀ j ≤ 4, a.stakeByDepth j =
            level (Function.update s.page.up a.name (some q.name)) Prod.fst Prod.snd
              s.page.stakes j a.name := by
          intro j hj
          rw [Books.stakeByDepth_eq h hmem (fun _ _ => rfl) hj, ← hacyclic.level_detach,
            Function.update_idem, Acyclic.level_detach h.acyclic]
          rfl
        show _ + carried (Function.update s.page.up a.name (some q.name)) 4 a.name _ p i = 0
        rw [carried_level hacyclic hstake p hi, Function.update_idem]
        simp only [Page.level]
        ring
      · dsimp only
        rw [ballot_filter]
        ring
    · obtain rfl : q.name = p := by simpa using hp
      refine ⟨?_, hnull, fun v hv => by simpa using (List.mem_filter.mp hv).2⟩
      rw [hu.names_eq]
      show q.name ∈ s.page.stakes.map Prod.fst
      rw [← ht.names_eq]
      exact List.mem_map_of_mem hqmem
  · have hup : s.page.up a.name = some a.proxy := by
      rw [Books.up_eq h hmem, if_neg]
      rw [not_not.mp hproxy] at hchange
      simpa using hchange
    refine (modifyAccount_spec t a.name _).mono fun v ⟨c, he⟩ => ?_
    have hv := ht.setProxy he rfl rfl rfl rfl rfl rfl (v := none)
      (if_pos (not_not.mp hproxy)) (Acyclic.detach h.acyclic a.name) (fun p hp => by cases hp)
    refine hv.tallied rfl (fun p i hi => ?_) fun w => ?_
    · simp only [Page.level]
      ring
    · dsimp only
      rw [Books.ballot_eq_zero h hup]
      ring

theorem Tallied.processDeclineVotingRights (h : Tallied s) (account : AccountName) :
    Returns (s.processDeclineVotingRights account) Tallied := by
  unfold Database.processDeclineVotingRights
  refine .bind_any fun _ => .ensure fun _ => .bind_eq fun a ha => .bind (h.takeStake ha) fun t ht =>
    .bind (h.clearStake ha ht) fun u hu => .bind (modifyAccount_spec u account _) fun v ⟨c, he⟩ =>
      .pure ?_
  have hv := hu.setProxy he rfl rfl rfl rfl rfl rfl (v := none) (if_pos rfl)
    (Acyclic.detach h.acyclic account) (fun p hp => by cases hp)
  have htallied : Tallied v := by
    refine hv.tallied rfl (fun p i hi => ?_) fun w => rfl
    simp only [Page.level]
    ring
  exact htallied.of_same rfl rfl rfl rfl

theorem countBallots_concat (ballots : List WitnessVote) (w : AccountName) (name : AccountName) :
    countBallots (ballots ++ [⟨w, name⟩]) =
      Function.update (countBallots ballots) name (countBallots ballots name + 1) := by
  funext n
  unfold countBallots
  rw [List.countP_append]
  by_cases hn : n = name
  · subst hn
    simp
  · rw [Function.update_of_ne hn]
    simp [Ne.symm hn]

theorem countBallots_remove {ballots : List WitnessVote} (hnodup : ballots.Nodup)
    {w name : AccountName} (hmem : ⟨w, name⟩ ∈ ballots) :
    countBallots (ballots.filter fun v => v ≠ ⟨w, name⟩) =
      Function.update (countBallots ballots) name (countBallots ballots name - 1) := by
  funext n
  have herase : (ballots.filter fun v => v ≠ ⟨w, name⟩) = ballots.erase ⟨w, name⟩ := by
    rw [hnodup.erase_eq_filter]
    apply List.filter_congr
    intro v _
    simp only [bne, ne_eq, decide_not]
    rfl
  rw [herase]
  unfold countBallots
  rw [List.countP_erase]
  by_cases hn : n = name
  · subst hn
    simp [hmem]
  · rw [Function.update_of_ne hn]
    simp [Ne.symm hn]

theorem Tallied.accountWitnessVote (h : Tallied s) (account witness : AccountName)
    (approve : Bool) :
    Returns (s.accountWitnessVote account witness approve) Tallied := by
  unfold Database.accountWitnessVote
  refine .bind_eq fun _ hsigned => .bind_eq fun a ha => .ensure fun hproxy => .ensure fun _ =>
    .bind_eq fun w hw => ?_
  have hnull : account ≠ nullAccount := signedBy_eq_ok.mp hsigned
  obtain ⟨hmem, rfl⟩ := getAccount_mem ha
  obtain ⟨hwmem, rfl⟩ := getWitness_mem hw
  have hroot : s.page.up a.name = none := by
    rw [Books.up_eq h hmem, if_pos (by simpa using hproxy)]
  -- what the account weighs does not change until the end
  have hweight : ∀ {c : Account} {t : Database} {off : AccountName → Int} {ballots},
      Books { s.page with ballots := ballots, off := off } t → t.getAccount a.name = .ok c →
        c.witnessVoteWeight = a.witnessVoteWeight := by
    intro c t off ballots ht hc
    obtain ⟨hcmem, hcname⟩ := getAccount_mem hc
    rw [ht.weight_eq hcmem fun _ _ => rfl, Books.weight_eq h hmem fun _ _ => rfl, hcname]
    rfl
  refine .ite (fun hvoted => .ensure fun _ => ?_) fun hvoted => .ensure fun _ => .ensure fun _ => ?_
  · -- the vote is taken back
    have hvote : (⟨w.owner, a.name⟩ : WitnessVote) ∈ s.witnessVotes := by simpa using hvoted
    refine .bind (Books.adjustWitnessVote h w.owner _) fun t ht => ?_
    refine .bind (modifyAccount_spec t a.name _) fun u ⟨c, he⟩ => .pure ?_
    have hc := ht.bounded c he.mem
    have hu := ht.editCounted he rfl rfl rfl rfl hc.rate hc.toWithdraw
    have hdrop := hu.removeBallot he.replaces.mem_new he.name_eq hvote
    rw [show u.witnessVotes = s.witnessVotes from hu.ballots]
    refine hdrop.tallied ?_ (fun _ _ _ => rfl) fun o => ?_
    · show Function.update _ a.name (c.witnessesVotedFor - 1) = countBallots _
      rw [countBallots_remove (Books.nodup h) hvote, ht.counted c he.mem, he.name_eq]
      rfl
    · show 0 + (if o = w.owner then -a.witnessVoteWeight else 0)
        + (if o = w.owner then c.witnessVoteWeight else 0) = 0
      rw [hweight ht he.found]
      split <;> ring
  · -- the vote is new
    have hvote : (⟨w.owner, a.name⟩ : WitnessVote) ∉ s.witnessVotes := by simpa using hvoted
    have hnew := Books.addBallot h hmem rfl hvote hroot hnull (List.mem_map_of_mem hwmem)
    refine .bind (hnew.adjustWitnessVote w.owner _) fun t ht => ?_
    refine (modifyAccount_spec t a.name _).mono fun u ⟨c, he⟩ => ?_
    have hc := ht.bounded c he.mem
    have hu := ht.editCounted he rfl rfl rfl rfl hc.rate hc.toWithdraw
    refine hu.tallied ?_ (fun _ _ _ => rfl) fun o => ?_
    · show Function.update _ a.name (c.witnessesVotedFor + 1) = countBallots _
      rw [ht.counted c he.mem, he.name_eq]
      exact (countBallots_concat s.witnessVotes w.owner a.name).symm
    · show 0 - (if o = w.owner then a.witnessVoteWeight else 0)
        + (if o = w.owner then a.witnessVoteWeight else 0) = 0
      ring

end Database

end Gamebank.Ledger
