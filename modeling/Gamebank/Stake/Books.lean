import Gamebank.Stake.Rules
import Gamebank.Lib.Forest
import Mathlib.Tactic.IntervalCases

/-!
# The books of the witness votes

Every account votes with its vesting shares for some witnesses, or hands its
votes to a proxy, and a witness carries the sum of what is voted for it. When
one of these changes, the change is carried up the chain of proxies to the
witnesses, one object after the other, and until that is done the sums are
off.

A `Page` says what the sums are off by: `gap` for the proxied votes of an
account, by depth, and `off` for the votes of a witness. `Books` relates a
page to a state. Each of the small steps of which the operations consist has
one lemma that says how it changes the page.
-/

namespace Gamebank.Ledger

open Gamebank.Lib Gamebank.Protocol

/-- The account that `name` has handed its votes to. -/
def proxyOf (accounts : List Account) (name : AccountName) : Option AccountName :=
  match accounts.find? fun a => a.name = name with
  | some a => if a.proxy = proxyToSelfAccount then none else some a.proxy
  | none => none

/-- One if there is a vote of `account` for `witness`. -/
def ballot (ballots : List WitnessVote) (witness account : AccountName) : Int :=
  if ⟨witness, account⟩ ∈ ballots then 1 else 0

/-- The votes of an account, counted. -/
def countBallots (ballots : List WitnessVote) (account : AccountName) : Nat :=
  ballots.countP fun v => v.account = account

structure Page where
  up : AccountName → Option AccountName
  ballots : List WitnessVote
  counted : AccountName → Nat
  stakes : List (AccountName × Int)
  gap : AccountName → Nat → Int
  off : AccountName → Int

/-- The vesting shares `k` links of proxies below an account. -/
def Page.level (b : Page) (k : Nat) (name : AccountName) : Int :=
  Lib.level b.up Prod.fst Prod.snd b.stakes k name

namespace Database

/-- Who holds how many vesting shares. -/
def stakes (s : Database) : List (AccountName × Int) :=
  s.accounts.rows.map fun a => (a.name, a.vestingShares)

/-- The bounds of the numbers that are not sums. -/
structure Bounded (a : Account) : Prop where
  vestingShares : -9223372036854775808 ≤ a.vestingShares
  rate : 0 ≤ a.vestingWithdrawRate
  toWithdraw : 0 ≤ a.toWithdraw
  belowMax : a.vestingShares < 9223372036854775808

structure Books (b : Page) (s : Database) : Prop where
  ballots : s.witnessVotes = b.ballots
  up : proxyOf s.accounts.rows = b.up
  stakes : s.stakes = b.stakes
  names : (s.accounts.rows.map Account.name).Nodup
  owners : (s.witnesses.rows.map Witness.owner).Nodup
  acyclic : Acyclic b.up
  proxyExists : ∀ n p, b.up n = some p → p ∈ s.accounts.rows.map Account.name
  nullRoot : b.up nullAccount = none
  nodup : b.ballots.Nodup
  voterExists : ∀ v ∈ b.ballots, v.account ∈ s.accounts.rows.map Account.name
  voterRoot : ∀ v ∈ b.ballots, b.up v.account = none
  voterNull : ∀ v ∈ b.ballots, v.account ≠ nullAccount
  candidate : ∀ v ∈ b.ballots, v.witness ∈ s.witnesses.rows.map Witness.owner
  bounded : ∀ a ∈ s.accounts.rows, Bounded a
  percents : ∀ r ∈ s.withdrawVestingRoutes.rows, 0 ≤ r.percent ∧ r.percent ≤ hundredPercent
  counted : ∀ a ∈ s.accounts.rows, a.witnessesVotedFor = b.counted a.name
  proxied : ∀ a ∈ s.accounts.rows, ∀ i : Fin 4,
    a.proxiedVsfVotes.get i = b.level (i.val + 1) a.name + b.gap a.name i.val
  votes : ∀ w ∈ s.witnesses.rows, w.votes =
    sumOf (fun a => ballot b.ballots w.owner a.name * a.witnessVoteWeight) s.accounts.rows
      + b.off w.owner

variable {s t : Database} {b : Page} {name : AccountName} {a a' : Account}

/-! ## Look-ups -/

theorem proxyOf_eq {accounts : List Account} (h : (accounts.map Account.name).Nodup)
    (ha : a ∈ accounts) :
    proxyOf accounts a.name = if a.proxy = proxyToSelfAccount then none else some a.proxy := by
  rw [proxyOf, find?_eq_some_of_nodup h ha]

theorem Books.up_eq (h : Books b s) (ha : a ∈ s.accounts.rows) :
    b.up a.name = if a.proxy = proxyToSelfAccount then none else some a.proxy := by
  rw [← h.up, proxyOf_eq h.names ha]

/-- An account that has a proxy has no vote. -/
theorem Books.ballot_eq_zero (h : Books b s) {n p : AccountName} (hn : b.up n = some p)
    (w : AccountName) : ballot b.ballots w n = 0 := by
  apply if_neg
  intro hv
  have := h.voterRoot _ hv
  rw [hn] at this
  cases this

/-! ## Steps on accounts -/

/-- An account that keeps its name and its proxy leaves the proxies alone. -/
theorem proxyOf_replaces {l l' : List Account} (h : Replaces a a' l l')
    (hname : a'.name = a.name) (hproxy : a'.proxy = a.proxy)
    (hl : (l.map Account.name).Nodup) : proxyOf l' = proxyOf l := by
  funext n
  by_cases hn : n = a.name
  · subst hn
    rw [proxyOf, h.find?_key hname hl, if_pos rfl, proxyOf_eq hl h.mem_old, ← hproxy]
  · rw [proxyOf, h.find?_key hname hl, if_neg hn, proxyOf]

/-- The levels after an account has got `d` more vesting shares. -/
theorem level_replaces (up : AccountName → Option AccountName) {l l' : List Account} {d : Int}
    (h : Replaces a a' l l') (hname : a'.name = a.name)
    (hshares : a'.vestingShares = a.vestingShares + d) (k : Nat) (p : AccountName) :
    Lib.level up Prod.fst Prod.snd (l'.map fun a => (a.name, a.vestingShares)) k p =
      Lib.level up Prod.fst Prod.snd (l.map fun a => (a.name, a.vestingShares)) k p
        + hits up k a.name p * d := by
  unfold Lib.level
  rw [sumOf_map, sumOf_map, h.sumOf_eq, hname, hshares]
  ring

theorem fits_vestingShares (h : a.fits = true) :
    -9223372036854775808 ≤ a.vestingShares ∧ a.vestingShares < 9223372036854775808 := by
  simp only [Account.fits, fitsInt64, List.all_cons, Bool.and_eq_true, decide_eq_true_eq] at h
  omega

/-- **An account modified**: `d` more vesting shares, `e i` more proxied votes
at depth `i`. -/
theorem Books.edit (h : Books b s) (he : Edited s t name a a') (hname : a'.name = a.name)
    (hproxy : a'.proxy = a.proxy) (hrate : 0 ≤ a'.vestingWithdrawRate)
    (hwithdraw : 0 ≤ a'.toWithdraw) {d : Int} (hshares : a'.vestingShares = a.vestingShares + d)
    {e : Nat → Int}
    (hvotes : ∀ i : Fin 4, a'.proxiedVsfVotes.get i = a.proxiedVsfVotes.get i + e i.val) :
    Books
      { b with
        counted := Function.update b.counted name a'.witnessesVotedFor
        stakes := t.stakes
        gap := fun p i => b.gap p i - hits b.up (i + 1) name p * d + if p = name then e i else 0
        off := fun w => b.off w - ballot b.ballots w name * (d + (e 0 + e 1 + e 2 + e 3)) } t := by
  have hrest := he.rest
  have hrows := he.replaces
  have hn := he.name_eq
  have hnames : t.accounts.rows.map Account.name = s.accounts.rows.map Account.name :=
    hrows.map_eq hname
  have hwitnesses : t.witnesses = s.witnesses := by rw [hrest]
  -- the change counts where `k` proxies lead from the account
  have hlevel : ∀ k p, Page.level { b with stakes := t.stakes } k p =
      b.level k p + hits b.up k name p * d := by
    intro k p
    have := level_replaces b.up hrows hname hshares k p
    rw [Page.level, Page.level, ← h.stakes, ← hn]
    exact this
  have hweight : a'.witnessVoteWeight = a.witnessVoteWeight + (d + (e 0 + e 1 + e 2 + e 3)) := by
    have h0 : a'.proxiedVsfVotes[0] = a.proxiedVsfVotes[0] + e 0 := hvotes 0
    have h1 : a'.proxiedVsfVotes[1] = a.proxiedVsfVotes[1] + e 1 := hvotes 1
    have h2 : a'.proxiedVsfVotes[2] = a.proxiedVsfVotes[2] + e 2 := hvotes 2
    have h3 : a'.proxiedVsfVotes[3] = a.proxiedVsfVotes[3] + e 3 := hvotes 3
    unfold Account.witnessVoteWeight
    rw [hshares, h0, h1, h2, h3]
    ring
  exact
    { ballots := by rw [hrest]; exact h.ballots
      up := (proxyOf_replaces hrows hname hproxy h.names).trans h.up
      stakes := rfl
      names := by rw [hnames]; exact h.names
      owners := by rw [hwitnesses]; exact h.owners
      acyclic := h.acyclic
      proxyExists := by rw [hnames]; exact h.proxyExists
      nullRoot := h.nullRoot
      nodup := h.nodup
      voterExists := by rw [hnames]; exact h.voterExists
      voterRoot := h.voterRoot
      voterNull := h.voterNull
      candidate := by rw [hwitnesses]; exact h.candidate
      percents := by rw [hrest]; exact h.percents
      bounded := by
        intro c hc
        rcases hrows.mem_or h.names hc with rfl | ⟨hc, -⟩
        · have hfits := fits_vestingShares he.fits
          exact ⟨hfits.1, hrate, hwithdraw, hfits.2⟩
        · exact h.bounded c hc
      counted := by
        intro c hc
        dsimp only
        rcases hrows.mem_or h.names hc with rfl | ⟨hc, hne⟩
        · rw [hname, hn, Function.update_self]
        · rw [Function.update_of_ne (hn ▸ hne)]
          exact h.counted c hc
      proxied := by
        intro c hc i
        show _ = Page.level { b with stakes := t.stakes } _ _ + _
        dsimp only
        rw [hlevel]
        rcases hrows.mem_or h.names hc with rfl | ⟨hc, hne⟩
        · rw [hvotes i, hname, if_pos hn, h.proxied a he.mem i]
          ring
        · rw [if_neg (hn ▸ hne), h.proxied c hc i]
          ring
      votes := by
        intro w hw
        rw [hwitnesses] at hw
        dsimp only
        rw [hrows.sumOf_eq, hname, hweight, h.votes w hw, hn]
        ring }

/-- Pages that agree where it matters are kept by the same states. -/
theorem Books.congr (h : Books b s) {gap : AccountName → Nat → Int} {off : AccountName → Int}
    (hgap : ∀ p, ∀ i < 4, b.gap p i = gap p i) (hoff : ∀ w, b.off w = off w) :
    Books { b with gap := gap, off := off } s :=
  { h with
    proxied := fun a ha i => by
      have := h.proxied a ha i
      rw [hgap _ _ i.isLt] at this
      exact this
    votes := fun w hw => by
      have := h.votes w hw
      rw [hoff] at this
      exact this }

theorem Books.update_counted (h : Books b s) (he : Edited s t name a a') :
    Function.update b.counted name a.witnessesVotedFor = b.counted := by
  rw [h.counted a he.mem, he.name_eq, Function.update_eq_self]

/-- More vesting shares. -/
theorem Books.editShares (h : Books b s) (he : Edited s t name a a') (hname : a'.name = a.name)
    (hproxy : a'.proxy = a.proxy) (hvoted : a'.witnessesVotedFor = a.witnessesVotedFor)
    (hvotes : a'.proxiedVsfVotes = a.proxiedVsfVotes) (hrate : 0 ≤ a'.vestingWithdrawRate)
    (hwithdraw : 0 ≤ a'.toWithdraw) {d : Int}
    (hshares : a'.vestingShares = a.vestingShares + d) :
    Books
      { b with
        stakes := t.stakes
        gap := fun p i => b.gap p i - hits b.up (i + 1) name p * d
        off := fun w => b.off w - ballot b.ballots w name * d } t := by
  have hedit := h.edit he hname hproxy hrate hwithdraw hshares
    (e := fun _ => 0) (fun i => by rw [hvotes, add_zero])
  rw [hvoted, h.update_counted he] at hedit
  refine hedit.congr (fun p i _ => ?_) fun w => ?_
  · dsimp only
    split <;> ring
  · ring

/-- Another count of its votes. -/
theorem Books.editCounted (h : Books b s) (he : Edited s t name a a') (hname : a'.name = a.name)
    (hproxy : a'.proxy = a.proxy) (hshares : a'.vestingShares = a.vestingShares)
    (hvotes : a'.proxiedVsfVotes = a.proxiedVsfVotes)
    (hrate : 0 ≤ a'.vestingWithdrawRate) (hwithdraw : 0 ≤ a'.toWithdraw) :
    Books { b with counted := Function.update b.counted name a'.witnessesVotedFor } t := by
  have hstakes : t.stakes = b.stakes := by
    rw [← h.stakes]
    exact he.replaces.map_eq (by rw [hname, hshares])
  have hedit := h.edit he hname hproxy hrate hwithdraw (d := 0) (by rw [hshares, add_zero])
    (e := fun _ => 0) (fun i => by rw [hvotes, add_zero])
  rw [hstakes] at hedit
  refine hedit.congr (fun p i _ => ?_) fun w => ?_
  · dsimp only
    split <;> ring
  · ring

/-- More proxied votes. -/
theorem Books.editProxied (h : Books b s) (he : Edited s t name a a') (hname : a'.name = a.name)
    (hproxy : a'.proxy = a.proxy) (hvoted : a'.witnessesVotedFor = a.witnessesVotedFor)
    (hshares : a'.vestingShares = a.vestingShares)
    (hrate : a'.vestingWithdrawRate = a.vestingWithdrawRate)
    (hwithdraw : a'.toWithdraw = a.toWithdraw)
    {e : Nat → Int}
    (hvotes : ∀ i : Fin 4, a'.proxiedVsfVotes.get i = a.proxiedVsfVotes.get i + e i.val) :
    Books
      { b with
        gap := fun p i => b.gap p i + if p = name then e i else 0
        off := fun w => b.off w - ballot b.ballots w name * (e 0 + e 1 + e 2 + e 3) } t := by
  have hstakes : t.stakes = b.stakes := by
    rw [← h.stakes]
    exact he.replaces.map_eq (by rw [hname, hshares])
  have hold := h.bounded a he.mem
  have hedit := h.edit he hname hproxy (hrate ▸ hold.rate) (hwithdraw ▸ hold.toWithdraw)
    (d := 0) (by rw [hshares, add_zero]) hvotes
  rw [hstakes, hvoted, h.update_counted he] at hedit
  refine hedit.congr (fun p i _ => ?_) fun w => ?_
  · ring
  · ring

/-! ## Steps on witnesses -/

/-- `t` is `s` with `w'` in the place of the witness `w`. -/
structure EditedWitness (s t : Database) (owner : AccountName) (w w' : Witness) : Prop where
  found : s.getWitness owner = .ok w
  replaces : Replaces w w' s.witnesses.rows t.witnesses.rows
  rest : t = { s with witnesses := { s.witnesses with rows := t.witnesses.rows } }

theorem getWitness_mem {owner : AccountName} {w : Witness} (h : s.getWitness owner = .ok w) :
    w ∈ s.witnesses.rows ∧ w.owner = owner := by
  have hfind := require_eq_ok.mp h
  exact ⟨List.mem_of_find?_eq_some hfind, by simpa using List.find?_some hfind⟩

theorem editedWitness_modifyWitness {owner : AccountName} {w : Witness}
    (h : s.getWitness owner = .ok w) (f : Witness → Witness) :
    EditedWitness s (s.modifyWitness owner f) owner w (f w) :=
  ⟨h, replaces_modifyFirst (require_eq_ok.mp h) f, rfl⟩

/-- What `adjust_witness_vote` has done when it returns. -/
theorem adjustWitnessVote_spec (s : Database) (owner : AccountName) (delta : Int) :
    Returns (s.adjustWitnessVote owner delta) fun t => ∃ w,
      EditedWitness s t owner w (w.moveVotes s.schedule.currentVirtualTime delta) ∧
      fitsInt64 (w.votes + delta) = true ∧ w.votes + delta ≤ s.props.totalVestingShares ∧
      w.votes + delta ≠ -1 := by
  unfold adjustWitnessVote
  refine .bind_eq fun w hw => .ensure fun hfits => .ensure fun hle => .ensure fun hne => .pure ?_
  exact ⟨w, editedWitness_modifyWitness hw _, hfits, by simpa using hle, by simpa using hne⟩

/-- A witness that keeps its owner, with `d` more votes. -/
theorem Books.editWitness {owner : AccountName} {w w' : Witness} (h : Books b s)
    (he : EditedWitness s t owner w w') (howner : w'.owner = w.owner) {d : Int}
    (hvotes : w'.votes = w.votes + d) :
    Books { b with off := fun o => b.off o + if o = owner then d else 0 } t := by
  have hrest := he.rest
  have hrows := he.replaces
  have hw := getWitness_mem he.found
  have howners : t.witnesses.rows.map Witness.owner = s.witnesses.rows.map Witness.owner :=
    hrows.map_eq howner
  have haccounts : t.accounts = s.accounts := by rw [hrest]
  exact
    { ballots := by rw [hrest]; exact h.ballots
      up := by rw [haccounts]; exact h.up
      stakes := by rw [Database.stakes, haccounts]; exact h.stakes
      names := by rw [haccounts]; exact h.names
      owners := by rw [howners]; exact h.owners
      acyclic := h.acyclic
      proxyExists := by rw [haccounts]; exact h.proxyExists
      nullRoot := h.nullRoot
      nodup := h.nodup
      voterExists := by rw [haccounts]; exact h.voterExists
      voterRoot := h.voterRoot
      voterNull := h.voterNull
      candidate := by rw [howners]; exact h.candidate
      percents := by rw [hrest]; exact h.percents
      bounded := by rw [haccounts]; exact h.bounded
      counted := by rw [haccounts]; exact h.counted
      proxied := by rw [haccounts]; exact h.proxied
      votes := by
        intro c hc
        rw [haccounts]
        dsimp only
        rcases hrows.mem_or h.owners hc with rfl | ⟨hc, hne⟩
        · rw [hvotes, howner, if_pos hw.2, h.votes w hw.1]
          ring
        · rw [if_neg (hw.2 ▸ hne), h.votes c hc]
          ring }

theorem Books.adjustWitnessVote (h : Books b s) (owner : AccountName) (d : Int) :
    Returns (s.adjustWitnessVote owner d)
      (Books { b with off := fun o => b.off o + if o = owner then d else 0 }) :=
  (adjustWitnessVote_spec s owner d).mono fun _ ⟨_, he, _⟩ => h.editWitness he rfl rfl

/-- The loop over the votes of an account. -/
theorem Books.foldVotes {votes : List WitnessVote} (hnodup : votes.Nodup)
    (haccount : ∀ v ∈ votes, v.account = name) (h : Books b s) (d : Int) :
    Returns (votes.foldlM (fun s v => s.adjustWitnessVote v.witness d) s)
      (Books { b with off := fun o => b.off o + if ⟨o, name⟩ ∈ votes then d else 0 }) := by
  induction votes generalizing b s with
  | nil =>
      refine .pure (h.congr (fun _ _ _ => rfl) fun w => ?_)
      simp
  | cons v rest ih =>
      rw [List.nodup_cons] at hnodup
      have hv : v = ⟨v.witness, name⟩ := by rw [← haccount v List.mem_cons_self]
      rw [List.foldlM_cons]
      refine .bind (h.adjustWitnessVote v.witness d) fun t ht => ?_
      refine (ih hnodup.2 (fun u hu => haccount u (List.mem_cons_of_mem v hu)) ht).mono
        fun u hu => hu.congr (fun _ _ _ => rfl) fun w => ?_
      -- no witness is met twice
      by_cases hw : w = v.witness
      · subst hw
        simp [hnodup.1, hv.symm]
      · have hne : (⟨w, name⟩ : WitnessVote) ≠ v := by
          rw [hv]
          simp [hw]
        simp [hw, hne]

theorem Books.adjustWitnessVotes (h : Books b s) (name : AccountName) (d : Int) :
    Returns (s.adjustWitnessVotes name d)
      (Books { b with off := fun w => b.off w + ballot b.ballots w name * d }) := by
  unfold Database.adjustWitnessVotes
  rw [h.ballots]
  have haccount : ∀ v ∈ b.ballots.filter fun v => v.account = name, v.account = name := by
    intro v hv
    simpa using (List.mem_filter.mp hv).2
  refine (h.foldVotes (h.nodup.filter _) haccount d).mono fun t ht =>
    ht.congr (fun _ _ _ => rfl) fun w => ?_
  simp [ballot]

/-! ## The chain of proxies -/

theorem addShifted_get (votes : Vector Int 4) (depth : Nat) (delta : Nat → Int) (i : Fin 4) :
    (addShifted votes depth delta).get i =
      votes.get i + if depth ≤ i.val then delta (i.val - depth) else 0 := by
  show (addShifted votes depth delta)[i.val] = votes[i.val] + _
  simp only [addShifted, Fin.getElem_fin, Vector.getElem_ofFn]
  split
  · rfl
  · rw [add_zero]

/-- What arrives at the end of a chain is what is left after the shift. -/
theorem sum_addShifted (delta : Nat → Int) {remaining : Nat} (h : remaining < 4) :
    (if 3 - remaining ≤ 0 then delta (0 - (3 - remaining)) else 0)
      + (if 3 - remaining ≤ 1 then delta (1 - (3 - remaining)) else 0)
      + (if 3 - remaining ≤ 2 then delta (2 - (3 - remaining)) else 0)
      + (if 3 - remaining ≤ 3 then delta (3 - (3 - remaining)) else 0)
      = sumUpTo delta remaining := by
  interval_cases remaining <;> simp [sumUpTo]

open Finset

/-- What has been added to the gaps when `delta` has been carried up from
`name`, with `remaining` links left. -/
def carried (up : AccountName → Option AccountName) (remaining : Nat) (name : AccountName)
    (delta : Nat → Int) (p : AccountName) (i : Nat) : Int :=
  ∑ e ∈ range remaining,
    hits up (e + 1) name p *
      if 4 - remaining + e ≤ i then delta (i - (4 - remaining + e)) else 0

/-- From an account without a proxy nothing is carried anywhere. -/
theorem carried_root {up : AccountName → Option AccountName} (h : up name = none)
    (remaining : Nat) (delta : Nat → Int) (p : AccountName) (i : Nat) :
    carried up remaining name delta p i = 0 := by
  apply sum_eq_zero
  intro e _
  rw [hits_succ_of_none h, zero_mul]

/-- The first link and the rest of the chain. -/
theorem carried_succ {up : AccountName → Option AccountName} {q : AccountName}
    (h : up name = some q)
    {remaining : Nat} (hremaining : remaining < 4) (delta : Nat → Int) (p : AccountName) (i : Nat) :
    carried up (remaining + 1) name delta p i =
      (if p = q then if 3 - remaining ≤ i then delta (i - (3 - remaining)) else 0 else 0)
        + carried up remaining q delta p i := by
  have hshift : ∀ e, 4 - (remaining + 1) + (e + 1) = 4 - remaining + e := by intro e; omega
  have hfirst : 4 - (remaining + 1) + 0 = 3 - remaining := by omega
  rw [carried, sum_range_succ', hits_succ_of_some h, hits_zero, hfirst, add_comm, carried]
  congr 1
  · by_cases hp : p = q
    · rw [if_pos hp, if_pos hp.symm, one_mul]
    · rw [if_neg hp, if_neg (Ne.symm hp), zero_mul]
  · apply sum_congr rfl
    intro e _
    rw [hits_succ_of_some h, hshift]

/-- The end of the chain. -/
theorem Books.adjustRoot (h : Books b s) (hup : b.up name = none) (remaining : Nat)
    (delta : Nat → Int) :
    Returns (s.adjustWitnessVotes name (sumUpTo delta remaining))
      (Books
        { b with
          gap := fun p i => b.gap p i + carried b.up remaining name delta p i
          off := fun w => b.off w + ballot b.ballots w name * sumUpTo delta remaining }) := by
  refine (h.adjustWitnessVotes name _).mono fun t ht => ht.congr (fun p i _ => ?_) fun _ => rfl
  rw [carried_root hup, add_zero]

/-- **Amounts carried up the chain of proxies.** At each account on the way
they arrive shifted by its distance; at its end, what is left of them goes to
the witnesses that the last account votes for. -/
theorem Books.adjustProxiedBy {remaining : Nat} (hremaining : remaining ≤ 4) (h : Books b s)
    (name : AccountName) (delta : Nat → Int) :
    Returns (Database.adjustProxiedBy remaining s name delta)
      (Books
        { b with
          gap := fun p i => b.gap p i + carried b.up remaining name delta p i
          off := fun w => b.off w + ballot b.ballots w name * sumUpTo delta remaining }) := by
  induction remaining generalizing b s name with
  | zero =>
      unfold Database.adjustProxiedBy
      refine .bind_eq fun a ha => ?_
      obtain ⟨hmem, rfl⟩ := getAccount_mem ha
      refine .ite (fun hproxy => ?_) fun hproxy => ?_
      · have hup : b.up a.name = some a.proxy := by rw [h.up_eq hmem, if_neg hproxy]
        refine .pure (h.congr (fun p i _ => ?_) fun w => ?_)
        · simp [carried]
        · rw [h.ballot_eq_zero hup, zero_mul, add_zero]
      · exact h.adjustRoot (by rw [h.up_eq hmem, if_pos (not_not.mp hproxy)]) 0 delta
  | succ remaining ih =>
      unfold Database.adjustProxiedBy
      refine .bind_eq fun a ha => ?_
      obtain ⟨hmem, rfl⟩ := getAccount_mem ha
      refine .ite (fun hproxy => ?_) fun hproxy => ?_
      · have hup : b.up a.name = some a.proxy := by rw [h.up_eq hmem, if_neg hproxy]
        have hdepth : maxProxyRecursionDepth - (remaining + 1) = 3 - remaining := by
          unfold maxProxyRecursionDepth
          omega
        refine .bind (modifyAccount_spec s a.proxy _) fun t ht => ?_
        obtain ⟨q, he⟩ := ht
        have ht := h.editProxied he rfl rfl rfl rfl rfl rfl
          (e := fun i => if 3 - remaining ≤ i then delta (i - (3 - remaining)) else 0)
          fun i => by rw [← hdepth]; exact addShifted_get q.proxiedVsfVotes _ delta i
        refine (ih (by omega) ht a.proxy).mono fun u hu => hu.congr (fun p i _ => ?_) fun w => ?_
        · dsimp only
          rw [carried_succ hup (by omega)]
          ring
        · -- what the next account has got more is what is voted for its witnesses
          dsimp only
          rw [sum_addShifted delta (by omega), h.ballot_eq_zero hup]
          ring
      · exact h.adjustRoot (by rw [h.up_eq hmem, if_pos (not_not.mp hproxy)]) (remaining + 1) delta

/-- The same for one amount. -/
theorem adjustProxied_eq (remaining : Nat) (s : Database) (name : AccountName) (d : Int)
    (h : remaining ≤ 4) :
    adjustProxied remaining s name d =
      Database.adjustProxiedBy remaining s name fun i => if i = 0 then d else 0 := by
  have hsum : ∀ n, sumUpTo (fun i => if i = 0 then d else 0) n = d := by
    intro n
    induction n with
    | zero => rfl
    | succ n ih => rw [sumUpTo, ih, if_neg n.succ_ne_zero, add_zero]
  induction remaining generalizing s name with
  | zero => simp only [adjustProxied, Database.adjustProxiedBy, hsum]
  | succ remaining ih =>
      have hshift : ∀ votes : Vector Int 4, ∀ depth,
          (Vector.ofFn fun i : Fin 4 => if i.val = depth then votes[i] + d else votes[i]) =
            addShifted votes depth fun i => if i = 0 then d else 0 := by
        intro votes depth
        unfold addShifted
        congr 1
        funext i
        rcases Nat.lt_trichotomy i.val depth with hlt | heq | hgt
        · rw [if_neg (by omega), if_neg (by omega)]
        · simp only [heq, le_refl, Nat.sub_self, if_true]
        · have hpos : i.val - depth ≠ 0 := by omega
          simp only [hpos, hgt.le, hgt.ne', if_false, if_true, add_zero]
      unfold adjustProxied Database.adjustProxiedBy
      simp only [hsum, hshift, ih _ _ (by omega)]

theorem Books.adjustProxiedWitnessVotes (h : Books b s) (name : AccountName) (d : Int) :
    Returns (s.adjustProxiedWitnessVotes name d)
      (Books
        { b with
          gap := fun p i => b.gap p i + hits b.up (i + 1) name p * d
          off := fun w => b.off w + ballot b.ballots w name * d }) := by
  unfold Database.adjustProxiedWitnessVotes maxProxyRecursionDepth
  rw [adjustProxied_eq 4 s name d le_rfl]
  refine (h.adjustProxiedBy le_rfl name _).mono fun t ht => ht.congr (fun p i hi => ?_) fun w => ?_
  · -- only over `i + 1` links does it arrive at depth `i`
    have hcarried : carried b.up 4 name (fun i => if i = 0 then d else 0) p i =
        hits b.up (i + 1) name p * d := by
      rw [carried, sum_eq_single i]
      · simp
      · intro e _ hne
        split
        · rw [if_neg (by omega), mul_zero]
        · rw [mul_zero]
      · intro hnot
        exact absurd (mem_range.mpr hi) hnot
    dsimp only
    rw [hcarried]
  · simp [sumUpTo]

/-! ## Nothing that is summed up -/

theorem proxyOf_eq_of_map_eq {f : Account → Account}
    (hf : ∀ a, ((f a).name, (f a).proxy) = (a.name, a.proxy)) {l l' : List Account}
    (h : l'.map f = l.map f) : proxyOf l' = proxyOf l := by
  have hmap : ∀ accounts : List Account, proxyOf (accounts.map f) = proxyOf accounts := by
    intro accounts
    funext n
    have hname : (fun a : Account => decide (a.name = n)) ∘ f = fun a => decide (a.name = n) := by
      funext a
      show decide ((f a).name = n) = decide (a.name = n)
      rw [(Prod.mk.inj (hf a)).1]
    unfold proxyOf
    rw [List.find?_map, hname]
    cases accounts.find? fun a => a.name = n with
    | none => rfl
    | some a =>
        dsimp only [Option.map_some]
        rw [(Prod.mk.inj (hf a)).2]
  rw [← hmap l', h, hmap]

/-- Only names, proxies, shares, votes and routes are in the books. -/
theorem Books.same (h : Books b s)
    (haccounts : t.accounts.rows.map Account.stake = s.accounts.rows.map Account.stake)
    (hwitnesses : t.witnesses.rows.map (fun w => (w.owner, w.votes)) =
      s.witnesses.rows.map fun w => (w.owner, w.votes))
    (hvotes : t.witnessVotes = s.witnessVotes)
    (hroutes : t.withdrawVestingRoutes = s.withdrawVestingRoutes) : Books b t := by
  have howners : t.witnesses.rows.map Witness.owner = s.witnesses.rows.map Witness.owner := by
    have := congrArg (List.map Prod.fst) hwitnesses
    rwa [List.map_map, List.map_map] at this
  have hnames : t.accounts.rows.map Account.name = s.accounts.rows.map Account.name :=
    map_eq_of_map_eq haccounts fun _ => rfl
  exact
    { ballots := hvotes.trans h.ballots
      up := (proxyOf_eq_of_map_eq (f := Account.stake) (fun _ => rfl) haccounts).trans h.up
      stakes := by
        rw [← h.stakes]
        exact map_eq_of_map_eq haccounts fun _ => rfl
      names := by rw [hnames]; exact h.names
      owners := by rw [howners]; exact h.owners
      acyclic := h.acyclic
      proxyExists := by rw [hnames]; exact h.proxyExists
      nullRoot := h.nullRoot
      nodup := h.nodup
      voterExists := by rw [hnames]; exact h.voterExists
      voterRoot := h.voterRoot
      voterNull := h.voterNull
      candidate := by rw [howners]; exact h.candidate
      percents := by rw [hroutes]; exact h.percents
      bounded := forall_of_map_eq haccounts
        (fun _ => ⟨fun h => ⟨h.1, h.2, h.3, h.4⟩, fun h => ⟨h.1, h.2, h.3, h.4⟩⟩) h.bounded
      counted := forall_of_map_eq haccounts (fun _ => Iff.rfl) h.counted
      proxied := forall_of_map_eq haccounts (fun _ => Iff.rfl) h.proxied
      votes := by
        intro w hw
        have hmem : (w.owner, w.votes) ∈ s.witnesses.rows.map fun w => (w.owner, w.votes) := by
          rw [← hwitnesses]
          exact List.mem_map_of_mem hw
        obtain ⟨c, hc, heq⟩ := List.mem_map.mp hmem
        rw [Prod.mk.injEq] at heq
        rw [← heq.2, ← heq.1, h.votes c hc]
        congr 1
        exact (sumOf_eq_of_map_eq haccounts fun _ => rfl).symm }

end Database

end Gamebank.Ledger
