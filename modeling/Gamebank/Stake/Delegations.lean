import Gamebank.Stake.Power

/-!
# The ledger of delegations

An account counts the vesting shares it has delegated, those on their way
back included, and those it has received. The objects behind these two
numbers are in two tables. `Delegations out received` says that the counters
agree with the tables up to `out` and `received`, which the steps of an
operation bring back to zero.

One operation does not: when `initminer` creates an account it delegates what
the fee is worth, without paying the fee. A fee worth `2 ^ 63` or more shares
becomes a negative number of shares, which is counted but gets no object.
-/

namespace Gamebank.Ledger

open Gamebank.Lib Gamebank.Protocol

/-- The vesting shares a GBC amount is worth, before they are cut to 64 bits. -/
def GlobalProperties.sharesFor (p : GlobalProperties) (amount : Int) : Int :=
  if p.totalVestingFundGbc = 0 ∨ p.totalVestingShares = 0 then scaled amount 1000000 1000
  else scaled amount p.totalVestingShares p.totalVestingFundGbc

theorem GlobalProperties.times_sharesFor {p : GlobalProperties} {price : Price}
    (hprice : p.getVestingSharePrice = .ok price) (amount : Int) :
    Returns ((Asset.gbc amount).times price) fun shares =>
      shares.amount = toInt64 (p.sharesFor amount) := by
  unfold getVestingSharePrice Price.make at hprice
  unfold sharesFor
  split at hprice
  next hzero =>
    obtain ⟨_, -, hprice⟩ := bind_eq_ok.mp hprice
    rw [pure_eq_ok] at hprice
    subst hprice
    rw [if_pos hzero, Asset.times]
    exact .ite (fun _ => .ensure fun _ => .ensure fun _ => .pure rfl) fun hne => absurd rfl hne
  next hzero =>
    obtain ⟨_, -, hprice⟩ := bind_eq_ok.mp hprice
    rw [pure_eq_ok] at hprice
    subst hprice
    rw [if_neg hzero, Asset.times]
    refine .ite (fun heq => ?_) fun _ => .ite (fun _ => ?_) fun hne => absurd rfl hne
    · simp [Asset.gbc, Asset.gbs] at heq
    · exact .ensure fun _ => .ensure fun _ => .pure rfl

theorem GlobalProperties.sharesFor_nonneg (p : GlobalProperties) (amount : Int) :
    0 ≤ p.sharesFor amount := by
  have hscaled : ∀ n d, 0 ≤ scaled amount n d := by
    intro n d
    unfold scaled toUInt128
    exact Int.ediv_nonneg (Int.emod_nonneg _ (by decide)) (Int.emod_nonneg _ (by decide))
  unfold sharesFor
  split
  · exact hscaled _ _
  · exact hscaled _ _

/-- Fewer than `2 ^ 63` shares are what they are worth. -/
theorem GlobalProperties.times_of_fits {p : GlobalProperties} {price : Price} {shares : Asset}
    {amount : Int} (hprice : p.getVestingSharePrice = .ok price)
    (htimes : (Asset.gbc amount).times price = .ok shares)
    (hfits : p.sharesFor amount < 9223372036854775808) : shares.amount = p.sharesFor amount := by
  rw [times_sharesFor hprice amount shares htimes]
  have hnonneg := p.sharesFor_nonneg amount
  unfold toInt64
  omega

namespace Database

variable {s t : Database} {name : AccountName} {a a' : Account} {out received : AccountName → Int}

/-- The shares `name` has delegated, those on their way back included. -/
def delegatedBy (s : Database) (name : AccountName) : Int :=
  s.vestingDelegations.total (fun d => if d.delegator = name then d.vestingShares else 0)
    + s.vestingDelegationExpirations.total fun e =>
      if e.delegator = name then e.vestingShares else 0

/-- The shares that have been delegated to `name`. -/
def delegatedTo (s : Database) (name : AccountName) : Int :=
  s.vestingDelegations.total fun d => if d.delegatee = name then d.vestingShares else 0

structure Delegations (out received : AccountName → Int) (s : Database) : Prop where
  names : (s.accounts.rows.map Account.name).Nodup
  delegator : ∀ d ∈ s.vestingDelegations.rows,
    d.delegator ∈ s.accounts.rows.map Account.name ∧ d.delegator ≠ nullAccount
  delegatee : ∀ d ∈ s.vestingDelegations.rows, d.delegatee ∈ s.accounts.rows.map Account.name
  positive : ∀ d ∈ s.vestingDelegations.rows, 0 ≤ d.vestingShares
  returning : ∀ e ∈ s.vestingDelegationExpirations.rows,
    e.delegator ∈ s.accounts.rows.map Account.name ∧ e.delegator ≠ nullAccount
  returned : ∀ e ∈ s.vestingDelegationExpirations.rows, 0 ≤ e.vestingShares
  delegated : ∀ a ∈ s.accounts.rows, a.delegatedVestingShares = s.delegatedBy a.name + out a.name
  received : ∀ a ∈ s.accounts.rows,
    a.receivedVestingShares = s.delegatedTo a.name + received a.name

/-- Every counter is right. -/
def Delegated (s : Database) : Prop := Delegations (fun _ => 0) (fun _ => 0) s

/-! ## Steps -/

theorem Delegations.congr (h : Delegations out received s) {out' received' : AccountName → Int}
    (hout : ∀ n, out n = out' n) (hreceived : ∀ n, received n = received' n) :
    Delegations out' received' s := by
  have h1 : out = out' := funext hout
  have h2 : received = received' := funext hreceived
  exact h1 ▸ h2 ▸ h

theorem Delegations.samePower (h : Delegations out received s) (hs : SamePower s t) :
    Delegations out received t := by
  have hnames : t.accounts.rows.map Account.name = s.accounts.rows.map Account.name :=
    map_eq_of_map_eq hs.accounts fun _ => rfl
  have hby : t.delegatedBy = s.delegatedBy := by
    funext n
    rw [delegatedBy, delegatedBy, hs.delegations, hs.expirations]
  have hto : t.delegatedTo = s.delegatedTo := by
    funext n
    rw [delegatedTo, delegatedTo, hs.delegations]
  exact
    { names := by rw [hnames]; exact h.names
      delegator := by rw [hnames, hs.delegations]; exact h.delegator
      delegatee := by rw [hnames, hs.delegations]; exact h.delegatee
      positive := by rw [hs.delegations]; exact h.positive
      returning := by rw [hnames, hs.expirations]; exact h.returning
      returned := by rw [hs.expirations]; exact h.returned
      delegated := by
        rw [hby]
        exact forall_of_map_eq hs.accounts (fun _ => Iff.rfl) h.delegated
      received := by
        rw [hto]
        exact forall_of_map_eq hs.accounts (fun _ => Iff.rfl) h.received }

/-- An account modified: `x` more delegated, `y` more received. -/
theorem Delegations.edit (h : Delegations out received s) (he : Edited s t name a a')
    (hname : a'.name = a.name) {x y : Int}
    (hout : a'.delegatedVestingShares = a.delegatedVestingShares + x)
    (hin : a'.receivedVestingShares = a.receivedVestingShares + y) :
    Delegations (fun n => out n + if n = name then x else 0)
      (fun n => received n + if n = name then y else 0) t := by
  have hrest := he.rest
  have hrows := he.replaces
  have hn := he.name_eq
  have hnames : t.accounts.rows.map Account.name = s.accounts.rows.map Account.name :=
    hrows.map_eq hname
  have hdelegations : t.vestingDelegations = s.vestingDelegations := by rw [hrest]
  have hexpirations :
    t.vestingDelegationExpirations = s.vestingDelegationExpirations := by rw [hrest]
  have hby : t.delegatedBy = s.delegatedBy := by
    funext n
    rw [delegatedBy, delegatedBy, hdelegations, hexpirations]
  have hto : t.delegatedTo = s.delegatedTo := by
    funext n
    rw [delegatedTo, delegatedTo, hdelegations]
  exact
    { names := by rw [hnames]; exact h.names
      delegator := by rw [hnames, hdelegations]; exact h.delegator
      delegatee := by rw [hnames, hdelegations]; exact h.delegatee
      positive := by rw [hdelegations]; exact h.positive
      returning := by rw [hnames, hexpirations]; exact h.returning
      returned := by rw [hexpirations]; exact h.returned
      delegated := by
        intro c hc
        rw [hby]
        rcases hrows.mem_or h.names hc with rfl | ⟨hc, hne⟩
        · rw [hout, hname, if_pos hn, h.delegated a he.mem]
          ring
        · rw [if_neg (hn ▸ hne), h.delegated c hc]
          ring
      received := by
        intro c hc
        rw [hto]
        rcases hrows.mem_or h.names hc with rfl | ⟨hc, hne⟩
        · rw [hin, hname, if_pos hn, h.received a he.mem]
          ring
        · rw [if_neg (hn ▸ hne), h.received c hc]
          ring }

/-- Other tables: the counters are off by what came or went. -/
theorem Delegations.setTables (h : Delegations out received s)
    {delegations : Table VestingDelegation} {expirations : Table VestingDelegationExpiration}
    (ht : t =
      { s with vestingDelegations := delegations, vestingDelegationExpirations := expirations })
    (hdelegations : ∀ d ∈ delegations.rows, d.delegator ∈ s.accounts.rows.map Account.name ∧
      d.delegator ≠ nullAccount ∧ d.delegatee ∈ s.accounts.rows.map Account.name ∧
        0 ≤ d.vestingShares)
    (hexpirations : ∀ e ∈ expirations.rows, e.delegator ∈ s.accounts.rows.map Account.name ∧
      e.delegator ≠ nullAccount ∧ 0 ≤ e.vestingShares) :
    Delegations (fun n => out n + (s.delegatedBy n - t.delegatedBy n))
      (fun n => received n + (s.delegatedTo n - t.delegatedTo n)) t := by
  have haccounts : t.accounts = s.accounts := by rw [ht]
  have hd : t.vestingDelegations = delegations := by rw [ht]
  have he : t.vestingDelegationExpirations = expirations := by rw [ht]
  exact
    { names := by rw [haccounts]; exact h.names
      delegator := by
        rw [haccounts, hd]
        exact fun d hd => ⟨(hdelegations d hd).1, (hdelegations d hd).2.1⟩
      delegatee := by
        rw [haccounts, hd]
        exact fun d hd => (hdelegations d hd).2.2.1
      positive := by
        rw [hd]
        exact fun d hd => (hdelegations d hd).2.2.2
      returning := by
        rw [haccounts, he]
        exact fun e he => ⟨(hexpirations e he).1, (hexpirations e he).2.1⟩
      returned := by
        rw [he]
        exact fun e he => (hexpirations e he).2.2
      delegated := by
        intro c hc
        rw [haccounts] at hc
        rw [h.delegated c hc]
        ring
      received := by
        intro c hc
        rw [haccounts] at hc
        rw [h.received c hc]
        ring }

/-- A new account that counts `amount` as received. -/
theorem Delegations.addAccount (h : Delegations out received s)
    (hfresh : name ∉ s.accounts.rows.map Account.name) {amount : Int}
    (ha : a.stake = { Account.make name with receivedVestingShares := amount }) {n : Nat}
    (ht : t = { s with accounts := ⟨n, s.accounts.rows ++ [a]⟩ }) (hout : out name = 0)
    (hreceived : received name = 0) :
    Delegations out (fun m => received m + if m = name then amount else 0) t := by
  have hname : a.name = name := congrArg Account.name ha
  have hout' : a.delegatedVestingShares = 0 := congrArg Account.delegatedVestingShares ha
  have hin : a.receivedVestingShares = amount := congrArg Account.receivedVestingShares ha
  -- no delegation and no expiration refers to the new name
  have hby : s.delegatedBy name = 0 := by
    have h1 : s.vestingDelegations.total
        (fun d => if d.delegator = name then d.vestingShares else 0) = 0 := by
      apply sumOf_eq_zero
      intro d hd
      apply if_neg
      rintro rfl
      exact hfresh (h.delegator d hd).1
    have h2 : s.vestingDelegationExpirations.total
        (fun e => if e.delegator = name then e.vestingShares else 0) = 0 := by
      apply sumOf_eq_zero
      intro e he
      apply if_neg
      rintro rfl
      exact hfresh (h.returning e he).1
    rw [delegatedBy, h1, h2, add_zero]
  have hto : s.delegatedTo name = 0 := by
    apply sumOf_eq_zero
    intro d hd
    apply if_neg
    rintro rfl
    exact hfresh (h.delegatee d hd)
  have hnames : t.accounts.rows.map Account.name = s.accounts.rows.map Account.name ++ [name] := by
    rw [ht, List.map_append, ← hname]
    rfl
  have hold : ∀ m, m ∈ s.accounts.rows.map Account.name → m ∈ t.accounts.rows.map Account.name := by
    intro m hm
    rw [hnames]
    exact List.mem_append_left _ hm
  have hmem : ∀ c ∈ t.accounts.rows, c ∈ s.accounts.rows ∨ c = a := by
    intro c hc
    rw [ht] at hc
    simpa using hc
  have hdelegations : t.vestingDelegations = s.vestingDelegations := by rw [ht]
  have hexpirations : t.vestingDelegationExpirations = s.vestingDelegationExpirations := by rw [ht]
  have hby' : t.delegatedBy = s.delegatedBy := by
    funext n
    rw [delegatedBy, delegatedBy, hdelegations, hexpirations]
  have hto' : t.delegatedTo = s.delegatedTo := by
    funext n
    rw [delegatedTo, delegatedTo, hdelegations]
  exact
    { names := by
        rw [hnames]
        exact nodup_append_single h.names hfresh
      delegator := by
        rw [hdelegations]
        exact fun d hd => ⟨hold _ (h.delegator d hd).1, (h.delegator d hd).2⟩
      delegatee := by
        rw [hdelegations]
        exact fun d hd => hold _ (h.delegatee d hd)
      positive := by rw [hdelegations]; exact h.positive
      returning := by
        rw [hexpirations]
        exact fun e he => ⟨hold _ (h.returning e he).1, (h.returning e he).2⟩
      returned := by rw [hexpirations]; exact h.returned
      delegated := by
        intro c hc
        rw [hby']
        rcases hmem c hc with hc | rfl
        · exact h.delegated c hc
        · rw [hout', hname, hby, hout, add_zero]
      received := by
        intro c hc
        rw [hto']
        rcases hmem c hc with hc | rfl
        · have hne : c.name ≠ name := fun heq => hfresh (heq ▸ List.mem_map_of_mem hc)
          rw [if_neg hne, add_zero]
          exact h.received c hc
        · rw [hin, hname, hto, hreceived, if_pos rfl]
          ring }

/-! ## Objects that come and go -/

theorem Delegations.of_tables (h : Delegations out received s) :
    (s.vestingDelegations.All fun d => d.delegator ∈ s.accounts.rows.map Account.name ∧
      d.delegator ≠ nullAccount ∧ d.delegatee ∈ s.accounts.rows.map Account.name ∧
        0 ≤ d.vestingShares) ∧
    s.vestingDelegationExpirations.All fun e => e.delegator ∈ s.accounts.rows.map Account.name ∧
      e.delegator ≠ nullAccount ∧ 0 ≤ e.vestingShares :=
  ⟨fun d hd => ⟨(h.delegator d hd).1, (h.delegator d hd).2, h.delegatee d hd, h.positive d hd⟩,
    fun e he => ⟨(h.returning e he).1, (h.returning e he).2, h.returned e he⟩⟩

theorem Delegations.addDelegation (h : Delegations out received s)
    {delegator delegatee : AccountName}
    (hdelegator : delegator ∈ s.accounts.rows.map Account.name) (hnull : delegator ≠ nullAccount)
    (hdelegatee : delegatee ∈ s.accounts.rows.map Account.name) {shares : Int}
    (hshares : 0 ≤ shares)
    (time : Nat) :
    Delegations (fun n => out n - if n = delegator then shares else 0)
      (fun n => received n - if n = delegatee then shares else 0)
      { s with
        vestingDelegations := s.vestingDelegations.create fun id =>
          ⟨id, delegator, delegatee, shares, time⟩ } := by
  have ht := h.setTables rfl (h.of_tables.1.create (fun id =>
    ⟨id, delegator, delegatee, shares, time⟩) ⟨hdelegator, hnull, hdelegatee, hshares⟩)
      h.of_tables.2
  refine ht.congr (fun n => ?_) fun n => ?_
  · simp only [delegatedBy, Table.total_create, eq_comm (a := n)]
    ring
  · simp only [delegatedTo, Table.total_create, eq_comm (a := n)]
    ring

theorem Delegations.setShares (h : Delegations out received s) {p : VestingDelegation → Bool}
    {d : VestingDelegation} (hd : s.vestingDelegations.find? p = some d) {shares : Int}
    (hshares : 0 ≤ shares) :
    Delegations (fun n => out n - if n = d.delegator then shares - d.vestingShares else 0)
      (fun n => received n - if n = d.delegatee then shares - d.vestingShares else 0)
      { s with
        vestingDelegations := s.vestingDelegations.modify p fun d =>
          { d with vestingShares := shares } } := by
  have hall := h.of_tables.1.modify (p := p) (f := fun d => { d with vestingShares := shares })
    fun d hd =>
      have hold := h.of_tables.1.of_find? hd
      ⟨hold.1, hold.2.1, hold.2.2.1, hshares⟩
  refine (h.setTables rfl hall h.of_tables.2).congr (fun n => ?_) fun n => ?_
  · simp only [delegatedBy, Table.total_modify hd, eq_comm (a := n)]
    split <;> ring
  · simp only [delegatedTo, Table.total_modify hd, eq_comm (a := n)]
    split <;> ring

theorem Delegations.removeDelegation (h : Delegations out received s) {p : VestingDelegation → Bool}
    {d : VestingDelegation} (hd : s.vestingDelegations.find? p = some d) :
    Delegations (fun n => out n + if n = d.delegator then d.vestingShares else 0)
      (fun n => received n + if n = d.delegatee then d.vestingShares else 0)
      { s with vestingDelegations := s.vestingDelegations.remove p } := by
  refine (h.setTables rfl h.of_tables.1.remove h.of_tables.2).congr (fun n => ?_) fun n => ?_
  · simp only [delegatedBy, Table.total_remove hd, eq_comm (a := n)]
    ring
  · simp only [delegatedTo, Table.total_remove hd, eq_comm (a := n)]
    ring

theorem Delegations.addExpiration (h : Delegations out received s) {delegator : AccountName}
    (hdelegator : delegator ∈ s.accounts.rows.map Account.name) (hnull : delegator ≠ nullAccount)
    {shares : Int} (hshares : 0 ≤ shares) (time : Nat) :
    Delegations (fun n => out n - if n = delegator then shares else 0) received
      { s with
        vestingDelegationExpirations := s.vestingDelegationExpirations.create fun id =>
          ⟨id, delegator, shares, time⟩ } := by
  have ht := h.setTables rfl h.of_tables.1 (h.of_tables.2.create (fun id =>
    ⟨id, delegator, shares, time⟩) ⟨hdelegator, hnull, hshares⟩)
  refine ht.congr (fun n => ?_) fun n => ?_
  · simp only [delegatedBy, Table.total_create, eq_comm (a := n)]
    ring
  · simp only [delegatedTo]
    ring

theorem Delegations.removeExpiration (h : Delegations out received s)
    {p : VestingDelegationExpiration → Bool} {e : VestingDelegationExpiration}
    (he : s.vestingDelegationExpirations.find? p = some e) :
    Delegations (fun n => out n + if n = e.delegator then e.vestingShares else 0) received
      { s with vestingDelegationExpirations := s.vestingDelegationExpirations.remove p } := by
  refine (h.setTables rfl h.of_tables.1 h.of_tables.2.remove).congr (fun n => ?_) fun n => ?_
  · simp only [delegatedBy, Table.total_remove he, eq_comm (a := n)]
    ring
  · simp only [delegatedTo]
    ring

/-! ## Delegating -/

theorem getAccount_name_mem (h : s.getAccount name = .ok a) :
    name ∈ s.accounts.rows.map Account.name := by
  obtain ⟨hmem, rfl⟩ := getAccount_mem h
  exact List.mem_map_of_mem hmem

theorem find?_isDelegation {delegations : Table VestingDelegation}
    {delegator delegatee : AccountName}
    {d : VestingDelegation}
    (h : (delegations.find? fun d => isDelegation delegator delegatee d) = some d) :
    d.delegator = delegator ∧ d.delegatee = delegatee := by
  have hd := List.find?_some h
  simpa [isDelegation] using hd

theorem Delegated.delegateVestingShares (h : Delegated s) (delegator delegatee : AccountName)
    (shares : Int) : Returns (s.delegateVestingShares delegator delegatee shares) Delegated := by
  unfold Database.delegateVestingShares
  refine .bind_eq fun _ hsigned => .ensure fun hself => .ensure fun hnonneg => .bind_eq fun a ha =>
    .bind_eq fun c hc => .bind_any fun _ => .bind_any fun _ => .bind_any fun _ =>
    .bind_any fun ⟨_, _⟩ => ?_
  have hnull := signedBy_eq_ok.mp hsigned
  have hshares : 0 ≤ shares := by simpa using hnonneg
  dsimp only
  split
  · -- a new delegation
    refine .ensure fun _ => .ensure fun _ => ?_
    have hnew := Delegations.addDelegation h (getAccount_name_mem ha) hnull (getAccount_name_mem hc)
      hshares s.headBlockTime
    refine .bind (modifyAccount_spec _ delegator _) fun t ⟨a1, he1⟩ => ?_
    have ht := hnew.edit he1 rfl (x := shares) (y := 0) rfl (add_zero _).symm
    refine (modifyAccount_spec t delegatee _).mono fun u ⟨a2, he2⟩ => ?_
    have hu := ht.edit he2 rfl (x := 0) (y := shares) (add_zero _).symm rfl
    exact hu.congr (fun n => by simp) fun n => by simp
  next d hfind =>
    obtain ⟨hdelegator, hdelegatee⟩ := find?_isDelegation hfind
    refine .ite (fun hmore => ?_) fun hless => ?_
    · -- more is delegated
      refine .bind_eq fun delta hdelta => .ensure fun _ => .ensure fun _ => ?_
      obtain rfl := checkedSub_eq_ok hdelta
      refine .bind (modifyAccount_spec s delegator _) fun t ⟨a1, he1⟩ => ?_
      have ht := Delegations.edit h he1 rfl (x := shares - d.vestingShares) (y := 0) rfl
        (add_zero _).symm
      refine .bind (modifyAccount_spec t delegatee _) fun u ⟨a2, he2⟩ => .pure ?_
      have hu := ht.edit he2 rfl (x := 0) (y := shares - d.vestingShares) (add_zero _).symm rfl
      have hsame : u.vestingDelegations = s.vestingDelegations := by rw [he2.rest, he1.rest]
      have hset := hu.setShares (by rw [hsame]; exact hfind) hshares
      rw [hdelegator, hdelegatee] at hset
      exact hset.congr (fun n => by simp) fun n => by simp
    · -- less is delegated, and the rest is on its way back
      refine .bind_eq fun delta hdelta => .bind_any fun _ => ?_
      obtain rfl := checkedSub_eq_ok hdelta
      have hback : 0 ≤ d.vestingShares - shares := by omega
      have hnew := Delegations.addExpiration h (getAccount_name_mem ha) hnull hback
        (max (addSeconds s.headBlockTime s.props.delegationReturnPeriod) d.minDelegationTime)
      refine .bind (modifyAccount_spec _ delegatee _) fun t ⟨a1, he1⟩ => .pure ?_
      have ht := hnew.edit he1 rfl (x := 0) (y := -(d.vestingShares - shares)) (add_zero _).symm
        (sub_eq_add_neg _ _)
      have hfind' : (t.vestingDelegations.find? fun d => isDelegation delegator delegatee d) =
          some d := by
        rw [he1.rest]
        exact hfind
      split
      · have hset := ht.setShares hfind' hshares
        rw [hdelegator, hdelegatee] at hset
        exact hset.congr (fun n => by split <;> simp) fun n => by split <;> simp
      next hzero =>
        have hremoved := ht.removeDelegation hfind'
        rw [hdelegator, hdelegatee] at hremoved
        have hshares0 : shares = 0 := by omega
        subst hshares0
        exact hremoved.congr (fun n => by simp) fun n => by split <;> simp

/-- Shares that have come back are delegated no more. -/
theorem Delegated.clearExpiredDelegation (h : Delegated s) (id : Nat) :
    Returns (s.clearExpiredDelegation id) Delegated := by
  unfold Database.clearExpiredDelegation
  refine .bind_eq fun e hfind => .ensure fun _ => ?_
  refine .bind (modifyAccount_spec s e.delegator _) fun t ⟨a, he⟩ => .pure ?_
  have ht := Delegations.edit h he rfl (x := -e.vestingShares) (y := 0) (sub_eq_add_neg _ _)
    (add_zero _).symm
  have hfind' : (t.vestingDelegationExpirations.find? fun e => e.id = id) = some e := by
    rw [he.rest]
    exact require_eq_ok.mp hfind
  exact (ht.removeExpiration hfind').congr (fun n => by split <;> simp) fun n => by simp

/-- A delegation made at the creation of an account is called back. -/
theorem Delegated.reclaimAccountCreationDelegation (h : Delegated s) (id : Nat) :
    Returns (s.reclaimAccountCreationDelegation id) Delegated := by
  unfold Database.reclaimAccountCreationDelegation
  refine .bind_eq fun d hfind => .ensure fun _ => ?_
  have hfind := require_eq_ok.mp hfind
  obtain ⟨hdelegator, hnull, -, hshares⟩ := (Delegations.of_tables h).1.of_find? hfind
  refine .bind (modifyAccount_spec s d.delegatee _) fun t ⟨a, he⟩ => .pure ?_
  have ht := Delegations.edit h he rfl (x := 0) (y := -d.vestingShares) (add_zero _).symm
    (sub_eq_add_neg _ _)
  have hfind' : (t.vestingDelegations.find? fun d => d.id = id) = some d := by
    rw [he.rest]
    exact hfind
  have hdelegator' : d.delegator ∈ t.accounts.rows.map Account.name := by
    rw [he.replaces.map_eq (g := Account.name) rfl]
    exact hdelegator
  have hback := (ht.removeDelegation hfind').addExpiration hdelegator' hnull hshares
    (max (addSeconds t.headBlockTime t.props.delegationReturnPeriod) d.minDelegationTime)
  exact hback.congr (fun n => by split <;> simp) fun n => by split <;> simp

/-! ## New accounts -/

/-- An account created with a delegation: the delegator has counted the shares,
the object is there unless there is nothing to delegate. -/
theorem Delegated.createWithDelegation (h : Delegated s) {creator : AccountName}
    (hnull : creator ≠ nullAccount) (newName : AccountName) {shares : Int} (hshares : 0 ≤ shares)
    {f : Account → Account}
    (hname : ∀ a, (f a).name = a.name)
    (hout : ∀ a, (f a).delegatedVestingShares = a.delegatedVestingShares + shares)
    (hin : ∀ a, (f a).receivedVestingShares = a.receivedVestingShares) :
    Returns (s.modifyAccount creator f) fun t =>
      Returns (t.createAccount newName creator shares) fun u =>
        Delegated (u.createDelegation creator newName shares) := by
  refine (modifyAccount_spec s creator f).mono fun t ⟨a, he⟩ => ?_
  have ht := Delegations.edit h he (hname a) (x := shares) (y := 0) (hout a) (by rw [hin, add_zero])
  refine (createAccount_spec t newName creator shares).mono fun u ⟨hfresh, c, hc, hu⟩ => ?_
  have hcreator : creator ∈ t.accounts.rows.map Account.name := by
    rw [he.replaces.map_eq (g := Account.name) (hname a)]
    exact getAccount_name_mem he.found
  have hne : newName ≠ creator := fun heq => hfresh (heq ▸ hcreator)
  have hu' := ht.addAccount hfresh hc hu (by simp [hne]) (by simp)
  have hcname : c.name = newName := congrArg Account.name hc
  have hnames :
    u.accounts.rows.map Account.name = t.accounts.rows.map Account.name ++ [newName] := by
    rw [hu, List.map_append, ← hcname]
    rfl
  unfold Database.createDelegation
  split
  · have hold : creator ∈ u.accounts.rows.map Account.name := by simp [hnames, hcreator]
    have hnew : newName ∈ u.accounts.rows.map Account.name := by simp [hnames]
    have hdone := hu'.addDelegation hold hnull hnew hshares
      (addSeconds u.headBlockTime createAccountDelegationTime)
    exact hdone.congr (fun n => by simp) fun n => by simp
  next hzero =>
    have hzero : shares = 0 := by omega
    subst hzero
    exact hu'.congr (fun n => by simp) fun n => by simp

/-- An account modified in other fields. -/
theorem Delegated.modifyAccount (h : Delegated s) (name : AccountName) {f : Account → Account}
    (hname : ∀ a, (f a).name = a.name)
    (hout : ∀ a, (f a).delegatedVestingShares = a.delegatedVestingShares)
    (hin : ∀ a, (f a).receivedVestingShares = a.receivedVestingShares) :
    Returns (s.modifyAccount name f) Delegated := by
  refine (modifyAccount_spec s name f).mono fun t ⟨a, he⟩ => ?_
  have ht := Delegations.edit h he (hname a) (x := 0) (y := 0) (by rw [hout, add_zero])
    (by rw [hin, add_zero])
  exact ht.congr (fun n => by simp) fun n => by simp

theorem Delegated.createAccount (h : Delegated s) (newName creator : AccountName) :
    Returns (s.createAccount newName creator 0) Delegated := by
  refine (createAccount_spec s newName creator 0).mono fun u ⟨hfresh, c, hc, hu⟩ => ?_
  exact (Delegations.addAccount h hfresh hc hu rfl rfl).congr (fun n => rfl) fun n => by simp

theorem Delegated.modifyProps (h : Delegated s) (f : GlobalProperties → GlobalProperties) :
    Returns (s.modifyProps f) Delegated :=
  ((SamePower.refl s).modifyProps f).mono fun _ ht => Delegations.samePower h ht

theorem Delegated.adjustProxiedWitnessVotes (h : Delegated s) (name : AccountName) (d : Int) :
    Returns (s.adjustProxiedWitnessVotes name d) Delegated :=
  ((SamePower.refl s).adjustProxiedWitnessVotes name d).mono fun _ ht => Delegations.samePower h ht

theorem Delegated.sameStake (h : Delegated s) (hs : SameStake s t) : Delegated t :=
  Delegations.samePower h (.of_sameStake hs)

theorem Delegated.createVesting (h : Delegated s) (name : AccountName) (liquid : Asset) :
    Returns (s.createVesting name liquid) Delegated := by
  refine createVesting_cases s name liquid fun _ shares _ _ _ t a he u hu => ?_
  have ht := Delegations.edit h he rfl (x := 0) (y := 0) (add_zero _).symm (add_zero _).symm
  have hu' : SamePower t u := by
    rw [hu]
    exact ⟨rfl, rfl, rfl⟩
  exact Delegated.adjustProxiedWitnessVotes
    ((ht.congr (fun n => by simp) fun n => by simp).samePower hu') name _

/-- A fee that is worth `2 ^ 63` shares or more is delegated as a negative
number, which no object stands for. -/
theorem Delegated.accountCreate (h : Delegated s) (creator newName : AccountName)
    (auths : List AccountName) (fee : Int)
    (hfee : creator = initMinerName → s.props.sharesFor fee < 9223372036854775808) :
    Returns (s.accountCreate creator newName auths fee) Delegated := by
  refine accountCreate_cases s creator newName auths fee
    (fun hminer price shares hprice htimes => ?_)
    fun _ => ?_
  · have hshares : 0 ≤ shares.amount := by
      rw [GlobalProperties.times_of_fits hprice htimes (hfee hminer)]
      exact s.props.sharesFor_nonneg fee
    have hnull : creator ≠ nullAccount := by
      subst hminer
      decide
    refine .bind (h.createWithDelegation hnull newName hshares (fun _ => rfl) (fun _ => rfl)
      fun _ => rfl) fun t ht => ?_
    exact .bind ht fun u hu => .pure hu
  · refine .bind (h.modifyAccount creator (fun _ => rfl) (fun _ => rfl) fun _ => rfl) fun t ht => ?_
    refine .bind (ht.createAccount newName creator) fun u hu => ?_
    exact .ite (fun _ => hu.createVesting newName _) fun _ => .ok hu

theorem Delegated.accountCreateWithDelegation (h : Delegated s) (creator newName : AccountName)
    (auths : List AccountName) (fee delegation : Int) :
    Returns (s.accountCreateWithDelegation creator newName auths fee delegation) Delegated := by
  refine accountCreateWithDelegation_cases s creator newName auths fee delegation
    fun hnull hdelegation _ _ _ => ?_
  refine .bind (h.createWithDelegation hnull newName hdelegation (fun _ => rfl) (fun _ => rfl)
    fun _ => rfl) fun t ht => ?_
  refine .bind ht fun u hu => ?_
  exact .ite (fun _ => Delegated.createVesting hu newName _) fun _ => .ok hu

theorem Delegated.createClaimedAccount (h : Delegated s) (creator newName : AccountName)
    (auths : List AccountName) :
    Returns (s.createClaimedAccount creator newName auths) Delegated := by
  refine createClaimedAccount_cases s creator newName auths ?_
  refine .bind (h.modifyAccount creator (fun _ => rfl) (fun _ => rfl) fun _ => rfl) fun t ht => ?_
  exact ht.createAccount newName creator

/-! ## Shares that come and go -/

theorem Delegated.transferToVesting (h : Delegated s) (sender recipient : AccountName)
    (amount : Asset) : Returns (s.transferToVesting sender recipient amount) Delegated := by
  exact transferToVesting_cases s sender recipient amount fun t name ht _ =>
    (h.sameStake ht).createVesting name amount

theorem Delegated.claimRewardBalance (h : Delegated s) (account : AccountName)
    (gbc gbd vests : Int) : Returns (s.claimRewardBalance account gbc gbd vests) Delegated := by
  refine claimRewardBalance_cases s account gbc gbd vests fun _ t ht u a _ he v hv _ => ?_
  have hu := Delegations.edit (h.sameStake ht) he rfl (x := 0) (y := 0) (add_zero _).symm
    (add_zero _).symm
  have hv' : SamePower u v := by
    rw [hv]
    exact ⟨rfl, rfl, rfl⟩
  exact Delegated.adjustProxiedWitnessVotes
    ((hu.congr (fun n => by simp) fun n => by simp).samePower hv') account _

theorem Delegated.withdrawVesting (h : Delegated s) (account : AccountName) (shares : Int) :
    Returns (s.withdrawVesting account shares) Delegated :=
  withdrawVesting_cases s account shares fun _ _ _ _ _ _ _ _ =>
    h.modifyAccount account (fun _ => rfl) (fun _ => rfl) fun _ => rfl

theorem Delegated.processVestingWithdrawal (h : Delegated s) (account : AccountName) :
    Returns (s.processVestingWithdrawal account) Delegated := by
  refine processVestingWithdrawal_cases ?_ ?_ ?_ ?_ ?_ h
  · exact fun name x ht => ht.modifyAccount name (fun _ => rfl) (fun _ => rfl) fun _ => rfl
  · exact fun name x ht => ht.modifyAccount name (fun _ => rfl) (fun _ => rfl) fun _ => rfl
  · exact fun w x ht => ht.modifyAccount account (fun _ => rfl) (fun _ => rfl) fun _ => rfl
  · exact fun x y ht => ht.modifyProps _
  · exact fun name d ht => ht.adjustProxiedWitnessVotes name d

theorem Delegated.clearNullAccountBalance (h : Delegated s) :
    Returns s.clearNullAccountBalance Delegated := by
  refine clearNullAccountBalance_cases h Delegated.sameStake fun t ht => ?_
  refine burnVestingShares_cases ht fun a _ x => ?_
  refine .bind (Delegated.modifyProps ht _) fun u hu => ?_
  exact hu.modifyAccount nullAccount (fun _ => rfl) (fun _ => rfl) fun _ => rfl

/-! ## Runs -/

theorem delegated_genesis (supply : Int) : Delegated (genesis supply) where
  names := by
    show ["miners", "null", "temp", "initminer"].Nodup
    decide
  delegator := fun _ hd => absurd hd List.not_mem_nil
  delegatee := fun _ hd => absurd hd List.not_mem_nil
  positive := fun _ hd => absurd hd List.not_mem_nil
  returning := fun _ he => absurd he List.not_mem_nil
  returned := fun _ he => absurd he List.not_mem_nil
  delegated := by
    intro a ha
    simp only [genesis, List.mem_cons, List.not_mem_nil, or_false] at ha
    rcases ha with rfl | rfl | rfl | rfl <;> rfl
  received := by
    intro a ha
    simp only [genesis, List.mem_cons, List.not_mem_nil, or_false] at ha
    rcases ha with rfl | rfl | rfl | rfl <;> rfl

/-- The fee that is delegated when `initminer` creates an account. -/
def lentFee : Call → Option Int
  | .accountCreate creator _ _ fee => if creator = initMinerName then some fee else none
  | _ => none

/-- What `initminer` delegates is fewer than `2 ^ 63` shares. -/
def feeFits (s : Database) (c : Call) : Prop :=
  ∀ fee ∈ lentFee c, s.props.sharesFor fee < 9223372036854775808

instance (s : Database) (c : Call) : Decidable (feeFits s c) :=
  inferInstanceAs (Decidable (∀ fee ∈ lentFee c, _))

/-- **What one call does to the ledger of delegations**: nothing. -/
theorem Delegated.perform (h : Delegated s) (c : Call) (hc : feeFits s c) :
    Returns (s.perform c) Delegated := by
  have same : ∀ {x}, Returns x (SamePower s) → Returns x Delegated :=
    fun hx => hx.mono fun _ ht => Delegations.samePower h ht
  cases c with
  | createVesting name liquid => exact h.createVesting name liquid
  | transferToVesting sender recipient amount => exact h.transferToVesting sender recipient amount
  | claimRewardBalance account gbc gbd vests => exact h.claimRewardBalance account gbc gbd vests
  | withdrawVesting account shares => exact h.withdrawVesting account shares
  | setWithdrawVestingRoute sender recipient percent autoVest =>
      exact same (setWithdrawVestingRoute_samePower s sender recipient percent autoVest)
  | processVestingWithdrawal account => exact h.processVestingWithdrawal account
  | accountWitnessProxy account proxy => exact same (accountWitnessProxy_samePower s account proxy)
  | accountWitnessVote account witness approve =>
      exact same (accountWitnessVote_samePower s account witness approve)
  | declineVotingRights account decline =>
      exact same (declineVotingRights_samePower s account decline)
  | processDeclineVotingRights account =>
      exact same (processDeclineVotingRights_samePower s account)
  | delegateVestingShares delegator delegatee shares =>
      exact h.delegateVestingShares delegator delegatee shares
  | clearExpiredDelegation id => exact h.clearExpiredDelegation id
  | reclaimAccountCreationDelegation id => exact h.reclaimAccountCreationDelegation id
  | accountCreate creator name auths fee => 
      refine h.accountCreate creator name auths fee fun hminer => hc fee ?_
      exact if_pos hminer
  | accountCreateWithDelegation creator name auths fee delegation =>
      exact h.accountCreateWithDelegation creator name auths fee delegation
  | createClaimedAccount creator name auths => exact h.createClaimedAccount creator name auths
  | clearNullAccountBalance => exact h.clearNullAccountBalance
  | witnessUpdate owner key fee size rate =>
      exact same (witnessUpdate_samePower s owner key fee size rate)
  | witnessSetProperties owner key newKey fee size rate limit =>
      exact same (witnessSetProperties_samePower s owner key newKey fee size rate limit)
  | recordMissedBlock owner => exact same (recordMissedBlock_samePower s owner)
  | updateWitnessSchedule =>
      exact same ((updateWitnessSchedule_same s).mono fun _ ht => .of_sameWitnesses ht)
  | other => exact .ok h

theorem Reachable.delegated (h : Reachable feeFits s) : Delegated s :=
  h.invariant delegated_genesis (fun _ t c _ hs hc ht => hs.perform c hc t ht)
    fun _ _ hs hst => hs.sameStake hst

/-- The two counters of an account are what the objects say. -/
def LedgerHolds (s : Database) (a : Account) : Prop :=
  a.delegatedVestingShares = s.delegatedBy a.name ∧ a.receivedVestingShares = s.delegatedTo a.name

instance (s : Database) (a : Account) : Decidable (LedgerHolds s a) :=
  inferInstanceAs (Decidable (_ ∧ _))

/-- **The ledger of delegations.** -/
theorem delegation_ledger (h : Reachable feeFits s) : ∀ a ∈ s.accounts.rows, LedgerHolds s a := by
  intro a ha
  have hd := h.delegated
  constructor
  · rw [Delegations.delegated hd a ha]
    exact add_zero _
  · rw [Delegations.received hd a ha]
    exact add_zero _

/-- `alice` is created with a delegation, and takes back part of one of her own. -/
def firstDelegations : List Call :=
  [.createVesting "initminer" (.gbc 100), .accountCreate "initminer" "alice" [] 10,
    .accountCreate "initminer" "bob" [] 0, .createVesting "alice" (.gbc 50),
    .delegateVestingShares "alice" "bob" 20000, .delegateVestingShares "alice" "bob" 15000]

theorem delegation_ledger_first :
    ∃ t, run feeFits (genesis 3) firstDelegations = .ok t ∧
      (t.accounts.rows.map fun a => (a.name, a.delegatedVestingShares, a.receivedVestingShares)) =
        [("miners", 0, 0), ("null", 0, 0), ("temp", 0, 0), ("initminer", 10000, 0),
          ("alice", 20000, 10000), ("bob", 0, 15000)] ∧
      ∀ a ∈ t.accounts.rows, LedgerHolds t a := by
  obtain ⟨t, hrun, hcounters⟩ := exists_run feeFits (genesis 3) firstDelegations
    (fun t => (t.accounts.rows.map fun a =>
      (a.name, a.delegatedVestingShares, a.receivedVestingShares)) =
        [("miners", 0, 0), ("null", 0, 0), ("temp", 0, 0), ("initminer", 10000, 0),
          ("alice", 20000, 10000), ("bob", 0, 15000)])
    (by decide +kernel)
  exact ⟨t, hrun, by simpa using hcounters, delegation_ledger (.run (.genesis 3) hrun)⟩

/-- A fee of `10 ^ 13` GBC is worth `10 ^ 19` shares, which is a negative number
in 64 bits: `alice` has received it from nobody. -/
theorem delegation_ledger_fails :
    ∃ s, Reachable anyCall s ∧ ¬∀ a ∈ s.accounts.rows, LedgerHolds s a := by
  obtain ⟨t, hrun, hfails⟩ := exists_run anyCall (genesis 0)
    [.accountCreate "initminer" "alice" [] 10000000000000000]
    (fun t => ¬∀ a ∈ t.accounts.rows, LedgerHolds t a) (by decide +kernel)
  exact ⟨t, .run (.genesis 0) hrun, by simpa using hfails⟩

end Database

end Gamebank.Ledger
