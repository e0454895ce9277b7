import Gamebank.Recovery.Runs

/-!
# What account recovery guarantees

The evaluator of `recover_account` looks at no time: that a request has not
expired, and that an owner authority is recent, is left to the blocks, which
remove what is too old. So an account is only recovered with a request of its
partner of the last day and an owner authority of the last thirty
(`Recorded.justified`), and a block does with the three tables what their times
say (`Recorded.exactly`), as long as these times do not wrap.
-/

namespace Gamebank.Recovery

open Gamebank.Lib Gamebank.Protocol
open Gamebank.Ledger (AccountName)
open Gamebank.Ledger.Database (require_eq_ok)

variable {Key : Type} {past : Past Key}

namespace State

variable {s s' : State Key} {time : Nat}

/-- The past has a request of the partner for the new owner authority, which is
less than a day old and was not cancelled since, and a state of the last thirty
days whose owner authority is the recent one. -/
structure Justified (past : Past Key) (s : State Key) (o : RecoverAccount Key) : Prop where
  request : ∃ s0 r,
    past.lastRequest o.accountToRecover = some (s0, .operation (.requestAccountRecovery r)) ∧
    s0.Requests r ∧ r.accountToRecover = o.accountToRecover ∧
      r.newOwnerAuthority = o.newOwnerAuthority ∧
    s.headBlockTime < s0.headBlockTime + accountRecoveryRequestExpirationPeriod
  owner : ∃ x ∈ past, x.1.owner o.accountToRecover = some o.recentOwnerAuthority ∧
    s.headBlockTime ≤ x.1.headBlockTime + ownerAuthRecoveryPeriod

/-- A block of a time removes exactly what has expired, removes exactly the
history that is older than the period, and makes exactly the changes that are
effective, each of them once. -/
structure Exactly (past : Past Key) (s : State Key) (time : Nat) (s' : State Key) : Prop where
  requests : s'.recoveryRequests.rows = s.recoveryRequests.rows.filter fun r => time < r.expires
  expires : ∀ r ∈ s.recoveryRequests.rows, ∃ s0 o,
    past.lastRequest r.accountToRecover = some (s0, .operation (.requestAccountRecovery o)) ∧
      r.expires = s0.headBlockTime + accountRecoveryRequestExpirationPeriod
  history : s'.ownerHistory.rows =
    s.ownerHistory.rows.filter fun h => time ≤ h.lastValidTime + ownerAuthRecoveryPeriod
  changes : s'.changeRequests.rows = s.changeRequests.rows.filter fun c => time < c.effectiveOn
  effective : ∀ c ∈ s.changeRequests.rows, ∃ s0 o,
    past.lastChange c.accountToRecover = some (s0, .operation (.changeRecoveryAccount o)) ∧
      c.recoveryAccount = o.newRecoveryAccount ∧
      c.effectiveOn = s0.headBlockTime + ownerAuthRecoveryPeriod
  made : ∀ c ∈ s.changeRequests.rows, c.effectiveOn ≤ time →
    s'.changeFor c.accountToRecover = none ∧
    ∃ a, s'.getAccount c.accountToRecover = .ok a ∧ a.recoveryAccount = c.recoveryAccount
  others : ∀ name, s.effectiveFor time name = none →
    s'.accounts.find? (fun a => a.name = name) = s.accounts.find? fun a => a.name = name

/-- The accounts that exist keep their recovery accounts. -/
def KeepsRecoveryAccounts (s s' : State Key) : Prop :=
  ∀ name a, s.accounts.find? (fun a => a.name = name) = some a →
    ∃ a', s'.accounts.find? (fun a => a.name = name) = some a' ∧
      a'.recoveryAccount = a.recoveryAccount

theorem KeepsAccounts.keeps (h : s.KeepsAccounts s') : s.KeepsRecoveryAccounts s' := by
  intro name a ha
  have hmap := h name
  rw [ha] at hmap
  exact Option.map_eq_some_iff.mp hmap

/-- A time that has not wrapped. -/
theorem plusPeriod_le (time period : Nat) : plusPeriod time period ≤ time + period :=
  Nat.mod_le _ _

theorem plusPeriod_eq {time period : Nat} (h : time + period < 4294967296) :
    plusPeriod time period = time + period :=
  Nat.mod_eq_of_lt h

/-! ## Blocks -/

theorem Recorded.exactly (hs : Recorded past s) (h : s.Processed time s')
    (hlater : s.headBlockTime < time) (hfits : time + ownerAuthRecoveryPeriod < 4294967296) :
    Exactly past s time s' where
  requests := by rw [h.requests]
  expires := by
    intro r hr
    obtain ⟨s0, o, hlast, -, -, -, hexpires, hpast, -⟩ := hs.request r hr
    refine ⟨s0, o, hlast, hexpires.trans (plusPeriod_eq ?_)⟩
    unfold ownerAuthRecoveryPeriod at hfits
    unfold accountRecoveryRequestExpirationPeriod
    omega
  history := by
    have hinvalid : ∀ x ∈ s.ownerHistory.rows, x.isInvalid time =
        decide (x.lastValidTime + ownerAuthRecoveryPeriod < time) := by
      intro x hx
      have hpast := (hs.history x hx).past
      rw [OwnerAuthorityHistory.isInvalid, plusPeriod_eq (by omega)]
    rw [h.history]
    refine (dropWhile_eq_filter ?_).trans (List.filter_congr fun x hx => ?_)
    · refine hs.sorted.imp_of_mem fun ha hb hle => ?_
      rw [hinvalid _ ha, hinvalid _ hb, decide_eq_true_eq, decide_eq_true_eq]
      omega
    · rw [hinvalid x hx, ← decide_not]
      exact decide_eq_decide.mpr not_lt
  changes := by rw [h.changes]
  effective := by
    intro c hc
    obtain ⟨s0, o, hlast, -, hnew, heffective, hpast⟩ := hs.change c hc
    exact ⟨s0, o, hlast, hnew, heffective.trans (plusPeriod_eq (by omega))⟩
  made := by
    intro c hc heffective
    constructor
    · refine List.find?_eq_none.mpr fun c' hc' haccount => ?_
      rw [h.changes] at hc'
      obtain ⟨hmem, hlater'⟩ := List.mem_filter.mp hc'
      obtain rfl := List.inj_on_of_nodup_map hs.changes.keys hmem hc (of_decide_eq_true haccount)
      exact absurd heffective (not_le.mpr (of_decide_eq_true hlater'))
    · obtain ⟨a, ha⟩ := Option.isSome_iff_exists.mp (hs.changeExists c hc)
      refine ⟨a.withChange (some c), require_eq_ok.mpr ?_, rfl⟩
      rw [h.accounts, ha, effectiveFor_eq hs.indexed hc heffective]
      rfl
  others := by
    intro name hnone
    rw [h.accounts, hnone]
    exact Option.map_id'

/-! ## Operations -/

variable [DecidableEq Key]

/-- What the evaluator of `recover_account` checks. -/
theorem recoverAccount_checks (s : State Key) (o : RecoverAccount Key) :
    Returns (s.recoverAccount o) fun _ =>
      s.wasOwner o.accountToRecover o.recentOwnerAuthority = true ∧
      ∃ r, s.requestFor o.accountToRecover = some r ∧
        r.newOwnerAuthority = o.newOwnerAuthority := by
  unfold recoverAccount
  refine .bind_any fun account => .ensure fun _ => ?_
  split
  next => exact .error
  next request hsome =>
    refine .ensure fun howner => .ensure fun hrecent => .bind_any fun _ =>
      .pure ⟨hrecent, request, hsome, ?_⟩
    exact of_decide_eq_true howner

theorem Recorded.justified (hs : Recorded past s) {o : RecoverAccount Key}
    (h : s.recoverAccount o = .ok s') : Justified past s o := by
  obtain ⟨hrecent, r, hrequest, hnew⟩ := recoverAccount_checks s o s' h
  constructor
  · obtain ⟨hr, haccount⟩ := of_requestFor hrequest
    obtain ⟨s0, o', hlast, hrequests, htarget, howner, hexpires, -, hlive⟩ := hs.request r hr
    rw [haccount] at hlast htarget
    refine ⟨s0, o', hlast, hrequests, htarget, howner.symm.trans hnew, ?_⟩
    have hle := plusPeriod_le s0.headBlockTime accountRecoveryRequestExpirationPeriod
    unfold accountRecoveryRequestExpirationPeriod at hexpires hle ⊢
    omega
  · obtain ⟨x, hx, hfound⟩ := List.any_eq_true.mp hrecent
    rw [Bool.and_eq_true, decide_eq_true_eq, decide_eq_true_eq] at hfound
    obtain ⟨⟨y, hy, howner, htime⟩, -, hlater⟩ := hs.history x hx
    rw [hfound.1, hfound.2] at howner
    exact ⟨y, hy, howner, htime ▸ hlater⟩

/-- Only a block changes a recovery account. -/
theorem Next.keepsRecoveryAccounts {e : Event Key} (h : s.Next e s')
    (he : ∀ time, e ≠ .block time) :
    s.KeepsRecoveryAccounts s' := by
  cases h with
  | operation h => exact (apply_spec _ _ _ h).accounts.keeps
  | block => exact absurd rfl (he _)
  | elsewhere h => exact fun name a ha => ⟨a, h.accounts name a ha, rfl⟩

/-- **Account recovery** over any run. -/
theorem Run.recovery (h : Run past s) :
    (∀ o s', s.recoverAccount o = .ok s' → Justified past s o) ∧
    (∀ time, s.headBlockTime < time → time + ownerAuthRecoveryPeriod < 4294967296 →
      ∃ s', s.applyBlock time = .ok s' ∧ Exactly past s time s') ∧
    ∀ e s', s.Next e s' → (∀ time, e ≠ .block time) → s.KeepsRecoveryAccounts s' := by
  have hs := h.recorded
  refine ⟨fun o s' hrun => hs.justified hrun, fun time hlater hfits => ?_,
    fun e s' hnext he => hnext.keepsRecoveryAccounts he⟩
  obtain ⟨s', hrun, hs'⟩ := applyBlock_spec hs.indexed time
  exact ⟨s', hrun, hs.exactly hs' hlater hfits⟩

/-! ## Two runs -/

/-- The authority of one key. -/
def keyAuthority (key : Nat) : Authority Nat := ⟨1, [], [(key, 1)]⟩

/-- `bob` is the recovery account of `alice`, and nothing has happened up to this block. -/
def quiet (number time : Nat) : State Nat where
  headBlockNumber := number
  headBlockTime := time
  witnesses := .empty
  accounts := ⟨2, [⟨"alice", "bob", 0⟩, ⟨"bob", "", 0⟩]⟩
  authorities := ⟨1, [⟨"alice", keyAuthority 1, keyAuthority 1, keyAuthority 1, 0⟩]⟩
  recoveryRequests := .empty
  ownerHistory := .empty
  changeRequests := .empty

theorem quiet_run (n : Nat) (hn : n < 4294967296) : ∃ past, Run past (quiet n n) := by
  induction n with
  | zero => exact ⟨[], .genesis ⟨rfl, by decide, rfl, rfl, rfl⟩⟩
  | succ n ih =>
      obtain ⟨past, hrun⟩ := ih (by omega)
      have hblock : (quiet n n).applyBlock (n + 1) = .ok (quiet (n + 1) (n + 1)) := rfl
      exact ⟨_, hrun.next (.block (Nat.lt_succ_self n) hn hblock)⟩

/-- Operations one after the other. -/
theorem Run.operations (h : Run past s) {os : List (Operation Key)}
    (hrun : os.foldlM apply s = .ok s') :
    ∃ past', Run past' s' := by
  have hruns : Returns (os.foldlM apply s) fun t => ∃ past', Run past' t := by
    refine .foldlM ⟨past, h⟩ fun t ⟨past', ht⟩ o _ u hu => ?_
    exact ⟨_, ht.next (.operation hu)⟩
  exact hruns s' hrun

/-- The owner authority of `alice` is replaced. -/
def takeover : Operation Nat := .accountUpdate ⟨"alice", some (keyAuthority 2), none, none⟩

/-- `alice` loses her account, and `bob` requests its recovery. -/
def robbed : Except String (State Nat) :=
  [takeover, .requestAccountRecovery ⟨"bob", "alice", keyAuthority 3⟩].foldlM apply
    (quiet 3186477 3186477)

/-- `alice` recovers her account. -/
theorem recovery_first : ∃ (past : Past Nat) (s : State Nat), Run past s ∧
    (∃ s' o, s.recoverAccount o = .ok s' ∧ Justified past s o) ∧
    ∃ s', s.applyBlock 3186480 = .ok s' ∧ Exactly past s 3186480 s' := by
  obtain ⟨start, hstart⟩ := quiet_run 3186477 (by decide)
  obtain ⟨s, hrobbed, hs⟩ := exists_of_any (x := robbed) (P := fun s => s.headBlockTime = 3186477 ∧
    (s.recoverAccount ⟨"alice", keyAuthority 3, keyAuthority 1⟩).toOption.isSome)
      (by decide +kernel)
  obtain ⟨htime, hrecovers⟩ := of_decide_eq_true hs
  obtain ⟨past, hrun⟩ := hstart.operations hrobbed
  obtain ⟨hjustified, hexactly, -⟩ := hrun.recovery
  refine ⟨past, s, hrun, ?_, hexactly 3186480 (by rw [htime]; decide) (by decide)⟩
  cases hrecover : s.recoverAccount ⟨"alice", keyAuthority 3, keyAuthority 1⟩ with
  | error e =>
      rw [hrecover] at hrecovers
      cases hrecovers
  | ok s' => exact ⟨s', _, hrecover, hjustified _ s' hrecover⟩

/-- An owner authority that is replaced in the last month that a time can
express is forgotten in the next block. -/
theorem recovery_wraps : ∃ (past : Past Nat) (s s' : State Nat), Run past s ∧
    s.headBlockTime < 4294967293 ∧ s.applyBlock 4294967293 = .ok s' ∧
    ∃ h ∈ s.ownerHistory.rows, 4294967293 ≤ h.lastValidTime + ownerAuthRecoveryPeriod ∧
      h ∉ s'.ownerHistory.rows := by
  obtain ⟨start, hstart⟩ := quiet_run 3186477 (by decide)
  have hblock : (quiet 3186477 3186477).applyBlock 4294967290 = .ok (quiet 3186478 4294967290) :=
    rfl
  have hlast := hstart.next (.block (by decide) (by decide) hblock)
  obtain ⟨s, htakeover, hs⟩ :=
    exists_of_any (x := [takeover].foldlM apply (quiet 3186478 4294967290))
    (P := fun s => s.headBlockTime = 4294967290 ∧
      s.ownerHistory.rows.map (·.lastValidTime) = [4294967290] ∧
      (s.applyBlock 4294967293).toOption.any fun s' => s'.ownerHistory.rows = [])
        (by decide +kernel)
  obtain ⟨htime, hrows, hgone⟩ := of_decide_eq_true hs
  obtain ⟨past, hrun⟩ := hlast.operations htakeover
  obtain ⟨s', happly, hempty⟩ := exists_of_any hgone
  obtain ⟨h, hh, hvalid⟩ := List.mem_map.mp (hrows ▸ List.mem_cons_self : 4294967290 ∈ _)
  refine ⟨past, s, s', hrun, by rw [htime]; decide, happly, h, hh, by rw [hvalid]; decide, ?_⟩
  rw [of_decide_eq_true hempty]
  exact List.not_mem_nil

end State

end Gamebank.Recovery
