import Gamebank.Recovery.State

/-!
# Processing the tables of account recovery

What a block does with the three tables: the requests that have expired go,
the history goes up to the first object that is still valid, and each change
that is effective is made and goes (`applyBlock_spec`).
-/

namespace Gamebank.Recovery

open Gamebank.Lib Gamebank.Protocol
open Gamebank.Ledger (AccountName)

variable {Key : Type}

/-- The account after a change, if there is one. -/
def Account.withChange (a : Account) : Option ChangeRecoveryAccountRequest → Account
  | none => a
  | some c => { a with recoveryAccount := c.recoveryAccount }

namespace State

variable {s u : State Key} {now fuel : Nat} {name : AccountName}

/-- The change of an account that is effective at a time. -/
def effectiveFor (s : State Key) (now : Nat) (name : AccountName) :
    Option ChangeRecoveryAccountRequest :=
  s.changeRequests.rows.find? fun c => c.accountToRecover = name && c.effectiveOn ≤ now

/-- What the loops rely on. -/
structure Indexed (s : State Key) : Prop where
  requestIds : (s.recoveryRequests.rows.map AccountRecoveryRequest.id).Nodup
  changeIds : (s.changeRequests.rows.map ChangeRecoveryAccountRequest.id).Nodup
  changeAccounts : (s.changeRequests.rows.map ChangeRecoveryAccountRequest.accountToRecover).Nodup
  changeExists :
    ∀ c ∈ s.changeRequests.rows, (s.accounts.find? fun a => a.name = c.accountToRecover).isSome

/-- The state after a block of a time. -/
structure Processed (s : State Key) (now : Nat) (s' : State Key) : Prop where
  number : s'.headBlockNumber = s.headBlockNumber + 1
  time : s'.headBlockTime = now
  witnesses : s'.witnesses = s.witnesses
  authorities : s'.authorities = s.authorities
  requests : s'.recoveryRequests = ⟨s.recoveryRequests.nextId,
    s.recoveryRequests.rows.filter fun r => now < r.expires⟩
  history : s'.ownerHistory = ⟨s.ownerHistory.nextId,
    s.ownerHistory.rows.dropWhile fun h => h.isInvalid now⟩
  changes : s'.changeRequests = ⟨s.changeRequests.nextId,
    s.changeRequests.rows.filter fun c => now < c.effectiveOn⟩
  accounts : ∀ name, s'.accounts.find? (fun a => a.name = name) =
    (s.accounts.find? fun a => a.name = name).map fun a => a.withChange (s.effectiveFor now name)

/-! ## Requests -/

/-- The state while the requests are worked off. -/
structure Expiring (s u : State Key) : Prop where
  rest : u = { s with recoveryRequests := u.recoveryRequests }
  nextId : u.recoveryRequests.nextId = s.recoveryRequests.nextId
  ids : (u.recoveryRequests.rows.map AccountRecoveryRequest.id).Nodup

theorem Expiring.time (h : Expiring s u) : u.headBlockTime = s.headBlockTime := by
  rw [h.rest]

theorem Expiring.remove (h : Expiring s u) (p : AccountRecoveryRequest Key → Bool) :
    Expiring s { u with recoveryRequests := u.recoveryRequests.remove p } where
  rest := by
    have hrest : ∀ t, ({ u with recoveryRequests := t } : State Key) =
        { s with recoveryRequests := t } := by
      intro t
      rw [h.rest]
    exact hrest _
  nextId := h.nextId
  ids := (List.eraseP_sublist.map _).nodup h.ids

theorem removeRequests_spec (hids : (s.recoveryRequests.rows.map AccountRecoveryRequest.id).Nodup)
    (hfuel : s.recoveryRequests.rows.length < fuel) :
    drain expiredRequest removeRequest fuel s = .ok { s with
      recoveryRequests := ⟨s.recoveryRequests.nextId,
        s.recoveryRequests.rows.filter fun r => s.headBlockTime < r.expires⟩ } := by
  have hspec : Completes (drain expiredRequest removeRequest fuel s) fun u => Expiring s u ∧
      u.recoveryRequests.rows = s.recoveryRequests.rows.filter fun r =>
        s.headBlockTime < r.expires := by
    refine drain_due (fun u => u.recoveryRequests.rows) (fun r => s.headBlockTime < r.expires)
      (Expiring s) (fun u r hu hr => ?_) (fun u hu hnone r hr => ?_) (fun u r hu hr => ?_)
      ⟨rfl, rfl, hids⟩ hfuel
    · obtain ⟨hmem, hle⟩ := Table.firstDue_some hr
      rw [hu.time] at hle
      exact ⟨hmem, decide_eq_false (Nat.not_lt.mpr hle)⟩
    · have hlt := Table.firstDue_none hnone r hr
      rw [hu.time] at hlt
      exact decide_eq_true hlt
    · have hmem := (Table.firstDue_some hr).1
      have hfind := find?_eq_some_of_nodup hu.ids hmem
      exact .ok ⟨hu.remove _, _, hfind, rfl⟩
  obtain ⟨u, hrun, hu, hrows⟩ := hspec
  rw [hrun, hu.rest, ← hu.nextId, ← hrows]

/-! ## History -/

/-- The history goes up to the first object that is valid. -/
theorem removeHistory_spec (hfuel : s.ownerHistory.rows.length < fuel) :
    drain invalidHistory removeHistory fuel s = .ok { s with
      ownerHistory := ⟨s.ownerHistory.nextId,
        s.ownerHistory.rows.dropWhile fun h => h.isInvalid s.headBlockTime⟩ } := by
  induction fuel generalizing s with
  | zero => omega
  | succ fuel ih =>
      rw [drain]
      cases hrows : s.ownerHistory.rows with
      | nil =>
          have hnone : s.invalidHistory = none := by
            rw [invalidHistory, hrows]
            rfl
          rw [hnone, List.dropWhile_nil, ← hrows]
      | cons h rest =>
          rw [List.dropWhile_cons]
          cases hdue : h.isInvalid s.headBlockTime with
          | true =>
              have hsome : s.invalidHistory = some h := by
                rw [invalidHistory, hrows]
                exact Option.filter_some_pos hdue
              have herase : s.ownerHistory.rows.eraseP (fun h' => h'.id = h.id) = rest := by
                rw [hrows]
                exact List.eraseP_cons_of_pos (decide_eq_true rfl)
              have hstep : removeHistory h s =
                  .ok { s with ownerHistory := ⟨s.ownerHistory.nextId, rest⟩ } := by
                rw [removeHistory, Table.remove, herase]
              rw [hsome]
              dsimp only
              rw [hstep]
              refine ih ?_
              rw [hrows, List.length_cons] at hfuel
              exact Nat.lt_of_succ_lt_succ hfuel
          | false =>
              have hnone : s.invalidHistory = none := by
                rw [invalidHistory, hrows]
                exact Option.filter_some_neg (by rw [hdue])
              rw [hnone, if_neg (by decide), ← hrows]

/-! ## Changes -/

/-- The change that has been made for an account when these are left. -/
def madeFor (s : State Key) (left : List ChangeRecoveryAccountRequest) (name : AccountName) :
    Option ChangeRecoveryAccountRequest :=
  (s.effectiveFor s.headBlockTime name).filter fun c => c ∉ left

/-- The state while the changes are made. -/
structure Changing (s u : State Key) : Prop where
  rest : u = { s with accounts := u.accounts, changeRequests := u.changeRequests }
  nextId : u.changeRequests.nextId = s.changeRequests.nextId
  sublist : u.changeRequests.rows.Sublist s.changeRequests.rows
  accounts : ∀ name, u.accounts.find? (fun a => a.name = name) =
    (s.accounts.find? fun a => a.name = name).map fun a =>
      a.withChange (s.madeFor u.changeRequests.rows name)

theorem Changing.time (h : Changing s u) : u.headBlockTime = s.headBlockTime := by
  rw [h.rest]

theorem changing_start (s : State Key) : Changing s s where
  rest := rfl
  nextId := rfl
  sublist := .refl _
  accounts name := by
    have hnone : s.madeFor s.changeRequests.rows name = none := by
      refine Option.filter_eq_none_iff.mpr fun c hc => ?_
      simpa using List.mem_of_find?_eq_some hc
    rw [hnone]
    exact Option.map_id'.symm

theorem effectiveFor_eq (hs : s.Indexed) {c : ChangeRecoveryAccountRequest}
    (hc : c ∈ s.changeRequests.rows) (heffective : c.effectiveOn ≤ now) :
    s.effectiveFor now c.accountToRecover = some c := by
  obtain ⟨-, before, after, hrows, hbefore⟩ := List.find?_eq_some_iff_append.mp
    (find?_eq_some_of_nodup hs.changeAccounts hc)
  refine List.find?_eq_some_iff_append.mpr
    ⟨by simp [heffective], before, after, hrows, fun b hb => ?_⟩
  have hnot := hbefore b hb
  simp only [Bool.not_eq_true', decide_eq_false_iff_not] at hnot
  simp [hnot]

theorem of_effectiveFor {c : ChangeRecoveryAccountRequest} (h : s.effectiveFor now name = some c) :
    c ∈ s.changeRequests.rows ∧ c.accountToRecover = name ∧ c.effectiveOn ≤ now := by
  have hboth := List.find?_some h
  rw [Bool.and_eq_true, decide_eq_true_eq, decide_eq_true_eq] at hboth
  exact ⟨List.mem_of_find?_eq_some h, hboth⟩

/-- One more change is made. -/
theorem madeFor_eraseP (hs : s.Indexed) {left : List ChangeRecoveryAccountRequest}
    (hleft : left.Sublist s.changeRequests.rows) {c : ChangeRecoveryAccountRequest} (hc : c ∈ left)
    (heffective : c.effectiveOn ≤ s.headBlockTime) (name : AccountName) :
    s.madeFor (left.eraseP fun r => r.id = c.id) name =
      if name = c.accountToRecover then some c else s.madeFor left name := by
  have hcs := hleft.subset hc
  by_cases hn : name = c.accountToRecover
  · subst hn
    have hgone : c ∉ left.eraseP fun r => r.id = c.id := by
      have hnone := Table.find?_remove (t := ⟨0, left⟩) ((hleft.map _).nodup hs.changeIds) c.id c.id
      rw [if_pos rfl] at hnone
      intro hmem
      simpa using List.find?_eq_none.mp hnone c hmem
    rw [if_pos rfl, madeFor, effectiveFor_eq hs hcs heffective]
    exact Option.filter_some_pos (decide_eq_true hgone)
  · rw [if_neg hn, madeFor, madeFor]
    cases hfor : s.effectiveFor s.headBlockTime name with
    | none => rfl
    | some c' =>
        obtain ⟨hc', hname, -⟩ := of_effectiveFor hfor
        have hne : ¬c'.id = c.id := by
          intro hid
          have hsame := List.inj_on_of_nodup_map hs.changeIds hc' hcs hid
          exact hn (hname.symm.trans (congrArg _ hsame))
        have hmem : c' ∈ left.eraseP (fun r => r.id = c.id) ↔ c' ∈ left :=
          List.mem_eraseP_of_neg (by simpa using hne)
        simp only [Option.filter, hmem]

/-- The next change is made. -/
theorem Changing.apply (hs : s.Indexed) (h : Changing s u) {c : ChangeRecoveryAccountRequest}
    (hc : c ∈ u.changeRequests.rows) (heffective : c.effectiveOn ≤ s.headBlockTime) :
    Completes (applyChange c u) fun u' => Changing s u' ∧
      ∃ p, u.changeRequests.rows.find? p = some c ∧
        u'.changeRequests.rows = u.changeRequests.rows.eraseP p := by
  have hcs : c ∈ s.changeRequests.rows := h.sublist.subset hc
  have hfind := find?_eq_some_of_nodup ((h.sublist.map _).nodup hs.changeIds) hc
  have hmade := madeFor_eraseP hs h.sublist hc heffective
  have hbefore : u.accounts.find? (fun a => a.name = c.accountToRecover) =
      s.accounts.find? fun a => a.name = c.accountToRecover := by
    have hnone : s.madeFor u.changeRequests.rows c.accountToRecover = none := by
      rw [madeFor, effectiveFor_eq hs hcs heffective]
      exact Option.filter_some_neg (by simpa using hc)
    rw [h.accounts, hnone]
    exact Option.map_id'
  obtain ⟨a, ha⟩ := Option.isSome_iff_exists.mp (hs.changeExists c hcs)
  have hname : a.name = c.accountToRecover := by simpa using List.find?_some ha
  have hfound : u.getAccount c.accountToRecover = .ok a := by
    rw [getAccount, hbefore, ha]
    rfl
  unfold applyChange
  rw [hfound]
  refine .pure ⟨⟨?_, h.nextId, List.eraseP_sublist.trans h.sublist, fun name => ?_⟩, _, hfind, rfl⟩
  · have hrest : ∀ x y, ({ u with accounts := x, changeRequests := y } : State Key) =
        { s with accounts := x, changeRequests := y } := by
      intro x y
      rw [h.rest]
    exact hrest _ _
  · show (modifyFirst (fun b => b.name = a.name) (fun b =>
      { b with recoveryAccount := c.recoveryAccount }) u.accounts.rows).find? _ =
        (s.accounts.find? _).map fun b => b.withChange
          (s.madeFor (u.changeRequests.rows.eraseP fun r => r.id = c.id) name)
    rw [hmade, hname]
    by_cases hn : name = c.accountToRecover
    · subst hn
      have hsame : ∀ b : Account, decide (b.name = c.accountToRecover) = true →
          decide (({ b with recoveryAccount := c.recoveryAccount } : Account).name =
            c.accountToRecover) = true := fun b hb => hb
      rw [if_pos rfl, find?_modifyFirst hsame]
      exact congrArg _ hbefore
    · have hother : ∀ b : Account, decide (b.name = c.accountToRecover) = true →
          decide (b.name = name) = false ∧
            decide (({ b with recoveryAccount := c.recoveryAccount } : Account).name = name) =
              false := by
        intro b hb
        have hne : b.name ≠ name := by
          rw [of_decide_eq_true hb]
          exact Ne.symm hn
        exact ⟨decide_eq_false hne, decide_eq_false hne⟩
      rw [if_neg hn, find?_modifyFirst_of_not hother]
      exact h.accounts name

theorem applyChanges_spec (hs : s.Indexed) (hfuel : s.changeRequests.rows.length < fuel) :
    Completes (drain effectiveChange applyChange fuel s) fun u => Changing s u ∧
      u.changeRequests.rows = s.changeRequests.rows.filter fun c =>
        s.headBlockTime < c.effectiveOn := by
  refine drain_due (fun u => u.changeRequests.rows) (fun c => s.headBlockTime < c.effectiveOn)
    (Changing s) (fun u c hu hc => ?_) (fun u hu hnone c hc => ?_) (fun u c hu hc => ?_)
    (changing_start s) hfuel
  · obtain ⟨hmem, hle⟩ := Table.firstDue_some hc
    rw [hu.time] at hle
    exact ⟨hmem, decide_eq_false (Nat.not_lt.mpr hle)⟩
  · have hlt := Table.firstDue_none hnone c hc
    rw [hu.time] at hlt
    exact decide_eq_true hlt
  · obtain ⟨hmem, hle⟩ := Table.firstDue_some hc
    rw [hu.time] at hle
    exact hu.apply hs hmem hle

/-! ## A block -/

/-- In the end every effective change has been made. -/
theorem madeFor_filter (s : State Key) (name : AccountName) :
    s.madeFor (s.changeRequests.rows.filter fun c => s.headBlockTime < c.effectiveOn) name =
      s.effectiveFor s.headBlockTime name := by
  rw [madeFor]
  cases hfor : s.effectiveFor s.headBlockTime name with
  | none => rfl
  | some c =>
      have hle := (of_effectiveFor hfor).2.2
      refine Option.filter_some_pos (decide_eq_true fun hmem => ?_)
      have hlt := List.of_mem_filter hmem
      rw [decide_eq_true_eq] at hlt
      omega

/-- **A block** removes what has expired or become invalid, and makes the
changes that are effective; it does not throw. -/
theorem applyBlock_spec (hs : s.Indexed) (now : Nat) :
    Completes (s.applyBlock now) (Processed s now) := by
  let s1 : State Key := { s with headBlockNumber := s.headBlockNumber + 1, headBlockTime := now }
  let s2 : State Key := { s1 with recoveryRequests := ⟨s.recoveryRequests.nextId,
    s.recoveryRequests.rows.filter fun r => now < r.expires⟩ }
  let s3 : State Key := { s2 with ownerHistory := ⟨s.ownerHistory.nextId,
    s.ownerHistory.rows.dropWhile fun h => h.isInvalid now⟩ }
  have hrequests : drain expiredRequest removeRequest (s1.recoveryRequests.rows.length + 1) s1 =
      .ok s2 := removeRequests_spec hs.requestIds (Nat.lt_succ_self _)
  have hhistory :
    drain invalidHistory removeHistory (s2.ownerHistory.rows.length + 1) s2 = .ok s3 :=
    removeHistory_spec (Nat.lt_succ_self _)
  have hs3 : s3.Indexed :=
    ⟨(List.filter_sublist.map _).nodup hs.requestIds, hs.changeIds, hs.changeAccounts,
      hs.changeExists⟩
  show Completes (s1.accountRecoveryProcessing) _
  unfold accountRecoveryProcessing
  refine .bind (.of_eq hrequests rfl) fun u hu => ?_
  subst hu
  refine .bind (.of_eq hhistory rfl) fun u hu => ?_
  subst hu
  refine (applyChanges_spec hs3 (Nat.lt_succ_self _)).mono fun u hu => ?_
  obtain ⟨hu, hrows⟩ := hu
  have haccounts := hu.accounts
  rw [hrows] at haccounts
  rw [hu.rest]
  refine ⟨rfl, rfl, rfl, rfl, rfl, rfl, ?_, fun name => ?_⟩
  · show u.changeRequests = _
    rw [← hu.nextId, ← hrows]
  · refine (haccounts name).trans ?_
    rw [madeFor_filter]
    rfl

end State

end Gamebank.Recovery
