import Gamebank.Escrow.Books
import Gamebank.Ledger.Credits

/-!
# The escrow operations are moves

What each escrow evaluator that succeeds has done to the escrows, and the
sweep of a block over those not approved in time. The payments change
accounts and supplies only.
-/

namespace Gamebank.Ledger

open Gamebank.Lib Gamebank.Protocol

namespace Database

variable {s t : Database} {x : Escrow}

/-! ## Payments leave the escrows alone -/

/-- Neither the escrows nor the time differ. -/
structure SameEscrows (s t : Database) : Prop where
  escrows : t.escrows = s.escrows
  time : t.headBlockTime = s.headBlockTime

theorem SameEscrows.trans {u : Database} (h : SameEscrows s t) (h' : SameEscrows t u) :
    SameEscrows s u :=
  ⟨h'.escrows.trans h.escrows, h'.time.trans h.time⟩

theorem adjustBalance_sameEscrows (s : Database) (name : AccountName) (delta : Asset) :
    Returns (s.adjustBalance name delta) (SameEscrows s) :=
  (adjustBalance_rest s name delta).mono fun t ht => ⟨by rw [ht.2], ht.1⟩

theorem payOut_sameEscrows (s : Database) (payments : List EscrowPayment) :
    Returns (s.payOut payments) (SameEscrows s) :=
  .foldlM ⟨rfl, rfl⟩ fun u hu p _ =>
    (adjustBalance_sameEscrows u p.account p.amount).mono fun _ h => hu.trans h

/-! ## Escrows found and replaced -/

theorem getEscrow_with {name : AccountName} {escrowId : Nat}
    (hids : (s.escrows.rows.map Escrow.id).Nodup) (h : s.getEscrow name escrowId = .ok x) :
    escrowWith s.escrows x.id = some x ∧ x.sender = name := by
  have hfind := require_eq_ok.mp h
  have hkey := List.find?_some hfind
  simp only [Bool.and_eq_true, decide_eq_true_eq] at hkey
  exact ⟨(find?_key_eq_some hids).mpr ⟨List.mem_of_find?_eq_some hfind, rfl⟩, hkey.1⟩

theorem putEscrow_self {t : Table Escrow} (h : escrowWith t x.id = some x) : putEscrow t x = t := by
  obtain ⟨before, after, hrows, hmod⟩ := modifyFirst_of_find? h
  unfold putEscrow Table.modify
  rw [hmod, ← hrows]

theorem putEscrow_putEscrow (t : Table Escrow) {y z : Escrow} (h : z.id = y.id) :
    putEscrow (putEscrow t y) z = putEscrow t z := by
  unfold putEscrow Table.modify
  congr 1
  simp only
  induction t.rows with
  | nil => rfl
  | cons a rest ih =>
      by_cases ha : a.id = y.id
      · simp [modifyFirst, ha, h]
      · have haz : a.id ≠ z.id := fun heq => ha (heq.trans h)
        simp [modifyFirst, ha, haz, ih]

theorem takeEscrow_putEscrow (t : Table Escrow) {y : Escrow} {id : Nat} (h : y.id = id) :
    takeEscrow (putEscrow t y) id = takeEscrow t id := by
  subst h
  unfold takeEscrow putEscrow Table.modify Table.remove
  congr 1
  simp only
  induction t.rows with
  | nil => rfl
  | cons a rest ih =>
      by_cases ha : a.id = y.id
      · simp [modifyFirst, ha]
      · simp [modifyFirst, ha, ih]

/-! ## The operations are moves -/

theorem escrowTransfer_spec (isValidJson : String → Bool) (s : Database) (o : EscrowTransfer) :
    Returns (s.escrowTransfer isValidJson o) fun r => r.1.escrows = s.escrows.create o.opened ∧
      r.2 = [.deposited (o.opened s.escrows.nextId)] := by
  unfold escrowTransfer
  refine .bind_any fun _ => .bind_any fun a => .bind_any fun _ => .bind_any fun _ =>
    .ensure fun _ =>
    .ensure fun _ => .ensure fun _ => .ensure fun _ => ?_
  refine .bind (adjustBalance_sameEscrows _ _ _) fun u hu =>
    .bind (adjustBalance_sameEscrows u _ _) fun v hv => .ensure fun _ => .pure ?_
  have hsame := (hu.trans hv).escrows
  rw [hsame]
  exact ⟨rfl, rfl⟩

/-- What `escrow_approve` made of the escrow `x`. -/
inductive Approved (s : Database) (o : EscrowApprove) (x : Escrow) :
    Database × List EscrowEvent → Prop
  | accepted (byTo byAgent : Bool) (r : Database × List EscrowEvent)
      (hto : x.toApproved = true → byTo = true) (hagent : x.agentApproved = true → byAgent = true)
      (hopen : (byTo && byAgent) = false)
      (ht : r.1.escrows = putEscrow s.escrows (x.withApprovals byTo byAgent)) (he : r.2 = []) :
      Approved s o x r
  | ratified (r : Database × List EscrowEvent) (ht : r.1.escrows = putEscrow s.escrows x.ratified)
      (he : r.2 = [.paid x.feePayment]) : Approved s o x r
  | rejected (r : Database × List EscrowEvent) (happrove : o.approve = false)
      (hwho : o.who = x.recipient ∨ o.who = x.agent)
      (ht : r.1.escrows = takeEscrow s.escrows x.id)
      (he : r.2 = (x.refunds x.sender).map .paid) : Approved s o x r

theorem Approved.move {o : EscrowApprove} {r : Database × List EscrowEvent}
    (h : Approved s o x r) (hx : escrowWith s.escrows x.id = some x)
    (hopen : x.isApproved = false) :
    EscrowMove s.headBlockTime s.escrows r.1.escrows r.2 := by
  cases h with
  | accepted byTo byAgent r hto hagent hstill ht he =>
      rw [ht, he]
      exact .accept x byTo byAgent hx hto hagent hstill
  | ratified r ht he =>
      rw [ht, he]
      exact .ratify x hx hopen
  | rejected r _ _ ht he =>
      rw [ht, he]
      exact .giveBack x hx hopen

theorem approveAsTo_spec (x : Escrow) (o : EscrowApprove) :
    Returns (x.approveAsTo o) fun e => (o.who = o.recipient → x.toApproved = false) ∧
      e = x.withApprovals (x.toApproved || (o.approve && decide (o.who = o.recipient)))
        x.agentApproved := by
  unfold Escrow.approveAsTo
  refine .ite (fun hwho => .ensure fun hnot => .pure ⟨fun _ => by simpa using hnot, ?_⟩)
    fun hwho => .pure ⟨fun h => absurd h hwho, ?_⟩
  · cases o.approve <;> simp [hwho, Escrow.withApprovals]
  · simp [hwho, Escrow.withApprovals]

theorem approveAsAgent_spec (x : Escrow) (o : EscrowApprove) :
    Returns (x.approveAsAgent o) fun e => (o.who = o.agent → x.agentApproved = false) ∧
      e = x.withApprovals x.toApproved
        (x.agentApproved || (o.approve && decide (o.who = o.agent))) := by
  unfold Escrow.approveAsAgent
  refine .ite (fun hwho => .ensure fun hnot => .pure ⟨fun _ => by simpa using hnot, ?_⟩)
    fun hwho => .pure ⟨fun h => absurd h hwho, ?_⟩
  · cases o.approve <;> simp [hwho, Escrow.withApprovals]
  · simp [hwho, Escrow.withApprovals]

/-- The party had not approved before, and only its approval is added. -/
theorem approvals_spec {o : EscrowApprove} {e₁ e₂ : Escrow} {u : Unit} (hvalid : o.validate = .ok u)
    (hrecipient : x.recipient = o.recipient) (hagent : x.agent = o.agent)
    (h₁ : x.approveAsTo o = .ok e₁) (h₂ : e₁.approveAsAgent o = .ok e₂) :
    x.isApproved = false ∧ (o.who = x.recipient ∨ o.who = x.agent) ∧
      (∃ byTo byAgent, (x.toApproved = true → byTo = true) ∧
        (x.agentApproved = true → byAgent = true) ∧ e₂ = x.withApprovals byTo byAgent) ∧
      (o.approve = false → e₂ = x) := by
  unfold EscrowApprove.validate at hvalid
  obtain ⟨_, -, hvalid⟩ := bind_eq_ok.mp hvalid
  obtain ⟨_, -, hvalid⟩ := bind_eq_ok.mp hvalid
  obtain ⟨_, -, hvalid⟩ := bind_eq_ok.mp hvalid
  obtain ⟨_, -, hvalid⟩ := bind_eq_ok.mp hvalid
  have hwho : o.who = o.recipient ∨ o.who = o.agent := by simpa using hvalid
  obtain ⟨hto, rfl⟩ := approveAsTo_spec x o e₁ h₁
  obtain ⟨hby, rfl⟩ := approveAsAgent_spec _ o e₂ h₂
  refine ⟨?_, by rwa [hrecipient, hagent], ⟨_, _, ?_, ?_, rfl⟩, ?_⟩
  · rcases hwho with hwho | hwho
    · simp [Escrow.isApproved, hto hwho]
    · have hnot : x.agentApproved = false := hby hwho
      simp [Escrow.isApproved, hnot]
  · intro h
    simp [h, Escrow.withApprovals]
  · intro h
    simp [h, Escrow.withApprovals]
  · intro h
    simp [h, Escrow.withApprovals]

theorem escrowApprove_spec (hids : (s.escrows.rows.map Escrow.id).Nodup) (o : EscrowApprove) :
    Returns (s.escrowApprove o) fun r => ∃ x, escrowWith s.escrows x.id = some x ∧
      x.isApproved = false ∧ Approved s o x r := by
  unfold escrowApprove
  refine .bind_eq fun _ hvalid => .bind_eq fun x hx => .ensure fun hrecipient =>
    .ensure fun hagent =>
    .ensure fun _ => .bind_eq fun e₁ h₁ => .bind_eq fun e₂ h₂ => ?_
  obtain ⟨hwith, hsender⟩ := getEscrow_with hids hx
  have hrecipient : x.recipient = o.recipient := of_decide_eq_true hrecipient
  have hagent : x.agent = o.agent := of_decide_eq_true hagent
  obtain ⟨hopen, hwho, happrovals⟩ := approvals_spec hvalid hrecipient hagent h₁ h₂
  rw [← hsender]
  cases happ : o.approve with
  | false =>
      have hsame : e₂ = x := happrovals.2 happ
      subst hsame
      refine .bind (payOut_sameEscrows _ _) fun u hu => .pure ⟨e₂, hwith, hopen, ?_⟩
      refine .rejected _ happ hwho ?_ rfl
      show takeEscrow u.escrows e₂.id = takeEscrow s.escrows e₂.id
      rw [hu.escrows]
      exact congrArg (takeEscrow · e₂.id) (putEscrow_self hwith)
  | true =>
      obtain ⟨byTo, byAgent, hto, hby, hshape⟩ := happrovals.1
      subst hshape
      rw [if_neg (by simp)]
      refine .ite (fun hboth => ?_) fun hboth => ?_
      · refine .bind (payOut_sameEscrows _ _) fun u hu => .pure ⟨x, hwith, hopen, ?_⟩
        obtain ⟨rfl, rfl⟩ : byTo = true ∧ byAgent = true := by
          simpa [Escrow.isApproved, Escrow.withApprovals] using hboth
        refine .ratified _ ?_ ?_
        · show putEscrow u.escrows x.ratified = putEscrow s.escrows x.ratified
          rw [hu.escrows]
          exact putEscrow_putEscrow s.escrows rfl
        · rw [← hagent]
          rfl
      · refine .pure ⟨x, hwith, hopen, .accepted byTo byAgent _ hto hby ?_ rfl rfl⟩
        simpa [Escrow.isApproved, Escrow.withApprovals] using hboth

theorem escrowDispute_spec (hids : (s.escrows.rows.map Escrow.id).Nodup) (o : EscrowDispute) :
    Returns (s.escrowDispute o) fun r => ∃ x, escrowWith s.escrows x.id = some x ∧
      x.isApproved = true ∧
      r.1.escrows = putEscrow s.escrows (x.drawn x.gbcBalance x.gbdBalance true) ∧ r.2 = [] := by
  unfold escrowDispute
  refine .bind_any fun _ => .bind_any fun _ => .bind_eq fun x hx => .ensure fun _ =>
    .ensure fun happroved => .ensure fun _ => .ensure fun _ => .ensure fun _ => .pure ?_
  exact ⟨x, (getEscrow_with hids hx).1, happroved, rfl, rfl⟩

theorem checkRelease_spec {o : EscrowRelease} {u : Unit} (h : s.checkRelease x o = .ok u)
    (hreceiver : o.receiver = x.sender ∨ o.receiver = x.recipient) :
    x.MayRelease s.headBlockTime o.who o.receiver := by
  unfold checkRelease at h
  cases hd : x.disputed with
  | true =>
      rw [if_pos hd, ensure_eq_ok] at h
      refine ⟨hreceiver, fun _ => of_decide_eq_true h, ?_, ?_⟩
      · rw [hd]
        exact fun h => absurd h (by simp)
      · rw [hd]
        exact fun h => absurd h (by simp)
  | false =>
      rw [if_neg (by simp [hd])] at h
      obtain ⟨hwho, h⟩ := ensure_bind_eq_ok.mp h
      have hwho : o.who = x.sender ∨ o.who = x.recipient := by simpa using hwho
      refine ⟨hreceiver, ?_, fun _ => hwho, fun _ hnow => ?_⟩
      · rw [hd]
        exact fun h => absurd h (by simp)
      · rw [if_pos hnow] at h
        by_cases hsender : o.who = x.sender
        · rw [if_pos hsender, ensure_eq_ok] at h
          have hto : o.receiver = x.recipient := of_decide_eq_true h
          exact ⟨fun _ => hto, fun hr => hto.trans (hr.symm.trans hsender)⟩
        · have hrecipient := hwho.resolve_left hsender
          rw [if_neg hsender, if_pos hrecipient, ensure_eq_ok] at h
          exact ⟨fun hs => absurd hs hsender, fun _ => of_decide_eq_true h⟩

/-- The amounts released are GBD and GBC. -/
theorem releaseAmounts_spec {o : EscrowRelease} {u : Unit} (h : o.validate = .ok u) :
    o.gbdAmount = .gbd o.gbdAmount.amount ∧ o.gbcAmount = .gbc o.gbcAmount.amount := by
  unfold EscrowRelease.validate at h
  obtain ⟨_, -, h⟩ := bind_eq_ok.mp h
  obtain ⟨_, -, h⟩ := bind_eq_ok.mp h
  obtain ⟨_, -, h⟩ := bind_eq_ok.mp h
  obtain ⟨_, -, h⟩ := bind_eq_ok.mp h
  obtain ⟨_, -, h⟩ := bind_eq_ok.mp h
  simp only [ensure_bind_eq_ok, ensure_eq_ok, decide_eq_true_eq] at h
  obtain ⟨-, -, -, -, -, hgbd, hgbc⟩ := h
  exact ⟨by rw [Asset.gbd, ← hgbd], by rw [Asset.gbc, ← hgbc]⟩

/-- A release draws on an approved escrow, or empties it. -/
theorem escrowRelease_spec (hids : (s.escrows.rows.map Escrow.id).Nodup) (o : EscrowRelease) :
    Returns (s.escrowRelease o) fun r => ∃ x, escrowWith s.escrows x.id = some x ∧
      x.isApproved = true ∧ x.MayRelease s.headBlockTime o.who o.receiver ∧
      r.2 = (releases x.id o.receiver o.gbcAmount.amount o.gbdAmount.amount).map .paid ∧
      ((x.gbcBalance = o.gbcAmount.amount ∧ x.gbdBalance = o.gbdAmount.amount ∧
          r.1.escrows = takeEscrow s.escrows x.id) ∨
        (¬(x.gbcBalance = o.gbcAmount.amount ∧ x.gbdBalance = o.gbdAmount.amount) ∧
          r.1.escrows = putEscrow s.escrows (x.drawn (x.gbcBalance - o.gbcAmount.amount)
            (x.gbdBalance - o.gbdAmount.amount) x.disputed))) := by
  unfold escrowRelease
  refine .bind_eq fun _ hvalid => .bind_any fun _ => .bind_eq fun x hx => .ensure fun _ =>
    .ensure fun _ => .ensure fun _ => .ensure fun _ => .ensure fun hreceiver =>
    .ensure fun happroved => .bind_eq fun _ hcheck =>
      .bind (payOut_sameEscrows _ _) fun u hu => .pure ?_
  obtain ⟨hgbd, hgbc⟩ := releaseAmounts_spec hvalid
  have hmay := checkRelease_spec hcheck (by simpa using hreceiver)
  have hwith := (getEscrow_with hids hx).1
  refine ⟨x, hwith, happroved, hmay, ?_, ?_⟩
  · rw [releases, ← hgbd, ← hgbc]
  · have hput : (u.setEscrow (x.drawn (x.gbcBalance - o.gbcAmount.amount)
        (x.gbdBalance - o.gbdAmount.amount) x.disputed)).escrows =
        putEscrow s.escrows (x.drawn (x.gbcBalance - o.gbcAmount.amount)
          (x.gbdBalance - o.gbdAmount.amount) x.disputed) := by
      show putEscrow u.escrows _ = _
      rw [hu.escrows]
    by_cases hempty : x.gbcBalance = o.gbcAmount.amount ∧ x.gbdBalance = o.gbdAmount.amount
    · refine Or.inl ⟨hempty.1, hempty.2, ?_⟩
      rw [if_pos (by simp [hempty])]
      show takeEscrow (putEscrow u.escrows _) x.id = _
      rw [hu.escrows]
      exact takeEscrow_putEscrow s.escrows rfl
    · refine Or.inr ⟨hempty, ?_⟩
      have hleft : ¬(decide (x.gbcBalance - o.gbcAmount.amount = 0) &&
          decide (x.gbdBalance - o.gbdAmount.amount = 0)) = true := by
        simp only [Bool.and_eq_true, decide_eq_true_eq]
        omega
      rw [if_neg hleft]
      exact hput

/-! ## The sweep -/

theorem unratified_spec (h : s.unratified = some x) :
    x ∈ s.escrows.rows ∧ x.isApproved = false ∧ x.ratificationDeadline ≤ s.headBlockTime := by
  unfold unratified at h
  obtain ⟨hfirst, hdue⟩ := Option.filter_eq_some_iff.mp h
  have hdue : x.isApproved = false ∧ x.ratificationDeadline ≤ s.headBlockTime := by simpa using hdue
  exact ⟨Table.mem_of_least hfirst, hdue⟩

/-- The sweep of `s` has led to `r`: some escrows are gone, whose deadline had
passed without both approvals, and they were refunded. -/
structure Swept (s : Database) (r : Database × List EscrowEvent) : Prop where
  time : r.1.headBlockTime = s.headBlockTime
  next : r.1.escrows.nextId = s.escrows.nextId
  ids : (r.1.escrows.rows.map Escrow.id).Nodup
  books : ∀ log, EscrowBooks s.escrows log → EscrowBooks r.1.escrows (log ++ r.2)
  left : ∀ id, escrowWith r.1.escrows id = escrowWith s.escrows id ∨
    escrowWith r.1.escrows id = none
  refunded : ∀ ev ∈ r.2, ∃ x, ∃ p ∈ x.refunds x.sender, ev = .paid p ∧
    escrowWith s.escrows x.id = some x ∧ x.isApproved = false ∧
    x.ratificationDeadline ≤ s.headBlockTime ∧ escrowWith r.1.escrows x.id = none

theorem Swept.start (hids : (s.escrows.rows.map Escrow.id).Nodup) : Swept s (s, []) where
  time := rfl
  next := rfl
  ids := hids
  books log h := by rwa [List.append_nil]
  left _ := Or.inl rfl
  refunded := by simp

theorem Swept.expire {r : Database × List EscrowEvent} (h : Swept s r)
    (hx : r.1.unratified = some x) : Returns (expireEscrow x r) (Swept s) := by
  obtain ⟨hmem, hopen, hdeadline⟩ := unratified_spec hx
  have hwith : escrowWith r.1.escrows x.id = some x := (find?_key_eq_some h.ids).mpr ⟨hmem, rfl⟩
  have hold : escrowWith s.escrows x.id = some x := by
    rcases h.left x.id with heq | hnone
    · rw [← heq, hwith]
    · rw [hwith] at hnone
      simp at hnone
  unfold expireEscrow
  refine .bind (payOut_sameEscrows _ _) fun u hu => .pure ?_
  have htable : (u.removeEscrow x.id).escrows = takeEscrow r.1.escrows x.id := by
    show takeEscrow u.escrows x.id = _
    rw [hu.escrows]
  have hleft : ∀ id, escrowWith (u.removeEscrow x.id).escrows id =
      if id = x.id then none else escrowWith r.1.escrows id := by
    intro id
    rw [htable, escrowWith_take h.ids]
  refine ⟨hu.time.trans h.time, ?_, ?_, ?_, ?_, ?_⟩
  · simp only [htable]
    exact h.next
  · simp only [htable]
    exact h.ids.sublist (List.Sublist.map _ List.eraseP_sublist)
  · intro log hlog
    simp only [htable]
    rw [← List.append_assoc]
    exact (h.books log hlog).move
      (show EscrowMove s.headBlockTime _ _ _ from .giveBack x hwith hopen)
  · intro id
    simp only [hleft]
    by_cases hid : id = x.id
    · exact Or.inr (if_pos hid)
    · rw [if_neg hid]
      exact h.left id
  · intro ev hev
    simp only [hleft]
    rcases List.mem_append.mp hev with hev | hev
    · obtain ⟨y, p, hp, rfl, hy, hyopen, hydeadline, hynone⟩ := h.refunded ev hev
      refine ⟨y, p, hp, rfl, hy, hyopen, hydeadline, ?_⟩
      rw [hynone, ite_self]
    · obtain ⟨p, hp, rfl⟩ := List.mem_map.mp hev
      exact ⟨x, p, hp, rfl, hold, hopen, h.time ▸ hdeadline, if_pos rfl⟩

/-- After the sweep no escrow waits beyond its deadline. -/
theorem expireEscrowRatification_done (s : Database) :
    Returns s.expireEscrowRatification fun r => r.1.unratified = none := by
  refine @drain_exhausts _ _ _ _ (fun r => r.1.escrows.rows.length) (fun r x hx => ?_) _ _
    (Nat.lt_succ_self _)
  have hmem := (unratified_spec hx).1
  unfold expireEscrow
  refine .bind (payOut_sameEscrows _ _) fun u hu => .pure ?_
  show (u.escrows.rows.eraseP _).length < _
  rw [hu.escrows, List.length_eraseP_of_mem hmem (by simp)]
  exact Nat.sub_lt (List.length_pos_of_mem hmem) Nat.one_pos

end Database

end Gamebank.Ledger
