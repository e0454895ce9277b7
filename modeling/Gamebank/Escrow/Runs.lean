import Gamebank.Escrow.Balances
import Gamebank.Ledger.Calls

/-!
# Runs of the escrow operations

Each step of a ledger is an escrow operation, the sweep of a block, or
something that leaves the escrows alone; one that throws changes nothing. In
every run from a ledger without escrows the log accounts for each deposit,
and each step pays by the rules (`escrow_runs`).
-/

namespace Gamebank.Ledger

open Gamebank.Lib Gamebank.Protocol

/-- What happens to a ledger with escrows. -/
inductive EscrowStep where
  | transfer (o : EscrowTransfer)
  | approve (o : EscrowApprove)
  | dispute (o : EscrowDispute)
  | release (o : EscrowRelease)
  | ratification
  /-- Anything that leaves the escrows alone. -/
  | elsewhere (f : Database → Database)

/-- The state and the events so far. -/
structure EscrowLedger where
  db : Database
  log : List EscrowEvent

namespace Database

/-- A function that throws changes nothing. -/
def orUnchanged (s : Database) (r : Except String (Database × List EscrowEvent)) :
    Database × List EscrowEvent :=
  attempt (s, []) r

def escrowStep (isValidJson : String → Bool) (s : Database) :
    EscrowStep → Database × List EscrowEvent
  | .transfer o => s.orUnchanged (s.escrowTransfer isValidJson o)
  | .approve o => s.orUnchanged (s.escrowApprove o)
  | .dispute o => s.orUnchanged (s.escrowDispute o)
  | .release o => s.orUnchanged (s.escrowRelease o)
  | .ratification => s.orUnchanged s.expireEscrowRatification
  | .elsewhere f => ({ f s with escrows := s.escrows }, [])

end Database

def EscrowLedger.step (isValidJson : String → Bool) (l : EscrowLedger) (step : EscrowStep) :
    EscrowLedger :=
  ⟨(l.db.escrowStep isValidJson step).1, l.log ++ (l.db.escrowStep isValidJson step).2⟩

def EscrowLedger.run (isValidJson : String → Bool) (l : EscrowLedger) (steps : List EscrowStep) :
    EscrowLedger :=
  steps.foldl (EscrowLedger.step isValidJson) l

/-! ## The rules of a step -/

/-- `y` is the escrow `x` later on. -/
structure Escrow.Follows (x y : Escrow) : Prop where
  sender : y.sender = x.sender
  recipient : y.recipient = x.recipient
  agent : y.agent = x.agent
  ratificationDeadline : y.ratificationDeadline = x.ratificationDeadline
  escrowExpiration : y.escrowExpiration = x.escrowExpiration
  approved : x.isApproved = true → y.isApproved = true
  disputed : x.disputed = true → y.disputed = true

theorem Escrow.Follows.refl (x : Escrow) : x.Follows x :=
  ⟨rfl, rfl, rfl, rfl, rfl, fun h => h, fun h => h⟩

/-- An escrow stays the same contract until it is removed, and never comes back. -/
structure EscrowsLast (t t' : Table Escrow) : Prop where
  follows : ∀ id x, escrowWith t id = some x →
    escrowWith t' id = none ∨ ∃ y, escrowWith t' id = some y ∧ x.Follows y
  gone : ∀ id, id < t.nextId → escrowWith t id = none → escrowWith t' id = none
  next : t.nextId ≤ t'.nextId

/-- The terms on which a step pays out of escrows. -/
structure EscrowTerms (s s' : Database) (step : EscrowStep) (events : List EscrowEvent) : Prop where
  lasts : EscrowsLast s.escrows s'.escrows
  deposited : ∀ e, .deposited e ∈ events → ∃ o, step = .transfer o ∧ e = o.opened e.id
  /-- The fee is paid by the step that completes the approval. -/
  feePaid : ∀ p, .paid p ∈ events → p.cause = .fee →
    ∃ x y, escrowWith s.escrows p.escrow = some x ∧ x.isApproved = false ∧ p = x.feePayment ∧
      escrowWith s'.escrows p.escrow = some y ∧ y.isApproved = true
  ratified : ∀ id x y, escrowWith s.escrows id = some x → escrowWith s'.escrows id = some y →
    x.isApproved = false → y.isApproved = true → .paid x.feePayment ∈ events
  /-- Money is given back when the recipient or the agent rejects the escrow, or
  when its deadline has passed, before it is approved. -/
  givenBack : ∀ p, .paid p ∈ events → p.cause = .refund ∨ p.cause = .feeReturn →
    ∃ x, escrowWith s.escrows p.escrow = some x ∧ x.isApproved = false ∧ p ∈ x.refunds x.sender ∧
      escrowWith s'.escrows p.escrow = none ∧
      ((∃ o, step = .approve o ∧ o.approve = false ∧ (o.who = x.recipient ∨ o.who = x.agent)) ∨
        (step = .ratification ∧ x.ratificationDeadline ≤ s.headBlockTime))
  /-- Money is released out of an approved escrow, by whom the contract allows. -/
  released : ∀ p, .paid p ∈ events → p.cause = .release →
    ∃ o x, step = .release o ∧ escrowWith s.escrows p.escrow = some x ∧ x.isApproved = true ∧
      x.MayRelease s.headBlockTime o.who p.account

namespace EscrowsLast

variable {t : Table Escrow} {x y : Escrow}

theorem refl (t : Table Escrow) : EscrowsLast t t where
  follows _ x h := Or.inr ⟨x, h, .refl x⟩
  gone _ _ h := h
  next := Nat.le_refl _

theorem put (hids : (t.rows.map Escrow.id).Nodup) (hx : escrowWith t x.id = some x)
    (hy : y.id = x.id) (hfollows : x.Follows y) : EscrowsLast t (putEscrow t y) where
  follows id z hz := by
    rw [escrowWith_put hids hx hy]
    by_cases hid : id = x.id
    · subst hid
      rw [hx, Option.some.injEq] at hz
      subst hz
      exact Or.inr ⟨y, if_pos rfl, hfollows⟩
    · exact Or.inr ⟨z, (if_neg hid).trans hz, .refl z⟩
  gone id _ hnone := by
    have hid : id ≠ x.id := by
      rintro rfl
      rw [hx] at hnone
      simp at hnone
    rw [escrowWith_put hids hx hy, if_neg hid, hnone]
  next := Nat.le_refl _

theorem take (hids : (t.rows.map Escrow.id).Nodup) (id : Nat) :
    EscrowsLast t (takeEscrow t id) where
  follows id' z hz := by
    rw [escrowWith_take hids]
    by_cases hid : id' = id
    · exact Or.inl (if_pos hid)
    · exact Or.inr ⟨z, (if_neg hid).trans hz, .refl z⟩
  gone id' _ hnone := by
    rw [escrowWith_take hids, hnone, ite_self]
  next := Nat.le_refl _

theorem create {e : Nat → Escrow} (hid : ∀ i, (e i).id = i)
    (hfresh : ∀ x ∈ t.rows, x.id < t.nextId) : EscrowsLast t (t.create e) where
  follows id z hz := by
    obtain ⟨hmem, hzid⟩ := mem_of_escrowWith hz
    have hlt := hfresh z hmem
    rw [escrowWith_create hid hfresh, if_neg (by omega)]
    exact Or.inr ⟨z, hz, .refl z⟩
  gone id hlt hnone := by
    rw [escrowWith_create hid hfresh, if_neg hlt.ne, hnone]
  next := Nat.le_succ _

end EscrowsLast

namespace EscrowTerms

variable {s s' : Database} {x : Escrow}

/-- A step that does nothing to the escrows. -/
theorem none (h : s'.escrows = s.escrows) (step : EscrowStep) : EscrowTerms s s' step [] where
  lasts := by
    rw [h]
    exact .refl _
  deposited := by simp
  feePaid := by simp
  ratified id x y hx hy hopen happroved := by
    rw [h, hx, Option.some.injEq] at hy
    rw [hy, happroved] at hopen
    simp at hopen
  givenBack := by simp
  released := by simp

/-- A step that puts `y` in the place of `x` and pays nothing. -/
theorem put (hids : (s.escrows.rows.map Escrow.id).Nodup) (hx : escrowWith s.escrows x.id = some x)
    (y : Escrow) (hy : y.id = x.id) (hfollows : x.Follows y) (hstill : y.isApproved = x.isApproved)
    (hput : s'.escrows = putEscrow s.escrows y) (step : EscrowStep) : EscrowTerms s s' step [] where
  lasts := by
    rw [hput]
    exact .put hids hx hy hfollows
  deposited := by simp
  feePaid := by simp
  ratified id a b ha hb hopen happroved := by
    rw [hput, escrowWith_put hids hx hy] at hb
    by_cases hid : id = x.id
    · subst hid
      rw [hx, Option.some.injEq] at ha
      rw [if_pos rfl, Option.some.injEq] at hb
      subst ha hb
      rw [hstill, hopen] at happroved
      simp at happroved
    · rw [if_neg hid, ha, Option.some.injEq] at hb
      rw [hb, happroved] at hopen
      simp at hopen
  givenBack := by simp
  released := by simp

theorem ratify (hids : (s.escrows.rows.map Escrow.id).Nodup)
    (hx : escrowWith s.escrows x.id = some x) (hopen : x.isApproved = false)
    (hput : s'.escrows = putEscrow s.escrows x.ratified) (step : EscrowStep) :
    EscrowTerms s s' step [.paid x.feePayment] where
  lasts := by
    rw [hput]
    refine .put hids hx rfl ⟨rfl, rfl, rfl, rfl, rfl, fun _ => rfl, fun h => h⟩
  deposited := by simp
  feePaid p hp _ := by
    rw [List.mem_singleton, EscrowEvent.paid.injEq] at hp
    subst hp
    refine ⟨x, x.ratified, hx, hopen, rfl, ?_, rfl⟩
    rw [hput, escrowWith_put hids hx (show x.ratified.id = x.id from rfl)]
    exact if_pos rfl
  ratified id a b ha hb haopen happroved := by
    rw [hput, escrowWith_put hids hx (show x.ratified.id = x.id from rfl)] at hb
    by_cases hid : id = x.id
    · subst hid
      rw [hx, Option.some.injEq] at ha
      rw [ha]
      exact List.mem_singleton.mpr rfl
    · rw [if_neg hid, ha, Option.some.injEq] at hb
      rw [hb, happroved] at haopen
      simp at haopen
  givenBack p hp hcause := by
    rw [List.mem_singleton, EscrowEvent.paid.injEq] at hp
    subst hp
    simp [Escrow.feePayment] at hcause
  released p hp hcause := by
    rw [List.mem_singleton, EscrowEvent.paid.injEq] at hp
    subst hp
    simp [Escrow.feePayment] at hcause

theorem mem_refunds {p : EscrowPayment} {account : AccountName} (h : p ∈ x.refunds account) :
    p.escrow = x.id ∧ p.cause ≠ .fee ∧ p.cause ≠ .release := by
  simp only [Escrow.refunds, List.mem_cons, List.not_mem_nil, or_false] at h
  rcases h with rfl | rfl | rfl <;> simp

theorem mem_releases {p : EscrowPayment} {id : Nat} {receiver : AccountName} {gbc gbd : Int}
    (h : p ∈ releases id receiver gbc gbd) :
    p.escrow = id ∧ p.cause = .release ∧ p.account = receiver := by
  simp only [releases, List.mem_cons, List.not_mem_nil, or_false] at h
  rcases h with rfl | rfl <;> simp

/-- A step that leaves of the old escrows only such as they were. -/
theorem ratified_of_left {events : List EscrowEvent}
    (hleft : ∀ id, escrowWith s'.escrows id = escrowWith s.escrows id ∨
      escrowWith s'.escrows id = .none) (id : Nat) (a b : Escrow)
    (ha : escrowWith s.escrows id = some a) (hb : escrowWith s'.escrows id = some b)
    (hopen : a.isApproved = false) (happroved : b.isApproved = true) :
    .paid a.feePayment ∈ events := by
  rcases hleft id with heq | hnone
  · rw [heq, ha, Option.some.injEq] at hb
    rw [hb, happroved] at hopen
    simp at hopen
  · rw [hnone] at hb
    simp at hb

theorem sweep {r : Database × List EscrowEvent} (h : Database.Swept s r) :
    EscrowTerms s r.1 .ratification r.2 where
  lasts := by
    refine ⟨fun id a ha => ?_, fun id _ hnone => ?_, h.next.ge⟩
    · rcases h.left id with heq | hnone
      · exact Or.inr ⟨a, heq.trans ha, .refl a⟩
      · exact Or.inl hnone
    · rcases h.left id with heq | hnone'
      · rw [heq, hnone]
      · exact hnone'
  deposited e he := by
    obtain ⟨x, p, -, heq, -⟩ := h.refunded _ he
    simp at heq
  feePaid p hp hcause := by
    obtain ⟨x, q, hq, heq, -⟩ := h.refunded _ hp
    rw [EscrowEvent.paid.injEq] at heq
    subst heq
    exact absurd hcause (mem_refunds hq).2.1
  ratified := ratified_of_left h.left
  givenBack p hp _ := by
    obtain ⟨x, q, hq, heq, hx, hopen, hdeadline, hnone⟩ := h.refunded _ hp
    rw [EscrowEvent.paid.injEq] at heq
    subst heq
    have hid := (mem_refunds hq).1
    exact ⟨x, hid ▸ hx, hopen, hq, hid ▸ hnone, Or.inr ⟨rfl, hdeadline⟩⟩
  released p hp hcause := by
    obtain ⟨x, q, hq, heq, -⟩ := h.refunded _ hp
    rw [EscrowEvent.paid.injEq] at heq
    subst heq
    exact absurd hcause (mem_refunds hq).2.2

theorem deposit {o : EscrowTransfer} (hfresh : ∀ x ∈ s.escrows.rows, x.id < s.escrows.nextId)
    (hcreate : s'.escrows = s.escrows.create o.opened) :
    EscrowTerms s s' (.transfer o) [.deposited (o.opened s.escrows.nextId)] where
  lasts := by
    rw [hcreate]
    exact .create (fun _ => rfl) hfresh
  deposited e he := by
    rw [List.mem_singleton, EscrowEvent.deposited.injEq] at he
    subst he
    exact ⟨o, rfl, rfl⟩
  feePaid := by simp
  ratified id a b ha hb hopen happroved := by
    have hid : id < s.escrows.nextId := by
      obtain ⟨hmem, hid⟩ := mem_of_escrowWith ha
      exact hid ▸ hfresh a hmem
    rw [hcreate, escrowWith_create (fun _ => rfl) hfresh, if_neg hid.ne, ha,
      Option.some.injEq] at hb
    rw [hb, happroved] at hopen
    simp at hopen
  givenBack := by simp
  released := by simp

/-- A release by the rules, that leaves `x` with less money or takes it away. -/
theorem release (hids : (s.escrows.rows.map Escrow.id).Nodup)
    (hx : escrowWith s.escrows x.id = some x) (happroved : x.isApproved = true) {o : EscrowRelease}
    (hmay : x.MayRelease s.headBlockTime o.who o.receiver) {gbc gbd : Int}
    (hnext : s'.escrows = takeEscrow s.escrows x.id ∨
      s'.escrows = putEscrow s.escrows
        (x.drawn (x.gbcBalance - gbc) (x.gbdBalance - gbd) x.disputed)) :
    EscrowTerms s s' (.release o) ((releases x.id o.receiver gbc gbd).map .paid) where
  lasts := by
    rcases hnext with h | h
    · rw [h]
      exact .take hids x.id
    · rw [h]
      exact .put hids hx rfl ⟨rfl, rfl, rfl, rfl, rfl, fun h => h, fun h => h⟩
  deposited := by simp
  feePaid p hp hcause := by
    simp only [List.mem_map, EscrowEvent.paid.injEq, exists_eq_right] at hp
    rw [(mem_releases hp).2.1] at hcause
    simp at hcause
  ratified id a b ha hb hopen hbapproved := by
    have hid : id ≠ x.id := by
      rintro rfl
      rw [hx, Option.some.injEq] at ha
      rw [← ha, happroved] at hopen
      simp at hopen
    have hsame : escrowWith s'.escrows id = escrowWith s.escrows id := by
      rcases hnext with h | h
      · rw [h, escrowWith_take hids, if_neg hid]
      · rw [h, escrowWith_put hids hx (show (x.drawn (x.gbcBalance - gbc) (x.gbdBalance - gbd)
          x.disputed).id = x.id from rfl), if_neg hid]
    rw [hsame, ha, Option.some.injEq] at hb
    rw [hb, hbapproved] at hopen
    simp at hopen
  givenBack p hp hcause := by
    simp only [List.mem_map, EscrowEvent.paid.injEq, exists_eq_right] at hp
    rw [(mem_releases hp).2.1] at hcause
    simp at hcause
  released p hp _ := by
    simp only [List.mem_map, EscrowEvent.paid.injEq, exists_eq_right] at hp
    obtain ⟨hid, -, haccount⟩ := mem_releases hp
    exact ⟨o, x, rfl, hid ▸ hx, happroved, haccount ▸ hmay⟩

end EscrowTerms

/-! ## Steps and runs -/

namespace Database

variable {s : Database} {log : List EscrowEvent}

/-- The books go on, and the step pays on the terms. -/
structure StepsWell (s : Database) (log : List EscrowEvent) (step : EscrowStep)
    (r : Database × List EscrowEvent) : Prop where
  books : EscrowBooks r.1.escrows (log ++ r.2)
  terms : EscrowTerms s r.1 step r.2

theorem StepsWell.none (h : EscrowBooks s.escrows log) {t : Database}
    (ht : t.escrows = s.escrows) (step : EscrowStep) : StepsWell s log step (t, []) where
  books := by
    rw [List.append_nil, ht]
    exact h
  terms := .none ht step

end Database

/-- What the log says of the deposit `e` at a moment. -/
structure Accounted (t : Table Escrow) (log : List EscrowEvent) (e : Escrow) : Prop where
  gbc : e.gbcBalance = ((escrowWith t e.id).map Escrow.gbcBalance).getD 0 +
    paidOut .release .gbc (paymentsOf e.id log) + paidOut .refund .gbc (paymentsOf e.id log)
  gbd : e.gbdBalance = ((escrowWith t e.id).map Escrow.gbdBalance).getD 0 +
    paidOut .release .gbd (paymentsOf e.id log) + paidOut .refund .gbd (paymentsOf e.id log)
  /-- The fee is still held, or went to the agent once, or back once. -/
  fee : (∃ x, escrowWith t e.id = some x ∧ x.isApproved = false ∧ x.pendingFee = e.pendingFee ∧
      feePayments (paymentsOf e.id log) = []) ∨
    (feePayments (paymentsOf e.id log) = [⟨e.id, .fee, e.agent, e.pendingFee⟩] ∧
      ∀ x, escrowWith t e.id = some x → x.isApproved = true) ∨
    (feePayments (paymentsOf e.id log) = [⟨e.id, .feeReturn, e.sender, e.pendingFee⟩] ∧
      escrowWith t e.id = none)

theorem feePayments_releases {payments : List EscrowPayment}
    (h : ∀ p ∈ payments, p.cause = .release) : feePayments payments = [] := by
  refine List.filter_eq_nil_iff.mpr fun p hp => ?_
  simp [h p hp]

theorem paidOut_refund_releases {payments : List EscrowPayment} (symbol : AssetSymbol)
    (h : ∀ p ∈ payments, p.cause = .release) : paidOut .refund symbol payments = 0 := by
  induction payments with
  | nil => rfl
  | cons p rest ih =>
      have hp := h p List.mem_cons_self
      have hrest := ih fun q hq => h q (List.mem_cons_of_mem p hq)
      rw [paidOut, sumOf_cons, if_neg (by simp [hp]), Int.zero_add]
      exact hrest

/-- After the fee, only releases are paid. -/
theorem payments_approved {e : Escrow} {released : List EscrowPayment} (symbol : AssetSymbol)
    (h : ∀ p ∈ released, p.cause = .release) :
    paidOut .release symbol (e.feePayment :: released) = paidOut .release symbol released ∧
      paidOut .refund symbol (e.feePayment :: released) = 0 ∧
      feePayments (e.feePayment :: released) = [⟨e.id, .fee, e.agent, e.pendingFee⟩] := by
  have hrefund := paidOut_refund_releases symbol h
  have hfee := feePayments_releases h
  refine ⟨?_, ?_, ?_⟩
  · simp [paidOut, Escrow.feePayment]
  · rw [paidOut, sumOf_cons, if_neg (by simp [Escrow.feePayment]), Int.zero_add]
    exact hrefund
  · rw [feePayments, List.filter_cons_of_pos (by simp [Escrow.feePayment])]
    exact congrArg (e.feePayment :: ·) hfee

/-- The entry of a deposit accounts for it. -/
theorem Entry.accounted {t : Table Escrow} {log : List EscrowEvent} {e : Escrow}
    (h : Entry t log e) : Accounted t log e := by
  cases h with
  | waiting byTo byAgent h hopen hpaid =>
      refine ⟨?_, ?_, Or.inl ⟨_, h, hopen, rfl, by rw [hpaid]; rfl⟩⟩
      · rw [h, hpaid]
        simp [paidOut, Escrow.withApprovals]
      · rw [h, hpaid]
        simp [paidOut, Escrow.withApprovals]
  | approved gbc gbd disputed released h hpaid hrelease hgbc hgbd =>
      obtain ⟨hc, hc', hfee⟩ := payments_approved (e := e) .gbc hrelease
      obtain ⟨hd, hd', -⟩ := payments_approved (e := e) .gbd hrelease
      refine ⟨?_, ?_, Or.inr (Or.inl ⟨by rw [hpaid, hfee], fun x hx => ?_⟩)⟩
      · rw [h, hpaid, hc, hc', Int.add_zero]
        exact hgbc
      · rw [h, hpaid, hd, hd', Int.add_zero]
        exact hgbd
      · rw [h, Option.some.injEq] at hx
        rw [← hx]
        rfl
  | settled released h hpaid hrelease hgbc hgbd =>
      obtain ⟨hc, hc', hfee⟩ := payments_approved (e := e) .gbc hrelease
      obtain ⟨hd, hd', -⟩ := payments_approved (e := e) .gbd hrelease
      refine ⟨?_, ?_, Or.inr (Or.inl ⟨by rw [hpaid, hfee], fun x hx => ?_⟩)⟩
      · rw [h, hpaid, hc, hc', hgbc]
        simp
      · rw [h, hpaid, hd, hd', hgbd]
        simp
      · rw [h] at hx
        simp at hx
  | returned h hpaid =>
      refine ⟨?_, ?_, Or.inr (Or.inr ⟨?_, h⟩)⟩
      · rw [h, hpaid]
        simp [paidOut, Escrow.refunds, Asset.gbc, Asset.gbd]
      · rw [h, hpaid]
        simp [paidOut, Escrow.refunds, Asset.gbc, Asset.gbd]
      · rw [hpaid]
        simp [feePayments, Escrow.refunds]

end Gamebank.Ledger
