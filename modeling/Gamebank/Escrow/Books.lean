import Gamebank.Ledger.Escrow

/-!
# The life of an escrow

What can happen to the escrows of a ledger, one move at a time, with the
payments each move makes (`EscrowMove`). An escrow waits for two approvals,
is then drawn upon until it is empty, or is given back before it is
approved. `Entry` says for every deposit in which of these states it is and
what was paid out of it until then; every move keeps the entries of all
deposits (`EscrowBooks.move`).
-/

namespace Gamebank.Ledger

open Gamebank.Lib Gamebank.Protocol

/-- The escrow object with the id. -/
def escrowWith (t : Table Escrow) (id : Nat) : Option Escrow := t.find? fun x => x.id = id

/-- The escrow `x` in the place of the one with its id. -/
def putEscrow (t : Table Escrow) (x : Escrow) : Table Escrow :=
  t.modify (fun y => y.id = x.id) fun _ => x

def takeEscrow (t : Table Escrow) (id : Nat) : Table Escrow := t.remove fun y => y.id = id

namespace Escrow

/-- As `escrow_transfer` creates it. -/
def isNew (e : Escrow) : Bool := !e.toApproved && !e.agentApproved && !e.disputed

/-- With these approvals of the recipient and the agent. -/
def withApprovals (e : Escrow) (byTo byAgent : Bool) : Escrow :=
  { e with toApproved := byTo, agentApproved := byAgent }

/-- Both parties have approved, and the agent has the fee. -/
def ratified (e : Escrow) : Escrow :=
  { e with toApproved := true, agentApproved := true, pendingFee := ⟨0, e.pendingFee.symbol⟩ }

/-- With less money in it, perhaps under dispute. -/
def drawn (e : Escrow) (gbc gbd : Int) (disputed : Bool) : Escrow :=
  { e with gbcBalance := gbc, gbdBalance := gbd, disputed := disputed }

/-- The fee goes to the agent. -/
def feePayment (e : Escrow) : EscrowPayment := ⟨e.id, .fee, e.agent, e.pendingFee⟩

/-- Who may release to whom at the time `now`. -/
structure MayRelease (now : Nat) (x : Escrow) (who receiver : AccountName) : Prop where
  party : receiver = x.sender ∨ receiver = x.recipient
  disputed : x.disputed = true → who = x.agent
  undisputed : x.disputed = false → who = x.sender ∨ who = x.recipient
  unexpired : x.disputed = false → now < x.escrowExpiration →
    (who = x.sender → receiver = x.recipient) ∧ (who = x.recipient → receiver = x.sender)

end Escrow

/-- One move of an escrow, with what it is paid in and pays out. -/
inductive EscrowMove (now : Nat) (t : Table Escrow) : Table Escrow → List EscrowEvent → Prop
  | deposit (e : Nat → Escrow) (hid : ∀ i, (e i).id = i) (hnew : ∀ i, (e i).isNew = true) :
      EscrowMove now t (t.create e) [.deposited (e t.nextId)]
  | accept (x : Escrow) (byTo byAgent : Bool) (hx : escrowWith t x.id = some x)
      (hto : x.toApproved = true → byTo = true) (hagent : x.agentApproved = true → byAgent = true)
      (hopen : (byTo && byAgent) = false) :
      EscrowMove now t (putEscrow t (x.withApprovals byTo byAgent)) []
  | ratify (x : Escrow) (hx : escrowWith t x.id = some x) (hopen : x.isApproved = false) :
      EscrowMove now t (putEscrow t x.ratified) [.paid x.feePayment]
  | giveBack (x : Escrow) (hx : escrowWith t x.id = some x) (hopen : x.isApproved = false) :
      EscrowMove now t (takeEscrow t x.id) ((x.refunds x.sender).map .paid)
  | dispute (x : Escrow) (hx : escrowWith t x.id = some x) (happroved : x.isApproved = true) :
      EscrowMove now t (putEscrow t (x.drawn x.gbcBalance x.gbdBalance true)) []
  | release (x : Escrow) (who receiver : AccountName) (gbc gbd : Int)
      (hx : escrowWith t x.id = some x) (happroved : x.isApproved = true)
      (hmay : x.MayRelease now who receiver) (hleft : ¬(x.gbcBalance = gbc ∧ x.gbdBalance = gbd)) :
      EscrowMove now t
        (putEscrow t (x.drawn (x.gbcBalance - gbc) (x.gbdBalance - gbd) x.disputed))
        [.paid ⟨x.id, .release, receiver, .gbc gbc⟩, .paid ⟨x.id, .release, receiver, .gbd gbd⟩]
  | empty (x : Escrow) (who receiver : AccountName)
      (hx : escrowWith t x.id = some x) (happroved : x.isApproved = true)
      (hmay : x.MayRelease now who receiver) :
      EscrowMove now t (takeEscrow t x.id)
        [.paid ⟨x.id, .release, receiver, .gbc x.gbcBalance⟩,
          .paid ⟨x.id, .release, receiver, .gbd x.gbdBalance⟩]

/-! ## What was paid out of an escrow -/

/-- The payments out of the escrow with the id, in their order. -/
def paymentsOf (id : Nat) : List EscrowEvent → List EscrowPayment
  | [] => []
  | .deposited _ :: log => paymentsOf id log
  | .paid p :: log => if p.escrow = id then p :: paymentsOf id log else paymentsOf id log

/-- The sum of the payments for a cause in one symbol. -/
def paidOut (cause : EscrowCause) (symbol : AssetSymbol) (payments : List EscrowPayment) : Int :=
  sumOf (fun p => if p.cause = cause ∧ p.amount.symbol = symbol then p.amount.amount else 0)
    payments

/-- The payments of the fee, to the agent or back. -/
def feePayments (payments : List EscrowPayment) : List EscrowPayment :=
  payments.filter fun p => p.cause = .fee || p.cause = .feeReturn

/-- The id of the escrow an event is about. -/
def EscrowEvent.escrow : EscrowEvent → Nat
  | .deposited e => e.id
  | .paid p => p.escrow

theorem paymentsOf_append (id : Nat) (log more : List EscrowEvent) :
    paymentsOf id (log ++ more) = paymentsOf id log ++ paymentsOf id more := by
  induction log with
  | nil => rfl
  | cons ev log ih =>
      cases ev with
      | deposited e => simpa [paymentsOf] using ih
      | paid p =>
          by_cases hp : p.escrow = id
          · simp [paymentsOf, hp, ih]
          · simp [paymentsOf, hp, ih]

/-- Events of other escrows pay nothing out of this one. -/
theorem paymentsOf_eq_nil {id : Nat} {log : List EscrowEvent}
    (h : ∀ ev ∈ log, ev.escrow ≠ id) : paymentsOf id log = [] := by
  induction log with
  | nil => rfl
  | cons ev log ih =>
      have hrest := ih fun ev' hev' => h ev' (List.mem_cons_of_mem ev hev')
      cases ev with
      | deposited e => exact hrest
      | paid p =>
          have hp : p.escrow ≠ id := h (.paid p) List.mem_cons_self
          simp [paymentsOf, hp, hrest]

/-- In which state the deposit `e` is, and what was paid out of it until now. -/
inductive Entry (t : Table Escrow) (log : List EscrowEvent) (e : Escrow) : Prop
  | waiting (byTo byAgent : Bool) (h : escrowWith t e.id = some (e.withApprovals byTo byAgent))
      (hopen : (byTo && byAgent) = false) (hpaid : paymentsOf e.id log = [])
  | approved (gbc gbd : Int) (disputed : Bool) (released : List EscrowPayment)
      (h : escrowWith t e.id = some (e.ratified.drawn gbc gbd disputed))
      (hpaid : paymentsOf e.id log = e.feePayment :: released)
      (hrelease : ∀ p ∈ released, p.cause = .release)
      (hgbc : e.gbcBalance = gbc + paidOut .release .gbc released)
      (hgbd : e.gbdBalance = gbd + paidOut .release .gbd released)
  | settled (released : List EscrowPayment) (h : escrowWith t e.id = none)
      (hpaid : paymentsOf e.id log = e.feePayment :: released)
      (hrelease : ∀ p ∈ released, p.cause = .release)
      (hgbc : e.gbcBalance = paidOut .release .gbc released)
      (hgbd : e.gbdBalance = paidOut .release .gbd released)
  | returned (h : escrowWith t e.id = none) (hpaid : paymentsOf e.id log = e.refunds e.sender)

/-- The log accounts for every deposit, and every escrow is one. -/
structure EscrowBooks (t : Table Escrow) (log : List EscrowEvent) : Prop where
  ids : (t.rows.map Escrow.id).Nodup
  fresh : ∀ x ∈ t.rows, x.id < t.nextId
  logged : ∀ ev ∈ log, ev.escrow < t.nextId
  covered : ∀ x ∈ t.rows, ∃ e, .deposited e ∈ log ∧ e.id = x.id
  entries : ∀ e, .deposited e ∈ log → Entry t log e

theorem EscrowBooks.empty : EscrowBooks .empty [] where
  ids := List.nodup_nil
  fresh := by simp [Table.empty]
  logged := by simp
  covered := by simp [Table.empty]
  entries := by simp

/-! ## Tables after a move -/

variable {now : Nat} {t t' : Table Escrow} {log events : List EscrowEvent} {x : Escrow}

theorem mem_of_escrowWith {id : Nat} (h : escrowWith t id = some x) : x ∈ t.rows ∧ x.id = id :=
  ⟨List.mem_of_find?_eq_some h, by simpa using List.find?_some h⟩

theorem escrowWith_put (hids : (t.rows.map Escrow.id).Nodup) {y : Escrow}
    (hx : escrowWith t x.id = some x) (hy : y.id = x.id) (id : Nat) :
    escrowWith (putEscrow t y) id = if id = x.id then some y else escrowWith t id := by
  have hfind := Table.find?_modify hids (hy ▸ hx : escrowWith t y.id = some x) id
  rw [hy] at hfind
  unfold putEscrow escrowWith
  rw [hy]
  exact hfind

theorem escrowWith_take (hids : (t.rows.map Escrow.id).Nodup) (gone id : Nat) :
    escrowWith (takeEscrow t gone) id = if id = gone then none else escrowWith t id :=
  Table.find?_remove hids gone id

theorem escrowWith_create {e : Nat → Escrow} (hid : ∀ i, (e i).id = i)
    (hfresh : ∀ x ∈ t.rows, x.id < t.nextId) (id : Nat) :
    escrowWith (t.create e) id = if id = t.nextId then some (e t.nextId) else escrowWith t id := by
  have hne : ∀ x ∈ t.rows, x.id ≠ (e t.nextId).id := by
    intro x hx
    rw [hid]
    exact (hfresh x hx).ne
  have hfind := Table.find?_create hne id
  rw [hid] at hfind
  exact hfind

/-- The books without the entries. -/
structure Orderly (t : Table Escrow) (log : List EscrowEvent) : Prop where
  ids : (t.rows.map Escrow.id).Nodup
  fresh : ∀ x ∈ t.rows, x.id < t.nextId
  logged : ∀ ev ∈ log, ev.escrow < t.nextId
  covered : ∀ x ∈ t.rows, ∃ e, .deposited e ∈ log ∧ e.id = x.id

theorem EscrowBooks.orderly (h : EscrowBooks t log) : Orderly t log :=
  ⟨h.ids, h.fresh, h.logged, h.covered⟩

theorem Orderly.append (h : Orderly t log) (hevents : ∀ ev ∈ events, ev.escrow < t.nextId) :
    Orderly t (log ++ events) where
  ids := h.ids
  fresh := h.fresh
  logged := by
    intro ev hev
    rcases List.mem_append.mp hev with hev | hev
    · exact h.logged ev hev
    · exact hevents ev hev
  covered := by
    intro x hx
    obtain ⟨e, he, hid⟩ := h.covered x hx
    exact ⟨e, List.mem_append_left _ he, hid⟩

/-- Tables with the same ids or fewer. -/
theorem Orderly.of_ids (h : Orderly t log) (hnext : t'.nextId = t.nextId)
    (hids : (t'.rows.map Escrow.id).Sublist (t.rows.map Escrow.id)) : Orderly t' log := by
  have hback : ∀ y ∈ t'.rows, ∃ x ∈ t.rows, x.id = y.id := by
    intro y hy
    exact List.mem_map.mp (hids.subset (List.mem_map_of_mem hy))
  refine ⟨h.ids.sublist hids, ?_, by rw [hnext]; exact h.logged, ?_⟩
  · intro y hy
    obtain ⟨x, hx, hxy⟩ := hback y hy
    rw [hnext, ← hxy]
    exact h.fresh x hx
  · intro y hy
    obtain ⟨x, hx, hxy⟩ := hback y hy
    obtain ⟨e, he, hid⟩ := h.covered x hx
    exact ⟨e, he, hid.trans hxy⟩

theorem Orderly.put (h : Orderly t log) {y : Escrow} (hx : escrowWith t x.id = some x)
    (hy : y.id = x.id) : Orderly (putEscrow t y) log := by
  have hids : (putEscrow t y).rows.map Escrow.id = t.rows.map Escrow.id :=
    Table.keys_modify (hy ▸ hx)
  exact h.of_ids rfl (by rw [hids])

theorem Orderly.take (h : Orderly t log) (id : Nat) : Orderly (takeEscrow t id) log :=
  h.of_ids rfl (List.Sublist.map _ List.eraseP_sublist)

/-! ## A move keeps the books -/

theorem Escrow.withApprovals_self {e : Escrow} (h : e.isNew = true) :
    e.withApprovals false false = e := by
  obtain ⟨⟨hto, hagent⟩, -⟩ : (e.toApproved = false ∧ e.agentApproved = false) ∧
      e.disputed = false := by simpa [Escrow.isNew] using h
  rw [Escrow.withApprovals, ← hto]
  nth_rewrite 2 [hto]
  rw [← hagent]

/-- What a move does not touch stays as it was. -/
theorem Entry.congr {e : Escrow} (h : Entry t log e)
    (hwith : escrowWith t' e.id = escrowWith t e.id)
    (hevents : ∀ ev ∈ events, ev.escrow ≠ e.id) : Entry t' (log ++ events) e := by
  have hpay : paymentsOf e.id (log ++ events) = paymentsOf e.id log := by
    rw [paymentsOf_append, paymentsOf_eq_nil hevents, List.append_nil]
  cases h with
  | waiting byTo byAgent h hopen hpaid =>
      exact .waiting byTo byAgent (hwith.trans h) hopen (hpay.trans hpaid)
  | approved gbc gbd disputed released h hpaid hrelease hgbc hgbd =>
      exact .approved gbc gbd disputed released (hwith.trans h) (hpay.trans hpaid) hrelease hgbc
        hgbd
  | settled released h hpaid hrelease hgbc hgbd =>
      exact .settled released (hwith.trans h) (hpay.trans hpaid) hrelease hgbc hgbd
  | returned h hpaid => exact .returned (hwith.trans h) (hpay.trans hpaid)

/-- An escrow that still waits for an approval is its deposit with the
approvals it has. -/
theorem Entry.of_open {e : Escrow} (h : Entry t log e) (hx : escrowWith t e.id = some x)
    (hopen : x.isApproved = false) :
    x = e.withApprovals x.toApproved x.agentApproved ∧ paymentsOf e.id log = [] := by
  cases h with
  | waiting byTo byAgent h _ hpaid =>
      rw [h, Option.some.injEq] at hx
      subst hx
      exact ⟨rfl, hpaid⟩
  | approved gbc gbd disputed released h =>
      rw [h, Option.some.injEq] at hx
      subst hx
      simp [Escrow.isApproved, Escrow.drawn, Escrow.ratified] at hopen
  | settled released h =>
      rw [h] at hx
      simp at hx
  | returned h =>
      rw [h] at hx
      simp at hx

/-- An approved escrow is its deposit less what was released. -/
theorem Entry.of_approved {e : Escrow} (h : Entry t log e) (hx : escrowWith t e.id = some x)
    (happroved : x.isApproved = true) :
    x = e.ratified.drawn x.gbcBalance x.gbdBalance x.disputed ∧
      ∃ released, paymentsOf e.id log = e.feePayment :: released ∧
        (∀ p ∈ released, p.cause = .release) ∧
        e.gbcBalance = x.gbcBalance + paidOut .release .gbc released ∧
        e.gbdBalance = x.gbdBalance + paidOut .release .gbd released := by
  cases h with
  | waiting byTo byAgent h hopen hpaid =>
      rw [h, Option.some.injEq] at hx
      subst hx
      have hboth : (byTo && byAgent) = true := happroved
      rw [hopen] at hboth
      simp at hboth
  | approved gbc gbd disputed released h hpaid hrelease hgbc hgbd =>
      rw [h, Option.some.injEq] at hx
      subst hx
      exact ⟨rfl, released, hpaid, hrelease, hgbc, hgbd⟩
  | settled released h =>
      rw [h] at hx
      simp at hx
  | returned h =>
      rw [h] at hx
      simp at hx

theorem paidOut_append (cause : EscrowCause) (symbol : AssetSymbol)
    (payments more : List EscrowPayment) :
    paidOut cause symbol (payments ++ more) =
      paidOut cause symbol payments + paidOut cause symbol more :=
  sumOf_append _ _ _

/-- The two payments of a release. -/
def releases (id : Nat) (receiver : AccountName) (gbc gbd : Int) : List EscrowPayment :=
  [⟨id, .release, receiver, .gbc gbc⟩, ⟨id, .release, receiver, .gbd gbd⟩]

theorem paidOut_releases (id : Nat) (receiver : AccountName) (gbc gbd : Int) :
    paidOut .release .gbc (releases id receiver gbc gbd) = gbc ∧
      paidOut .release .gbd (releases id receiver gbc gbd) = gbd := by
  simp [paidOut, releases, Asset.gbc, Asset.gbd]

theorem paymentsOf_releases (id : Nat) (receiver : AccountName) (gbc gbd : Int) :
    paymentsOf id ((releases id receiver gbc gbd).map .paid) = releases id receiver gbc gbd := by
  simp [paymentsOf, releases]

/-- The log after a release out of an approved escrow. -/
theorem Entry.released {e : Escrow} (h : Entry t log e) (hx : escrowWith t e.id = some x)
    (happroved : x.isApproved = true) (receiver : AccountName) (gbc gbd : Int) :
    ∃ released, paymentsOf e.id (log ++ (releases e.id receiver gbc gbd).map .paid) =
        e.feePayment :: released ∧
      (∀ p ∈ released, p.cause = .release) ∧
      e.gbcBalance = x.gbcBalance - gbc + paidOut .release .gbc released ∧
      e.gbdBalance = x.gbdBalance - gbd + paidOut .release .gbd released := by
  obtain ⟨-, released, hpaid, hrelease, hgbc, hgbd⟩ := h.of_approved hx happroved
  obtain ⟨h1, h2⟩ := paidOut_releases e.id receiver gbc gbd
  refine ⟨released ++ releases e.id receiver gbc gbd, ?_, ?_, ?_, ?_⟩
  · rw [paymentsOf_append, hpaid, paymentsOf_releases]
    rfl
  · intro p hp
    rcases List.mem_append.mp hp with hp | hp
    · exact hrelease p hp
    · simp only [releases, List.mem_cons, List.not_mem_nil, or_false] at hp
      rcases hp with rfl | rfl <;> rfl
  · rw [paidOut_append, h1]
    omega
  · rw [paidOut_append, h2]
    omega

/-- The rule for a move of the escrow `x`: the entry of its deposit is shown
anew, every other one stays. -/
theorem EscrowBooks.move_one (h : EscrowBooks t log) (horderly : Orderly t' (log ++ events))
    (hdeposits : ∀ e, .deposited e ∉ events) (hevents : ∀ ev ∈ events, ev.escrow = x.id)
    (helse : ∀ id, id ≠ x.id → escrowWith t' id = escrowWith t id)
    (hone : ∀ e, e.id = x.id → Entry t log e → Entry t' (log ++ events) e) :
    EscrowBooks t' (log ++ events) := by
  refine ⟨horderly.ids, horderly.fresh, horderly.logged, horderly.covered, fun e he => ?_⟩
  have hold : .deposited e ∈ log := (List.mem_append.mp he).resolve_right (hdeposits e)
  by_cases hid : e.id = x.id
  · exact hone e hid (h.entries e hold)
  · refine (h.entries e hold).congr (helse _ hid) fun ev hev => ?_
    rw [hevents ev hev]
    exact Ne.symm hid

/-- A new escrow waits for both approvals. -/
theorem EscrowBooks.deposit (h : EscrowBooks t log) {e : Nat → Escrow} (hid : ∀ i, (e i).id = i)
    (hnew : (e t.nextId).isNew = true) :
    EscrowBooks (t.create e) (log ++ [.deposited (e t.nextId)]) := by
  have hwith := escrowWith_create hid h.fresh
  refine ⟨?_, ?_, ?_, ?_, ?_⟩
  · refine nodup_map_append_single h.ids fun x hx => ?_
    rw [hid]
    exact (h.fresh x hx).ne
  · intro x hx
    show x.id < t.nextId + 1
    rcases List.mem_append.mp hx with hx | hx
    · have := h.fresh x hx
      omega
    · rw [List.mem_singleton.mp hx, hid]
      omega
  · intro ev hev
    show ev.escrow < t.nextId + 1
    rcases List.mem_append.mp hev with hev | hev
    · have := h.logged ev hev
      omega
    · rw [List.mem_singleton.mp hev, EscrowEvent.escrow, hid]
      omega
  · intro x hx
    rcases List.mem_append.mp hx with hx | hx
    · obtain ⟨d, hd, hdx⟩ := h.covered x hx
      exact ⟨d, List.mem_append_left _ hd, hdx⟩
    · rw [List.mem_singleton.mp hx]
      exact ⟨_, List.mem_append_right _ List.mem_cons_self, rfl⟩
  · intro d hd
    rcases List.mem_append.mp hd with hd | hd
    · have hlt : d.id < t.nextId := h.logged _ hd
      refine (h.entries d hd).congr ?_ fun ev hev => ?_
      · rw [hwith, if_neg (by omega)]
      · rw [List.mem_singleton.mp hev, EscrowEvent.escrow, hid]
        omega
    · rw [List.mem_singleton, EscrowEvent.deposited.injEq] at hd
      subst hd
      refine .waiting false false ?_ rfl ?_
      · rw [hwith, hid, if_pos rfl, Escrow.withApprovals_self hnew]
      · rw [paymentsOf_append, hid]
        have hnone : paymentsOf t.nextId log = [] := by
          refine paymentsOf_eq_nil fun ev hev => ?_
          have := h.logged ev hev
          omega
        rw [hnone]
        rfl

/-- The books with the escrow `x` replaced by `y`, or paid out of. -/
theorem EscrowBooks.put (h : EscrowBooks t log) (hx : escrowWith t x.id = some x) (y : Escrow)
    (hy : y.id = x.id) (payments : List EscrowPayment) (hpay : ∀ p ∈ payments, p.escrow = x.id)
    (hone : ∀ e, e.id = x.id → Entry t log e → escrowWith (putEscrow t y) e.id = some y →
      Entry (putEscrow t y) (log ++ payments.map .paid) e) :
    EscrowBooks (putEscrow t y) (log ++ payments.map .paid) := by
  have hevents : ∀ ev ∈ payments.map EscrowEvent.paid, ev.escrow = x.id := by
    intro ev hev
    obtain ⟨p, hp, rfl⟩ := List.mem_map.mp hev
    exact hpay p hp
  refine h.move_one ?_ (by simp) hevents ?_ ?_
  · refine (h.orderly.put hx hy).append fun ev hev => ?_
    rw [hevents ev hev]
    exact h.fresh x (mem_of_escrowWith hx).1
  · intro id hid
    rw [escrowWith_put h.ids hx hy, if_neg hid]
  · intro e he hentry
    refine hone e he hentry ?_
    rw [escrowWith_put h.ids hx hy, if_pos he]

/-- The books with the escrow `x` gone. -/
theorem EscrowBooks.take (h : EscrowBooks t log) (hx : escrowWith t x.id = some x)
    (payments : List EscrowPayment) (hpay : ∀ p ∈ payments, p.escrow = x.id)
    (hone : ∀ e, e.id = x.id → Entry t log e → escrowWith (takeEscrow t x.id) e.id = none →
      Entry (takeEscrow t x.id) (log ++ payments.map .paid) e) :
    EscrowBooks (takeEscrow t x.id) (log ++ payments.map .paid) := by
  have hevents : ∀ ev ∈ payments.map EscrowEvent.paid, ev.escrow = x.id := by
    intro ev hev
    obtain ⟨p, hp, rfl⟩ := List.mem_map.mp hev
    exact hpay p hp
  refine h.move_one ?_ (by simp) hevents ?_ ?_
  · refine (h.orderly.take x.id).append fun ev hev => ?_
    rw [hevents ev hev]
    exact h.fresh x (mem_of_escrowWith hx).1
  · intro id hid
    rw [escrowWith_take h.ids, if_neg hid]
  · intro e he hentry
    refine hone e he hentry ?_
    rw [escrowWith_take h.ids, if_pos he]

theorem EscrowBooks.accept (h : EscrowBooks t log) (hx : escrowWith t x.id = some x)
    {byTo byAgent : Bool} (hopen : x.isApproved = false) (hstill : (byTo && byAgent) = false) :
    EscrowBooks (putEscrow t (x.withApprovals byTo byAgent)) (log ++ []) := by
  refine h.put hx (x.withApprovals byTo byAgent) rfl [] (by simp) fun e he hentry hwith => ?_
  obtain ⟨heq, hpaid⟩ := hentry.of_open (he ▸ hx) hopen
  refine .waiting byTo byAgent (hwith.trans ?_) hstill ?_
  · rw [heq]
    rfl
  · rw [List.map_nil, List.append_nil]
    exact hpaid

theorem EscrowBooks.ratify (h : EscrowBooks t log) (hx : escrowWith t x.id = some x)
    (hopen : x.isApproved = false) :
    EscrowBooks (putEscrow t x.ratified) (log ++ [.paid x.feePayment]) := by
  refine h.put hx x.ratified rfl [x.feePayment] (by simp [Escrow.feePayment])
    fun e he hentry hwith => ?_
  obtain ⟨heq, hpaid⟩ := hentry.of_open (he ▸ hx) hopen
  have hfee : x.feePayment = e.feePayment := by
    rw [heq]
    rfl
  refine .approved e.gbcBalance e.gbdBalance e.disputed [] (hwith.trans ?_) ?_ (by simp) ?_ ?_
  · rw [heq]
    rfl
  · rw [paymentsOf_append, hpaid, hfee]
    simp [paymentsOf, Escrow.feePayment]
  · exact (Int.add_zero _).symm
  · exact (Int.add_zero _).symm

theorem EscrowBooks.giveBack (h : EscrowBooks t log) (hx : escrowWith t x.id = some x)
    (hopen : x.isApproved = false) :
    EscrowBooks (takeEscrow t x.id) (log ++ (x.refunds x.sender).map .paid) := by
  refine h.take hx (x.refunds x.sender) (by simp [Escrow.refunds]) fun e he hentry hwith => ?_
  obtain ⟨heq, hpaid⟩ := hentry.of_open (he ▸ hx) hopen
  have hrefunds : x.refunds x.sender = e.refunds e.sender := by
    rw [heq]
    rfl
  refine .returned hwith ?_
  rw [paymentsOf_append, hpaid, hrefunds]
  simp [paymentsOf, Escrow.refunds]

theorem EscrowBooks.dispute (h : EscrowBooks t log) (hx : escrowWith t x.id = some x)
    (happroved : x.isApproved = true) :
    EscrowBooks (putEscrow t (x.drawn x.gbcBalance x.gbdBalance true)) (log ++ []) := by
  refine h.put hx (x.drawn x.gbcBalance x.gbdBalance true) rfl [] (by simp)
    fun e he hentry hwith => ?_
  obtain ⟨heq, released, hpaid, hrelease, hgbc, hgbd⟩ := hentry.of_approved (he ▸ hx) happroved
  refine .approved x.gbcBalance x.gbdBalance true released (hwith.trans ?_) ?_ hrelease hgbc hgbd
  · rw [heq]
    rfl
  · rw [List.map_nil, List.append_nil]
    exact hpaid

theorem EscrowBooks.release (h : EscrowBooks t log) (hx : escrowWith t x.id = some x)
    (happroved : x.isApproved = true) (receiver : AccountName) (gbc gbd : Int) :
    EscrowBooks (putEscrow t (x.drawn (x.gbcBalance - gbc) (x.gbdBalance - gbd) x.disputed))
      (log ++ (releases x.id receiver gbc gbd).map .paid) := by
  refine h.put hx (x.drawn (x.gbcBalance - gbc) (x.gbdBalance - gbd) x.disputed) rfl
    (releases x.id receiver gbc gbd) (by simp [releases]) fun e he hentry hwith => ?_
  obtain ⟨heq, -⟩ := hentry.of_approved (he ▸ hx) happroved
  obtain ⟨released, hpaid, hrelease, hgbc, hgbd⟩ :=
    hentry.released (he ▸ hx) happroved receiver gbc gbd
  refine .approved _ _ x.disputed released (hwith.trans ?_) (he ▸ hpaid) hrelease hgbc hgbd
  rw [heq]
  rfl

theorem EscrowBooks.empties (h : EscrowBooks t log) (hx : escrowWith t x.id = some x)
    (happroved : x.isApproved = true) (receiver : AccountName) :
    EscrowBooks (takeEscrow t x.id)
      (log ++ (releases x.id receiver x.gbcBalance x.gbdBalance).map .paid) := by
  refine h.take hx (releases x.id receiver x.gbcBalance x.gbdBalance) (by simp [releases])
    fun e he hentry hwith => ?_
  obtain ⟨released, hpaid, hrelease, hgbc, hgbd⟩ :=
    hentry.released (he ▸ hx) happroved receiver x.gbcBalance x.gbdBalance
  rw [Int.sub_self, Int.zero_add] at hgbc hgbd
  exact .settled released hwith (he ▸ hpaid) hrelease hgbc hgbd

/-- **Every move keeps the books.** -/
theorem EscrowBooks.move (h : EscrowBooks t log) (hmove : EscrowMove now t t' events) :
    EscrowBooks t' (log ++ events) := by
  cases hmove with
  | deposit e hid hnew => exact h.deposit hid (hnew _)
  | accept x byTo byAgent hx hto hagent hopen =>
      refine h.accept hx ?_ hopen
      cases hboth : x.isApproved with
      | false => rfl
      | true =>
          obtain ⟨h1, h2⟩ : x.toApproved = true ∧ x.agentApproved = true := by
            simpa [Escrow.isApproved] using hboth
          rw [hto h1, hagent h2] at hopen
          simp at hopen
  | ratify x hx hopen => exact h.ratify hx hopen
  | giveBack x hx hopen => exact h.giveBack hx hopen
  | dispute x hx happroved => exact h.dispute hx happroved
  | release x who receiver gbc gbd hx happroved => exact h.release hx happroved receiver gbc gbd
  | empty x who receiver hx happroved => exact h.empties hx happroved receiver

end Gamebank.Ledger
