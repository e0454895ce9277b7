import Gamebank.Escrow.Evaluators
import Gamebank.Savings.Balances

/-!
# The balances behind the escrows

What the events of an escrow say of the balances of accounts: a deposit takes
the money and the fee from its sender, a payment goes to the account it
names. Every escrow operation, and the sweep of a block, moves the balances
of all accounts by exactly what its events say, and by nothing else but the
interest due (`Settled`).

`adjust_balance` would take a fee in GBS out of the vesting shares; the fees
of the escrows of a ledger are GBC or GBD, since `escrow_transfer` checks
that they are.
-/

namespace Gamebank.Ledger

open Gamebank.Lib Gamebank.Protocol

/-- The fee of an escrow in the symbol. -/
def Escrow.feeIn (e : Escrow) (symbol : AssetSymbol) : Int :=
  if e.pendingFee.symbol = symbol then e.pendingFee.amount else 0

/-- What a payment gives its account. -/
def EscrowPayment.movement (p : EscrowPayment) : Movement := ⟨p.account, .liquid, p.amount⟩

/-- What an event is in the balances of accounts. -/
def EscrowEvent.movements : EscrowEvent → List Movement
  | .deposited e =>
      [⟨e.sender, .liquid, .gbc (-(e.gbcBalance + e.feeIn .gbc))⟩,
        ⟨e.sender, .liquid, .gbd (-(e.gbdBalance + e.feeIn .gbd))⟩]
  | .paid p => [p.movement]

/-- The movements of the events of a step. -/
def escrowMovements (events : List EscrowEvent) : List Movement :=
  events.flatMap EscrowEvent.movements

theorem escrowMovements_append (events events' : List EscrowEvent) :
    escrowMovements (events ++ events') = escrowMovements events ++ escrowMovements events' :=
  List.flatMap_append

theorem escrowMovements_paid (payments : List EscrowPayment) :
    escrowMovements (payments.map .paid) = payments.map EscrowPayment.movement := by
  induction payments with
  | nil => rfl
  | cons p rest ih => exact congrArg (p.movement :: ·) ih

/-- The fee is one that `adjust_balance` takes from a balance. -/
def Escrow.FeeLiquid (e : Escrow) : Prop := e.pendingFee.symbol ≠ .gbs

theorem Escrow.refunds_symbols {e : Escrow} (h : e.FeeLiquid) (account : AccountName) :
    ∀ p ∈ e.refunds account, p.amount.symbol ≠ .gbs := by
  simp only [Escrow.refunds, List.mem_cons, List.not_mem_nil, or_false]
  rintro p (rfl | rfl | rfl)
  · exact fun h => by cases h
  · exact fun h => by cases h
  · exact h

namespace Database

variable {s t : Database} {x : Escrow}

/-- The balances have moved from `s` to the state of `r` by the events, and the
fees of the escrows are still liquid. -/
structure Settled (s : Database) (r : Database × List EscrowEvent) : Prop where
  moved : s.Moved r.1 (escrowMovements r.2)
  fees : r.1.escrows.All Escrow.FeeLiquid

theorem payOut_moved {payments : List EscrowPayment}
    (h : ∀ p ∈ payments, p.amount.symbol ≠ .gbs) :
    Returns (s.payOut payments) fun t => s.Moved t (payments.map EscrowPayment.movement) := by
  induction payments generalizing s with
  | nil => exact .pure (.refl s)
  | cons p rest ih =>
      unfold payOut
      rw [List.foldlM_cons]
      refine .bind (adjustBalance_moved (h p List.mem_cons_self)) fun u hu => ?_
      refine (ih fun q hq => h q (List.mem_cons_of_mem p hq)).mono fun t ht => ?_
      exact hu.trans ht

/-- A change of the escrows alone moves no balance. -/
theorem escrows_moved (s : Database) (table : Table Escrow) :
    s.Moved { s with escrows := table } [] :=
  .of_same (fun _ a ha => ⟨a, ha, fun _ _ => rfl, rfl⟩) rfl rfl

theorem payOut_all {P : Escrow → Prop} {payments : List EscrowPayment} (h : s.escrows.All P)
    (ht : s.payOut payments = .ok t) : t.escrows.All P := by
  rw [(payOut_sameEscrows _ _ t ht).escrows]
  exact h

/-- Payments between two changes of the escrows. -/
theorem moved_around_payOut (table : Table Escrow) {payments : List EscrowPayment}
    {u : Database} (hu : ({ s with escrows := table } : Database).Moved u
      (payments.map EscrowPayment.movement)) (table' : Table Escrow) :
    s.Moved { u with escrows := table' } (escrowMovements (payments.map .paid)) := by
  have hall := ((escrows_moved s table).trans hu).trans (escrows_moved u table')
  rw [List.nil_append, List.append_nil] at hall
  rw [escrowMovements_paid]
  exact hall

theorem Settled.expire {r : Database × List EscrowEvent} (h : Settled s r)
    (hx : r.1.unratified = some x) : Returns (expireEscrow x r) (Settled s) := by
  have hfee : x.FeeLiquid := h.fees x (unratified_spec hx).1
  unfold expireEscrow
  refine .bind_eq fun u hu => .pure ⟨?_, (payOut_all h.fees hu).remove⟩
  have hmoved := payOut_moved (Escrow.refunds_symbols hfee _) u hu
  rw [escrowMovements_append]
  exact h.moved.trans (moved_around_payOut r.1.escrows hmoved _)

end Database

end Gamebank.Ledger
