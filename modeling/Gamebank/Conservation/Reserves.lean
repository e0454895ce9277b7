import Gamebank.Conservation.Entries
import Gamebank.Escrow.Evaluators
import Gamebank.Ledger.Savings

/-!
# What escrows, savings and conversions hold

Escrows, withdrawals from savings and conversions hold what has left one
account and not yet reached the other. They are found by what an operation
names, and changed or removed by their ids, so the books are kept because an
id is there once (`Sound`). An approved escrow has paid its fee: it is removed
when its balances are empty, and a fee still in it would be gone.

An escrow may be changed before it pays. `AsideEscrows` is about everything
but the escrows; what these hold less is what was paid out (`EscrowMove.paid`).
-/

namespace Gamebank.Conservation

open Gamebank.Lib Gamebank.Protocol Gamebank.Ledger
open Gamebank.Ledger.Database (require_eq_ok getEscrow_with)

variable {s t u : Database} {d e : Entry} {now : Nat}

/-! ## States with books that can be kept -/

/-- The reward fund, and the objects with ids and ranges the routines rely on. -/
structure Sound (s : Database) : Prop where
  accounts : ∀ a ∈ s.accounts.rows, InRange a
  orders : ∀ o ∈ s.limitOrders.rows, o.sellPrice.base.symbol ≠ .gbs
  routes : ∀ r ∈ s.withdrawVestingRoutes.rows, 0 ≤ r.percent ∧ r.percent ≤ hundredPercent
  escrows : s.escrows.Keyed Escrow.id Escrow.id
  fees : ∀ x ∈ s.escrows.rows, x.isApproved = true → x.pendingFee.amount = 0
  savingsWithdraws : s.savingsWithdraws.Keyed SavingsWithdraw.id SavingsWithdraw.id
  convertRequests : s.convertRequests.Keyed ConvertRequest.id ConvertRequest.id
  rewardFund : ∃ f, s.rewardFunds.rows = [f] ∧ f.id = 0

theorem Sound.fair (hs : Sound s) : Fair s := ⟨hs.accounts, hs.orders⟩

/-- `t` is `s` with `d` entered, and it is sound. -/
structure Kept (s t : Database) (d : Entry) : Prop where
  excess : excess t = excess s + d
  sound : Sound t

namespace Kept

theorem refl (hs : Sound s) : Kept s s 0 := ⟨(add_zero _).symm, hs⟩

theorem trans (h : Kept s t d) (h' : Kept t u e) : Kept s u (d + e) :=
  ⟨by rw [h'.excess, h.excess, add_assoc], h'.sound⟩

theorem of_eq (h : Kept s t d) (hd : d = e) : Kept s t e := hd ▸ h

end Kept

theorem Enters.sameTables (h : Enters s t d) :
    t.withdrawVestingRoutes = s.withdrawVestingRoutes ∧ t.escrows = s.escrows ∧
      t.savingsWithdraws = s.savingsWithdraws ∧ t.convertRequests = s.convertRequests ∧
      t.rewardFunds = s.rewardFunds := by
  simpa only [sideTables, Prod.mk.injEq] using h.tables

theorem Enters.kept (h : Enters s t d) (hs : Sound s) : Kept s t d := by
  obtain ⟨hroutes, hescrows, hsavings, hrequests, hfunds⟩ := h.sameTables
  have hfair := h.fair hs.fair
  refine ⟨h.excess, ⟨hfair.accounts, hfair.orders, ?_, ?_, ?_, ?_, ?_, ?_⟩⟩
  · rw [hroutes]
    exact hs.routes
  · rw [hescrows]
    exact hs.escrows
  · rw [hescrows]
    exact hs.fees
  · rw [hsavings]
    exact hs.savingsWithdraws
  · rw [hrequests]
    exact hs.convertRequests
  · rw [hfunds]
    exact hs.rewardFund

theorem savingsWithdraws_kept (hs : Sound s) {table : Table SavingsWithdraw}
    (hkeyed : table.Keyed SavingsWithdraw.id SavingsWithdraw.id)
    (h : table.sum withdrawHolds = s.savingsWithdraws.sum withdrawHolds + d) :
    Kept s { s with savingsWithdraws := table } d := by
  refine ⟨?_, { hs with savingsWithdraws := hkeyed }⟩
  rw [excess, excess, h]
  abel

theorem convertRequests_kept (hs : Sound s) {table : Table ConvertRequest}
    (hkeyed : table.Keyed ConvertRequest.id ConvertRequest.id)
    (h : table.sum requestHolds = s.convertRequests.sum requestHolds + d) :
    Kept s { s with convertRequests := table } d := by
  refine ⟨?_, { hs with convertRequests := hkeyed }⟩
  rw [excess, excess, h]
  abel

/-! ## Escrows -/

/-- What an event pays to the accounts. -/
def eventEntry : EscrowEvent → Entry
  | .deposited x => -escrowHolds x
  | .paid p => assetEntry p.amount

def eventsEntry (events : List EscrowEvent) : Entry := (events.map eventEntry).sum

theorem sum_putEscrow {t : Table Escrow} {x y : Escrow} (hx : escrowWith t x.id = some x)
    (hy : y.id = x.id) :
    (putEscrow t y).sum escrowHolds = t.sum escrowHolds + (escrowHolds y - escrowHolds x) := by
  refine Table.sum_modify ?_ _ _
  rw [hy]
  exact hx

/-- What the escrows have less after a move was paid to the accounts. -/
theorem EscrowMove.paid {t t' : Table Escrow} {events : List EscrowEvent}
    (h : EscrowMove now t t' events)
    (hfees : ∀ x ∈ t.rows, x.isApproved = true → x.pendingFee.amount = 0) :
    t'.sum escrowHolds = t.sum escrowHolds - eventsEntry events := by
  have htake : ∀ {x : Escrow}, escrowWith t x.id = some x →
      (takeEscrow t x.id).sum escrowHolds = t.sum escrowHolds - escrowHolds x :=
    fun hx => Table.sum_remove hx _
  cases h with
  | deposit x hid hnew =>
      rw [Table.sum_create]
      simp [eventsEntry, eventEntry]
  | accept x byTo byAgent hx hto hagent hopen =>
      refine Eq.trans (sum_putEscrow hx rfl) ?_
      simp [eventsEntry, escrowHolds, Escrow.withApprovals]
  | ratify x hx hopen =>
      refine Eq.trans (sum_putEscrow hx rfl) ?_
      have hnone : assetEntry ⟨0, x.pendingFee.symbol⟩ = 0 := entry_zero _
      simp only [eventsEntry, eventEntry, escrowHolds, Escrow.ratified, Escrow.feePayment,
        List.map_cons, List.map_nil, List.sum_cons, List.sum_nil, hnone]
      abel
  | giveBack x hx hopen =>
      rw [htake hx]
      simp [eventsEntry, eventEntry, escrowHolds, Escrow.refunds, add_assoc]
  | dispute x hx happroved =>
      refine Eq.trans (sum_putEscrow hx rfl) ?_
      simp [eventsEntry, escrowHolds, Escrow.drawn]
  | release x who receiver gbc gbd hx happroved hmay hleft =>
      refine Eq.trans (sum_putEscrow hx rfl) ?_
      simp only [eventsEntry, eventEntry, escrowHolds, Escrow.drawn, List.map_cons, List.map_nil,
        List.sum_cons, List.sum_nil, assetEntry_gbc, assetEntry_gbd, entry_sub]
      abel
  | empty x who receiver hx happroved hmay =>
      have hfee : assetEntry x.pendingFee = 0 := by
        rw [assetEntry, hfees x (List.mem_of_find?_eq_some hx) happroved, entry_zero]
      rw [htake hx]
      simp [eventsEntry, eventEntry, escrowHolds, hfee]

theorem EscrowMove.keyed {t t' : Table Escrow} {events : List EscrowEvent}
    (h : EscrowMove now t t' events) (hkeyed : t.Keyed Escrow.id Escrow.id) :
    t'.Keyed Escrow.id Escrow.id := by
  have hput : ∀ {x y : Escrow}, escrowWith t x.id = some x → y.id = x.id →
      (putEscrow t y).Keyed Escrow.id Escrow.id := by
    intro x y hx hy
    unfold putEscrow
    rw [hy]
    exact hkeyed.modify (List.mem_of_find?_eq_some hx) hy hy
  cases h with
  | deposit x hid hnew =>
      refine hkeyed.create (fun y hy => ?_) hid
      rw [hid]
      exact (hkeyed.fresh y hy).ne
  | accept x byTo byAgent hx hto hagent hopen => exact hput hx rfl
  | ratify x hx hopen => exact hput hx rfl
  | giveBack x hx hopen => exact hkeyed.remove _
  | dispute x hx happroved => exact hput hx rfl
  | release x who receiver gbc gbd hx happroved hmay hleft => exact hput hx rfl
  | empty x who receiver hx happroved hmay => exact hkeyed.remove _

theorem EscrowMove.fees {t t' : Table Escrow} {events : List EscrowEvent}
    (h : EscrowMove now t t' events)
    (hfees : ∀ x ∈ t.rows, x.isApproved = true → x.pendingFee.amount = 0) :
    ∀ x ∈ t'.rows, x.isApproved = true → x.pendingFee.amount = 0 := by
  have hput : ∀ {y : Escrow}, (y.isApproved = true → y.pendingFee.amount = 0) →
      (putEscrow t y).All fun x => x.isApproved = true → x.pendingFee.amount = 0 :=
    fun hy => Table.All.modify hfees fun _ _ => hy
  cases h with
  | deposit x hid hnew =>
      refine Table.All.create hfees x fun happroved => ?_
      have hopen := hnew t.nextId
      simp only [Escrow.isNew, Escrow.isApproved, Bool.and_eq_true] at hopen happroved
      simp [happroved.1] at hopen
  | accept x byTo byAgent hx hto hagent hopen =>
      refine hput fun happroved => ?_
      rw [show (x.withApprovals byTo byAgent).isApproved = (byTo && byAgent) from rfl, hopen]
        at happroved
      cases happroved
  | ratify x hx hopen => exact hput fun _ => rfl
  | giveBack x hx hopen => exact Table.All.remove hfees
  | dispute x hx happroved => exact hput (hfees x (List.mem_of_find?_eq_some hx))
  | release x who receiver gbc gbd hx happroved hmay hleft =>
      exact hput (hfees x (List.mem_of_find?_eq_some hx))
  | empty x who receiver hx happroved hmay => exact Table.All.remove hfees

/-- `t` is `s` with `d` entered, the escrows aside. -/
structure AsideEscrows (s t : Database) (d : Entry) : Prop where
  excess : excess t - t.escrows.sum escrowHolds = excess s - s.escrows.sum escrowHolds + d
  fair : Fair s → Fair t
  routes : t.withdrawVestingRoutes = s.withdrawVestingRoutes
  savingsWithdraws : t.savingsWithdraws = s.savingsWithdraws
  convertRequests : t.convertRequests = s.convertRequests
  rewardFunds : t.rewardFunds = s.rewardFunds

namespace AsideEscrows

theorem trans (h : AsideEscrows s t d) (h' : AsideEscrows t u e) : AsideEscrows s u (d + e) where
  excess := by rw [h'.excess, h.excess, add_assoc]
  fair hs := h'.fair (h.fair hs)
  routes := h'.routes.trans h.routes
  savingsWithdraws := h'.savingsWithdraws.trans h.savingsWithdraws
  convertRequests := h'.convertRequests.trans h.convertRequests
  rewardFunds := h'.rewardFunds.trans h.rewardFunds

theorem of_eq (h : AsideEscrows s t d) (hd : d = e) : AsideEscrows s t e := hd ▸ h

theorem of_enters (h : Enters s t d) : AsideEscrows s t d := by
  obtain ⟨hroutes, hescrows, hsavings, hrequests, hfunds⟩ := h.sameTables
  refine ⟨?_, h.fair, hroutes, hsavings, hrequests, hfunds⟩
  rw [h.excess, hescrows]
  abel

theorem withEscrows (h : AsideEscrows s t d) (table : Table Escrow) :
    AsideEscrows s { t with escrows := table } d where
  excess := by
    rw [← h.excess]
    simp only [Conservation.excess]
    abel
  fair hs := ⟨(h.fair hs).accounts, (h.fair hs).orders⟩
  routes := h.routes
  savingsWithdraws := h.savingsWithdraws
  convertRequests := h.convertRequests
  rewardFunds := h.rewardFunds

/-- What the accounts were paid is what the escrows have less. -/
theorem kept {events : List EscrowEvent} (h : AsideEscrows s t (eventsEntry events)) (hs : Sound s)
    (hmove : EscrowMove now s.escrows t.escrows events) : Kept s t 0 := by
  have hpaid := EscrowMove.paid hmove hs.fees
  have hfair := h.fair hs.fair
  refine ⟨?_, ⟨hfair.accounts, hfair.orders, ?_,
    EscrowMove.keyed hmove hs.escrows, EscrowMove.fees hmove hs.fees, ?_, ?_, ?_⟩⟩
  · have hexcess := h.excess
    rw [hpaid] at hexcess
    rw [add_zero, ← sub_left_inj, hexcess]
    abel
  · rw [h.routes]
    exact hs.routes
  · rw [h.savingsWithdraws]
    exact hs.savingsWithdraws
  · rw [h.convertRequests]
    exact hs.convertRequests
  · rw [h.rewardFunds]
    exact hs.rewardFund

end AsideEscrows

theorem payOut_enters (s : Database) (payments : List EscrowPayment) :
    Returns (s.payOut payments) fun t => Enters s t (eventsEntry (payments.map .paid)) := by
  rw [eventsEntry, List.map_map]
  exact entering.foldlM (fun t p _ => adjustBalance_enters t p.account p.amount) s

theorem feeSymbol_of_validate {isValidJson : String → Bool} {o : EscrowTransfer}
    (h : o.validate isValidJson = .ok ()) : o.fee.symbol = .gbc ∨ o.fee.symbol = .gbd := by
  unfold EscrowTransfer.validate at h
  obtain ⟨_, -, h⟩ := bind_eq_ok.mp h
  obtain ⟨_, -, h⟩ := bind_eq_ok.mp h
  obtain ⟨_, -, h⟩ := bind_eq_ok.mp h
  simp only [ensure_bind_eq_ok, Bool.or_eq_true, decide_eq_true_eq] at h
  obtain ⟨-, -, -, -, -, hfee, -⟩ := h
  exact hfee

theorem escrowTransfer_aside (isValidJson : String → Bool) (s : Database) (o : EscrowTransfer) :
    Returns (s.escrowTransfer isValidJson o) fun r => AsideEscrows s r.1 (eventsEntry r.2) := by
  unfold Database.escrowTransfer
  refine .bind_eq fun _ hvalid => .bind_any fun _ => .bind_any fun _ => .bind_any fun _ =>
    .ensure fun _ => .ensure fun _ => .ensure fun _ => .ensure fun _ => ?_
  refine .bind (adjustBalance_enters s o.sender _) fun t ht => ?_
  refine .bind (adjustBalance_enters t o.sender _) fun u hu => .ensure fun _ => .pure ?_
  refine ((AsideEscrows.of_enters (ht.trans hu)).withEscrows _).of_eq ?_
  rw [eventsEntry, List.map_singleton, List.sum_singleton, eventEntry, escrowHolds]
  have hfee := feeSymbol_of_validate hvalid
  funext b
  rcases hfee with hfee | hfee
  · cases b <;> simp [hfee, EscrowTransfer.opened, assetEntry, bookOf, entry_apply, Asset.gbc,
      Asset.gbd]
  · cases b <;> simp [hfee, EscrowTransfer.opened, assetEntry, bookOf, entry_apply, Asset.gbc,
      Asset.gbd]

theorem escrowApprove_aside (s : Database) (o : EscrowApprove) :
    Returns (s.escrowApprove o) fun r => AsideEscrows s r.1 (eventsEntry r.2) := by
  unfold Database.escrowApprove
  refine .bind_any fun _ => .bind_any fun _ => .ensure fun _ => .ensure fun _ => .ensure fun _ =>
    .bind_any fun _ => .bind_any fun x => ?_
  have happroved : AsideEscrows s (s.setEscrow x) 0 :=
    (AsideEscrows.of_enters (.refl s)).withEscrows _
  refine .ite (fun _ => ?_) fun _ => .ite (fun _ => ?_) fun _ => ?_
  · refine .bind (payOut_enters _ _) fun t ht => .pure ?_
    refine AsideEscrows.withEscrows ?_ _
    exact (happroved.trans (.of_enters ht)).of_eq (zero_add _)
  · refine .bind (payOut_enters _ _) fun t ht => .pure ?_
    refine AsideEscrows.withEscrows ?_ _
    exact (happroved.trans (.of_enters ht)).of_eq (zero_add _)
  · exact .pure happroved

theorem escrowDispute_aside (s : Database) (o : EscrowDispute) :
    Returns (s.escrowDispute o) fun r => AsideEscrows s r.1 (eventsEntry r.2) := by
  unfold Database.escrowDispute
  exact .bind_any fun _ => .bind_any fun _ => .bind_any fun x => .ensure fun _ => .ensure fun _ =>
    .ensure fun _ => .ensure fun _ => .ensure fun _ =>
    .pure ((AsideEscrows.of_enters (.refl s)).withEscrows _)

theorem escrowRelease_aside (s : Database) (o : EscrowRelease) :
    Returns (s.escrowRelease o) fun r => AsideEscrows s r.1 (eventsEntry r.2) := by
  unfold Database.escrowRelease
  refine .bind_any fun _ => .bind_any fun _ => .bind_any fun x => .ensure fun _ =>
    .ensure fun _ => .ensure fun _ => .ensure fun _ => .ensure fun _ => .ensure fun _ =>
    .bind_any fun _ => ?_
  refine .bind (payOut_enters s _) fun t ht => .pure ?_
  split
  · exact ((AsideEscrows.of_enters ht).withEscrows _).withEscrows _
  · exact (AsideEscrows.of_enters ht).withEscrows _

theorem expireEscrow_aside (x : Escrow) (r : Database × List EscrowEvent) :
    Returns (Database.expireEscrow x r) fun r' =>
      AsideEscrows r.1 r'.1 (eventsEntry ((x.refunds x.sender).map .paid)) ∧
        r'.1.escrows = takeEscrow r.1.escrows x.id := by
  unfold Database.expireEscrow
  refine .bind_eq fun t ht => .pure ⟨?_, ?_⟩
  · exact (AsideEscrows.of_enters (payOut_enters r.1 _ t ht)).withEscrows _
  · show takeEscrow t.escrows x.id = _
    rw [(Database.payOut_sameEscrows r.1 _ t ht).escrows]

theorem escrowTransfer_kept (isValidJson : String → Bool) (hs : Sound s) (o : EscrowTransfer) :
    Returns (s.escrowTransfer isValidJson o) fun r => Kept s r.1 0 := by
  intro r hr
  obtain ⟨htable, hevents⟩ := Database.escrowTransfer_spec isValidJson s o r hr
  have hmove : EscrowMove 0 s.escrows r.1.escrows r.2 := by
    rw [htable, hevents]
    exact .deposit o.opened (fun _ => rfl) fun _ => rfl
  exact (escrowTransfer_aside isValidJson s o r hr).kept hs hmove

theorem escrowApprove_kept (hs : Sound s) (o : EscrowApprove) :
    Returns (s.escrowApprove o) fun r => Kept s r.1 0 := by
  intro r hr
  obtain ⟨x, hx, hopen, happroved⟩ := Database.escrowApprove_spec hs.escrows.ids o r hr
  exact (escrowApprove_aside s o r hr).kept hs (happroved.move hx hopen)

theorem escrowDispute_kept (hs : Sound s) (o : EscrowDispute) :
    Returns (s.escrowDispute o) fun r => Kept s r.1 0 := by
  intro r hr
  obtain ⟨x, hx, happroved, htable, hevents⟩ :=
    Database.escrowDispute_spec hs.escrows.ids o r hr
  have hmove : EscrowMove 0 s.escrows r.1.escrows r.2 := by
    rw [htable, hevents]
    exact .dispute x hx happroved
  exact (escrowDispute_aside s o r hr).kept hs hmove

theorem escrowRelease_kept (hs : Sound s) (o : EscrowRelease) :
    Returns (s.escrowRelease o) fun r => Kept s r.1 0 := by
  intro r hr
  obtain ⟨x, hx, happroved, hmay, hevents, htable⟩ :=
    Database.escrowRelease_spec hs.escrows.ids o r hr
  have hmove : EscrowMove s.headBlockTime s.escrows r.1.escrows r.2 := by
    rw [hevents]
    rcases htable with ⟨hgbc, hgbd, htable⟩ | ⟨hleft, htable⟩
    · rw [htable, ← hgbc, ← hgbd]
      exact .empty x o.who o.receiver hx happroved hmay
    · rw [htable]
      exact .release x o.who o.receiver _ _ hx happroved hmay hleft
  exact (escrowRelease_aside s o r hr).kept hs hmove

theorem expireEscrowRatification_kept (hs : Sound s) :
    Returns s.expireEscrowRatification fun r => Kept s r.1 0 := by
  unfold Database.expireEscrowRatification
  refine .drain (Kept.refl hs) fun r x hr hx => ?_
  obtain ⟨hmem, hopen, -⟩ := Database.unratified_spec hx
  have hwith : escrowWith r.1.escrows x.id = some x :=
    find?_eq_some_of_nodup hr.sound.escrows.ids hmem
  refine (expireEscrow_aside x r).mono fun r' ⟨haside, htable⟩ => ?_
  have hmove : EscrowMove 0 r.1.escrows r'.1.escrows ((x.refunds x.sender).map .paid) := by
    rw [htable]
    exact .giveBack x hwith hopen
  exact (hr.trans (haside.kept hr.sound hmove)).of_eq (add_zero 0)

/-! ## Savings -/

theorem transferToSavings_keeps (s : Database) (o : TransferToSavings) :
    Returns (s.transferToSavings o) fun r => Keeps s r.1 := by
  unfold Database.transferToSavings
  refine .bind_any fun _ => .bind_any fun _ => .bind_any fun _ => .bind_any fun _ =>
    .ensure fun _ => ?_
  refine .bind (adjustBalance_enters s o.sender _) fun t ht => ?_
  refine .bind (adjustSavingsBalance_enters t o.recipient _) fun u hu => .pure ?_
  refine (ht.trans hu).of_eq ?_
  rw [assetEntry_neg, neg_add_cancel]

theorem modifyAccount_kept (hs : Sound s) (name : AccountName) {f : Account → Account}
    (h : ∀ a, accountHolds (f a) = accountHolds a) :
    Returns (s.modifyAccount name f) fun t => Kept s t 0 :=
  (modifyAccount_enters s name fun a => (h a).trans (add_zero _).symm).mono fun _ ht => ht.kept hs

theorem transferFromSavings_kept (hs : Sound s) (o : TransferFromSavings) :
    Returns (s.transferFromSavings o) fun r => Kept s r.1 0 := by
  unfold Database.transferFromSavings
  refine .bind_any fun _ => .bind_any fun _ => .bind_any fun _ => .ensure fun _ =>
    .bind_any fun _ => .ensure fun _ => ?_
  refine .bind (adjustSavingsBalance_enters s o.sender _) fun t ht => .ensure fun _ => ?_
  have htaken := ht.kept hs
  have hkeyed := htaken.sound.savingsWithdraws
  have hopened := savingsWithdraws_kept htaken.sound
    (hkeyed.create (fun r hr => (hkeyed.fresh r hr).ne) fun _ => rfl)
    (Table.sum_create _ (o.opened t.headBlockTime) _)
  refine .bind (modifyAccount_kept hopened.sound o.sender fun _ => rfl) fun u hu => .pure ?_
  refine ((htaken.trans hopened).trans hu).of_eq ?_
  rw [assetEntry_neg, add_zero]
  exact neg_add_cancel _

/-- A withdrawal is removed, once an account has got its amount. -/
theorem removeSavingsWithdraw_kept {r : SavingsWithdraw} (hs : Sound s)
    (hr : r ∈ s.savingsWithdraws.rows) :
    Kept s (s.removeSavingsWithdraw r.id) (-assetEntry r.amount) :=
  savingsWithdraws_kept hs (hs.savingsWithdraws.remove _)
    ((Table.sum_remove (find?_eq_some_of_nodup hs.savingsWithdraws.ids hr) _).trans
      (sub_eq_add_neg _ _))

theorem cancelTransferFromSavings_kept (hs : Sound s) (o : CancelTransferFromSavings) :
    Returns (s.cancelTransferFromSavings o) fun r => Kept s r.1 0 := by
  unfold Database.cancelTransferFromSavings
  refine .bind_any fun _ => .bind_eq fun r hr => ?_
  have hmem := List.mem_of_find?_eq_some (require_eq_ok.mp hr)
  refine .bind (adjustSavingsBalance_enters s r.sender r.amount) fun t ht => ?_
  have hpaid := ht.kept hs
  have hremoved := removeSavingsWithdraw_kept hpaid.sound (ht.sameTables.2.2.1 ▸ hmem)
  refine .bind (modifyAccount_kept hremoved.sound o.sender fun _ => rfl) fun u hu => .pure ?_
  exact ((hpaid.trans hremoved).trans hu).of_eq (by rw [add_neg_cancel, add_zero])

theorem processSavingsWithdraws_kept (hs : Sound s) :
    Returns s.processSavingsWithdraws fun r => Kept s r.1 0 := by
  unfold Database.processSavingsWithdraws
  refine .drain (Kept.refl hs) fun x r hx hr => ?_
  have hmem := Table.mem_of_least (Option.filter_eq_some_iff.mp hr).1
  unfold Database.fillSavingsWithdraw
  refine .bind (adjustBalance_enters x.1 r.recipient r.amount) fun t ht => ?_
  have hpaid := ht.kept hx.sound
  refine .bind (modifyAccount_enters t r.sender fun _ => (add_zero _).symm) fun u hu => .pure ?_
  have hmem' : r ∈ u.savingsWithdraws.rows := by
    rw [hu.sameTables.2.2.1, ht.sameTables.2.2.1]
    exact hmem
  have hremoved := removeSavingsWithdraw_kept (hu.kept hpaid.sound).sound hmem'
  refine (hx.trans ((hpaid.trans (hu.kept hpaid.sound)).trans hremoved)).of_eq ?_
  rw [add_zero, add_neg_cancel, add_zero]

/-! ## Conversions -/

theorem convert_kept (hs : Sound s) (o : ConvertOperation) :
    Returns (s.convert o) fun t => Kept s t 0 := by
  unfold Database.convert
  refine .bind_any fun _ => .bind_any fun _ => .bind_any fun _ => .ensure fun _ => ?_
  refine .bind (adjustBalance_enters s o.owner _) fun t ht => .ensure fun _ => .ensure fun _ =>
    .pure ?_
  have htaken := ht.kept hs
  have hkeyed := htaken.sound.convertRequests
  have hopened := convertRequests_kept htaken.sound
    (hkeyed.create (fun r hr => (hkeyed.fresh r hr).ne) fun _ => rfl)
    (Table.sum_create _ (o.opened t.headBlockTime) _)
  refine (htaken.trans hopened).of_eq ?_
  rw [assetEntry_neg]
  exact neg_add_cancel _

/-- What the conversions so far have paid out, less what they have taken in. -/
def Converted (s : Database) (x : Conversions) : Prop :=
  Kept s x.db (entry .gbc x.netGbc - entry .gbd x.netGbd)

theorem fillConvertRequest_converted {r : ConvertRequest} {x : Conversions} (hx : Converted s x)
    (hr : x.db.dueConversion = some r) :
    Returns (Database.fillConvertRequest r x) (Converted s) := by
  have hmem : r ∈ x.db.convertRequests.rows :=
    Table.mem_of_least (Option.filter_eq_some_iff.mp hr).1
  unfold Database.fillConvertRequest
  refine .bind_any fun issued => .bind (adjustBalance_enters x.db r.owner issued) fun t ht => ?_
  refine .ensure fun hgbd => .ensure fun _ => .ensure fun hgbc => .ensure fun _ => .pure ?_
  have hpaid := ht.kept hx.sound
  have hremoved := convertRequests_kept hpaid.sound (hpaid.sound.convertRequests.remove _)
    ((Table.sum_remove (find?_eq_some_of_nodup hpaid.sound.convertRequests.ids
      (ht.sameTables.2.2.2.1 ▸ hmem)) requestHolds).trans (sub_eq_add_neg _ _))
  have hin : requestHolds r = entry .gbd r.amount.amount := by
    rw [requestHolds, assetEntry, of_decide_eq_true hgbd]
    rfl
  have hout : assetEntry issued = entry .gbc issued.amount := by
    rw [assetEntry, of_decide_eq_true hgbc]
    rfl
  refine (hx.trans (hpaid.trans hremoved)).of_eq ?_
  rw [hin, hout, entry_add, entry_add]
  abel

theorem processConversions_kept (hs : Sound s) :
    Returns s.processConversions fun r => Kept s r.1 0 := by
  unfold Database.processConversions
  refine .ite (fun _ => .pure (.refl hs)) fun _ => ?_
  have hstart : Converted s ⟨s, 0, 0, []⟩ := by
    refine (Kept.refl hs).of_eq ?_
    simp
  refine .bind (Returns.drain hstart fun x r hx hr => fillConvertRequest_converted hx hr)
    fun x hx => ?_
  have hsupply : ∀ (p : GlobalProperties) (virtualSupply : Int), supplies { p with
      currentSupply := p.currentSupply + x.netGbc
      currentGbdSupply := p.currentGbdSupply - x.netGbd
      virtualSupply := virtualSupply } =
        supplies p - (entry .gbd x.netGbd - entry .gbc x.netGbc) := by
    intro p virtualSupply
    funext b
    cases b <;> simp [supplies, entry_apply]
    omega
  refine .bind_any fun worth => .ensure fun _ => .ensure fun _ => ?_
  refine .bind (modifyProps_enters x.db (hsupply x.db.props _)) fun t ht => .pure ?_
  refine (hx.trans (ht.kept hx.sound)).of_eq ?_
  abel

end Gamebank.Conservation
