import Gamebank.Savings.Requests
import Gamebank.Ledger.Calls
import Gamebank.Lib.Due

/-!
# Every withdrawal from savings ends once

`SavingsBooks` relates the withdrawals of a ledger to a log of what happened
to the money: each amount that was taken out of savings belongs to a pending
withdrawal, or was credited once to the recipient when the withdrawal was
complete, or returned once to the savings it came from. Opening and settling
a withdrawal keep the books, so every run does.
-/

namespace Gamebank.Ledger

open Gamebank.Lib Gamebank.Protocol

/-- What happens to a ledger with savings. -/
inductive SavingsAction where
  | toSavings (o : TransferToSavings)
  | fromSavings (o : TransferFromSavings)
  | cancel (o : CancelTransferFromSavings)
  /-- The sweep of a block. -/
  | sweep
  /-- Anything that leaves the withdrawals and their counters alone. -/
  | elsewhere

/-- The event settles the withdrawal with the id. -/
def SavingsEvent.settles (id : Nat) : SavingsEvent → Bool
  | .credited p => p.request = id
  | .returned p => p.request = id
  | _ => false

def SavingsEvent.withdrawal? : SavingsEvent → Option SavingsWithdraw
  | .taken r => some r
  | _ => none

/-- The events that settle a withdrawal, in their order. -/
def settlementsOf (id : Nat) (log : List SavingsEvent) : List SavingsEvent :=
  log.filter fun ev => ev.settles id

/-- The withdrawals for which an amount was taken out of savings. -/
def takenOf (log : List SavingsEvent) : List SavingsWithdraw :=
  log.filterMap SavingsEvent.withdrawal?

@[simp] theorem settlementsOf_append (id : Nat) (log more : List SavingsEvent) :
    settlementsOf id (log ++ more) = settlementsOf id log ++ settlementsOf id more :=
  List.filter_append ..

@[simp] theorem takenOf_append (log more : List SavingsEvent) :
    takenOf (log ++ more) = takenOf log ++ takenOf more :=
  List.filterMap_append ..

/-- What has become of a withdrawal. -/
inductive Outcome (s : Database) (log : List SavingsEvent) (r : SavingsWithdraw) : Prop
  | pending (h : s.withdrawWith r.id = some r) (hlog : settlementsOf r.id log = [])
  | credited (time : Nat) (h : s.withdrawWith r.id = none)
      (hlog : settlementsOf r.id log = [.credited (r.payment r.recipient time)])
      (hcomplete : r.complete ≤ time)
  | returned (time : Nat) (h : s.withdrawWith r.id = none)
      (hlog : settlementsOf r.id log = [.returned (r.payment r.sender time)])

/-- How a withdrawal is settled at the time `now`. -/
inductive Settlement (now : Nat) (r : SavingsWithdraw) : SavingsEvent → Prop
  | credited (hcomplete : r.complete ≤ now) :
      Settlement now r (.credited (r.payment r.recipient now))
  | returned : Settlement now r (.returned (r.payment r.sender now))

/-- The log accounts for the withdrawals and for the counters. -/
structure SavingsBooks (s : Database) (log : List SavingsEvent) : Prop where
  table : s.UniqueWithdraws
  symbols : ∀ r ∈ s.savingsWithdraws.rows, r.amount.symbol ≠ .gbs
  counters : ∀ n, s.openRequests n = s.pendingWithdraws n
  limit : ∀ n, s.pendingWithdraws n ≤ savingsWithdrawRequestLimit
  taken : ∀ r ∈ s.savingsWithdraws.rows, r ∈ takenOf log
  once : ((takenOf log).map SavingsWithdraw.id).Nodup
  known : ∀ r ∈ takenOf log, r.id < s.savingsWithdraws.nextId
  unsettled : ∀ id, s.savingsWithdraws.nextId ≤ id → settlementsOf id log = []
  outcomes : ∀ r ∈ takenOf log, Outcome s log r

variable {s t : Database} {log events : List SavingsEvent} {r x : SavingsWithdraw}
  {ev : SavingsEvent}

theorem Settlement.settles {now : Nat} (h : Settlement now r ev) (id : Nat) :
    ev.settles id = decide (r.id = id) := by
  cases h <;> rfl

theorem Settlement.taken {now : Nat} (h : Settlement now r ev) : takenOf [ev] = [] := by
  cases h <;> rfl

/-- What a step does not touch stays as it was. -/
theorem Outcome.congr (h : Outcome s log r) (hwith : t.withdrawWith r.id = s.withdrawWith r.id)
    (hlog : settlementsOf r.id events = []) : Outcome t (log ++ events) r := by
  have hsame : settlementsOf r.id (log ++ events) = settlementsOf r.id log := by simp [hlog]
  cases h with
  | pending h hlog => exact .pending (hwith.trans h) (hsame.trans hlog)
  | credited time h hlog hcomplete =>
      exact .credited time (hwith.trans h) (hsame.trans hlog) hcomplete
  | returned time h hlog => exact .returned time (hwith.trans h) (hsame.trans hlog)

/-- A pending withdrawal is settled, once. -/
theorem Outcome.settle {now : Nat} (h : Outcome s log r) (hfound : s.withdrawWith r.id = some r)
    (hnone : t.withdrawWith r.id = none) (hev : Settlement now r ev) :
    Outcome t (log ++ [ev]) r := by
  have hlast : settlementsOf r.id [ev] = [ev] := by simp [settlementsOf, hev.settles]
  have hlog : settlementsOf r.id (log ++ [ev]) = [ev] := by
    cases h with
    | pending _ hlog => rw [settlementsOf_append, hlog, hlast, List.nil_append]
    | credited time hgone => exact absurd hfound (by simp [hgone])
    | returned time hgone => exact absurd hfound (by simp [hgone])
  cases hev with
  | credited hcomplete => exact .credited now hnone hlog hcomplete
  | returned => exact .returned now hnone hlog

namespace SavingsBooks

/-- Nothing happens to withdrawals and counters. -/
theorem leave (h : SavingsBooks s log) (hleaves : s.LeavesWithdraws t)
    (htaken : takenOf events = []) (hevents : ∀ id, settlementsOf id events = []) :
    SavingsBooks t (log ++ events) := by
  have hpending : t.pendingWithdraws = s.pendingWithdraws := by
    funext n
    rw [Database.pendingWithdraws, hleaves.table, Database.pendingWithdraws]
  have htable := hleaves.table
  refine ⟨?_, ?_, fun n => ?_, fun n => ?_, ?_, ?_, ?_, ?_, ?_⟩
  · rw [Database.UniqueWithdraws, htable]
    exact h.table
  · rw [htable]
    exact h.symbols
  · rw [hleaves.requests, hpending, h.counters]
  · rw [hpending]
    exact h.limit n
  · simpa [htable, htaken] using h.taken
  · simpa [htaken] using h.once
  · simpa [htable, htaken] using h.known
  · simpa [htable, hevents] using h.unsettled
  · intro x hx
    rw [takenOf_append, htaken, List.append_nil] at hx
    refine (h.outcomes x hx).congr ?_ (hevents x.id)
    rw [Database.withdrawWith, htable, Database.withdrawWith]

/-- A withdrawal is opened. -/
theorem opened (h : SavingsBooks s log) {owner : AccountName} {object : Nat → SavingsWithdraw}
    (hopens : s.OpensRequest t owner object) (hr : object s.savingsWithdraws.nextId = r)
    (hunused : ∀ x ∈ s.savingsWithdraws.rows, x.name ≠ r.name)
    (hsymbol : r.amount.symbol ≠ .gbs) : SavingsBooks t (log ++ [.taken r]) := by
  have hid : r.id = s.savingsWithdraws.nextId := hr ▸ hopens.id _
  have hrows := hopens.rows
  have hwith := hopens.withdraw h.table.fresh
  rw [hr] at hrows hwith
  have htaken : takenOf [SavingsEvent.taken r] = [r] := rfl
  refine ⟨?_, ?_, fun n => ?_, fun n => ?_, ?_, ?_, ?_, ?_, ?_⟩
  · rw [Database.UniqueWithdraws, hopens.table]
    exact Table.Keyed.create (hr ▸ hunused) h.table hopens.id
  · rw [hrows]
    simp only [List.mem_append, List.mem_singleton]
    rintro x (hx | rfl)
    · exact h.symbols x hx
    · exact hsymbol
  · rw [hopens.requests, hopens.pending, h.counters]
  · -- the limit is checked on the counter of the sender
    have hbelow := hopens.below
    have hlimit := h.limit n
    rw [h.counters] at hbelow
    rw [hopens.pending]
    by_cases hn : n = owner
    · rw [if_pos hn, hn]
      omega
    · rw [if_neg hn]
      exact hlimit
  · rw [hrows, takenOf_append, htaken]
    simp only [List.mem_append, List.mem_singleton]
    rintro x (hx | hx)
    · exact Or.inl (h.taken x hx)
    · exact Or.inr hx
  · rw [takenOf_append, htaken]
    refine nodup_map_append_single h.once fun x hx => ?_
    have := h.known x hx
    omega
  · rw [hopens.nextId, takenOf_append, htaken]
    simp only [List.mem_append, List.mem_singleton]
    rintro x (hx | rfl)
    · have := h.known x hx
      omega
    · omega
  · intro id hle
    rw [hopens.nextId] at hle
    rw [settlementsOf_append, h.unsettled id (by omega)]
    rfl
  · rw [takenOf_append, htaken]
    simp only [List.mem_append, List.mem_singleton]
    rintro x (hx | rfl)
    · refine (h.outcomes x hx).congr ?_ rfl
      have := h.known x hx
      rw [hwith, if_neg (by omega)]
    · refine .pending (by rw [hwith, if_pos hid]) ?_
      rw [settlementsOf_append, h.unsettled x.id hid.ge]
      rfl

/-- A withdrawal is settled. -/
theorem settled (h : SavingsBooks s log) (hsettles : s.Settles t r) {now : Nat}
    (hev : Settlement now r ev) : SavingsBooks t (log ++ [ev]) := by
  have hr := hsettles.mem
  have hsub := hsettles.sublist
  have hwith := hsettles.withdraw h.table.ids
  have hsettled : ∀ id, id ≠ r.id → settlementsOf id [ev] = [] := by
    intro id hid
    simp [settlementsOf, hev.settles, Ne.symm hid]
  have hbound : r.id < s.savingsWithdraws.nextId := h.table.fresh r hr
  refine ⟨?_, fun x hx => h.symbols x (hsub.subset hx), fun n => ?_, fun n => ?_, ?_, ?_, ?_, ?_,
    ?_⟩
  · rw [Database.UniqueWithdraws, hsettles.table]
    exact h.table.remove _
  · -- the counter is that of at most a hundred withdrawals, one of them this one
    have hcount := hsettles.pending n
    have hlimit := h.limit n
    unfold savingsWithdrawRequestLimit at hlimit
    rw [hsettles.requests, h.counters]
    by_cases hn : n = r.sender
    · rw [if_pos hn] at hcount ⊢
      omega
    · rw [if_neg hn] at hcount ⊢
      omega
  · have hcount := hsettles.pending n
    have hlimit := h.limit n
    omega
  · intro x hx
    simpa [hev.taken] using h.taken x (hsub.subset hx)
  · simpa [hev.taken] using h.once
  · simpa [hsettles.nextId, hev.taken] using h.known
  · intro id hle
    rw [hsettles.nextId] at hle
    rw [settlementsOf_append, h.unsettled id hle, hsettled id (by omega)]
    rfl
  · simp only [takenOf_append, hev.taken, List.append_nil]
    intro x hx
    by_cases hid : x.id = r.id
    · -- ids are given once, so this is the withdrawal that is settled
      obtain rfl : x = r := List.inj_on_of_nodup_map h.once hx (h.taken r hr) hid
      exact (h.outcomes x hx).settle hsettles.found (by rw [hwith, if_pos rfl]) hev
    · refine (h.outcomes x hx).congr ?_ (hsettled x.id hid)
      rw [hwith, if_neg hid]

end SavingsBooks

/-! ## Steps -/

namespace Database

/-- The ledger before the first withdrawal. -/
structure NoWithdraws (s : Database) : Prop where
  table : s.savingsWithdraws = .empty
  counters : ∀ a ∈ s.accounts.rows, a.savingsWithdrawRequests = 0

/-- An action that does not throw leads from one state to the next. -/
inductive SavingsStep (s : Database) : SavingsAction → Database → List SavingsEvent → Prop
  | toSavings {o : TransferToSavings} {x : Database × List SavingsEvent}
      (h : s.transferToSavings o = .ok x) : SavingsStep s (.toSavings o) x.1 x.2
  | fromSavings {o : TransferFromSavings} {x : Database × List SavingsEvent}
      (h : s.transferFromSavings o = .ok x) : SavingsStep s (.fromSavings o) x.1 x.2
  | cancel {o : CancelTransferFromSavings} {x : Database × List SavingsEvent}
      (h : s.cancelTransferFromSavings o = .ok x) : SavingsStep s (.cancel o) x.1 x.2
  | sweep {x : Database × List SavingsEvent} (h : s.processSavingsWithdraws = .ok x) :
      SavingsStep s .sweep x.1 x.2
  | elsewhere {t : Database} (h : s.LeavesWithdraws t) : SavingsStep s .elsewhere t []

/-- What an action does to the money, and why. -/
structure SavingsRules (s : Database) (action : SavingsAction) (t : Database)
    (events : List SavingsEvent) : Prop where
  moved : action ≠ .elsewhere → s.Moved t (movementsOf events)
  taken : ∀ r, .taken r ∈ events → ∃ o, action = .fromSavings o ∧
    r = o.opened s.headBlockTime s.savingsWithdraws.nextId
  credited : ∀ p, .credited p ∈ events → action = .sweep ∧ p.time = s.headBlockTime
  returned : ∀ p, .returned p ∈ events → ∃ o, action = .cancel o ∧
    ∃ r ∈ s.savingsWithdraws.rows, r.sender = o.sender ∧ r.requestId = o.requestId ∧
      p = r.payment r.sender s.headBlockTime
  /-- A sweep leaves no withdrawal that is complete. -/
  swept : action = .sweep → ∀ r ∈ t.savingsWithdraws.rows, s.headBlockTime < r.complete

/-- The books go on, and the action keeps the rules. -/
structure SavesWell (s : Database) (log : List SavingsEvent) (action : SavingsAction)
    (x : Database × List SavingsEvent) : Prop where
  books : SavingsBooks x.1 (log ++ x.2)
  rules : s.SavingsRules action x.1 x.2

theorem NoWithdraws.books (h : s.NoWithdraws) : SavingsBooks s [] := by
  have hnone : ∀ n, s.pendingWithdraws n = 0 := by
    intro n
    rw [pendingWithdraws, h.table]
    rfl
  refine ⟨?_, ?_, fun n => ?_, fun n => ?_, ?_, List.nodup_nil, ?_, fun _ _ => rfl, ?_⟩
  · rw [UniqueWithdraws, h.table]
    exact .empty
  · rw [h.table]
    simp [Table.empty]
  · rw [hnone, openRequests]
    cases hfind : s.accounts.find? fun a => a.name = n with
    | none => rfl
    | some a => exact h.counters a (List.mem_of_find?_eq_some hfind)
  · rw [hnone]
    exact Nat.zero_le _
  · rw [h.table]
    simp [Table.empty]
  · simp [takenOf]
  · simp [takenOf]

theorem transferToSavings_savesWell (h : SavingsBooks s log) (o : TransferToSavings) :
    Returns (s.transferToSavings o) (SavesWell s log (.toSavings o)) := by
  refine (transferToSavings_spec o).mono fun x ⟨hleaves, hmoved, hevents⟩ => ⟨?_, ?_⟩
  · rw [hevents]
    exact h.leave hleaves rfl fun _ => rfl
  · refine ⟨fun _ => hmoved, ?_, ?_, ?_, fun hsweep => by cases hsweep⟩
    all_goals simp [hevents]

theorem transferFromSavings_savesWell (h : SavingsBooks s log) (o : TransferFromSavings) :
    Returns (s.transferFromSavings o) (SavesWell s log (.fromSavings o)) := by
  refine (transferFromSavings_spec o).mono fun x ⟨htakes, hevents⟩ => ⟨?_, ?_⟩
  · rw [hevents]
    refine h.opened htakes.opens rfl (fun x hx heq => htakes.unused x hx ?_) htakes.symbol
    simpa [SavingsWithdraw.name, TransferFromSavings.opened] using heq
  · refine ⟨fun _ => ?_, ?_, ?_, ?_, fun hsweep => by cases hsweep⟩
    · rw [hevents]
      exact htakes.moved
    · simp [hevents]
    · simp [hevents]
    · simp [hevents]

theorem cancelTransferFromSavings_savesWell (h : SavingsBooks s log)
    (o : CancelTransferFromSavings) :
    Returns (s.cancelTransferFromSavings o) (SavesWell s log (.cancel o)) := by
  refine (cancelTransferFromSavings_spec h.table o).mono fun x hx => ?_
  obtain ⟨r, hpays, hsender, hrequest, hevents⟩ := hx
  refine ⟨?_, fun _ => ?_, ?_, ?_, ?_, fun hsweep => by cases hsweep⟩
  · rw [hevents]
    exact h.settled hpays.settles .returned
  · rw [hevents]
    exact hpays.moved
  · simp [hevents]
  · simp [hevents]
  · intro p hp
    rw [hevents, List.mem_singleton, SavingsEvent.returned.injEq] at hp
    exact ⟨o, rfl, r, List.mem_of_find?_eq_some hpays.settles.found, hsender, hrequest, hp⟩

/-! ## The sweep -/

/-- What the turns of a sweep keep. -/
structure Sweeping (s : Database) (log : List SavingsEvent) (x : Database × List SavingsEvent) :
    Prop where
  books : SavingsBooks x.1 (log ++ x.2)
  moved : s.Moved x.1 (movementsOf x.2)
  credited : ∀ ev ∈ x.2, ∃ p, ev = .credited p ∧ p.time = s.headBlockTime

theorem Sweeping.turn {y : Database × List SavingsEvent} (h : Sweeping s log y)
    (hr : y.1.completedWithdraw = some r) :
    Returns (fillSavingsWithdraw r y) (Sweeping s log) := by
  obtain ⟨hmem, hcomplete⟩ := completedWithdraw_eq_some hr
  refine (fillSavingsWithdraw_spec h.books.table hmem (h.books.symbols r hmem)).mono fun x hx => ?_
  obtain ⟨hpays, hevents⟩ := hx
  refine ⟨?_, ?_, ?_⟩
  · rw [hevents, ← List.append_assoc]
    exact h.books.settled hpays.settles (.credited hcomplete)
  · rw [hevents, movementsOf, List.flatMap_append]
    exact h.moved.trans hpays.moved
  · rw [hevents]
    simp only [List.mem_append, List.mem_singleton]
    rintro ev (hev | rfl)
    · exact h.credited ev hev
    · exact ⟨_, rfl, h.moved.now⟩

theorem processSavingsWithdraws_sweeping (h : SavingsBooks s log) :
    Returns s.processSavingsWithdraws (Sweeping s log) := by
  have hstart : Sweeping s log (s, []) :=
    ⟨by rw [List.append_nil]; exact h, Moved.refl s, by simp⟩
  exact .drain hstart fun y r hy hr => hy.turn hr

theorem SavingsWithdraw.le_of_before {r r' : SavingsWithdraw} (h : r.before r' = true) :
    r.complete ≤ r'.complete := by
  simp only [SavingsWithdraw.before, Bool.or_eq_true, Bool.and_eq_true, decide_eq_true_eq] at h
  omega

theorem SavingsWithdraw.le_of_not_before {r r' : SavingsWithdraw} (h : r.before r' = false) :
    r'.complete ≤ r.complete := by
  simp only [SavingsWithdraw.before, Bool.or_eq_false_iff, decide_eq_false_iff_not] at h
  omega

/-- Nothing that is complete is left. -/
theorem processSavingsWithdraws_exhausts :
    Returns s.processSavingsWithdraws fun x => x.1.completedWithdraw = none := by
  have hshorter : ∀ (y : Database × List SavingsEvent) (r : SavingsWithdraw),
      y.1.completedWithdraw = some r → Returns (fillSavingsWithdraw r y) fun x =>
        x.1.savingsWithdraws.rows.length < y.1.savingsWithdraws.rows.length := by
    intro y r hr
    have hmem := (completedWithdraw_eq_some hr).1
    unfold fillSavingsWithdraw
    refine .bind_eq fun u hu => .bind_eq fun v hv => .pure ?_
    rw [removeSavingsWithdraw, modifyAccount_rest hv]
    have htable := (adjustBalance_leavesWithdraws u hu).table
    show (u.savingsWithdraws.rows.eraseP fun x => x.id = r.id).length < _
    rw [htable, List.length_eraseP_of_mem hmem (by simp)]
    exact Nat.sub_lt (List.length_pos_of_mem hmem) Nat.one_pos
  exact drain_exhausts hshorter (Nat.lt_succ_self _)

theorem processSavingsWithdraws_savesWell (h : SavingsBooks s log) :
    Returns s.processSavingsWithdraws (SavesWell s log .sweep) := by
  intro x hx
  have hsweeping := processSavingsWithdraws_sweeping h x hx
  have hnone := processSavingsWithdraws_exhausts x hx
  refine ⟨hsweeping.books, fun _ => hsweeping.moved, ?_, ?_, ?_, fun _ => ?_⟩
  · intro r hr
    obtain ⟨p, hp, -⟩ := hsweeping.credited _ hr
    cases hp
  · intro p hp
    obtain ⟨q, hq, htime⟩ := hsweeping.credited _ hp
    rw [SavingsEvent.credited.injEq] at hq
    exact ⟨rfl, hq ▸ htime⟩
  · intro p hp
    obtain ⟨q, hq, -⟩ := hsweeping.credited _ hp
    cases hq
  · rw [← hsweeping.moved.now]
    exact Table.lt_of_first_none (fun _ _ => SavingsWithdraw.le_of_before)
      (fun _ _ => SavingsWithdraw.le_of_not_before) hnone

/-! ## Runs -/

theorem SavingsStep.savesWell (h : SavingsBooks s log) {action : SavingsAction}
    (hstep : s.SavingsStep action t events) : SavesWell s log action (t, events) := by
  cases hstep with
  | toSavings hx => exact transferToSavings_savesWell h _ _ hx
  | fromSavings hx => exact transferFromSavings_savesWell h _ _ hx
  | cancel hx => exact cancelTransferFromSavings_savesWell h _ _ hx
  | sweep hx => exact processSavingsWithdraws_savesWell h _ hx
  | elsewhere hleaves =>
      refine ⟨h.leave hleaves rfl fun _ => rfl, fun hne => absurd rfl hne, ?_, ?_, ?_, ?_⟩
      all_goals simp

/-- The states that are reached from a ledger without withdrawals, with the
events so far. -/
inductive SavingsRun : Database → List SavingsEvent → Prop
  | start {s : Database} (h : s.NoWithdraws) : SavingsRun s []
  | next {s t : Database} {log events : List SavingsEvent} {action : SavingsAction}
      (hs : SavingsRun s log) (h : s.SavingsStep action t events) : SavingsRun t (log ++ events)

theorem SavingsRun.books (h : SavingsRun s log) : SavingsBooks s log := by
  induction h with
  | start h => exact h.books
  | next _ h ih => exact (h.savesWell ih).books

/-- **Withdrawals from savings.** In every state that is reached the counter of
an account is the number of its withdrawals, and at most the limit; every
amount taken out of savings is one of a withdrawal that is pending, or was
credited once, or returned once; and what happens next keeps the rules. -/
theorem savings_withdrawals (h : SavingsRun s log) :
    (∀ n a, s.getAccount n = .ok a → a.savingsWithdrawRequests = s.pendingWithdraws n ∧
      a.savingsWithdrawRequests ≤ savingsWithdrawRequestLimit) ∧
    ((takenOf log).map SavingsWithdraw.id).Nodup ∧
    (∀ r ∈ takenOf log, Outcome s log r) ∧
    (∀ r ∈ s.savingsWithdraws.rows, r ∈ takenOf log) ∧
    ∀ action t events, s.SavingsStep action t events → s.SavingsRules action t events := by
  have hbooks := h.books
  refine ⟨fun n a ha => ?_, hbooks.once, hbooks.outcomes, hbooks.taken,
    fun action t events hstep => (hstep.savesWell hbooks).rules⟩
  have hcount : a.savingsWithdrawRequests = s.pendingWithdraws n := by
    rw [← openRequests_of_getAccount ha, hbooks.counters]
  exact ⟨hcount, hcount ▸ hbooks.limit n⟩

/-! ### One withdrawal -/

/-- `initminer` saves 100 GBC and sends 40 of them to `miners`; three days later
they arrive. -/
def sampleSaving : Except String (Database × List SavingsEvent) := do
  let x ← (genesis 1000).transferToSavings ⟨"initminer", "initminer", .gbc 100, ""⟩
  let y ← x.1.transferFromSavings ⟨"initminer", 7, "miners", .gbc 40, ""⟩
  let z ← (y.1.atTime (genesisTime + 259200)).processSavingsWithdraws
  return (z.1, x.2 ++ y.2 ++ z.2)

theorem sampleSaving_run {x : Database × List SavingsEvent} (h : sampleSaving = .ok x) :
    SavingsRun x.1 x.2 := by
  obtain ⟨y, hy, h⟩ := bind_eq_ok.mp h
  obtain ⟨z, hz, h⟩ := bind_eq_ok.mp h
  obtain ⟨w, hw, h⟩ := bind_eq_ok.mp h
  obtain rfl := pure_eq_ok.mp h
  have hstart : SavingsRun (genesis 1000) [] :=
    .start ⟨rfl, by simp [genesis, genesisAccount, Account.make]⟩
  have hsaved := (hstart.next (.toSavings hy)).next (.fromSavings hz)
  have hlater := hsaved.next (.elsewhere (t := z.1.atTime (genesisTime + 259200))
    ⟨rfl, fun _ => rfl⟩)
  have hswept := hlater.next (.sweep hw)
  rw [List.append_nil, List.nil_append] at hswept
  exact hswept

theorem savings_withdrawals_genesis : ∃ x, sampleSaving = .ok x ∧
    x.2.getLast? = some (.credited ⟨0, "miners", .gbc 40, genesisTime + 259200⟩) ∧
    (takenOf x.2).length = 1 ∧ ∀ r ∈ takenOf x.2, Outcome x.1 x.2 r := by
  obtain ⟨x, hx, hlog⟩ := exists_of_any (x := sampleSaving)
    (P := fun x => x.2.getLast? = some (.credited ⟨0, "miners", .gbc 40, genesisTime + 259200⟩) ∧
      (takenOf x.2).length = 1) (by decide +kernel)
  obtain ⟨hlast, hone⟩ := of_decide_eq_true hlog
  exact ⟨x, hx, hlast, hone, (savings_withdrawals (sampleSaving_run hx)).2.2.1⟩

end Database

end Gamebank.Ledger
