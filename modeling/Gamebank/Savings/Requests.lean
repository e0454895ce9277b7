import Gamebank.Savings.Balances
import Gamebank.Lib.Keyed

/-!
# Withdrawals and their counters

What the evaluators and the sweep do to the withdrawals and to the counters
of the accounts. A withdrawal is opened (`OpensRequest`) or settled (`Settles`); each
evaluator does one of these or neither, a sweep settles one withdrawal after
the other, and the events say which money was moved.
-/

namespace Gamebank.Ledger

open Gamebank.Lib Gamebank.Protocol

/-- By what an operation names a withdrawal. -/
def SavingsWithdraw.name (r : SavingsWithdraw) : AccountName × Nat := (r.sender, r.requestId)

/-- The adjustments of an event. -/
def SavingsEvent.movements : SavingsEvent → List Movement
  | .deposited sender recipient amount =>
      [⟨sender, .liquid, -amount⟩, ⟨recipient, .savings, amount⟩]
  | .taken r => [⟨r.sender, .savings, -r.amount⟩]
  | .credited p => [⟨p.account, .liquid, p.amount⟩]
  | .returned p => [⟨p.account, .savings, p.amount⟩]

namespace Database

variable {s t u : Database} {name : AccountName} {delta : Asset} {r : SavingsWithdraw}
  {events : List SavingsEvent}

/-- The counter of an account; zero where there is none. -/
def openRequests (s : Database) (name : AccountName) : Nat :=
  ((s.accounts.find? fun a => a.name = name).map Account.savingsWithdrawRequests).getD 0

/-- The withdrawals of an account. -/
def pendingWithdraws (s : Database) (name : AccountName) : Nat :=
  s.savingsWithdraws.rows.countP fun r => r.sender = name

/-- The withdrawal with the id. -/
def withdrawWith (s : Database) (id : Nat) : Option SavingsWithdraw :=
  s.savingsWithdraws.find? fun r => r.id = id

/-- The withdrawals and their counters are left alone. -/
structure LeavesWithdraws (s t : Database) : Prop where
  table : t.savingsWithdraws = s.savingsWithdraws
  requests : ∀ n, t.openRequests n = s.openRequests n

/-- The withdrawal `object` is opened by `owner`. -/
structure OpensRequest (s t : Database) (owner : AccountName) (object : Nat → SavingsWithdraw) :
    Prop where
  id : ∀ i, (object i).id = i
  sender : ∀ i, (object i).sender = owner
  table : t.savingsWithdraws = s.savingsWithdraws.create object
  below : s.openRequests owner < savingsWithdrawRequestLimit
  requests : ∀ n, t.openRequests n = s.openRequests n + if n = owner then 1 else 0

/-- A withdrawal is settled. -/
structure Settles (s t : Database) (r : SavingsWithdraw) : Prop where
  found : s.withdrawWith r.id = some r
  table : t.savingsWithdraws = s.savingsWithdraws.remove fun x => x.id = r.id
  requests : ∀ n, t.openRequests n =
    if n = r.sender then (s.openRequests n + 255) % 256 else s.openRequests n

theorem openRequests_of_getAccount {a : Account} (h : s.getAccount name = .ok a) :
    s.openRequests name = a.savingsWithdrawRequests := by
  rw [openRequests, getAccount_eq_ok.mp h]
  rfl

theorem LeavesWithdraws.trans (h : LeavesWithdraws s t) (h' : LeavesWithdraws t u) :
    LeavesWithdraws s u :=
  ⟨h'.table.trans h.table, fun n => (h'.requests n).trans (h.requests n)⟩

theorem LeavesWithdraws.settles (h : LeavesWithdraws s t) (h' : Settles t u r) : Settles s u r where
  found := by
    rw [← h'.found, withdrawWith, withdrawWith, h.table]
  table := by rw [h'.table, h.table]
  requests n := by rw [h'.requests, h.requests]

theorem LeavesWithdraws.opens {object : Nat → SavingsWithdraw} (h : LeavesWithdraws s t)
    (h' : OpensRequest t u name object) : OpensRequest s u name object where
  id := h'.id
  sender := h'.sender
  table := by rw [h'.table, h.table]
  below := by
    rw [← h.requests]
    exact h'.below
  requests n := by rw [h'.requests, h.requests]

/-! ## The withdrawals after one was opened or settled -/

namespace OpensRequest

variable {object : Nat → SavingsWithdraw} (h : OpensRequest s t name object)

include h

theorem rows : t.savingsWithdraws.rows =
    s.savingsWithdraws.rows ++ [object s.savingsWithdraws.nextId] := by
  rw [h.table]
  rfl

theorem nextId : t.savingsWithdraws.nextId = s.savingsWithdraws.nextId + 1 := by
  rw [h.table]
  rfl

theorem pending (n : AccountName) :
    t.pendingWithdraws n = s.pendingWithdraws n + if n = name then 1 else 0 := by
  rw [pendingWithdraws, h.rows, List.countP_append, pendingWithdraws]
  simp [List.countP_singleton, h.sender, eq_comm]

theorem withdraw (hfresh : ∀ x ∈ s.savingsWithdraws.rows, x.id < s.savingsWithdraws.nextId)
    (id : Nat) : t.withdrawWith id = if id = s.savingsWithdraws.nextId then
      some (object s.savingsWithdraws.nextId) else s.withdrawWith id := by
  have hne : ∀ x ∈ s.savingsWithdraws.rows, x.id ≠ (object s.savingsWithdraws.nextId).id := by
    intro x hx
    rw [h.id]
    exact (hfresh x hx).ne
  have hfind := Table.find?_create hne id
  rw [h.id] at hfind
  rw [withdrawWith, h.table]
  exact hfind

end OpensRequest

namespace Settles

variable (h : Settles s t r)

include h

theorem mem : r ∈ s.savingsWithdraws.rows := List.mem_of_find?_eq_some h.found

theorem sublist : t.savingsWithdraws.rows.Sublist s.savingsWithdraws.rows := by
  rw [h.table]
  exact List.eraseP_sublist

theorem nextId : t.savingsWithdraws.nextId = s.savingsWithdraws.nextId := by
  rw [h.table]
  rfl

theorem pending (n : AccountName) :
    s.pendingWithdraws n = t.pendingWithdraws n + if n = r.sender then 1 else 0 := by
  have hperm : s.savingsWithdraws.rows.Perm (t.savingsWithdraws.rows ++ [r]) := by
    rw [h.table]
    exact perm_eraseP h.found
  rw [pendingWithdraws, hperm.countP_eq, List.countP_append, pendingWithdraws]
  simp [List.countP_singleton, eq_comm]

theorem withdraw (hids : (s.savingsWithdraws.rows.map SavingsWithdraw.id).Nodup) (id : Nat) :
    t.withdrawWith id = if id = r.id then none else s.withdrawWith id := by
  rw [withdrawWith, h.table]
  exact Table.find?_remove hids r.id id

end Settles

/-! ## Counters of a modified account -/

theorem openRequests_modify {f : Account → Account} {a : Account}
    (h : s.modifyAccount name f = .ok t) (hname : ∀ a, (f a).name = a.name)
    (ha : s.getAccount name = .ok a) (n : AccountName) :
    t.openRequests n = if n = name then (f a).savingsWithdrawRequests else s.openRequests n := by
  have hfind := getAccount_modify h hname n
  by_cases hn : n = name
  · subst hn
    rw [if_pos rfl, ha] at hfind
    rw [if_pos rfl]
    exact openRequests_of_getAccount hfind
  · rw [if_neg hn] at hfind ⊢
    unfold getAccount require at hfind
    rw [openRequests, openRequests]
    -- the lookups are the same, found or not
    split at hfind <;> split at hfind <;> simp_all

theorem modifyAccount_leavesWithdraws {f : Account → Account} (hname : ∀ a, (f a).name = a.name)
    (hf : ∀ a, (f a).savingsWithdrawRequests = a.savingsWithdrawRequests) :
    Returns (s.modifyAccount name f) (LeavesWithdraws s) := by
  intro t ht
  have hrest := modifyAccount_rest ht
  obtain ⟨a, ha, -⟩ := bind_eq_ok.mp ht
  refine ⟨by rw [hrest], fun n => ?_⟩
  rw [openRequests_modify ht hname ha]
  by_cases hn : n = name
  · rw [if_pos hn, hf, hn, openRequests_of_getAccount ha]
  · rw [if_neg hn]

theorem payInterest_leavesWithdraws (i : Accrual) :
    Returns (s.payInterest i) (LeavesWithdraws s) := by
  refine (payInterest_spec s i).mono fun t ht => ?_
  rw [ht.2.2]
  exact ⟨rfl, fun _ => rfl⟩

theorem adjustBalance_leavesWithdraws :
    Returns (s.adjustBalance name delta) (LeavesWithdraws s) := by
  unfold adjustBalance modifyBalance
  refine .bind_any fun a => ?_
  cases delta.symbol with
  | gbc => exact .ensure fun _ => modifyAccount_leavesWithdraws (fun _ => rfl) fun _ => rfl
  | gbs => exact .ensure fun _ => modifyAccount_leavesWithdraws (fun _ => rfl) fun _ => rfl
  | gbd =>
      refine .bind_any fun i => .bind (payInterest_leavesWithdraws i) fun u hu => ?_
      refine .ensure fun _ => ?_
      exact Returns.mono (modifyAccount_leavesWithdraws (fun _ => rfl) fun _ => rfl)
        fun _ ht => hu.trans ht

theorem adjustSavingsBalance_leavesWithdraws :
    Returns (s.adjustSavingsBalance name delta) (LeavesWithdraws s) := by
  unfold adjustSavingsBalance
  refine .bind_any fun a => ?_
  cases delta.symbol with
  | gbc => exact .ensure fun _ => modifyAccount_leavesWithdraws (fun _ => rfl) fun _ => rfl
  | gbs => exact .error
  | gbd =>
      refine .bind_any fun i => .bind (payInterest_leavesWithdraws i) fun u hu => ?_
      refine .ensure fun _ => ?_
      exact Returns.mono (modifyAccount_leavesWithdraws (fun _ => rfl) fun _ => rfl)
        fun _ ht => hu.trans ht

/-- A counter is no money. -/
theorem countRequest_moved {f : Account → Account} (count : Nat → Nat)
    (hf : ∀ a, f a = { a with savingsWithdrawRequests := count a.savingsWithdrawRequests }) :
    Returns (s.modifyAccount name f) fun t => Moved s t [] := by
  refine modifyAccount_moved (fun a => by rw [hf]) (fun a purse symbol => ?_) fun a => ?_
  · rw [hf]
    cases purse <;> cases symbol <;> rfl
  · funext purse symbol
    rw [hf]
    cases purse <;> cases symbol <;> rfl

/-- A withdrawal is no money of an account. -/
theorem withdraws_moved (s : Database) (table : Table SavingsWithdraw) :
    Moved s { s with savingsWithdraws := table } [] :=
  .of_same (fun _ a ha => ⟨a, ha, fun _ _ => rfl, rfl⟩) rfl rfl

/-! ## The evaluators -/

/-- The movements of the events of a step. -/
def movementsOf (events : List SavingsEvent) : List Movement :=
  events.flatMap SavingsEvent.movements

theorem symbol_ne_gbs {sender recipient : AccountName} {amount : Asset} {memo : String}
    (h : validateSavingsTransfer sender recipient amount memo = .ok ()) :
    amount.symbol ≠ .gbs := by
  unfold validateSavingsTransfer at h
  obtain ⟨_, -, h⟩ := bind_eq_ok.mp h
  obtain ⟨_, -, h⟩ := bind_eq_ok.mp h
  obtain ⟨-, h⟩ := ensure_bind_eq_ok.mp h
  obtain ⟨hsymbol, -⟩ := ensure_bind_eq_ok.mp h
  intro hgbs
  rw [hgbs] at hsymbol
  simp at hsymbol

theorem transferToSavings_spec (o : TransferToSavings) :
    Returns (s.transferToSavings o) fun x => LeavesWithdraws s x.1 ∧
      Moved s x.1 (movementsOf x.2) ∧ x.2 = [.deposited o.sender o.recipient o.amount] := by
  unfold transferToSavings
  refine .bind_eq fun _ hvalid => .bind_any fun _ => .bind_any fun _ => .bind_any fun balance =>
    .ensure fun _ => ?_
  have hsymbol := symbol_ne_gbs hvalid
  refine .bind_eq fun u hu => .bind_eq fun v hv => .pure ⟨?_, ?_, rfl⟩
  · exact (adjustBalance_leavesWithdraws u hu).trans (adjustSavingsBalance_leavesWithdraws v hv)
  · exact (adjustBalance_moved (by simpa using hsymbol) u hu).trans
      (adjustSavingsBalance_moved v hv)

/-- What a transfer from savings does. -/
structure TakesOut (s t : Database) (o : TransferFromSavings) : Prop where
  opens : OpensRequest s t o.sender (o.opened s.headBlockTime)
  moved : Moved s t [⟨o.sender, .savings, -o.amount⟩]
  unused : ∀ x ∈ s.savingsWithdraws.rows, ¬(x.sender = o.sender ∧ x.requestId = o.requestId)
  symbol : o.amount.symbol ≠ .gbs

/-- A withdrawal is created, and then counted. -/
theorem addWithdrawRequest_opens {object : Nat → SavingsWithdraw}
    (hid : ∀ i, (object i).id = i) (hsender : ∀ i, (object i).sender = name)
    (hbelow : s.openRequests name < savingsWithdrawRequestLimit)
    (h : ({ s with savingsWithdraws := s.savingsWithdraws.create object } : Database).modifyAccount
      name Account.addWithdrawRequest = .ok t) :
    OpensRequest s t name object ∧ Moved s t [] := by
  have hrest := modifyAccount_rest h
  have hmoved := countRequest_moved (fun k => (k + 1) % 256) (fun _ => rfl) t h
  obtain ⟨a, ha, -⟩ := bind_eq_ok.mp h
  have hcount : s.openRequests name = a.savingsWithdrawRequests :=
    openRequests_of_getAccount (s := s) ha
  refine ⟨⟨hid, hsender, by rw [hrest], hbelow, fun n => ?_⟩, (withdraws_moved s _).trans hmoved⟩
  rw [openRequests_modify h (fun _ => rfl) ha]
  by_cases hn : n = name
  · -- below the limit the counter does not wrap
    have hsmall : a.savingsWithdrawRequests + 1 < 256 := by
      rw [← hcount]
      unfold savingsWithdrawRequestLimit at hbelow
      omega
    rw [if_pos hn, if_pos hn, hn, hcount]
    exact Nat.mod_eq_of_lt hsmall
  · rw [if_neg hn, if_neg hn]
    rfl

theorem transferFromSavings_spec (o : TransferFromSavings) :
    Returns (s.transferFromSavings o) fun x => TakesOut s x.1 o ∧
      x.2 = [.taken (o.opened s.headBlockTime s.savingsWithdraws.nextId)] := by
  unfold transferFromSavings
  refine .bind_eq fun _ hvalid => .bind_eq fun a ha => .bind_any fun _ => .ensure fun hlimit =>
    .bind_any fun balance => .ensure fun _ => .bind_eq fun u hu => .ensure fun hunused =>
    .bind_eq fun t ht => ?_
  have hleaves := adjustSavingsBalance_leavesWithdraws u hu
  have hmoved := adjustSavingsBalance_moved u hu
  have hbelow : u.openRequests o.sender < savingsWithdrawRequestLimit := by
    rw [hleaves.requests, openRequests_of_getAccount ha]
    exact of_decide_eq_true hlimit
  have hid : ∀ i, (o.opened u.headBlockTime i).id = i := fun _ => rfl
  obtain ⟨hopens, hsame⟩ := addWithdrawRequest_opens hid (fun _ => rfl) hbelow ht
  have htakes : TakesOut s t o := by
    refine ⟨?_, hmoved.trans hsame, ?_, symbol_ne_gbs hvalid⟩
    · rw [← hmoved.now]
      exact hleaves.opens hopens
    · rw [hleaves.table] at hunused
      simpa [Table.find?] using hunused
  refine .pure ⟨htakes, ?_⟩
  rw [hmoved.now, hleaves.table]

/-- A withdrawal is settled by a movement to a purse of an account. -/
structure PaysBack (s t : Database) (r : SavingsWithdraw) (account : AccountName) (purse : Purse) :
    Prop where
  settles : Settles s t r
  moved : Moved s t [⟨account, purse, r.amount⟩]

/-- The amount is moved, the withdrawal no longer counted, and removed. -/
theorem PaysBack.of_parts {account : AccountName} {purse : Purse}
    (hfound : s.withdrawWith r.id = some r) (hleaves : LeavesWithdraws s t)
    (hmoved : Moved s t [⟨account, purse, r.amount⟩])
    (h : t.modifyAccount r.sender Account.dropWithdrawRequest = .ok u) :
    PaysBack s (u.removeSavingsWithdraw r.id) r account purse := by
  have hrest := modifyAccount_rest h
  have hsame := countRequest_moved (fun k => (k + 255) % 256) (fun _ => rfl) u h
  obtain ⟨a, ha, -⟩ := bind_eq_ok.mp h
  refine ⟨hleaves.settles ⟨?_, by rw [hrest]; rfl, fun n => ?_⟩,
    hmoved.trans (hsame.trans (withdraws_moved u _))⟩
  · rw [← hfound, withdrawWith, withdrawWith, hleaves.table]
  · show u.openRequests n = _
    rw [openRequests_modify h (fun _ => rfl) ha]
    by_cases hn : n = r.sender
    · rw [if_pos hn, if_pos hn, hn, openRequests_of_getAccount ha]
      rfl
    · rw [if_neg hn, if_neg hn]

/-- A withdrawal may be removed before it is no longer counted. -/
theorem modifyAccount_removeSavingsWithdraw {f : Account → Account} {id : Nat}
    (h : (s.removeSavingsWithdraw id).modifyAccount name f = .ok t) :
    ∃ v, s.modifyAccount name f = .ok v ∧ t = v.removeSavingsWithdraw id := by
  obtain ⟨a, ha, h⟩ := bind_eq_ok.mp h
  obtain ⟨hfits, h⟩ := ensure_bind_eq_ok.mp h
  refine ⟨{ s with accounts := s.accounts.modify (fun a => a.name = name) f }, ?_, ?_⟩
  · exact bind_eq_ok.mpr ⟨a, ha, ensure_bind_eq_ok.mpr ⟨hfits, rfl⟩⟩
  · rw [← pure_eq_ok.mp h]
    rfl

/-- `by_id` and `by_from_rid` are unique. -/
def UniqueWithdraws (s : Database) : Prop :=
  s.savingsWithdraws.Keyed SavingsWithdraw.id SavingsWithdraw.name

theorem withdrawWith_eq (h : s.UniqueWithdraws) (hr : r ∈ s.savingsWithdraws.rows) :
    s.withdrawWith r.id = some r :=
  find?_eq_some_of_nodup h.ids hr

theorem cancelTransferFromSavings_spec (hs : s.UniqueWithdraws)
    (o : CancelTransferFromSavings) :
    Returns (s.cancelTransferFromSavings o) fun x => ∃ r, PaysBack s x.1 r r.sender .savings ∧
      r.sender = o.sender ∧ r.requestId = o.requestId ∧
      x.2 = [.returned (r.payment r.sender s.headBlockTime)] := by
  unfold cancelTransferFromSavings
  refine .bind_any fun _ => .bind_eq fun r hr => .bind_eq fun u hu => .bind_eq fun v hv => ?_
  have hfind := require_eq_ok.mp hr
  have hmem := List.mem_of_find?_eq_some hfind
  obtain ⟨hsender, hrequest⟩ : r.sender = o.sender ∧ r.requestId = o.requestId := by
    simpa using List.find?_some hfind
  rw [← hsender] at hv
  obtain ⟨w, hw, rfl⟩ := modifyAccount_removeSavingsWithdraw hv
  have hmoved := adjustSavingsBalance_moved u hu
  have hpays := PaysBack.of_parts (withdrawWith_eq hs hmem)
    (adjustSavingsBalance_leavesWithdraws u hu) hmoved hw
  refine .pure ⟨r, hpays, hsender, hrequest, ?_⟩
  rw [modifyAccount_rest hw]
  exact congrArg (fun time => [SavingsEvent.returned (r.payment r.sender time)]) hmoved.now

/-! ## The sweep -/

/-- A turn of the sweep. -/
theorem fillSavingsWithdraw_spec (hs : s.UniqueWithdraws) (hr : r ∈ s.savingsWithdraws.rows)
    (hsymbol : r.amount.symbol ≠ .gbs) :
    Returns (fillSavingsWithdraw r (s, events)) fun x => PaysBack s x.1 r r.recipient .liquid ∧
      x.2 = events ++ [.credited (r.payment r.recipient s.headBlockTime)] := by
  unfold fillSavingsWithdraw
  refine .bind_eq fun u hu => .bind_eq fun v hv => ?_
  have hmoved := adjustBalance_moved hsymbol u hu
  have hpays := PaysBack.of_parts (withdrawWith_eq hs hr) (adjustBalance_leavesWithdraws u hu)
    hmoved hv
  refine .pure ⟨hpays, ?_⟩
  rw [modifyAccount_rest hv]
  exact congrArg (fun time => events ++ [SavingsEvent.credited (r.payment r.recipient time)])
    hmoved.now

theorem completedWithdraw_eq_some (h : s.completedWithdraw = some r) :
    r ∈ s.savingsWithdraws.rows ∧ r.complete ≤ s.headBlockTime := by
  obtain ⟨hfirst, hdue⟩ := Option.filter_eq_some_iff.mp h
  exact ⟨Table.mem_of_least hfirst, of_decide_eq_true hdue⟩

end Database

end Gamebank.Ledger
