import Gamebank.Stake.Frames

/-!
# What `adjust_balance` does

A balance moves by the amount given, and a balance in GBD besides by the
interest that is due on it. Interest is due once: a balance that was adjusted
in this block has none.
-/

namespace Gamebank.Ledger

open Gamebank.Lib Gamebank.Protocol

/-- The balance that `adjust_balance` moves. -/
def Account.liquid (a : Account) : AssetSymbol → Int
  | .gbc => a.balance
  | .gbd => a.gbdBalance
  | .gbs => a.vestingShares

namespace Database

variable {s t : Database} {name : AccountName} {delta : Asset}

/-- What is accrued on the GBD balance of an account. -/
def accrual (s : Database) (a : Account) : Except String Accrual :=
  accrue s.headBlockTime s.props.gbdInterestRate a.gbdBalance a.gbdSeconds a.gbdSecondsLastUpdate
    a.gbdLastInterestPayment

/-- The interest paid when a balance is adjusted. -/
def interestDue (s : Database) (a : Account) : AssetSymbol → Int
  | .gbd =>
      match s.accrual a with
      | .ok i => i.interestPaid
      | .error _ => 0
  | _ => 0

/-- `t` is `s` after the balance of `name` has been adjusted. -/
structure Credited (s t : Database) (name : AccountName) (delta : Asset) : Prop where
  here : ∃ a a', s.getAccount name = .ok a ∧ t.getAccount name = .ok a' ∧
    a'.liquid delta.symbol = a.liquid delta.symbol + s.interestDue a delta.symbol + delta.amount ∧
    t.interestDue a' delta.symbol = 0
  elsewhere : ∀ n, n ≠ name → t.getAccount n = s.getAccount n
  now : t.headBlockTime = s.headBlockTime
  rate : t.props.gbdInterestRate = s.props.gbdInterestRate
  rest : t = { s with accounts := t.accounts, props := t.props }

theorem Credited.interestDue_eq (h : Credited s t name delta) (a : Account) (symbol : AssetSymbol) :
    t.interestDue a symbol = s.interestDue a symbol := by
  cases symbol with
  | gbd => rw [interestDue, interestDue, accrual, accrual, h.now, h.rate]
  | gbc => rfl
  | gbs => rfl

/-! ## Accounts found after a change -/

theorem getAccount_modify {f : Account → Account} (h : s.modifyAccount name f = .ok t)
    (hf : ∀ a, (f a).name = a.name) (n : AccountName) :
    t.getAccount n = if n = name then (s.getAccount name).map f else s.getAccount n := by
  unfold modifyAccount at h
  obtain ⟨a, ha, h⟩ := bind_eq_ok.mp h
  obtain ⟨-, h⟩ := ensure_bind_eq_ok.mp h
  rw [← pure_eq_ok.mp h]
  by_cases hn : n = name
  · subst hn
    have hfound : modifyFirst (fun a => decide (a.name = n)) f s.accounts.rows =
        (s.accounts.modify (fun a => a.name = n) f).rows := rfl
    rw [if_pos rfl, ha]
    refine getAccount_eq_ok.mpr ?_
    rw [Table.find?, ← hfound, find?_modifyFirst (fun a ha => by simpa [hf] using ha)]
    rw [show s.accounts.rows.find? (fun a => a.name = n) = some a from getAccount_eq_ok.mp ha]
    rfl
  · rw [if_neg hn]
    unfold getAccount
    congr 1
    refine find?_modifyFirst_of_not (fun a ha => ?_) _
    have hname : a.name = name := of_decide_eq_true ha
    simp [hf, hname, Ne.symm hn]

theorem payInterest_spec (s : Database) (i : Accrual) :
    Returns (s.payInterest i) fun t => t.headBlockTime = s.headBlockTime ∧
      t.props.gbdInterestRate = s.props.gbdInterestRate ∧ t = { s with props := t.props } := by
  unfold payInterest
  refine .ite (fun _ => .bind_any fun _ => .ensure fun _ => ?_) fun _ => .ok ⟨rfl, rfl, rfl⟩
  refine (modifyProps_spec s _).mono fun t ht => ?_
  rw [ht.2]
  exact ⟨rfl, rfl, rfl⟩

/-! ## `adjust_balance` -/

/-- Nothing is due on a balance that was settled in this block. -/
theorem interestPaid_of_now {now : Nat} {rate balance seconds : Int} {lastPayment : Nat} :
    accrue now rate balance seconds now lastPayment =
      .ok ⟨false, 0, seconds, now, lastPayment⟩ := by
  rw [accrue, if_pos rfl]
  rfl

theorem accrue_lastUpdate {now : Nat} {rate balance seconds : Int} {lastUpdate lastPayment : Nat} :
    Returns (accrue now rate balance seconds lastUpdate lastPayment) fun i =>
      i.lastUpdate = now := by
  unfold accrue
  refine .ite (fun h => .pure h) fun _ => ?_
  refine .ite (fun _ => .ensure fun _ => .pure rfl) fun _ => .pure rfl

theorem modifyAccount_rest {f : Account → Account} (h : s.modifyAccount name f = .ok t) :
    t = { s with accounts := t.accounts } := by
  obtain ⟨a, he⟩ := modifyAccount_spec s name f t h
  have hrows := he.rest
  rw [hrows]

/-- An adjusted balance changes accounts and totals, and takes no time. -/
theorem adjustBalance_rest (s : Database) (name : AccountName) (delta : Asset) :
    Returns (s.adjustBalance name delta) fun t => t.headBlockTime = s.headBlockTime ∧
      t = { s with accounts := t.accounts, props := t.props } := by
  have hmodify : ∀ (u : Database) (f : Account → Account), u.headBlockTime = s.headBlockTime →
      u = { s with props := u.props } → Returns (u.modifyAccount name f) fun t =>
        t.headBlockTime = s.headBlockTime ∧
          t = { s with accounts := t.accounts, props := t.props } := by
    intro u f htime hu t ht
    have hrest := modifyAccount_rest ht
    rw [hu] at hrest
    exact ⟨by rw [hrest]; exact htime, by rw [hrest]⟩
  unfold adjustBalance modifyBalance
  refine .bind_any fun a => ?_
  cases delta.symbol with
  | gbc => exact .ensure fun _ => hmodify s _ rfl rfl
  | gbd =>
      refine .bind_any fun i => .bind (payInterest_spec s i) fun u ⟨htime, _, hu⟩ => ?_
      exact .ensure fun _ => hmodify u _ htime hu
  | gbs => exact .ensure fun _ => hmodify s _ rfl rfl

/-- **A balance is adjusted.** -/
theorem adjustBalance_credited (hsymbol : delta.symbol ≠ .gbs)
    (h : s.adjustBalance name delta = .ok t) : Credited s t name delta := by
  unfold adjustBalance modifyBalance at h
  obtain ⟨a, ha, h⟩ := bind_eq_ok.mp h
  cases hdelta : delta.symbol with
  | gbs => exact absurd hdelta hsymbol
  | gbc =>
      rw [hdelta] at h
      obtain ⟨-, h⟩ := ensure_bind_eq_ok.mp h
      have hfind := getAccount_modify h fun _ => rfl
      have hrest := modifyAccount_rest h
      refine ⟨⟨a, _, ha, by rw [hfind, if_pos rfl, ha]; rfl, ?_, by rw [hdelta]; rfl⟩, fun n hn =>
        ?_,
        by rw [hrest]; rfl, by rw [hrest], by rw [hrest]⟩
      · rw [hdelta]
        show a.balance + delta.amount = a.balance + 0 + delta.amount
        rw [Int.add_zero]
      · rw [hfind, if_neg hn]
  | gbd =>
      rw [hdelta] at h
      obtain ⟨i, hi, h⟩ := bind_eq_ok.mp h
      obtain ⟨u, hu, h⟩ := bind_eq_ok.mp h
      obtain ⟨-, h⟩ := ensure_bind_eq_ok.mp h
      obtain ⟨hnow, hrate, hprops⟩ := payInterest_spec s i u hu
      have hsame : ∀ n, u.getAccount n = s.getAccount n := fun n => by rw [hprops]; rfl
      have hfind := getAccount_modify h fun _ => rfl
      have hrest := modifyAccount_rest h
      have htime : t.headBlockTime = s.headBlockTime := by rw [hrest]; exact hnow
      refine ⟨⟨a, _, ha, by rw [hfind, if_pos rfl, hsame, ha]; rfl, ?_, ?_⟩, fun n hn => ?_,
        htime, by rw [hrest]; exact hrate, by rw [hrest, hprops]⟩
      · have hdue : s.interestDue a .gbd = i.interestPaid := by
          rw [interestDue, accrual, hi]
        rw [hdelta, hdue]
        rfl
      · have hlast : i.lastUpdate = t.headBlockTime := by
          rw [htime]
          exact accrue_lastUpdate i hi
        rw [hdelta, interestDue, accrual]
        dsimp only
        rw [hlast, interestPaid_of_now]
      · rw [hfind, if_neg hn, hsame]

end Database

end Gamebank.Ledger
