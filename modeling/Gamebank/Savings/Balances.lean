import Gamebank.Ledger.Savings
import Gamebank.Ledger.Credits

/-!
# Balances and savings of every account

An account holds money in its balance and in its savings. `Moved s t l` says
for every account, both purses and every symbol what is in it after the
movements `l`: what was there, the amounts that were moved, and the interest
that was due if it was touched at all. Movements made one after the other are
one list of movements (`Moved.trans`).
-/

namespace Gamebank.Ledger

open Gamebank.Lib Gamebank.Protocol

/-- Where an account holds money. -/
inductive Purse where
  | liquid
  | savings
deriving DecidableEq

/-- What an account holds in a purse. -/
def Account.held (a : Account) : Purse → AssetSymbol → Int
  | .liquid, symbol => a.liquid symbol
  | .savings, .gbc => a.savingsBalance
  | .savings, .gbd => a.savingsGbdBalance
  | .savings, .gbs => 0

/-- The purse of an account is adjusted by an amount. -/
structure Movement where
  account : AccountName
  purse : Purse
  amount : Asset
deriving DecidableEq

/-- The amounts moved in one purse and symbol of an account. -/
def amountsOf (name : AccountName) (purse : Purse) (symbol : AssetSymbol) (l : List Movement) :
    List Int :=
  (l.filter fun m => m.account = name && m.purse = purse && m.amount.symbol = symbol).map
    fun m => m.amount.amount

theorem amountsOf_append (name : AccountName) (purse : Purse) (symbol : AssetSymbol)
    (l l' : List Movement) :
    amountsOf name purse symbol (l ++ l') =
      amountsOf name purse symbol l ++ amountsOf name purse symbol l' := by
  simp [amountsOf]

theorem amountsOf_singleton (name : AccountName) (purse : Purse) (symbol : AssetSymbol)
    (m : Movement) :
    amountsOf name purse symbol [m] =
      if m.account = name ∧ m.purse = purse ∧ m.amount.symbol = symbol then [m.amount.amount]
      else [] := by
  by_cases h : m.account = name ∧ m.purse = purse ∧ m.amount.symbol = symbol
  · simp [amountsOf, h]
  · rw [if_neg h]
    simp only [amountsOf, List.map_eq_nil_iff, List.filter_eq_nil_iff, List.mem_singleton]
    rintro _ rfl
    simpa [and_assoc] using h

namespace Database

variable {s t u : Database} {name : AccountName} {delta : Asset} {l l' : List Movement}

/-- What is accrued on the GBD savings of an account. -/
def savingsAccrual (s : Database) (a : Account) : Except String Accrual :=
  accrue s.headBlockTime s.props.gbdInterestRate a.savingsGbdBalance a.savingsGbdSeconds
    a.savingsGbdSecondsLastUpdate a.savingsGbdLastInterestPayment

/-- The interest paid when a purse is adjusted. -/
def accrued (s : Database) (a : Account) : Purse → AssetSymbol → Int
  | .liquid, symbol => s.interestDue a symbol
  | .savings, .gbd =>
      match s.savingsAccrual a with
      | .ok i => i.interestPaid
      | .error _ => 0
  | .savings, _ => 0

/-- `a'` is `a` after the purses of the account `name` were moved by `l`. -/
structure Follows (s t : Database) (name : AccountName) (l : List Movement) (a a' : Account) :
    Prop where
  held : ∀ purse symbol, a'.held purse symbol = a.held purse symbol +
    (if amountsOf name purse symbol l = [] then 0 else s.accrued a purse symbol) +
    sumOf id (amountsOf name purse symbol l)
  due : ∀ purse symbol, t.accrued a' purse symbol =
    if amountsOf name purse symbol l = [] then s.accrued a purse symbol else 0

/-- `t` is `s` after the movements `l`, for every account. -/
structure Moved (s t : Database) (l : List Movement) : Prop where
  accounts : ∀ n a, s.getAccount n = .ok a → ∃ a', t.getAccount n = .ok a' ∧ Follows s t n l a a'
  now : t.headBlockTime = s.headBlockTime
  rate : t.props.gbdInterestRate = s.props.gbdInterestRate

theorem Follows.trans {a b c : Account} (h : Follows s t name l a b)
    (h' : Follows t u name l' b c) : Follows s u name (l ++ l') a c where
  held purse symbol := by
    rw [h'.held, h.held, h.due, amountsOf_append, sumOf_append]
    -- interest is due once: if the first movements touched the purse, the second find none
    by_cases hl : amountsOf name purse symbol l = []
    · simp only [hl, if_true, List.nil_append, sumOf_nil]
      omega
    · simp only [hl, if_false, List.append_eq_nil_iff, false_and]
      split <;> omega
  due purse symbol := by
    rw [h'.due, h.due, amountsOf_append]
    by_cases hl : amountsOf name purse symbol l = []
    · simp [hl]
    · simp [hl]

theorem Moved.trans (h : Moved s t l) (h' : Moved t u l') : Moved s u (l ++ l') where
  accounts n a ha := by
    obtain ⟨b, hb, hab⟩ := h.accounts n a ha
    obtain ⟨c, hc, hbc⟩ := h'.accounts n b hb
    exact ⟨c, hc, hab.trans hbc⟩
  now := h'.now.trans h.now
  rate := h'.rate.trans h.rate

/-- Interest depends on the account, the time and the rate. -/
theorem due_congr (hnow : t.headBlockTime = s.headBlockTime)
    (hrate : t.props.gbdInterestRate = s.props.gbdInterestRate) (a : Account) :
    t.accrued a = s.accrued a := by
  funext purse symbol
  cases purse <;> cases symbol <;>
    simp [accrued, interestDue, accrual, savingsAccrual, hnow, hrate]

/-- A change that leaves alone what accounts hold. -/
theorem Moved.of_same (hsame : ∀ n a, s.getAccount n = .ok a → ∃ a', t.getAccount n = .ok a' ∧
      (∀ purse symbol, a'.held purse symbol = a.held purse symbol) ∧ s.accrued a' = s.accrued a)
    (hnow : t.headBlockTime = s.headBlockTime)
    (hrate : t.props.gbdInterestRate = s.props.gbdInterestRate) : Moved s t [] where
  accounts n a ha := by
    obtain ⟨a', ha', hheld, hdue⟩ := hsame n a ha
    refine ⟨a', ha', fun purse symbol => ?_, fun purse symbol => ?_⟩
    · simp [amountsOf, hheld]
    · simp [amountsOf, due_congr hnow hrate, hdue]
  now := hnow
  rate := hrate

theorem Moved.refl (s : Database) : s.Moved s [] :=
  .of_same (fun _ a ha => ⟨a, ha, fun _ _ => rfl, rfl⟩) rfl rfl

/-- An account is modified in one purse. -/
theorem Moved.of_modify {f : Account → Account} {m : Movement} (hmodify : u.modifyAccount m.account
      f = .ok t) (hname : ∀ a, (f a).name = a.name) (hu : ∀ n, u.getAccount n = s.getAccount n)
    (hnow : u.headBlockTime = s.headBlockTime)
    (hrate : u.props.gbdInterestRate = s.props.gbdInterestRate)
    (hf : ∀ a, s.getAccount m.account = .ok a → Follows s s m.account [m] a (f a)) :
    Moved s t [m] := by
  have hfind := getAccount_modify hmodify hname
  have hrest := modifyAccount_rest hmodify
  have hnow' : t.headBlockTime = s.headBlockTime := by rw [hrest]; exact hnow
  have hrate' : t.props.gbdInterestRate = s.props.gbdInterestRate := by rw [hrest]; exact hrate
  refine ⟨fun n a ha => ?_, hnow', hrate'⟩
  by_cases hn : n = m.account
  · subst hn
    obtain ⟨hheld, hdue⟩ := hf a ha
    refine ⟨f a, by rw [hfind, if_pos rfl, hu, ha]; rfl, hheld, ?_⟩
    rw [due_congr hnow' hrate']
    exact hdue
  · refine ⟨a, by rw [hfind, if_neg hn, hu, ha], fun purse symbol => ?_, fun purse symbol => ?_⟩
    · simp [amountsOf_singleton, Ne.symm hn]
    · simp [amountsOf_singleton, Ne.symm hn, due_congr hnow' hrate']

/-! ## The functions that adjust -/

theorem adjustBalance_moved (hsymbol : delta.symbol ≠ .gbs) :
    Returns (s.adjustBalance name delta) fun t => Moved s t [⟨name, .liquid, delta⟩] := by
  unfold adjustBalance modifyBalance
  refine .bind_eq fun a ha => ?_
  cases hdelta : delta.symbol with
  | gbs => exact absurd hdelta hsymbol
  | gbc =>
      refine .ensure fun _ t ht => ?_
      refine .of_modify ht (fun _ => rfl) (fun _ => rfl) rfl rfl fun b hb => ⟨?_, ?_⟩
      · intro purse symbol
        cases purse <;> cases symbol <;>
          simp [amountsOf_singleton, hdelta, Account.held, Account.liquid, accrued, interestDue]
      · intro purse symbol
        cases purse <;> cases symbol <;>
          simp [amountsOf_singleton, hdelta, accrued, interestDue, accrual, savingsAccrual]
  | gbd =>
      refine .bind_eq fun i hi => .bind (payInterest_spec s i) fun u hpay => ?_
      obtain ⟨hnow, hrate, hu⟩ := hpay
      refine .ensure fun _ t ht => ?_
      refine .of_modify ht (fun _ => rfl) (fun n => by rw [hu]; rfl) hnow hrate fun b hb => ⟨?_, ?_⟩
      all_goals
        rw [ha, Except.ok.injEq] at hb
        subst hb
        intro purse symbol
      · have hpaid : s.interestDue a .gbd = i.interestPaid := by rw [interestDue, accrual, hi]
        cases purse <;> cases symbol <;>
          simp [amountsOf_singleton, hdelta, Account.held, Account.liquid, accrued, hpaid]
      · have hlast : i.lastUpdate = s.headBlockTime := accrue_lastUpdate i hi
        cases purse <;> cases symbol <;>
          simp [amountsOf_singleton, hdelta, accrued, interestDue, accrual, savingsAccrual, hlast,
            interestPaid_of_now]

theorem adjustSavingsBalance_moved :
    Returns (s.adjustSavingsBalance name delta) fun t => Moved s t [⟨name, .savings, delta⟩] := by
  unfold adjustSavingsBalance
  refine .bind_eq fun a ha => ?_
  cases hdelta : delta.symbol with
  | gbs => exact .error
  | gbc =>
      refine .ensure fun _ t ht => ?_
      refine .of_modify ht (fun _ => rfl) (fun _ => rfl) rfl rfl fun b hb => ⟨?_, ?_⟩
      · intro purse symbol
        cases purse <;> cases symbol <;>
          simp [amountsOf_singleton, hdelta, Account.held, Account.liquid, accrued]
      · intro purse symbol
        cases purse <;> cases symbol <;>
          simp [amountsOf_singleton, hdelta, accrued, interestDue, accrual, savingsAccrual]
  | gbd =>
      refine .bind_eq fun i hi => .bind (payInterest_spec s i) fun u hpay => ?_
      obtain ⟨hnow, hrate, hu⟩ := hpay
      refine .ensure fun _ t ht => ?_
      refine .of_modify ht (fun _ => rfl) (fun n => by rw [hu]; rfl) hnow hrate fun b hb => ⟨?_, ?_⟩
      all_goals
        rw [ha, Except.ok.injEq] at hb
        subst hb
        intro purse symbol
      · have hpaid : s.accrued a .savings .gbd = i.interestPaid := by
          rw [accrued, savingsAccrual, hi]
        cases purse <;> cases symbol <;>
          simp [amountsOf_singleton, hdelta, Account.held, Account.liquid, hpaid]
      · have hlast : i.lastUpdate = s.headBlockTime := accrue_lastUpdate i hi
        cases purse <;> cases symbol <;>
          simp [amountsOf_singleton, hdelta, accrued, interestDue, accrual, savingsAccrual, hlast,
            interestPaid_of_now]

/-- A modified account that holds the same. -/
theorem modifyAccount_moved {f : Account → Account} (hname : ∀ a, (f a).name = a.name)
    (hheld : ∀ a purse symbol, (f a).held purse symbol = a.held purse symbol)
    (hdue : ∀ a, s.accrued (f a) = s.accrued a) :
    Returns (s.modifyAccount name f) fun t => Moved s t [] := by
  intro t ht
  have hfind := getAccount_modify ht hname
  have hrest := modifyAccount_rest ht
  refine .of_same (fun n a ha => ?_) (by rw [hrest]; rfl) (by rw [hrest])
  by_cases hn : n = name
  · subst hn
    exact ⟨f a, by rw [hfind, if_pos rfl, ha]; rfl, hheld a, hdue a⟩
  · exact ⟨a, by rw [hfind, if_neg hn, ha], fun _ _ => rfl, rfl⟩

end Database

end Gamebank.Ledger
