import Gamebank.Crowdfunding.State
import Gamebank.Lib.Runs
import Mathlib.Data.String.Basic

/-!
# What each step can do

An operation that goes through opens one campaign or adds to one
investment; a block settles the first campaign of the index or nothing.
**After one turn the outer loop of `process_crowdfunding` always stops**:
the campaign just settled is still the first one, and it is finished.
-/

namespace Gamebank.Crowdfunding

open Gamebank.Lib Gamebank.Protocol

variable {Name Permlink : Type}

/-! ## Assertions -/

@[simp] theorem ensure_bind_eq_ok {α : Type} {condition : Bool} {message : String}
    {f : Unit → Except String α} {a : α} :
    (ensure condition message >>= f) = .ok a ↔ condition = true ∧ f () = .ok a := by
  unfold ensure
  cases condition <;> simp [bind, Except.bind]

theorem InvestOperation.raise_nonneg {v : Validators Name Permlink}
    {op : InvestOperation Name Permlink} (h : op.validate v = .ok ()) : 0 ≤ op.raise.amount := by
  unfold InvestOperation.validate at h
  simp only [ensure_bind_eq_ok] at h
  obtain ⟨-, -, -, -, h⟩ := h
  unfold ensure at h
  split at h
  · rename_i hraise
    simpa using hraise
  · simp at h

variable [LinearOrder Name]

namespace State

variable [DecidableEq Permlink]

/-! ## Operations -/

/-- The campaign a `crowdfunding_operation` opens. -/
def newCrowdfunding (s : State Name Permlink) (op : CrowdfundingOperation Name Permlink) :
    CrowdfundingObject Name Permlink :=
  { id := s.nextCrowdfunding, originator := op.originator, permlink := op.permlink,
    created := s.headBlockTime, expire := s.headBlockTime + crowdfundingPeriod, lastRaise := 0,
    totalRaiseValue := op.raise.amount, curatorRaiseValue := 0, finish := 0 }

/-- `s'` is `s` with a campaign opened. -/
structure Opens (op : CrowdfundingOperation Name Permlink) (s s' : State Name Permlink) : Prop where
  fresh : ∀ d ∈ s.crowdfundings, d.key ≠ (s.newCrowdfunding op).key
  crowdfundings : s'.crowdfundings =
    s.crowdfundings.orderedInsert (fun a b => a.key ≤ b.key) (s.newCrowdfunding op)
  nextCrowdfunding : s'.nextCrowdfunding = s.nextCrowdfunding + 1
  invests : s'.invests = s.invests
  ledger : s'.ledger = s.ledger
  balance : s'.balance = s.balance
  headBlockTime : s'.headBlockTime = s.headBlockTime

theorem opens_of_applyCrowdfunding {v : Validators Name Permlink}
    {op : CrowdfundingOperation Name Permlink} {s s' : State Name Permlink}
    (h : s.applyCrowdfunding v op = .ok s') : Opens op s s' := by
  unfold applyCrowdfunding at h
  simp only [ensure_bind_eq_ok] at h
  obtain ⟨-, -, -, -, -, -, hfresh, h⟩ := h
  simp only [pure, Except.pure, Except.ok.injEq] at h
  subst h
  refine ⟨?_, rfl, rfl, rfl, rfl, rfl, rfl⟩
  simpa [newCrowdfunding] using hfresh

/-- `s'` is `s` with `op.raise` moved from the investor to the campaign `c`. -/
structure Invests (op : InvestOperation Name Permlink) (c : CrowdfundingObject Name Permlink)
    (s s' : State Name Permlink) : Prop where
  running : s.headBlockTime < c.expire
  crowdfundings : Replaces c
    { c with
      curatorRaiseValue := c.curatorRaiseValue + op.raise.amount
      lastRaise := s.headBlockTime } s.crowdfundings s'.crowdfundings
  nextCrowdfunding : s'.nextCrowdfunding = s.nextCrowdfunding
  invests : (∃ i, i.crowdfunding = c.id ∧ i.invester = op.invester ∧
      Replaces i { i with raise := i.raise + op.raise.amount, lastUpdate := s.headBlockTime }
        s.invests s'.invests) ∨
    (∃ i : CrowdfundingInvestObject Name, i.crowdfunding = c.id ∧ i.invester = op.invester ∧
      i.expire = c.expire ∧ i.raise = op.raise.amount ∧
      s'.invests = s.invests.orderedInsert (fun a b => a.key ≤ b.key) i)
  ledger : s'.ledger = s.ledger ++ [.debit c.id op.invester op.raise.amount]
  balance : s'.balance = (s.adjustBalance op.invester (-op.raise.amount)).balance
  headBlockTime : s'.headBlockTime = s.headBlockTime

theorem invests_of_applyInvest {op : InvestOperation Name Permlink} {s s' : State Name Permlink}
    (h : s.applyInvest op = .ok s') :
    ∃ c, s.findCrowdfunding op.originator op.permlink = some c ∧ Invests op c s s' := by
  unfold applyInvest at h
  split at h
  · simp at h
  · rename_i c hfound
    simp only [ensure_bind_eq_ok, decide_eq_true_eq] at h
    obtain ⟨-, hrunning, -, -, h⟩ := h
    refine ⟨c, hfound, ?_⟩
    unfold recordInvest at h
    simp only at h
    split at h
    · rename_i i hi
      simp only [pure, Except.pure, Except.ok.injEq] at h
      subst h
      have hown := List.find?_some hi
      simp only [decide_eq_true_eq] at hown
      exact ⟨hrunning, replaces_modifyFirst hfound _, rfl,
        Or.inl ⟨i, hown.1, hown.2, replaces_modifyFirst hi _⟩, rfl, rfl, rfl⟩
    · simp only [ensure_bind_eq_ok] at h
      obtain ⟨-, h⟩ := h
      simp only [pure, Except.pure, Except.ok.injEq] at h
      subst h
      exact ⟨hrunning, replaces_modifyFirst hfound _, rfl,
        Or.inr ⟨_, rfl, rfl, rfl, rfl, rfl⟩, rfl, rfl, rfl⟩

/-! ## Blocks -/

omit [DecidableEq Permlink] in
@[simp] theorem refundLoop_headBlockTime (l : List (CrowdfundingInvestObject Name))
    (s : State Name Permlink) : (refundLoop l s).headBlockTime = s.headBlockTime := by
  induction l generalizing s with
  | nil => rfl
  | cons i rest ih =>
      unfold refundLoop
      split
      · rfl
      · rw [ih]
        rfl

omit [DecidableEq Permlink] in
/-- Settling finishes the campaign where it stands. -/
theorem settle_crowdfundings (c : CrowdfundingObject Name Permlink)
    (rest : List (CrowdfundingObject Name Permlink)) (s : State Name Permlink) :
    (s.settle c rest).crowdfundings =
      { c with finish := if c.curatorRaiseValue < c.totalRaiseValue then 2 else 1 } :: rest := by
  unfold settle
  split <;> rfl

omit [DecidableEq Permlink] in
@[simp] theorem settle_headBlockTime (c : CrowdfundingObject Name Permlink)
    (rest : List (CrowdfundingObject Name Permlink)) (s : State Name Permlink) :
    (s.settle c rest).headBlockTime = s.headBlockTime := by
  unfold settle
  split
  · simp
  · rfl

omit [DecidableEq Permlink] in
/-- **What `process_crowdfunding` can do.** -/
theorem processCrowdfunding_cases (s : State Name Permlink) :
    (s.processCrowdfunding = s ∧ ∀ c rest, s.crowdfundings = c :: rest →
      c.expire ≤ s.headBlockTime → 0 < c.finish) ∨
    (∃ c rest, s.crowdfundings = c :: rest ∧ c.expire ≤ s.headBlockTime ∧ c.finish = 0 ∧
      s.processCrowdfunding = s.settle c rest) := by
  unfold processCrowdfunding
  cases hc : s.crowdfundings with
  | nil =>
      left
      simp [processLoop, hc]
  | cons c rest =>
      simp only [List.length_cons]
      unfold processLoop
      simp only [hc]
      by_cases hexpire : s.headBlockTime < c.expire
      · left
        rw [if_pos hexpire]
        refine ⟨rfl, fun d rest' hd hle => ?_⟩
        simp only [List.cons.injEq] at hd
        rw [← hd.1] at hle
        omega
      · rw [if_neg hexpire]
        by_cases hfinish : 0 < c.finish
        · left
          rw [if_pos hfinish]
          refine ⟨rfl, fun d rest' hd _ => ?_⟩
          simp only [List.cons.injEq] at hd
          exact hd.1 ▸ hfinish
        · right
          rw [if_neg hfinish]
          refine ⟨c, rest, rfl, by omega, by omega, ?_⟩
          -- The next turn finds the same campaign, finished.
          have hsettled :
              0 < if c.curatorRaiseValue < c.totalRaiseValue then 2 else 1 := by
            split <;> omega
          unfold processLoop
          rw [settle_crowdfundings]
          simp only [hsettled, if_true]
          split <;> rfl

/-! ## Steps -/

/-- **What a step can do.** -/
theorem step_cases (v : Validators Name Permlink) (s : State Name Permlink)
    (st : Step Name Permlink) :
    s.step v st = s ∨
    (∃ op, st = .crowdfunding op ∧ Opens op s (s.step v st)) ∨
    (∃ op c, st = .invest op ∧ 0 ≤ op.raise.amount ∧ Invests op c s (s.step v st)) ∨
    (∃ time, st = .block time ∧ s.headBlockTime < time ∧
      s.step v st = { s with headBlockTime := time }.processCrowdfunding) := by
  cases st with
  | crowdfunding op =>
      simp only [step]
      cases hv : op.validate v with
      | error e => exact Or.inl rfl
      | ok _ =>
          cases h : s.applyCrowdfunding v op with
          | error e =>
              left
              simp [bind, Except.bind, attempt]
          | ok s' =>
              right; left
              refine ⟨op, rfl, ?_⟩
              simpa [bind, Except.bind, h, attempt] using opens_of_applyCrowdfunding h
  | invest op =>
      simp only [step]
      cases hv : op.validate v with
      | error e => exact Or.inl rfl
      | ok _ =>
          cases h : s.applyInvest op with
          | error e =>
              left
              simp [bind, Except.bind, attempt]
          | ok s' =>
              obtain ⟨c, -, hc⟩ := invests_of_applyInvest h
              right; right; left
              refine ⟨op, c, rfl, InvestOperation.raise_nonneg hv, ?_⟩
              simpa [bind, Except.bind, h, attempt] using hc
  | block time =>
      simp only [step]
      by_cases ht : s.headBlockTime < time
      · right; right; right
        exact ⟨time, rfl, ht, if_pos ht⟩
      · exact Or.inl (if_neg ht)

/-! ## The ledger accounts for the balances -/

/-- Lets every name and text through. -/
def accepting : Validators String String :=
  { validateAccountName := fun _ => true, validatePermlink := fun _ => true,
    validatePermlink01 := fun _ => true, isUtf8 := fun _ => true, isValidJson := fun _ => true }

/-- No campaign yet; every account holds 1000. -/
def opening : State String String :=
  { headBlockTime := 100, hasAccount := fun _ => true, balance := fun _ => 1000,
    lastCrowdfundingExpire := fun _ => 0, crowdfundingCount := fun _ => 0, crowdfundings := [],
    invests := [], nextCrowdfunding := 0, nextInvest := 0, ledger := [] }

theorem opening_genesis : opening.Genesis := ⟨rfl, rfl, rfl⟩

/-- `originator` asks for `raise`. -/
def campaign (originator permlink : String) (raise : Int) : Step String String :=
  .crowdfunding
    { originator := originator, permlink := permlink, raise := ⟨raise, .gbc⟩,
      title := [], body := [104, 105], jsonMetadata := [] }

/-- `invester` invests `raise`. -/
def investment (invester originator permlink : String) (raise : Int) : Step String String :=
  .invest
    { invester := invester, originator := originator, permlink := permlink,
      raise := ⟨raise, .gbc⟩ }

end State

end Gamebank.Crowdfunding
