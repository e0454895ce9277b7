import Gamebank.Contract.Bandwidth
import Gamebank.Stake.Frames

/-!
# What limits the opcodes of a contract

The witness plugin says how many bytes of bandwidth an account has left, and
the evaluators make the limit of opcodes of it. The note starts at -1, which
stands for a node without the plugin, and a limit that is not positive is no
limit. **An account with nothing left is not stopped but runs without a
limit**, and so is one with so many bytes that an `int` does not hold them:
the limit is right only if it is what is left (`bounded_iff`).
-/

namespace Gamebank.Ledger

open Gamebank.Lib Gamebank.Protocol Database

namespace WitnessPlugin

/-- `get_effective_vesting_shares`. -/
def effective (a : Account) : Int :=
  a.vestingShares - a.delegatedVestingShares + a.receivedVestingShares

/-- The share of the bandwidth that the shares of the account are worth. -/
def allocated (p : WitnessPlugin) (s : Database) (a : Account) : Int :=
  toUInt128 (toUInt128 (effective a) * p.maxVirtualBandwidth) / toUInt128 s.props.totalVestingShares

/-- What the account uses of it. -/
def average (p : WitnessPlugin) (a : Account) : Int := toUInt128 (p.bandOf a.name).averageBandwidth

/-- The bytes the account has left. -/
def remainingBytes (p : WitnessPlugin) (s : Database) (a : Account) : Int :=
  (p.allocated s a - p.average a) / bandwidthPrecision

/-- `on_remain_bandwidth` sets the note: the sums do not overflow, something is
left, and it is a 64-bit number. -/
structure Answers (p : WitnessPlugin) (s : Database) (a : Account) : Prop where
  free : fitsInt64 (a.vestingShares - a.delegatedVestingShares) = true
  effective : fitsInt64 (effective a) = true
  left : p.average a < p.allocated s a
  word : p.remainingBytes s a < 18446744073709551616

end WitnessPlugin

variable {env : Environment} {p : WitnessPlugin} {s : Database} {op : ContractOperation}
  {a : Account} {name : AccountName}

/-! ## The answer of the plugin -/

/-- The shares, if the sums do not overflow. -/
theorem effectiveShares_eq (a : Account) :
    WitnessPlugin.effectiveShares a = do
      ensure (fitsInt64 (a.vestingShares - a.delegatedVestingShares)) "overflow"
      ensure (fitsInt64 (WitnessPlugin.effective a)) "overflow"
      return toUInt128 (WitnessPlugin.effective a) := by
  unfold WitnessPlugin.effectiveShares checkedSub
  cases fitsInt64 (a.vestingShares - a.delegatedVestingShares) <;> rfl

/-- The body of `on_remain_bandwidth` for an account that exists. -/
theorem remaining_eq (ha : s.getAccount name = .ok a) (htotal : 0 < s.props.totalVestingShares) :
    p.remaining s name = do
      ensure (fitsInt64 (a.vestingShares - a.delegatedVestingShares)) "overflow"
      ensure (fitsInt64 (WitnessPlugin.effective a)) "overflow"
      if p.average a < p.allocated s a then lowWord (p.remainingBytes s a) else return -1 := by
  have hname : a.name = name := (getAccount_mem ha).2
  subst hname
  unfold WitnessPlugin.remaining
  rw [ha]
  show (if 0 < s.props.totalVestingShares then _ else _) = _
  rw [if_pos htotal, effectiveShares_eq]
  cases fitsInt64 (a.vestingShares - a.delegatedVestingShares) with
  | false => rfl
  | true => cases fitsInt64 (WitnessPlugin.effective a) <;> rfl

theorem remainBandwidth_of_answers (ha : s.getAccount name = .ok a)
    (htotal : 0 < s.props.totalVestingShares) (h : p.Answers s a) :
    p.handlers.remainBandwidth s name = toInt64 (p.remainingBytes s a) := by
  show WitnessPlugin.swallow (-1) (p.remaining s name) = _
  rw [remaining_eq ha htotal, h.free, h.effective]
  show WitnessPlugin.swallow (-1) (if _ then _ else _) = _
  rw [if_pos h.left]
  unfold lowWord
  rw [decide_eq_true h.word]
  rfl

/-- Where the plugin does not set the note, it looks as if there were none. -/
theorem remainBandwidth_of_not_answers (ha : s.getAccount name = .ok a)
    (htotal : 0 < s.props.totalVestingShares) (h : ¬p.Answers s a) :
    p.handlers.remainBandwidth s name = -1 := by
  show WitnessPlugin.swallow (-1) (p.remaining s name) = _
  rw [remaining_eq ha htotal]
  cases hfree : fitsInt64 (a.vestingShares - a.delegatedVestingShares) with
  | false => rfl
  | true =>
      cases heffective : fitsInt64 (WitnessPlugin.effective a) with
      | false => rfl
      | true =>
          show WitnessPlugin.swallow (-1) (if _ then _ else _) = _
          by_cases hleft : p.average a < p.allocated s a
          · rw [if_pos hleft]
            have hword : ¬p.remainingBytes s a < 18446744073709551616 := fun hword =>
              h ⟨hfree, heffective, hleft, hword⟩
            unfold lowWord
            rw [decide_eq_false hword]
            rfl
          · rw [if_neg hleft]
            rfl

/-! ## The limit -/

/-- The Lua code of the operation is run with these limits. -/
def RunsWith (env : Environment) (handlers : Handlers) (s : Database) (op : ContractOperation)
    (limits : Limits) : Prop :=
  ∃ launch u remain, s.launchContract env op = .ok (launch, u) ∧
    s.checkBandwidth handlers op.payer = .ok remain ∧ limits = op.limits remain

theorem opcodes_limits (op : ContractOperation) (remain : Int) :
    (op.limits remain).opcodes = toInt32 remain := by
  cases op <;> rfl

theorem checkBandwidth_eq_ok {handlers : Handlers} {remain : Int} :
    s.checkBandwidth handlers name = .ok remain ↔
      (handlers.remainBandwidth s name = -1 ∧ remain = 0) ∨
        (0 < handlers.remainBandwidth s name ∧ remain = handlers.remainBandwidth s name) := by
  unfold checkBandwidth
  dsimp only
  by_cases hnone : handlers.remainBandwidth s name = -1
  · rw [if_neg (by simp [hnone]), pure_eq_ok]
    constructor
    · exact fun h => Or.inl ⟨hnone, h.symm⟩
    · rintro (⟨-, h⟩ | ⟨h, -⟩)
      · exact h.symm
      · omega
  · rw [if_pos hnone, ensure_bind_eq_ok, decide_eq_true_eq, pure_eq_ok]
    constructor
    · exact fun h => Or.inr ⟨h.1, h.2.symm⟩
    · rintro (⟨h, -⟩ | ⟨h, heq⟩)
      · exact absurd h hnone
      · exact ⟨h, heq.symm⟩

/-- An operation that is applied has run its code with such limits. -/
theorem exists_runsWith {handlers : Handlers} {fuel : Nat} {t : Database}
    (h : s.applyContract env handlers fuel op = .ok t) :
    ∃ limits launch u used, RunsWith env handlers s op limits ∧
      s.launchContract env op = .ok (launch, u) ∧
      u.execute env launch limits fuel = .ok (t, used) := by
  obtain ⟨launch, u, remain, used, hlaunch, hremain, hrun, -⟩ := applyContract_eq_ok.mp h
  exact ⟨op.limits remain, launch, u, used, ⟨launch, u, remain, hlaunch, hremain, rfl⟩, hlaunch,
    hrun⟩

/-- The contract runs with a positive limit of opcodes, and not more than the
bytes that the account has left; or it does not run. -/
def Bounded (env : Environment) (p : WitnessPlugin) (s : Database) (op : ContractOperation)
    (a : Account) : Prop :=
  ∀ limits, RunsWith env p.handlers s op limits →
    0 < limits.opcodes ∧ limits.opcodes ≤ p.remainingBytes s a

/-- A bounded contract that comes to its end has executed fewer opcodes than
the account had bytes left. -/
theorem Bounded.opcodes_lt {fuel : Nat} {t : Database} (h : Bounded env p s op a)
    (happlied : s.applyContract env p.handlers fuel op = .ok t) :
    ∃ launch u limits used, s.launchContract env op = .ok (launch, u) ∧
      u.execute env launch limits fuel = .ok (t, used) ∧ used.opcodes < p.remainingBytes s a := by
  obtain ⟨limits, launch, u, used, hruns, hlaunch, hrun⟩ := exists_runsWith happlied
  obtain ⟨hpos, hle⟩ := h limits hruns
  have hbelow : (used.opcodes : Int) < limits.opcodes :=
    not_le.mp fun hreached => (execute_iff.mp hrun).2.1 ⟨hpos, hreached⟩
  exact ⟨launch, u, limits, used, hlaunch, hrun, hbelow.trans_le hle⟩

/-- What the note and an `int` make of a number of bytes: it stops the contract,
or is a limit. -/
def Limiting (n : Int) : Prop :=
  n = 0 ∨ (n < 9223372036854775808 ∧ 0 < n % 4294967296 ∧ n % 4294967296 < 2147483648) ∨
    (9223372036854775808 ≤ n ∧ n < 18446744073709551615)

theorem toInt32_pos_iff {n : Int} :
    0 < toInt32 n ↔ 0 < n % 4294967296 ∧ n % 4294967296 < 2147483648 := by
  unfold toInt32
  split <;> omega

theorem limiting_iff {n : Int} (hn : 0 ≤ n) (hword : n < 18446744073709551616) : Limiting n ↔
    toInt64 n ≠ -1 ∧ (0 < toInt64 n → 0 < toInt32 (toInt64 n) ∧ toInt32 (toInt64 n) ≤ n) := by
  rw [toInt32_pos_iff]
  unfold Limiting toInt32 toInt64
  split <;> split <;> omega

theorem WitnessPlugin.Answers.remainingBytes_nonneg (h : p.Answers s a) :
    0 ≤ p.remainingBytes s a := by
  have hleft := h.left
  unfold WitnessPlugin.remainingBytes WitnessPlugin.bandwidthPrecision
  omega

/-- **A contract is bounded if and only if** it is not started, or the plugin
answers and an `int` holds what it says as a limit. -/
theorem bounded_iff (ha : s.getAccount op.payer = .ok a) (htotal : 0 < s.props.totalVestingShares) :
    Bounded env p s op a ↔ (∀ launch u, s.launchContract env op ≠ .ok (launch, u)) ∨
      (p.Answers s a ∧ Limiting (p.remainingBytes s a)) := by
  by_cases hlaunch : ∃ r, s.launchContract env op = .ok r
  · obtain ⟨⟨launch, u⟩, hlaunch⟩ := hlaunch
    have hstarts :
      Bounded env p s op a ↔ ∀ remain, s.checkBandwidth p.handlers op.payer = .ok remain →
        0 < toInt32 remain ∧ toInt32 remain ≤ p.remainingBytes s a := by
      constructor
      · intro h remain hremain
        rw [← opcodes_limits op remain]
        exact h _ ⟨launch, u, remain, hlaunch, hremain, rfl⟩
      · rintro h limits ⟨-, -, remain, -, hremain, rfl⟩
        rw [opcodes_limits]
        exact h remain hremain
    have hstarted : ¬∀ launch u, s.launchContract env op ≠ .ok (launch, u) :=
      fun h => h launch u hlaunch
    rw [hstarts, or_iff_right hstarted]
    by_cases hanswers : p.Answers s a
    · rw [and_iff_right hanswers,
        limiting_iff hanswers.remainingBytes_nonneg hanswers.word,
        ← remainBandwidth_of_answers ha htotal hanswers]
      constructor
      · intro h
        refine ⟨fun hnone => ?_, fun hpos => h _ (checkBandwidth_eq_ok.mpr (Or.inr ⟨hpos, rfl⟩))⟩
        have hzero := h 0 (checkBandwidth_eq_ok.mpr (Or.inl ⟨hnone, rfl⟩))
        exact absurd hzero.1 (by decide)
      · rintro ⟨hne, hlimit⟩ remain hremain
        rcases checkBandwidth_eq_ok.mp hremain with ⟨hnone, -⟩ | ⟨hpos, rfl⟩
        · exact absurd hnone hne
        · exact hlimit hpos
    · -- The limit is zero, so there is none.
      have hnone := remainBandwidth_of_not_answers ha htotal hanswers
      constructor
      · intro h
        have hzero := h 0 (checkBandwidth_eq_ok.mpr (Or.inl ⟨hnone, rfl⟩))
        exact absurd hzero.1 (by decide)
      · exact fun h => absurd h.1 hanswers
  · have hnever : ∀ launch u, s.launchContract env op ≠ .ok (launch, u) :=
      fun launch u h => hlaunch ⟨(launch, u), h⟩
    refine iff_of_true ?_ (Or.inl hnever)
    rintro limits ⟨launch, u, -, h, -⟩
    exact absurd h (hnever launch u)

/-! ## Nothing left -/

/-- The plugin of a node where `alice` has used up her bandwidth. -/
def exhaustedPlugin : WitnessPlugin :=
  ⟨fun _ => some ⟨2000000000, 0⟩, crowdedPlugin.maxVirtualBandwidth, false⟩

/-- One byte is left, and one opcode is the limit. -/
theorem bounded_crowded :
    ∃ s, Reachable anyCall s ∧ 0 < s.props.totalVestingShares ∧ ∃ a,
      s.getAccount aliceContract.payer = .ok a ∧
        Bounded localEnvironment crowdedPlugin s aliceContract a := by
  obtain ⟨s, hrun, hs⟩ := exists_run anyCall (genesis 20000000000) smallHolder
    (fun s => 0 < s.props.totalVestingShares &&
      (s.getAccount aliceContract.payer).toOption.any fun a =>
        fitsInt64 (a.vestingShares - a.delegatedVestingShares) &&
          fitsInt64 (WitnessPlugin.effective a) &&
          crowdedPlugin.average a < crowdedPlugin.allocated s a &&
          crowdedPlugin.remainingBytes s a = 1) (by decide +kernel)
  rw [Bool.and_eq_true, decide_eq_true_eq] at hs
  obtain ⟨htotal, haccount⟩ := hs
  obtain ⟨a, ha, hanswers⟩ := exists_of_any haccount
  simp only [Bool.and_eq_true, decide_eq_true_eq] at hanswers
  obtain ⟨⟨⟨hfree, heffective⟩, hleft⟩, hone⟩ := hanswers
  refine ⟨s, .run (.genesis 20000000000) hrun, htotal, a, ha,
    (bounded_iff ha htotal).mpr (Or.inr ⟨?_, ?_⟩)⟩
  · exact ⟨hfree, heffective, hleft, by rw [hone]; decide⟩
  · rw [hone]
    exact Or.inr (Or.inl ⟨by decide, by decide, by decide⟩)

/-- Nothing is left, and there is no limit. -/
theorem unbounded_exhausted :
    ∃ s, Reachable anyCall s ∧ 0 < s.props.totalVestingShares ∧ ∃ a,
      s.getAccount aliceContract.payer = .ok a ∧
        exhaustedPlugin.allocated s a ≤ exhaustedPlugin.average a ∧
        RunsWith localEnvironment exhaustedPlugin.handlers s aliceContract .none ∧
        (∃ t, s.applyContract localEnvironment exhaustedPlugin.handlers 3 aliceContract = .ok t) ∧
        ¬Bounded localEnvironment exhaustedPlugin s aliceContract a := by
  obtain ⟨s, hrun, hs⟩ := exists_run anyCall (genesis 20000000000) smallHolder
    (fun s => 0 < s.props.totalVestingShares &&
      ((s.getAccount aliceContract.payer).toOption.any fun a =>
        exhaustedPlugin.allocated s a ≤ exhaustedPlugin.average a) &&
      (s.applyContract localEnvironment exhaustedPlugin.handlers 3 aliceContract).toOption.isSome &&
      exhaustedPlugin.handlers.remainBandwidth s aliceContract.payer = -1) (by decide +kernel)
  simp only [Bool.and_eq_true, decide_eq_true_eq] at hs
  obtain ⟨⟨⟨htotal, haccount⟩, happlied⟩, hnone⟩ := hs
  obtain ⟨a, ha, hused⟩ := exists_of_any haccount
  obtain ⟨t, ht⟩ := Option.isSome_iff_exists.mp happlied
  have ht := toOption_eq_some.mp ht
  obtain ⟨limits, launch, u, used, -, hlaunch, -⟩ := exists_runsWith ht
  have hruns : RunsWith localEnvironment exhaustedPlugin.handlers s aliceContract .none :=
    ⟨launch, u, 0, hlaunch, checkBandwidth_eq_ok.mpr (Or.inl ⟨hnone, rfl⟩),
      (limits_zero aliceContract).symm⟩
  refine ⟨s, .run (.genesis 20000000000) hrun, htotal, a, ha, by simpa using hused, hruns,
    ⟨t, ht⟩, fun h => ?_⟩
  exact absurd (h .none hruns).1 (by decide)

end Gamebank.Ledger
