import Gamebank.Ledger.Contracts
import Gamebank.Ledger.Calls
import Gamebank.Plugins.ReserveRatio
import Mathlib.Tactic.Common

/-!
# Contracts on nodes with and without the witness plugin

The plugin answers how much bandwidth an account has left, and the evaluators
make an assertion and limits of it; a node without the plugin has neither. The
limits do not change what a contract does, only whether it gets to its end
(`runLua_iff`). So the two nodes agree on an operation exactly if the plugin
leaves room for what the contract uses, and whatever the contract is only if
the plugin sets no limit at all (`plugin_agrees_iff`).
-/

namespace Gamebank.Ledger

open Gamebank.Lib Gamebank.Protocol

/-- The two operations on contracts. -/
inductive ContractOperation where
  | deploy (op : ContractDeploy)
  | call (op : ContractCall)

/-- Who pays for the operation. -/
def ContractOperation.payer : ContractOperation → AccountName
  | .deploy op => op.creator
  | .call op => op.caller

/-- The limits that the remaining bandwidth gives. -/
def ContractOperation.limits (remain : Int) : ContractOperation → Limits
  | .deploy _ => setExtendArg (toInt32 (remain.tdiv 10)) (toInt32 remain)
  | .call _ => setExtendArg 0 (toInt32 remain)

/-- Nothing is limited. -/
def Limits.none : Limits := ⟨0, 0⟩

/-- What is used stays below the limits. -/
def Usage.fits (usage : Usage) (limits : Limits) : Prop :=
  ¬(0 < limits.opcodes ∧ limits.opcodes ≤ usage.opcodes) ∧
    ¬(0 < limits.memory ∧ limits.memory ≤ usage.memory)

/-- The check of a limit. -/
theorem below_iff {limit : Int} {n : Nat} :
    (!(decide (0 < limit) && decide (limit ≤ n))) = true ↔ ¬(0 < limit ∧ limit ≤ n) := by
  simp only [Bool.not_eq_true', Bool.and_eq_false_iff, decide_eq_false_iff_not]
  exact not_and_or.symm

namespace Database

variable {env : Environment} {launch : Launch} {limits : Limits} {s t : Database}
  {usage used : Usage} {fuel : Nat} {state : env.lua.State} {data : List (String × String)}

/-- The operation is applied. -/
def applyContract (env : Environment) (handlers : Handlers) (fuel : Nat) (s : Database) :
    ContractOperation → Except String Database
  | .deploy op => s.contractDeploy env handlers fuel op
  | .call op => s.contractCall env handlers fuel op

/-- Everything that is checked before the contract runs, bandwidth apart: what
the contract is started with, and the state it starts in. -/
def launchContract (env : Environment) (s : Database) :
    ContractOperation → Except String (Launch × Database)
  | .deploy op => do
      signedBy op.creator
      validateName op.name
      ensure (0 < op.code.utf8ByteSize && op.code.utf8ByteSize < 1048576)
        "code larger than size limit"
      ensure (0 < op.abi.utf8ByteSize && op.abi.utf8ByteSize < 65536) "abi larger than size limit"
      ensure (s.findAccount op.name).isNone "has exist account"
      ensure (s.findContract op.name).isNone "has exist contract"
      let abiv ← env.parse op.abi
      ensure abiv.isArray "op abi not array"
      let abis ← abiv.asArray
      let abiMethodNames ← abis.mapM checkAbiEntry
      let s ← s.createContract op
      return (⟨op.name, op.creator, abiMethodNames, op.code, none⟩, s)
  | .call op => do
      signedBy op.caller
      validateName op.contractName
      ensure (0 < op.method.utf8ByteSize && op.method.utf8ByteSize < 256)
        "method larger than size limit"
      ensure (0 < op.args.utf8ByteSize && op.args.utf8ByteSize < 65536)
        "args larger than size limit"
      let contract ← s.getContract op.contractName
      let v ← env.parse op.args
      ensure v.isArray "contract args not array"
      let opArgs ← v.asArray
      let abiv ← env.parse contract.abi
      let abis ← abiv.asArray
      let methods ← abis.mapM (checkMethod op.method opArgs)
      ensure (methods.any fun m => m.2) "contract abi check op name error"
      return (⟨op.contractName, op.caller, methods.map Prod.fst, contract.code,
        some (op.method, opArgs)⟩, s)

/-! ## Limits -/

/-- What is used only grows. -/
theorem runLua_grows (h : s.runLua env launch limits fuel usage state = .ok (t, used, data)) :
    usage.opcodes ≤ used.opcodes ∧ usage.memory ≤ used.memory := by
  induction fuel generalizing usage s state with
  | zero => cases h
  | succ fuel ih =>
      rw [runLua] at h
      split at h
      next next _ =>
        obtain ⟨-, h⟩ := ensure_bind_eq_ok.mp h
        obtain ⟨hop, hmem⟩ := ih h
        exact ⟨(Nat.le_succ _).trans hop, hmem⟩
      next memory next _ =>
        obtain ⟨-, h⟩ := ensure_bind_eq_ok.mp h
        obtain ⟨hop, hmem⟩ := ih h
        exact ⟨hop, (Nat.le_max_left _ _).trans hmem⟩
      next call resume _ =>
        obtain ⟨r, -, h⟩ := bind_eq_ok.mp h
        exact ih h
      next =>
        cases h
        exact ⟨Nat.le_refl _, Nat.le_refl _⟩
      next => cases h

/-- **A limit stops a contract or changes nothing.** -/
theorem runLua_iff (hfits : usage.fits limits) :
    s.runLua env launch limits fuel usage state = .ok (t, used, data) ↔
      s.runLua env launch .none fuel usage state = .ok (t, used, data) ∧ used.fits limits := by
  induction fuel generalizing usage s state with
  | zero =>
      constructor
      · intro h
        cases h
      · rintro ⟨h, -⟩
        cases h
  | succ fuel ih =>
      rw [runLua, runLua]
      cases hturn : env.lua.turn state with
      | opcode next =>
          dsimp only
          rw [ensure_bind_eq_ok, ensure_bind_eq_ok]
          constructor
          · rintro ⟨hcheck, h⟩
            have hnext : Usage.fits { usage with opcodes := usage.opcodes + 1 } limits := by
              exact ⟨below_iff.mp hcheck, hfits.2⟩
            exact ⟨⟨rfl, ((ih hnext).mp h).1⟩, ((ih hnext).mp h).2⟩
          · rintro ⟨⟨-, h⟩, hused⟩
            -- what fits at the end has fitted here, since the counts only grow
            have hgrows := (runLua_grows h).1
            have hcheck : ¬(0 < limits.opcodes ∧ limits.opcodes ≤ (usage.opcodes + 1 : Nat)) := by
              intro hstop
              have hle : limits.opcodes ≤ used.opcodes := by
                have : ((usage.opcodes + 1 : Nat) : Int) ≤ used.opcodes := Int.ofNat_le.mpr hgrows
                exact hstop.2.trans this
              exact hused.1 ⟨hstop.1, hle⟩
            have hnext : Usage.fits { usage with opcodes := usage.opcodes + 1 } limits :=
              ⟨hcheck, hfits.2⟩
            exact ⟨below_iff.mpr hcheck, (ih hnext).mpr ⟨h, hused⟩⟩
      | allocate memory next =>
          dsimp only
          rw [ensure_bind_eq_ok, ensure_bind_eq_ok]
          constructor
          · rintro ⟨hcheck, h⟩
            have hnext : Usage.fits { usage with memory := max usage.memory memory } limits := by
              refine ⟨hfits.1, ?_⟩
              intro hstop
              have hold := hfits.2
              have hnew := below_iff.mp hcheck
              have hmax : limits.memory ≤ ((max usage.memory memory : Nat) : Int) := hstop.2
              omega
            exact ⟨⟨rfl, ((ih hnext).mp h).1⟩, ((ih hnext).mp h).2⟩
          · rintro ⟨⟨-, h⟩, hused⟩
            have hgrows : max usage.memory memory ≤ used.memory := (runLua_grows h).2
            have hcheck : ¬(0 < limits.memory ∧ limits.memory ≤ memory) := by
              intro hstop
              apply hused.2
              omega
            have hnext : Usage.fits { usage with memory := max usage.memory memory } limits := by
              refine ⟨hfits.1, fun hstop => hused.2 ⟨hstop.1, ?_⟩⟩
              have hmax : limits.memory ≤ ((max usage.memory memory : Nat) : Int) := hstop.2
              omega
            exact ⟨below_iff.mpr hcheck, (ih hnext).mpr ⟨h, hused⟩⟩
      | host call resume =>
          dsimp only
          rw [bind_eq_ok, bind_eq_ok]
          constructor
          · rintro ⟨r, hr, h⟩
            exact ⟨⟨r, hr, ((ih hfits).mp h).1⟩, ((ih hfits).mp h).2⟩
          · rintro ⟨⟨r, hr, h⟩, hused⟩
            exact ⟨r, hr, (ih hfits).mpr ⟨h, hused⟩⟩
      | done data' =>
          dsimp only
          constructor
          · intro h
            cases h
            exact ⟨rfl, hfits⟩
          · exact fun h => h.1
      | error message =>
          dsimp only
          constructor
          · intro h
            cases h
          · rintro ⟨h, -⟩
            cases h

/-- More turns make no difference to a contract that has come to its end. -/
theorem runLua_fuel (h : s.runLua env launch limits fuel usage state = .ok (t, used, data))
    (more : Nat) : s.runLua env launch limits (fuel + more) usage state = .ok (t, used, data) := by
  induction fuel generalizing usage s state with
  | zero => cases h
  | succ fuel ih =>
      rw [Nat.succ_add, runLua]
      rw [runLua] at h
      split at h
      next =>
        rw [ensure_bind_eq_ok] at h ⊢
        exact ⟨h.1, ih h.2⟩
      next =>
        rw [ensure_bind_eq_ok] at h ⊢
        exact ⟨h.1, ih h.2⟩
      next =>
        obtain ⟨r, hr, h⟩ := bind_eq_ok.mp h
        exact bind_eq_ok.mpr ⟨r, hr, ih h⟩
      next => exact h
      next => cases h

/-! ## The evaluators -/

theorem execute_eq_ok :
    s.execute env launch limits fuel = .ok (t, used) ↔ ∃ u data,
      s.runLua env launch limits fuel ⟨0, 0⟩ (env.lua.start launch) = .ok (u, used, data) ∧
        t = saveModifiedData launch.contractName u data := by
  unfold execute
  rw [bind_eq_ok]
  constructor
  · rintro ⟨⟨u, used', data⟩, hrun, h⟩
    cases pure_eq_ok.mp h
    exact ⟨u, data, hrun, rfl⟩
  · rintro ⟨u, data, hrun, rfl⟩
    exact ⟨(u, used, data), hrun, rfl⟩

theorem execute_iff :
    s.execute env launch limits fuel = .ok (t, used) ↔
      s.execute env launch .none fuel = .ok (t, used) ∧ used.fits limits := by
  have hstart : Usage.fits ⟨0, 0⟩ limits :=
    ⟨fun h => absurd h.1 (not_lt.mpr h.2), fun h => absurd h.1 (not_lt.mpr h.2)⟩
  rw [execute_eq_ok, execute_eq_ok]
  constructor
  · rintro ⟨u, data, hrun, ht⟩
    obtain ⟨hfree, hfits⟩ := (runLua_iff hstart).mp hrun
    exact ⟨⟨u, data, hfree, ht⟩, hfits⟩
  · rintro ⟨⟨u, data, hfree, ht⟩, hfits⟩
    exact ⟨u, data, (runLua_iff hstart).mpr ⟨hfree, hfits⟩, ht⟩

/-- A contract comes to one end only. -/
theorem execute_unique {fuel' : Nat} {t' : Database} {used' : Usage}
    (h : s.execute env launch .none fuel = .ok (t, used))
    (h' : s.execute env launch .none fuel' = .ok (t', used')) : t = t' ∧ used = used' := by
  obtain ⟨u, data, hrun, rfl⟩ := execute_eq_ok.mp h
  obtain ⟨u', data', hrun', rfl⟩ := execute_eq_ok.mp h'
  have hmore := runLua_fuel hrun fuel'
  rw [Nat.add_comm, runLua_fuel hrun' fuel] at hmore
  cases hmore
  exact ⟨rfl, rfl⟩

/-- What an operation that returns has done. -/
theorem applyContract_eq_ok {handlers : Handlers} {op : ContractOperation} :
    s.applyContract env handlers fuel op = .ok t ↔ ∃ launch u remain used,
      s.launchContract env op = .ok (launch, u) ∧ s.checkBandwidth handlers op.payer = .ok remain ∧
        u.execute env launch (op.limits remain) fuel = .ok (t, used) ∧
        t.updateBandwidth handlers op.payer used = .ok () := by
  cases op with
  | deploy op =>
      simp only [applyContract, contractDeploy, launchContract, signedBy, validateName, bind_eq_ok,
        ensure_eq_ok, exists_const, pure_eq_ok, Prod.mk.injEq, ContractOperation.payer,
        ContractOperation.limits]
      constructor
      · rintro ⟨h1, h2, h3, h4, h5, h6, abiv, hparse, harray, abis, habis, names, hnames, remain,
          hremain, u, hcreate, ⟨v, used⟩, hrun, ⟨⟩, hupdate, rfl⟩
        exact ⟨_, u, remain, used,
          ⟨h1, h2, h3, h4, h5, h6, abiv, hparse, harray, abis, habis, names,
          hnames, u, hcreate, rfl, rfl⟩, hremain, hrun, hupdate⟩
      · rintro ⟨_, u, remain, used,
          ⟨h1, h2, h3, h4, h5, h6, abiv, hparse, harray, abis, habis, names,
          hnames, _, hcreate, rfl, rfl⟩, hremain, hrun, hupdate⟩
        exact ⟨h1, h2, h3, h4, h5, h6, abiv, hparse, harray, abis, habis, names, hnames, remain,
          hremain, _, hcreate, (t, used), hrun, (), hupdate, rfl⟩
  | call op =>
      simp only [applyContract, contractCall, launchContract, signedBy, validateName, bind_eq_ok,
        ensure_eq_ok, exists_const, pure_eq_ok, Prod.mk.injEq, ContractOperation.payer,
        ContractOperation.limits]
      constructor
      · rintro ⟨h1, h2, h3, h4, contract, hcontract, v, hparse, harray, args, hargs, abiv, habiv,
          abis,
          habis, methods, hmethods, hany, remain, hremain, ⟨w, used⟩, hrun, ⟨⟩, hupdate, rfl⟩
        exact ⟨_, s, remain, used, ⟨h1, h2, h3, h4, contract, hcontract, v, hparse, harray, args,
          hargs, abiv, habiv, abis, habis, methods, hmethods, hany, rfl, rfl⟩, hremain, hrun,
            hupdate⟩
      · rintro ⟨_, _, remain, used, ⟨h1, h2, h3, h4, contract, hcontract, v, hparse, harray, args,
          hargs, abiv, habiv, abis, habis, methods, hmethods, hany, rfl, rfl⟩, hremain, hrun,
            hupdate⟩
        exact ⟨h1, h2, h3, h4, contract, hcontract, v, hparse, harray, args, hargs, abiv, habiv,
          abis,
          habis, methods, hmethods, hany, remain, hremain, (t, used), hrun, (), hupdate, rfl⟩

/-- The operation returns `t`. -/
def Yields (env : Environment) (handlers : Handlers) (s : Database) (op : ContractOperation)
    (t : Database) : Prop :=
  ∃ fuel, s.applyContract env handlers fuel op = .ok t

theorem limits_zero (op : ContractOperation) : op.limits 0 = .none := by
  cases op <;> rfl

/-- Without the plugin nothing but the contract itself stops it. -/
theorem yields_none_iff {op : ContractOperation} :
    Yields env .none s op t ↔ ∃ launch u used fuel, s.launchContract env op = .ok (launch, u) ∧
      u.execute env launch .none fuel = .ok (t, used) := by
  have hremain : ∀ name, s.checkBandwidth .none name = .ok 0 := fun _ => rfl
  constructor
  · rintro ⟨fuel, h⟩
    obtain ⟨launch, u, remain, used, hlaunch, -, hrun, -⟩ := applyContract_eq_ok.mp h
    exact ⟨launch, u, used, fuel, hlaunch, (execute_iff.mp hrun).1⟩
  · rintro ⟨launch, u, used, fuel, hlaunch, hrun⟩
    refine ⟨fuel, applyContract_eq_ok.mpr ⟨launch, u, 0, used, hlaunch, hremain _, ?_, ?_⟩⟩
    · rw [limits_zero]
      exact hrun
    · unfold updateBandwidth
      split <;> rfl

/-- The plugin leaves room for what the contract uses: it has no answer, or
the bandwidth that is left is positive and the limits made of it are not
reached; and it does not object afterwards, as it does on a producing node
when the account has used more than its share. -/
structure Affordable (p : WitnessPlugin) (s : Database) (op : ContractOperation) (t : Database)
    (used : Usage) : Prop where
  remain : p.handlers.remainBandwidth s op.payer = -1 ∨
    0 < p.handlers.remainBandwidth s op.payer ∧
      used.fits (op.limits (p.handlers.remainBandwidth s op.payer))
  update : 0 < used.opcodes → p.isProducing = true →
    WitnessPlugin.swallow true (p.hasBandwidth t op.payer used.opcodes) = true

theorem affordable_iff {p : WitnessPlugin} {op : ContractOperation} :
    Affordable p s op t used ↔
      (∃ remain, s.checkBandwidth p.handlers op.payer = .ok remain ∧ used.fits (op.limits remain)) ∧
        t.updateBandwidth p.handlers op.payer used = .ok () := by
  have hupdate : t.updateBandwidth p.handlers op.payer used = .ok () ↔
      (0 < used.opcodes → p.isProducing = true →
        WitnessPlugin.swallow true (p.hasBandwidth t op.payer used.opcodes) = true) := by
    unfold updateBandwidth
    split
    next hpos =>
      show ensure _ _ = _ ↔ _
      rw [ensure_eq_ok, Bool.or_eq_true, Bool.not_eq_true']
      cases p.isProducing <;> simp [hpos]
    next hpos => simp [hpos]
  have hremain : (∃ remain, s.checkBandwidth p.handlers op.payer = .ok remain ∧
      used.fits (op.limits remain)) ↔ (p.handlers.remainBandwidth s op.payer = -1 ∨
        0 < p.handlers.remainBandwidth s op.payer ∧
          used.fits (op.limits (p.handlers.remainBandwidth s op.payer))) := by
    unfold checkBandwidth
    by_cases hnone : p.handlers.remainBandwidth s op.payer = -1
    · simp only [hnone, ne_eq, not_true, if_false, true_or, iff_true]
      refine ⟨0, rfl, ?_⟩
      rw [limits_zero]
      exact ⟨fun h => absurd h.1 (by decide), fun h => absurd h.1 (by decide)⟩
    · simp only [ne_eq, hnone, not_false_eq_true, if_true, ensure_bind_eq_ok, decide_eq_true_eq,
        pure_eq_ok, false_or]
      constructor
      · rintro ⟨remain, ⟨hpos, rfl⟩, hfits⟩
        exact ⟨hpos, hfits⟩
      · rintro ⟨hpos, hfits⟩
        exact ⟨_, ⟨hpos, rfl⟩, hfits⟩
  rw [hremain, hupdate]
  exact ⟨fun h => ⟨h.remain, h.update⟩, fun h => ⟨h.1, h.2⟩⟩

/-- With the plugin it has to leave room besides. -/
theorem yields_handlers_iff {p : WitnessPlugin} {op : ContractOperation} :
    Yields env p.handlers s op t ↔ ∃ launch u used fuel, s.launchContract env op = .ok (launch, u) ∧
      u.execute env launch .none fuel = .ok (t, used) ∧ Affordable p s op t used := by
  constructor
  · rintro ⟨fuel, h⟩
    obtain ⟨launch, u, remain, used, hlaunch, hremain, hrun, hupdate⟩ := applyContract_eq_ok.mp h
    obtain ⟨hfree, hfits⟩ := execute_iff.mp hrun
    exact ⟨launch, u, used, fuel, hlaunch, hfree,
      affordable_iff.mpr ⟨⟨remain, hremain, hfits⟩, hupdate⟩⟩
  · rintro ⟨launch, u, used, fuel, hlaunch, hrun, hroom⟩
    obtain ⟨⟨remain, hremain, hfits⟩, hupdate⟩ := affordable_iff.mp hroom
    exact ⟨fuel, applyContract_eq_ok.mpr ⟨launch, u, remain, used, hlaunch, hremain,
      execute_iff.mpr ⟨hrun, hfits⟩, hupdate⟩⟩

/-- Nodes with and without the plugin do the same with the operation. -/
def Agrees (env : Environment) (p : WitnessPlugin) (s : Database) (op : ContractOperation) : Prop :=
  ∀ t, Yields env p.handlers s op t ↔ Yields env .none s op t

/-- The plugin sets the operation no limit: it has no answer, or neither limit
made of it is positive. -/
def Unlimited (p : WitnessPlugin) (s : Database) (op : ContractOperation) : Prop :=
  p.handlers.remainBandwidth s op.payer = -1 ∨
    0 < p.handlers.remainBandwidth s op.payer ∧
      (op.limits (p.handlers.remainBandwidth s op.payer)).opcodes ≤ 0 ∧
      (op.limits (p.handlers.remainBandwidth s op.payer)).memory ≤ 0

theorem agrees_iff {p : WitnessPlugin} {op : ContractOperation} :
    Agrees env p s op ↔
      ∀ launch u fuel t used, s.launchContract env op = .ok (launch, u) →
        u.execute env launch .none fuel = .ok (t, used) → Affordable p s op t used := by
  constructor
  · intro hagree launch u fuel t used hlaunch hrun
    have hfree : Yields env .none s op t :=
      yields_none_iff.mpr ⟨launch, u, used, fuel, hlaunch, hrun⟩
    obtain ⟨launch', u', used', fuel', hlaunch', hrun', hroom⟩ :=
      yields_handlers_iff.mp ((hagree t).mpr hfree)
    rw [hlaunch] at hlaunch'
    cases hlaunch'
    obtain ⟨-, rfl⟩ := execute_unique hrun hrun'
    exact hroom
  · intro hroom t
    rw [yields_handlers_iff, yields_none_iff]
    constructor
    · rintro ⟨launch, u, used, fuel, hlaunch, hrun, -⟩
      exact ⟨launch, u, used, fuel, hlaunch, hrun⟩
    · rintro ⟨launch, u, used, fuel, hlaunch, hrun⟩
      exact ⟨launch, u, used, fuel, hlaunch, hrun, hroom launch u fuel t used hlaunch hrun⟩

/-- The interpreter with a chunk that executes `n` opcodes and then takes `m`
bytes of memory. -/
def busyLua (n m : Nat) : Lua where
  State := Nat
  start _ := n + 1
  turn
    | 0 => .done []
    | 1 => .allocate m 0
    | k + 2 => .opcode (k + 1)

theorem runLua_busy (env : Environment) (n m k : Nat) (usage : Usage) :
    s.runLua { env with lua := busyLua n m } launch .none (k + 2) usage (k + 1 : Nat) =
      .ok (s, ⟨usage.opcodes + k, max usage.memory m⟩, []) := by
  induction k generalizing usage with
  | zero => rfl
  | succ k ih =>
      have hstep : s.runLua { env with lua := busyLua n m } launch .none (k + 1 + 2) usage
          (k + 1 + 1 : Nat) = s.runLua { env with lua := busyLua n m } launch .none (k + 2)
            ⟨usage.opcodes + 1, usage.memory⟩ (k + 1 : Nat) := rfl
      rw [hstep, ih, Nat.succ_add_eq_add_succ]

theorem execute_busy (env : Environment) (launch : Launch) (s : Database) (n m : Nat) :
    s.execute { env with lua := busyLua n m } launch .none (n + 2) = .ok (s, ⟨n, m⟩) := by
  refine execute_eq_ok.mpr ⟨s, [], ?_, rfl⟩
  have hrun : s.runLua { env with lua := busyLua n m } launch .none (n + 2) ⟨0, 0⟩
      (n + 1 : Nat) = .ok (s, ⟨0 + n, max 0 m⟩, []) := runLua_busy env n m n ⟨0, 0⟩
  rwa [Nat.zero_add, Nat.zero_max] at hrun

/-- What is checked before the contract runs does not ask for its code. -/
theorem launchContract_lua (env : Environment) (lua : Lua) (s : Database)
    (op : ContractOperation) :
    s.launchContract { env with lua := lua } op = s.launchContract env op := by
  cases op <;> rfl

/-- Whatever the code of the contract is, the two nodes agree only if the
plugin sets no limit. -/
theorem agrees_all_iff {p : WitnessPlugin} {op : ContractOperation} (hp : p.isProducing = false) :
    (∀ lua, Agrees { env with lua := lua } p s op) ↔
      (∀ r, s.launchContract env op ≠ .ok r) ∨ Unlimited p s op := by
  constructor
  · intro hagree
    by_cases hlaunch : ∃ r, s.launchContract env op = .ok r
    case neg => exact Or.inl fun r hr => hlaunch ⟨r, hr⟩
    case pos =>
      obtain ⟨⟨launch, u⟩, hlaunch⟩ := hlaunch
      -- a chunk that reaches both limits
      let limits := op.limits (p.handlers.remainBandwidth s op.payer)
      have hbusy := agrees_iff.mp (hagree (busyLua limits.opcodes.toNat limits.memory.toNat))
        launch u _ u _ ((launchContract_lua _ _ _ _).trans hlaunch) (execute_busy env launch u _ _)
      refine Or.inr (hbusy.remain.imp_right fun h => ⟨h.1, ?_, ?_⟩)
      · by_contra hpos
        exact h.2.1 ⟨not_le.mp hpos, Int.self_le_toNat _⟩
      · by_contra hpos
        exact h.2.2 ⟨not_le.mp hpos, Int.self_le_toNat _⟩
  · rintro (hnever | hfree) lua
    · refine agrees_iff.mpr fun launch u fuel t used hlaunch => ?_
      exact absurd ((launchContract_lua _ _ _ _).symm.trans hlaunch) (hnever _)
    · refine agrees_iff.mpr fun launch u fuel t used _ _ => ⟨hfree.imp_right fun h => ?_, ?_⟩
      · exact ⟨h.1, fun hop => absurd hop.1 (not_lt.mpr h.2.1),
          fun hmem => absurd hmem.1 (not_lt.mpr h.2.2)⟩
      · intro _ hproducing
        rw [hp] at hproducing
        cases hproducing

/-- **Nodes with and without the plugin.** On a node that is not producing, the
two agree on an operation whatever the code of its contract is if and only if
the code is never started or the plugin sets no limit. With a given code, on
any node, they agree if and only if the plugin leaves room for what the
contract uses, should it come to its end when it is not limited. -/
theorem plugin_agrees_iff (env : Environment) (p : WitnessPlugin) (s : Database)
    (op : ContractOperation) :
    (p.isProducing = false →
      ((∀ lua, Agrees { env with lua := lua } p s op) ↔
        (∀ r, s.launchContract env op ≠ .ok r) ∨ Unlimited p s op)) ∧
    (Agrees env p s op ↔
      ∀ launch u fuel t used, s.launchContract env op = .ok (launch, u) →
        u.execute env launch .none fuel = .ok (t, used) → Affordable p s op t used) :=
  ⟨agrees_all_iff, agrees_iff⟩

/-! ## A small holder -/

/-- The chunk `local a = 1`: it loads a constant and returns. -/
def localChunk : Lua where
  State := Nat
  start _ := 2
  turn
    | 0 => .done []
    | n + 1 => .opcode n

def localEnvironment : Environment where
  lua := localChunk
  parse _ := .ok (.array [])
  blockHash _ _ _ := .error "block data not found"

def localContract : ContractOperation := .deploy ⟨"initminer", "casino", "local a = 1", "[]"⟩

/-- The same contract, deployed by `alice`. -/
def aliceContract : ContractOperation := .deploy ⟨"alice", "casino", "local a = 1", "[]"⟩

/-- `initminer` holds ten million GBC in shares, `alice` the shares of a satoshi. -/
def smallHolder : List Call :=
  [.accountCreate "initminer" "alice" [] 0, .transferToVesting "initminer" "" (.gbc 10000000000),
    .transferToVesting "initminer" "alice" (.gbc 1)]

/-- Full blocks of the smallest limit, from the first one on. -/
def fullBlocks (n : Nat) : List Plugins.AppliedBlock :=
  (List.range n).map fun i =>
    ⟨Plugins.minBlockSizeLimit, Plugins.minBlockSizeLimit, Plugins.minBlockSizeLimit, i + 1⟩

/-- The plugin of a node whose blocks have been full. -/
def crowdedPlugin : WitnessPlugin := ⟨fun _ => none, 13212057600000000, false⟩

/-- The reserve ratio falls to its floor in 240 blocks. -/
theorem afterBlocks_full :
    Plugins.afterBlocks none (fullBlocks 240) =
      .ok (some ⟨59557, Plugins.reserveRatioPrecision, crowdedPlugin.maxVirtualBandwidth⟩) := by
  decide +kernel

/-- What `alice` holds is worth a bandwidth of one, and her contract is stopped
at its first opcode where the plugin is loaded. -/
theorem plugin_disagrees :
    ∃ s, Reachable anyCall s ∧
      (∃ r, Plugins.afterBlocks none (fullBlocks 240) = .ok (some r) ∧
        r.maxVirtualBandwidth = crowdedPlugin.maxVirtualBandwidth) ∧
      crowdedPlugin.handlers.remainBandwidth s "alice" = 1 ∧
      (∃ t, Yields localEnvironment .none s aliceContract t) ∧
      (∀ t, ¬Yields localEnvironment crowdedPlugin.handlers s aliceContract t) ∧
      ¬Agrees localEnvironment crowdedPlugin s aliceContract := by
  obtain ⟨s, hrun, hs⟩ :=
    exists_run anyCall (genesis 20000000000) smallHolder
    (fun s => (s.applyContract localEnvironment .none 3 aliceContract).toOption.isSome &&
      crowdedPlugin.handlers.remainBandwidth s "alice" = 1) (by decide +kernel)
  rw [Bool.and_eq_true, decide_eq_true_eq] at hs
  obtain ⟨hdeploys, hremain⟩ := hs
  obtain ⟨t, ht⟩ := Option.isSome_iff_exists.mp hdeploys
  have hyields : Yields localEnvironment .none s aliceContract t := ⟨3, toOption_eq_some.mp ht⟩
  have hnever : ∀ t, ¬Yields localEnvironment crowdedPlugin.handlers s aliceContract t := by
    intro t hstops
    obtain ⟨launch, u, used, fuel, -, hexec, hroom⟩ := yields_handlers_iff.mp hstops
    have hused : used = ⟨2, 0⟩ := by
      have hthree : u.execute localEnvironment launch .none 3 = .ok (u, ⟨2, 0⟩) := rfl
      exact (execute_unique hexec hthree).2
    rcases hroom.remain with hnone | ⟨-, hfits⟩
    · rw [aliceContract, ContractOperation.payer, hremain] at hnone
      cases hnone
    · rw [aliceContract, ContractOperation.payer, hremain, hused] at hfits
      exact hfits.1 (by decide)
  exact ⟨s, .run (.genesis 20000000000) hrun, ⟨_, afterBlocks_full, rfl⟩, hremain, ⟨t, hyields⟩,
    hnever, fun hagree => hnever t ((hagree t).mpr hyields)⟩

end Database

end Gamebank.Ledger
