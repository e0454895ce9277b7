import Gamebank.Protocol.Validation

/-!
# `compile_check`

Before a contract runs, `compile_check` walks over its function prototypes.
It knows the global environment only by the debug name of an upvalue, and
looks at five opcodes. An upvalue *is* the global environment when the links
`instack` and `idx` lead to the first upvalue of the main prototype, which
`lua_load` sets.

Instructions are decoded. Reading a name that is not there (an upvalue past
the end of the array, a constant that is no string) gives whatever is in
memory, which is a parameter.
-/

namespace Gamebank.Contract

open Gamebank.Lib Gamebank.Protocol

/-- `OpCode` of Lua 5.3. -/
inductive OpCode where
  | move | loadk | loadkx | loadbool | loadnil | getupval
  | gettabup | gettable
  | settabup | setupval | settable
  | newtable
  | self
  | add | sub | mul | mod | pow | div | idiv | band | bor | bxor | shl | shr | unm | bnot | not
  | len
  | concat
  | jmp | eq | lt | le
  | test | testset
  | call | tailcall | return
  | forloop | forprep
  | tforcall | tforloop
  | setlist
  | closure
  | vararg
  | extraarg
deriving DecidableEq

/-- `Instruction`, with the operands A, B and C. -/
structure Instruction where
  opcode : OpCode
  a : Nat
  b : Nat
  c : Nat
deriving DecidableEq

/-- `ISK`: the operand is a constant. -/
def isK (x : Nat) : Bool := x.testBit 8

/-- `INDEXK`. -/
def indexK (x : Nat) : Nat := if x.testBit 8 then x - 256 else x

/-- A `TValue` of the table of constants. -/
inductive Constant where
  | nil
  | boolean (b : Bool)
  | number (text : String)
  | integer (n : Int)
  | string (text : String)
deriving DecidableEq

/-- `Upvaldesc`; without debug information there is no name. -/
structure Upvaldesc where
  name : Option String
  instack : Bool
  idx : Nat
deriving DecidableEq

/-- `Proto`. -/
inductive Proto where
  | mk (code : List Instruction) (k : List Constant) (upvalues : List Upvaldesc) (p : List Proto)

namespace Proto

def code : Proto → List Instruction
  | .mk code _ _ _ => code

def k : Proto → List Constant
  | .mk _ k _ _ => k

def upvalues : Proto → List Upvaldesc
  | .mk _ _ upvalues _ => upvalues

def p : Proto → List Proto
  | .mk _ _ _ p => p

end Proto

/-! ## The check -/

/-- What is read where nothing was written. -/
structure Memory where
  upvalueName : Proto → Nat → Option String
  constantText : Proto → Nat → String

/-- `upvalues[i].name`. -/
def upvalueName (mem : Memory) (proto : Proto) (i : Nat) : Option String :=
  match proto.upvalues[i]? with
  | some u => u.name
  | none => mem.upvalueName proto i

/-- `getstr(tsvalue(&k[i]))`. -/
def constantText (mem : Memory) (proto : Proto) (i : Nat) : String :=
  match proto.k[i]? with
  | some (.string text) => text
  | _ => mem.constantText proto i

/-- `is_global_var`. -/
def isGlobalVar (name : String) : Bool := cString name = "_G" || cString name = "_ENV"

/-- `sys_functions`. -/
def sysFunctions : List String :=
  ["contract", "chain",
    "assert", "error", "getmetatable", "ipairs", "next", "pairs", "print", "rawequal", "rawlen",
    "rawget", "rawset", "select", "setmetatable", "tonumber", "tostring", "type", "isinteger",
    "table",
    "string",
    "math",
    "utf8"]

/-- `is_sys_function`. -/
def isSysFunction (name : String) : Bool := sysFunctions.contains (cString name)

/-- `LUA_CONTRACT_MODIFIED_DATA_TABLE_NAME`. -/
def modifiedDataTableName : String := "_contract_modified_data"

/-- `CONTRACT_ONDEPLOY_NAME`. -/
def onDeployName : String := "on_deploy"

/-- The upvalue at `i` goes by the name of the global environment. -/
def namedGlobal (mem : Memory) (proto : Proto) (i : Nat) : Bool :=
  match upvalueName mem proto i with
  | some name => isGlobalVar name
  | none => false

section

variable (abi : List String) (mem : Memory)

/-- `is_abi`. -/
def isAbi (name : String) : Bool := abi.contains (cString name)

/-- A name that is read from the global environment. -/
def checkRead (name : String) : Except String Unit := do
  ensure (!isGlobalVar name) "cant access global var"
  ensure (!(cString name = modifiedDataTableName)) "cant access global var"
  ensure (isSysFunction name || isAbi abi name) "cant access global var"

/-- A name that is written to the global environment. `has_ondeploy_method` is
set at the first `on_deploy`, and the next one has to be a method. -/
def checkWrite (hasOndeployMethod : Bool) (name : String) : Except String Bool := do
  ensure (!isGlobalVar name) "cant modify global var"
  ensure (!(cString name = modifiedDataTableName)) "cant modify global var"
  if cString name = onDeployName && !hasOndeployMethod then
    return true
  else
    ensure (isAbi abi name) "cant modify global var"
    return hasOndeployMethod

/-- One turn of the loop over the code. `isMain` says that there is no parent. -/
def checkInstruction (proto : Proto) (isMain : Bool) (hasOndeployMethod : Bool) (i : Instruction) :
    Except String Bool :=
  match i.opcode with
  | .getupval => do
      ensure (!namedGlobal mem proto i.b) "cant access global var"
      return hasOndeployMethod
  | .setupval => do
      ensure (!namedGlobal mem proto i.b) "cant modify global var"
      return hasOndeployMethod
  | .gettabup =>
      if namedGlobal mem proto i.b then do
        ensure (isK i.c) "cant access global var"
        checkRead abi (constantText mem proto (indexK i.c))
        return hasOndeployMethod
      else .ok hasOndeployMethod
  | .settabup =>
      if namedGlobal mem proto i.a then do
        ensure (isK i.b) "cant modify global var"
        checkWrite abi hasOndeployMethod (constantText mem proto (indexK i.b))
      else .ok hasOndeployMethod
  | .call => do
      ensure (!isMain) "cant call method when load"
      return hasOndeployMethod
  | _ => .ok hasOndeployMethod

mutual

/-- `compile_check`; what it returns is `has_ondeploy_method`. -/
def compileCheck (isMain : Bool) (hasOndeployMethod : Bool) : Proto → Except String Bool
  | .mk code k upvalues p => do
      let hasOndeployMethod ← code.foldlM
        (checkInstruction abi mem (.mk code k upvalues p) isMain) hasOndeployMethod
      compileCheckAll hasOndeployMethod p

/-- The loop of `compile_check` over the inner prototypes. -/
def compileCheckAll (hasOndeployMethod : Bool) : List Proto → Except String Bool
  | [] => .ok hasOndeployMethod
  | proto :: rest => do
      let hasOndeployMethod ← compileCheck false hasOndeployMethod proto
      compileCheckAll hasOndeployMethod rest

end

/-- `compile_check` of what has been loaded, with a null parent. -/
def accepts (main : Proto) : Prop :=
    ∃ hasOndeployMethod, compileCheck abi mem true false main = .ok hasOndeployMethod

end

/-! ## What it is for -/

/-- Which upvalues are the global environment. -/
abbrev Globals := Nat → Bool

/-- `lua_load` sets the first upvalue of the main prototype. -/
def mainGlobals (main : Proto) : Globals := fun i => i = 0 && !main.upvalues.isEmpty

/-- An upvalue that is not in the stack is one of the function around. -/
def innerGlobals (globals : Globals) (proto : Proto) : Globals := fun i =>
  match proto.upvalues[i]? with
  | some u => !u.instack && globals u.idx
  | none => false

/-- `inner` is a prototype of the tree of `outer`, with its upvalues that are the
global environment. -/
inductive Inside : Proto → Globals → Proto → Globals → Prop
  | self (proto : Proto) (globals : Globals) : Inside proto globals proto globals
  | inner {outer proto inner : Proto} {globals globals' : Globals} (hmem : proto ∈ outer.p)
      (h : Inside proto (innerGlobals globals proto) inner globals') :
      Inside outer globals inner globals'

/-- The upvalue that an instruction reads or writes through. -/
def Instruction.upvalue (i : Instruction) : Option Nat :=
  match i.opcode with
  | .getupval => some i.b
  | .setupval => some i.b
  | .gettabup => some i.b
  | .settabup => some i.a
  | _ => none

/-- The instruction calls a function. -/
def Instruction.isCall (i : Instruction) : Bool :=
  i.opcode = .call || i.opcode = .tailcall || i.opcode = .tforcall

/-- The operand is a constant string. -/
def constantKey (proto : Proto) (operand : Nat) (name : String) : Prop :=
  isK operand = true ∧ proto.k[indexK operand]? = some (.string name)

/-- What an instruction may do with the global environment. -/
def Permitted (abi : List String) (proto : Proto) (i : Instruction) : Prop :=
  match i.opcode with
  | .gettabup => ∃ name, constantKey proto i.c name ∧ name ≠ modifiedDataTableName ∧
      (name ∈ sysFunctions ∨ name ∈ abi)
  | .settabup => ∃ name, constantKey proto i.b name ∧ name ≠ modifiedDataTableName ∧
      (name ∈ abi ∨ name = onDeployName)
  | _ => False

/-- The contract is confined. -/
structure Sandboxed (abi : List String) (main : Proto) : Prop where
  noCall : ∀ i ∈ main.code, i.isCall = false
  confined : ∀ proto globals, Inside main (mainGlobals main) proto globals → ∀ i ∈ proto.code,
    ∀ u, i.upvalue = some u → globals u = true → Permitted abi proto i

/-! ## What the check sees -/

/-- The operand that is the key of an access through an upvalue. -/
def Instruction.key (i : Instruction) : Option Nat :=
  match i.opcode with
  | .gettabup => some i.c
  | .settabup => some i.b
  | _ => none

/-- The check sees an access through the upvalue `u`: the upvalue goes by the
name of the global environment, and a constant key is a string that `strcmp`
reads to its end. -/
structure Seen (proto : Proto) (i : Instruction) (u : Nat) : Prop where
  named : ∃ d ∈ proto.upvalues[u]?, ∃ name ∈ d.name, isGlobalVar name = true
  readable : ∀ operand ∈ i.key, isK operand = true →
    ∃ text, proto.k[indexK operand]? = some (.string text) ∧ '\x00' ∉ text.toList

theorem namedGlobal_of_named {mem : Memory} {proto : Proto} {u : Nat}
    (h : ∃ d ∈ proto.upvalues[u]?, ∃ name ∈ d.name, isGlobalVar name = true) :
    namedGlobal mem proto u = true := by
  obtain ⟨d, hd, name, hname, hglobal⟩ := h
  rw [Option.mem_def] at hd hname
  simp only [namedGlobal, upvalueName, hd, hname, hglobal]

theorem constantText_of_readable {mem : Memory} {proto : Proto} {operand : Nat} {text : String}
    (h : proto.k[indexK operand]? = some (.string text)) :
    constantText mem proto (indexK operand) = text := by
  simp only [constantText, h]

section

variable {abi : List String} {mem : Memory} {proto : Proto} {isMain before after : Bool}
  {i : Instruction} {u : Nat}

/-- The names `checkRead` lets through. -/
theorem checkRead_returns {text : String} {r : Unit} (htext : cString text = text)
    (h : checkRead abi text = .ok r) :
    text ≠ modifiedDataTableName ∧ (text ∈ sysFunctions ∨ text ∈ abi) := by
  simp only [checkRead, ensure_bind_eq_ok, ensure_eq_ok, htext, isSysFunction, isAbi,
    Bool.or_eq_true,
    List.contains_iff_mem, Bool.not_eq_true', decide_eq_false_iff_not] at h
  exact h.2

/-- The names `checkWrite` lets through. -/
theorem checkWrite_returns {text : String} (htext : cString text = text)
    (h : checkWrite abi before text = .ok after) :
    text ≠ modifiedDataTableName ∧ (text ∈ abi ∨ text = onDeployName) := by
  simp only [checkWrite, ensure_bind_eq_ok, htext, isAbi, Bool.not_eq_true',
    decide_eq_false_iff_not] at h
  obtain ⟨-, hne, h⟩ := h
  refine ⟨hne, ?_⟩
  split at h
  · rename_i hondeploy
    simp only [Bool.and_eq_true, decide_eq_true_eq] at hondeploy
    exact .inr hondeploy.1
  · simp only [ensure_bind_eq_ok, List.contains_iff_mem] at h
    exact .inl h.1

/-- An access that the check sees and lets through is permitted. -/
theorem permitted_of_seen (h : checkInstruction abi mem proto isMain before i = .ok after)
    (hu : i.upvalue = some u) (hseen : Seen proto i u) : Permitted abi proto i := by
  have hnamed : namedGlobal mem proto u = true := namedGlobal_of_named hseen.named
  obtain ⟨opcode, a, b, c⟩ := i
  cases opcode <;> simp only [Instruction.upvalue, Option.some.injEq, reduceCtorEq] at hu <;>
    subst hu
  case getupval =>
    simp only [checkInstruction, hnamed, ensure_bind_eq_ok, Bool.not_true, reduceCtorEq,
      false_and] at h
  case setupval =>
    simp only [checkInstruction, hnamed, ensure_bind_eq_ok, Bool.not_true, reduceCtorEq,
      false_and] at h
  case gettabup =>
    simp only [checkInstruction, hnamed, if_true, ensure_bind_eq_ok] at h
    obtain ⟨hk, h⟩ := h
    obtain ⟨r, hread, -⟩ := bind_eq_ok.mp h
    obtain ⟨text, htext, hnul⟩ := hseen.readable c rfl hk
    rw [constantText_of_readable htext] at hread
    exact ⟨text, ⟨hk, htext⟩, checkRead_returns (cString_of_not_mem hnul) hread⟩
  case settabup =>
    simp only [checkInstruction, hnamed, if_true, ensure_bind_eq_ok] at h
    obtain ⟨hk, hwrite⟩ := h
    obtain ⟨text, htext, hnul⟩ := hseen.readable b rfl hk
    rw [constantText_of_readable htext] at hwrite
    exact ⟨text, ⟨hk, htext⟩, checkWrite_returns (cString_of_not_mem hnul) hwrite⟩

/-- What a prototype that passed has passed. -/
theorem compileCheck_returns (h : compileCheck abi mem isMain before proto = .ok after) :
    (∀ i ∈ proto.code, ∃ t t', checkInstruction abi mem proto isMain t i = .ok t') ∧
      ∀ inner ∈ proto.p, ∃ t t', compileCheck abi mem false t inner = .ok t' := by
  obtain ⟨code, k, upvalues, p⟩ := proto
  rw [compileCheck, bind_eq_ok] at h
  obtain ⟨t, hcode, hp⟩ := h
  refine ⟨foldlM_mem hcode, ?_⟩
  simp only [Proto.p]
  clear hcode
  induction p generalizing t with
  | nil => simp
  | cons first rest ih =>
      rw [compileCheckAll, bind_eq_ok] at hp
      obtain ⟨t', hfirst, hrest⟩ := hp
      intro inner hmem
      rcases List.mem_cons.mp hmem with rfl | hmem
      · exact ⟨t, t', hfirst⟩
      · exact ih t' hrest inner hmem

/-- Every instruction of the tree has passed. -/
theorem Inside.checked {outer inner : Proto} {globals globals' : Globals}
    (hin : Inside outer globals inner globals')
    (h : compileCheck abi mem isMain before outer = .ok after) :
    ∀ i ∈ inner.code, ∃ isMain t t', checkInstruction abi mem inner isMain t i = .ok t' := by
  induction hin generalizing isMain before after with
  | self proto globals =>
      intro i hi
      obtain ⟨t, t', hcheck⟩ := (compileCheck_returns h).1 i hi
      exact ⟨isMain, t, t', hcheck⟩
  | inner hmem _ ih =>
      obtain ⟨t, t', hcheck⟩ := (compileCheck_returns h).2 _ hmem
      exact ih hcheck

end

section

variable (abi : List String) (mem : Memory) (main : Proto)

/-- A contract that passed is confined exactly when the accesses and calls the
check does not look at happen to be harmless. -/
theorem sandboxed_iff (h : accepts abi mem main) :
    Sandboxed abi main ↔
      (∀ i ∈ main.code, i.opcode ≠ .tailcall ∧ i.opcode ≠ .tforcall) ∧
      ∀ proto globals, Inside main (mainGlobals main) proto globals → ∀ i ∈ proto.code,
        ∀ u, i.upvalue = some u → globals u = true → ¬Seen proto i u → Permitted abi proto i := by
  obtain ⟨after, hmain⟩ := h
  constructor
  · rintro ⟨hcalls, hconfined⟩
    refine ⟨?_, fun proto globals hin i hi u hu hg _ => hconfined proto globals hin i hi u hu hg⟩
    intro i hi
    have hcall := hcalls i hi
    simp only [Instruction.isCall, Bool.or_eq_false_iff, decide_eq_false_iff_not] at hcall
    exact ⟨hcall.1.2, hcall.2⟩
  · rintro ⟨hcalls, hunseen⟩
    constructor
    · intro i hi
      obtain ⟨t, t', hcheck⟩ := (compileCheck_returns hmain).1 i hi
      have hcall : i.opcode ≠ .call := by
        intro hop
        simp only [checkInstruction, hop, ensure_bind_eq_ok, Bool.not_true, reduceCtorEq,
          false_and] at hcheck
      simp [Instruction.isCall, hcall, hcalls i hi]
    · intro proto globals hin i hi u hu hg
      by_cases hseen : Seen proto i u
      · obtain ⟨isMain, t, t', hcheck⟩ := hin.checked hmain i hi
        exact permitted_of_seen hcheck hu hseen
      · exact hunseen proto globals hin i hi u hu hg hseen

end

/-- Memory that reads as zero. -/
def zeroed : Memory := { upvalueName := fun _ _ => none, constantText := fun _ _ => "" }

/-- `function play() contract.... end`. -/
def playBody : Proto :=
  .mk [⟨.gettabup, 0, 0, 256⟩, ⟨.return, 0, 1, 0⟩] [.string "contract"] [⟨some "_ENV", false, 0⟩] []

/-- A contract with the method `play`. -/
def playContract : Proto :=
  .mk [⟨.closure, 0, 0, 0⟩, ⟨.settabup, 0, 256, 0⟩, ⟨.return, 0, 1, 0⟩] [.string "play"]
    [⟨some "_ENV", true, 0⟩] [playBody]

theorem sandboxed_play :
    accepts ["play"] zeroed playContract ∧ Sandboxed ["play"] playContract := by
  have haccepts : accepts ["play"] zeroed playContract := ⟨false, by decide +kernel⟩
  refine ⟨haccepts, (sandboxed_iff _ _ _ haccepts).mpr ⟨by decide, ?_⟩⟩
  -- both accesses go through an upvalue with a name, and are seen
  intro proto globals hin i hi u hu _ hunseen
  refine absurd ?_ hunseen
  cases hin with
  | self =>
      have hset : i = ⟨.settabup, 0, 256, 0⟩ := by
        simp only [playContract, Proto.code, List.mem_cons, List.not_mem_nil, or_false] at hi
        rcases hi with rfl | rfl | rfl <;> simp_all [Instruction.upvalue]
      subst hset
      cases hu
      exact ⟨⟨_, rfl, _, rfl, by decide +kernel⟩,
        fun operand hkey _ => ⟨"play", by cases hkey; rfl, by decide⟩⟩
  | inner hmem hin =>
      rw [playContract, Proto.p, List.mem_singleton] at hmem
      subst hmem
      cases hin with
      | self =>
          have hget : i = ⟨.gettabup, 0, 0, 256⟩ := by
            simp only [playBody, Proto.code, List.mem_cons, List.not_mem_nil, or_false] at hi
            rcases hi with rfl | rfl <;> simp_all [Instruction.upvalue]
          subst hget
          cases hu
          exact ⟨⟨_, rfl, _, rfl, by decide +kernel⟩,
            fun operand hkey _ => ⟨"contract", by cases hkey; rfl, by decide⟩⟩
      | inner hmem _ => cases hmem

/-- `return os.exit()`, without debug information. -/
def strippedContract : Proto :=
  .mk [⟨.gettabup, 0, 0, 256⟩, ⟨.gettable, 0, 0, 257⟩, ⟨.tailcall, 0, 1, 0⟩, ⟨.return, 0, 0, 0⟩,
      ⟨.return, 0, 1, 0⟩]
    [.string "os", .string "exit"] [⟨none, true, 0⟩] []

/-- It passes, although it calls a function while it is loaded and reads a name
that is on no list. -/
theorem stripped_contract_escapes :
    accepts [] zeroed strippedContract ∧
      (∃ i ∈ strippedContract.code, i.isCall = true) ∧
      (∃ i ∈ strippedContract.code, i.upvalue = some 0 ∧ mainGlobals strippedContract 0 = true ∧
        ¬Permitted [] strippedContract i) ∧
      ¬Sandboxed [] strippedContract := by
  have hread : ¬Permitted [] strippedContract ⟨.gettabup, 0, 0, 256⟩ := by
    rintro ⟨name, ⟨-, hkey⟩, -, hname⟩
    cases hkey
    revert hname
    decide
  refine ⟨⟨false, by decide +kernel⟩, ⟨⟨.tailcall, 0, 1, 0⟩, by decide, by decide⟩,
    ⟨⟨.gettabup, 0, 0, 256⟩, by decide, rfl, rfl, hread⟩, ?_⟩
  intro hsandboxed
  exact hread (hsandboxed.confined _ _ (.self _ _) _ (by decide) 0 rfl rfl)

end Gamebank.Contract
