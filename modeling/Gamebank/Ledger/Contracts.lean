import Gamebank.Ledger.Vesting
import Gamebank.Protocol.Validation

/-!
# Contracts

`contract_deploy_evaluator` and `contract_call_evaluator`, the functions of
`contract_lualib.cpp` and `contract_chain.cpp` that a contract calls, and the
handlers through which the witness plugin limits it.

The Lua interpreter is a parameter: a machine that takes one turn after the
other. A turn executes an opcode, allocates memory, calls a function of the
host or ends the run; parsing, `compile_check` and the main chunk are turns
like those of the method that is called. An error of a host function ends
the run, since a contract may not name `pcall`. Parsing JSON is a parameter
as well. Log entries are not objects and are left out.
-/

namespace Gamebank.Ledger

open Gamebank.Lib Gamebank.Protocol

/-! ## Values from JSON -/

/-- `fc::variant`, as `fc::json::from_string` builds it. -/
inductive Variant where
  | null
  | int64 (n : Int)
  | uint64 (n : Nat)
  | double (text : String)
  | bool (b : Bool)
  | string (text : String)
  | array (items : List Variant)
  | object (fields : List (String × Variant))

namespace Variant

/-- `as_string`. -/
def asString : Variant → Except String String
  | .null => .ok ""
  | .int64 n => .ok (toString n)
  | .uint64 n => .ok (toString n)
  | .double text => .ok text
  | .bool b => .ok (if b then "true" else "false")
  | .string text => .ok text
  | .array _ => .error "Invalid cast from array to string"
  | .object _ => .error "Invalid cast from object to string"

/-- `as< vector< variant > >`. -/
def asArray : Variant → Except String (List Variant)
  | .array items => .ok items
  | _ => .error "Invalid cast to array"

/-- `get_object`. -/
def getObject : Variant → Except String (List (String × Variant))
  | .object fields => .ok fields
  | _ => .error "Invalid cast to object"

def isArray : Variant → Bool
  | .array _ => true
  | _ => false

end Variant

/-- `variant_object::operator[]`. -/
def fieldOf (fields : List (String × Variant)) (key : String) : Except String Variant :=
  match fields.lookup key with
  | some v => .ok v
  | none => .error "Key not found"

/-- An entry of the `abi` of a new contract is well formed; its name. -/
def checkAbiEntry (entry : Variant) : Except String String := do
  let fields ← entry.getObject
  let nameField ← fieldOf fields "name"
  let name ← nameField.asString
  ensure (fields.lookup "type").isSome "op abi no type"
  let args ← fieldOf fields "args"
  ensure args.isArray "op abi args not array"
  let args ← args.asArray
  ensure (args.all fun a => !a.isArray) "op abi args array"
  return name

/-- `check_abi`. -/
def checkAbi (arg : Variant) (abiType : String) : Bool :=
  match arg with
  | .uint64 _ => abiType = "uint64"
  | .int64 _ => abiType = "int64"
  | .string _ => abiType = "string"
  | .object _ => abiType = "object"
  | .array _ => abiType = "array"
  | _ => false

/-- The arguments of a call have the types of the method. -/
def checkArgs : List Variant → List Variant → Except String Unit
  | arg :: args, abiArg :: abiArgs => do
      let abiType ← abiArg.asString
      ensure (checkAbi arg abiType) "contract abi args err"
      checkArgs args abiArgs
  | _, _ => .ok ()

/-- An entry of the `abi` of the contract that is called: its name, and
whether it is the method. -/
def checkMethod (method : String) (args : List Variant) (entry : Variant) :
    Except String (String × Bool) := do
  let fields ← entry.getObject
  let nameField ← fieldOf fields "name"
  let name ← nameField.asString
  if name = method then
    let abiArgs ← fieldOf fields "args"
    let abiArgs ← abiArgs.asArray
    ensure (abiArgs.length = args.length) "contract args num error"
    checkArgs args abiArgs
    return (name, true)
  else return (name, false)

/-! ## The interpreter -/

/-- The functions of the host that read or write the database. -/
inductive HostCall where
  | getCreator
  | getData
  | getUserData (userName : String)
  | transfer (sender recipient : String) (num : Int)
  | emit (key data : String)
  | headBlockNum
  | getBlockHash (blockNum blockCount interval : Int)
  | isAccount (userName : String)

inductive Reply where
  | nothing
  | text (text : String)
  | number (n : Int)
  | flag (b : Bool)

/-- A turn of the interpreter. `memory` is what is in use after an allocation,
in kilobytes; `data` is the table of modified data at the end. -/
inductive Turn (σ : Type) where
  | opcode (next : σ)
  | allocate (memory : Nat) (next : σ)
  | host (call : HostCall) (resume : Reply → σ)
  | done (data : List (String × String))
  | error (message : String)

/-- What a contract is started with. Without a `method` it is deployed, and
`on_deploy` is called if its chunk defines it. -/
structure Launch where
  contractName : AccountName
  callerName : AccountName
  abiMethodNames : List String
  code : String
  method : Option (String × List Variant)

structure Lua where
  State : Type
  start : Launch → State
  turn : State → Turn State

/-- What the contracts find outside the object database: the interpreter, the
JSON parser, and the blocks of this node. -/
structure Environment where
  lua : Lua
  parse : String → Except String Variant
  blockHash : Int → Int → Int → Except String String

/-- `extend.memory_limit` and `extend.opcode_execute_limit`; zero is no limit. -/
structure Limits where
  memory : Int
  opcodes : Int

/-- The opcodes executed, and the most memory in use. Nothing reads the latter. -/
structure Usage where
  opcodes : Nat
  memory : Nat
deriving DecidableEq

/-- `account_name_type` keeps 16 bytes. -/
def fixedString (text : String) : AccountName := String.ofList (text.toList.take 16)

/-- The conversion of `int64_t` to `int`. -/
def toInt32 (n : Int) : Int :=
  if n % 4294967296 < 2147483648 then n % 4294967296 else n % 4294967296 - 4294967296

/-- `GAMEBANK_CONTRACT_MAX_MEMORY`. -/
def contractMaxMemory : Int := 51200

/-- `set_extend_arg`. -/
def setExtendArg (memoryLimit opcodeLimit : Int) : Limits :=
  ⟨if contractMaxMemory < memoryLimit then contractMaxMemory else memoryLimit, opcodeLimit⟩

namespace Database

/-- `find_account`. -/
def findAccount (s : Database) (name : AccountName) : Option Account :=
  s.accounts.find? fun a => a.name = name

/-- `find_contract`. -/
def findContract (s : Database) (name : AccountName) : Option Contract :=
  s.contracts.find? fun c => c.name = name

/-- `contract_get_data_by_username`: the row as it is stored. -/
def contractDataByUsername (s : Database) (contractName userName : AccountName) : String :=
  match s.contractUsers.find? fun u => u.contractName = contractName ∧ u.userName = userName with
  | some u => u.data
  | none => "\x7b\x7d"

/-- `contract_transfer`. -/
def contractTransfer (s : Database) (contractName callerName : AccountName)
    (fromAccount toAccount : String) (num : Int) : Except String Database := do
  ensure (0 < num) "amount expected positive"
  let sender := fixedString fromAccount
  let recipient := fixedString toAccount
  if callerName = fromAccount then
    let balance ← s.getBalance sender .gbc
    ensure (num ≤ balance) "Account does not have sufficient funds for transfer"
    ensure (contractName = toAccount) "caller can only tranfer GBC to the current contract"
    let s ← s.adjustBalance sender (-.gbc num)
    s.adjustContractBalance recipient (.gbc num)
  else if contractName = fromAccount then
    let balance ← s.getContractBalance sender .gbc
    ensure (num ≤ balance) "contract account does not have sufficient funds for transfer"
    let s ← s.adjustContractBalance sender (-.gbc num)
    s.adjustBalance recipient (.gbc num)
  else .error "only the contract caller or owner can call transfer"

/-- What a function of the host does. -/
def hostCall (env : Environment) (launch : Launch) (s : Database) :
    HostCall → Except String (Database × Reply)
  | .getCreator => do
      let c ← require (s.findContract launch.contractName)
      return (s, .text c.creator)
  | .getData => do
      let _ ← require (s.findContract launch.contractName)
      return (s, .text (s.contractDataByUsername launch.contractName launch.contractName))
  | .getUserData userName => do
      let _ ← require (s.findAccount (fixedString userName))
      return (s, .text (s.contractDataByUsername launch.contractName (fixedString userName)))
  | .transfer sender recipient num => do
      let s ← s.contractTransfer launch.contractName launch.callerName sender recipient num
      return (s, .nothing)
  | .emit _ _ => .ok (s, .nothing)
  | .headBlockNum => .ok (s, .number s.props.headBlockNumber)
  | .getBlockHash blockNum blockCount interval => do
      let hash ← env.blockHash blockNum blockCount interval
      return (s, .text hash)
  | .isAccount userName => .ok (s, .flag (s.findAccount (fixedString userName)).isSome)

/-- The interpreter takes turns until it ends, at most `fuel` of them. -/
def runLua (env : Environment) (launch : Launch) (limits : Limits) :
    Nat → Usage → Database → env.lua.State →
      Except String (Database × Usage × List (String × String))
  | 0, _, _, _ => .error "the contract is still running"
  | fuel + 1, usage, s, state =>
      match env.lua.turn state with
      | .opcode next => do
          let usage := { usage with opcodes := usage.opcodes + 1 }
          ensure (!(0 < limits.opcodes && limits.opcodes ≤ usage.opcodes)) "LUA_EXTEND_OPCODE_ERR"
          runLua env launch limits fuel usage s next
      | .allocate memory next => do
          ensure (!(0 < limits.memory && limits.memory ≤ memory)) "LUA_EXTEND_MEM_ERR"
          runLua env launch limits fuel { usage with memory := max usage.memory memory } s next
      | .host call resume => do
          let (s, reply) ← s.hostCall env launch call
          runLua env launch limits fuel usage s (resume reply)
      | .done data => .ok (s, usage, data)
      | .error message => .error message

/-- One row of `save_modified_data`; the key is read as a C string. -/
def saveModifiedRow (contractName : AccountName) (s : Database) (row : String × String) :
    Database :=
  let userName := fixedString (cString row.1)
  let isRow (u : ContractUser) : Bool := u.contractName = contractName ∧ u.userName = userName
  match s.contractUsers.find? isRow with
  | none =>
      { s with
        contractUsers := s.contractUsers.create fun _ =>
          ⟨contractName, userName, row.2, s.headBlockTime, s.headBlockTime⟩ }
  | some _ =>
      { s with
        contractUsers := s.contractUsers.modify isRow fun u =>
          { u with data := row.2, lastUpdate := s.headBlockTime } }

/-- `save_modified_data`. -/
def saveModifiedData (contractName : AccountName) (s : Database) (data : List (String × String)) :
    Database :=
  data.foldl (saveModifiedRow contractName) s

/-- A contract is run from its start to its end. -/
def execute (env : Environment) (launch : Launch) (limits : Limits) (fuel : Nat) (s : Database) :
    Except String (Database × Usage) := do
  let (s, usage, data) ← s.runLua env launch limits fuel ⟨0, 0⟩ (env.lua.start launch)
  return (saveModifiedData launch.contractName s data, usage)

end Database

/-! ## Bandwidth -/

/-- What is connected to `notify_remain_bandwidth` and `notify_update_bandwidth`.
The first gives the `remain_bandwidth` of the note, which starts at -1; what the
second throws reaches the evaluator only if it is a `plugin_exception`. -/
structure Handlers where
  remainBandwidth : Database → AccountName → Int
  updateBandwidth : Database → AccountName → Int → Except String Unit

/-- A node without the witness plugin. -/
def Handlers.none : Handlers := ⟨fun _ _ => -1, fun _ _ _ => .ok ()⟩

/-- `account_bandwidth_object`, of the type `market`. -/
structure Band where
  averageBandwidth : Int
  lastBandwidthUpdate : Nat

/-- The witness plugin's own objects, and whether the node is producing. -/
structure WitnessPlugin where
  band : AccountName → Option Band
  maxVirtualBandwidth : Int
  isProducing : Bool

namespace WitnessPlugin

/-- `GAMEBANK_BANDWIDTH_PRECISION`. -/
def bandwidthPrecision : Int := 1000000

/-- `GAMEBANK_BANDWIDTH_AVERAGE_WINDOW_SECONDS`. -/
def bandwidthAverageWindow : Int := 604800

/-- The band that is found or created. -/
def bandOf (p : WitnessPlugin) (name : AccountName) : Band := (p.band name).getD ⟨0, 0⟩

/-- `get_effective_vesting_shares`, as a `uint128`. -/
def effectiveShares (a : Account) : Except String Int := do
  let free ← checkedSub a.vestingShares a.delegatedVestingShares
  ensure (fitsInt64 (free + a.receivedVestingShares)) "overflow"
  return toUInt128 (free + a.receivedVestingShares)

/-- The body of `on_remain_bandwidth`. -/
def remaining (p : WitnessPlugin) (s : Database) (name : AccountName) : Except String Int := do
  let a ← s.getAccount name
  if 0 < s.props.totalVestingShares then
    let shares ← effectiveShares a
    let average := toUInt128 (p.bandOf name).averageBandwidth
    let allocated :=
      toUInt128 (shares * p.maxVirtualBandwidth) / toUInt128 s.props.totalVestingShares
    if average < allocated then lowWord ((allocated - average) / bandwidthPrecision) else return -1
  else return -1

/-- The body of `update_account_bandwidth`, up to its assertion. -/
def hasBandwidth (p : WitnessPlugin) (s : Database) (name : AccountName) (trxSize : Int) :
    Except String Bool := do
  let a ← s.getAccount name
  if 0 < s.props.totalVestingShares then
    let band := p.bandOf name
    let deltaTime := (s.headBlockTime : Int) - band.lastBandwidthUpdate
    let decayed ← if bandwidthAverageWindow < deltaTime then .ok 0
      else lowWord (toUInt128 ((bandwidthAverageWindow - deltaTime) *
        toUInt128 band.averageBandwidth) / bandwidthAverageWindow)
    let trxBandwidth := toInt64 (toUInt64 (trxSize % 4294967296 * bandwidthPrecision))
    ensure (fitsInt64 (decayed + trxBandwidth)) "overflow"
    let shares ← effectiveShares a
    let average := toUInt128 (decayed + trxBandwidth)
    return toUInt128 (average * toUInt128 s.props.totalVestingShares) <
      toUInt128 (shares * p.maxVirtualBandwidth)
  else return true

/-- `GAMEBANK_TRY_NOTIFY` logs and swallows what is no `plugin_exception`. -/
def swallow {α : Type} (fallback : α) : Except String α → α
  | .ok a => a
  | .error _ => fallback

/-- `on_remain_bandwidth` and `on_update_bandwidth`. -/
def handlers (p : WitnessPlugin) : Handlers where
  remainBandwidth s name := swallow (-1) (p.remaining s name)
  updateBandwidth s name used :=
    ensure (!p.isProducing || swallow true (p.hasBandwidth s name used)) "bandwidth limit exceeded"

end WitnessPlugin

/-! ## The evaluators -/

/-- `contract_deploy_operation`. -/
structure ContractDeploy where
  creator : AccountName
  name : AccountName
  code : String
  abi : String

/-- `contract_call_operation`. -/
structure ContractCall where
  caller : AccountName
  contractName : AccountName
  method : String
  args : String

namespace Database

/-- The check of the remaining bandwidth in both evaluators: what is left of
it, or zero if nobody answered. -/
def checkBandwidth (handlers : Handlers) (s : Database) (name : AccountName) :
    Except String Int := do
  let remain := handlers.remainBandwidth s name
  if remain ≠ -1 then
    ensure (0 < remain) "bandwidth limit exceeded"
    return remain
  else return 0

/-- The end of both evaluators. -/
def updateBandwidth (handlers : Handlers) (s : Database) (name : AccountName) (usage : Usage) :
    Except String Unit :=
  if 0 < usage.opcodes then handlers.updateBandwidth s name usage.opcodes else .ok ()

/-- `create< contract_object >`; names and times of creation are unique. -/
def createContract (s : Database) (op : ContractDeploy) : Except String Database := do
  ensure (s.contracts.rows.all fun c => c.name ≠ op.name && c.created ≠ s.headBlockTime)
    "could not insert object, most likely a uniqueness constraint was violated"
  return { s with
    contracts := s.contracts.create fun _ =>
      ⟨op.name, op.creator, op.code, op.abi, 0, s.headBlockTime, s.headBlockTime⟩ }

/-- `contract_deploy_evaluator`. -/
def contractDeploy (env : Environment) (handlers : Handlers) (fuel : Nat) (s : Database)
    (op : ContractDeploy) : Except String Database := do
  signedBy op.creator
  validateName op.name
  ensure (0 < op.code.utf8ByteSize && op.code.utf8ByteSize < 1048576) "code larger than size limit"
  ensure (0 < op.abi.utf8ByteSize && op.abi.utf8ByteSize < 65536) "abi larger than size limit"
  ensure (s.findAccount op.name).isNone "has exist account"
  ensure (s.findContract op.name).isNone "has exist contract"
  let abiv ← env.parse op.abi
  ensure abiv.isArray "op abi not array"
  let abis ← abiv.asArray
  let abiMethodNames ← abis.mapM checkAbiEntry
  let remain ← s.checkBandwidth handlers op.creator
  let s ← s.createContract op
  let limits := setExtendArg (toInt32 (remain.tdiv 10)) (toInt32 remain)
  let (s, usage) ← s.execute env ⟨op.name, op.creator, abiMethodNames, op.code, none⟩ limits fuel
  s.updateBandwidth handlers op.creator usage
  return s

/-- `contract_call_evaluator`. -/
def contractCall (env : Environment) (handlers : Handlers) (fuel : Nat) (s : Database)
    (op : ContractCall) : Except String Database := do
  signedBy op.caller
  validateName op.contractName
  ensure (0 < op.method.utf8ByteSize && op.method.utf8ByteSize < 256)
    "method larger than size limit"
  ensure (0 < op.args.utf8ByteSize && op.args.utf8ByteSize < 65536) "args larger than size limit"
  let contract ← s.getContract op.contractName
  let v ← env.parse op.args
  ensure v.isArray "contract args not array"
  let opArgs ← v.asArray
  let abiv ← env.parse contract.abi
  let abis ← abiv.asArray
  let methods ← abis.mapM (checkMethod op.method opArgs)
  ensure (methods.any fun m => m.2) "contract abi check op name error"
  let remain ← s.checkBandwidth handlers op.caller
  let limits := setExtendArg 0 (toInt32 remain)
  let (s, usage) ← s.execute env
    ⟨op.contractName, op.caller, methods.map Prod.fst, contract.code, some (op.method, opArgs)⟩
    limits fuel
  s.updateBandwidth handlers op.caller usage
  return s

end Database

end Gamebank.Ledger
