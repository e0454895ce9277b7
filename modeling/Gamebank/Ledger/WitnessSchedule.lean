import Gamebank.Ledger.Voting
import Mathlib.Data.Prod.Lex

/-!
# The witness schedule

`witness_schedule.cpp`: every 21 blocks the next producers are chosen, twenty
by votes and one by virtual time, and shuffled. `witness_update_evaluator` and
the shutdown in `update_global_dynamic_data` change who may be chosen.
-/

namespace Gamebank.Ledger

open Gamebank.Lib Gamebank.Protocol

/-- `GAMEBANK_MAX_WITNESSES`. -/
def maxWitnesses : Nat := 21

/-- The witness has a valid block signing key. -/
def Witness.enabled (w : Witness) : Bool := w.signingKey.isSome

/-- The order of `by_vote_name`: votes from high to low, then names. -/
def Witness.byVoteName (a b : Witness) : Prop :=
  b.votes < a.votes ∨ (a.votes = b.votes ∧ a.owner ≤ b.owner)

instance (a b : Witness) : Decidable (a.byVoteName b) :=
  inferInstanceAs (Decidable (_ ∨ _))

/-- The order of `by_schedule_time`. -/
def Witness.byScheduleTime (a b : Witness) : Prop :=
  a.virtualScheduledTime < b.virtualScheduledTime ∨
    (a.virtualScheduledTime = b.virtualScheduledTime ∧ a.id ≤ b.id)

instance (a b : Witness) : Decidable (a.byScheduleTime b) :=
  inferInstanceAs (Decidable (_ ∨ _))

namespace Database

/-! ## Choosing -/

/-- Every witness of the list is modified. -/
def modifyWitnesses (s : Database) (chosen : List Witness) (f : Witness → Witness) : Database :=
  chosen.foldl (fun s w => s.modifyWitness w.owner f) s

/-- The witnesses with the most votes, as far as they have a key. -/
def selectVoted (s : Database) : List Witness :=
  ((s.witnesses.rows.insertionSort Witness.byVoteName).filter Witness.enabled).take
    s.schedule.maxVotedWitnesses

/-- The loop over the mining queue, in the order of `pow_worker`: the miners
chosen, and all that are taken off the queue. -/
def selectMiners (limit : Nat) (voted : List Witness) :
    List Witness → List Witness → List Witness → List Witness × List Witness
  | [], chosen, processed => (chosen, processed)
  | w :: queue, chosen, processed =>
      if limit ≤ chosen.length then (chosen, processed)
      else if !(voted.map Witness.id).contains w.id && w.enabled then
        selectMiners limit voted queue (chosen ++ [w]) (processed ++ [w])
      else selectMiners limit voted queue chosen (processed ++ [w])

/-- The mining queue. -/
def powQueue (s : Database) : List Witness :=
  (s.witnesses.rows.filter fun w => 0 < w.powWorker).insertionSort
    fun a b => a.powWorker ≤ b.powWorker

/-- The loop over the running witnesses, in the order of their scheduled time:
those chosen, and all that are passed. `others` are the ids chosen already,
`count` how many witnesses are chosen so far. -/
def selectRunning (others : List Nat) : List Witness → Nat → List Witness × List Witness
  | [], _ => ([], [])
  | w :: queue, count =>
      if maxWitnesses ≤ count then ([], [])
      else if w.enabled && !others.contains w.id then
        let (chosen, processed) := selectRunning others queue (count + 1)
        (w :: chosen, w :: processed)
      else
        let (chosen, processed) := selectRunning others queue count
        (chosen, w :: processed)

/-! ## Virtual time -/

/-- A lap at the speed of a witness. -/
def lapTime (w : Witness) : Except String Int := do
  ensure (w.votes ≠ -1) "division by zero"
  return maxUInt128 / votesPlusOne w.votes

/-- `reset_virtual_schedule_time`. -/
def resetVirtualScheduleTime (s : Database) : Except String Database := do
  ensure (s.witnesses.rows.all fun w => w.votes ≠ -1) "division by zero"
  return { s with
    schedule := { s.schedule with currentVirtualTime := 0 }
    witnesses :=
      { s.witnesses with
        rows := s.witnesses.rows.map fun w =>
          { w with
            virtualPosition := 0
            virtualLastUpdate := 0
            virtualScheduledTime := maxUInt128 / votesPlusOne w.votes } } }

/-- The virtual schedule of the processed witnesses is updated, up to an
overflow; the second component says whether there was one. -/
def updateProcessed (now : Int) : List Witness → Database → Except String (Database × Bool)
  | [], s => .ok (s, false)
  | w :: rest, s => do
      let lap ← lapTime w
      let scheduled := toUInt128 (now + lap)
      if scheduled < now then return (s, true)
      else
        updateProcessed now rest <| s.modifyWitness w.owner fun w =>
          { w with
            virtualPosition := 0
            virtualLastUpdate := now
            virtualScheduledTime := scheduled }

/-! ## Versions -/

/-- How often a value occurs. -/
def countOf {α : Type} [DecidableEq α] (a : α) (l : List α) : Nat := l.countP fun b => b = a

/-- The highest version that enough witnesses run, or a higher one. -/
def majorityVersion (required : Nat) (current : Nat) (versions : List Nat) : Nat :=
  match (versions.insertionSort (· ≥ ·)).find? fun v =>
      required ≤ versions.countP fun v' => v ≤ v' with
  | some v => v
  | none => current

/-- The version and time that enough witnesses vote for. -/
def hardforkVote (required : Nat) (votes : List (Nat × Nat)) : Option (Nat × Nat) :=
  (votes.insertionSort fun a b => a.1 < b.1 ∨ (a.1 = b.1 ∧ a.2 ≤ b.2)).find? fun v =>
    required ≤ countOf v votes

/-! ## Shuffling -/

/-- The number the shuffle draws for position `i`. -/
def shuffleDraw (headTime i : Nat) : Nat :=
  let k := (headTime * 4294967296 + i * 2685821657736338717) % 18446744073709551616
  let k := k ^^^ (k >>> 12)
  let k := k ^^^ ((k <<< 25) % 18446744073709551616)
  let k := k ^^^ (k >>> 27)
  (k * 2685821657736338717) % 18446744073709551616

/-- The positions from `i` on, of `num` that are in use, are shuffled. -/
def shuffleFrom (headTime num : Nat) : Nat → Nat → Vector AccountName 21 → Vector AccountName 21
  | 0, _, names => names
  | left + 1, i, names =>
      let j := i + shuffleDraw headTime i % (num - i)
      if h : i < 21 ∧ j < 21 then
        shuffleFrom headTime num left (i + 1) (names.swap i j h.1 h.2)
      else names

/-! ## The schedule -/

/-- The witnesses scheduled now. -/
def scheduledWitnesses (s : Database) : Except String (List Witness) :=
  (s.schedule.currentShuffledWitnesses.toList.take s.schedule.numScheduledWitnesses).mapM
    s.getWitness

/-- The element in the middle of a list sorted by `key`. -/
def median (key : ChainProperties → Int) (active : List Witness) : Except String ChainProperties :=
  require (((active.map Witness.props).insertionSort fun a b => key a ≤ key b)[active.length / 2]?)

/-- `update_median_witness_props`. -/
def updateMedianWitnessProps (s : Database) : Except String Database := do
  let active ← s.scheduledWitnesses
  let fee ← median ChainProperties.accountCreationFee active
  let size ← median (fun p => p.maximumBlockSize) active
  let interest ← median (fun p => p.gbdInterestRate) active
  let subsidy ← median (fun p => p.accountSubsidyLimit) active
  return { s with
    schedule :=
      { s.schedule with
        medianProps := ⟨fee.accountCreationFee, size.maximumBlockSize, interest.gbdInterestRate,
          subsidy.accountSubsidyLimit⟩ }
    props :=
      { s.props with
        maximumBlockSize := size.maximumBlockSize
        gbdInterestRate := interest.gbdInterestRate } }

/-- The witnesses chosen for the next round. -/
structure Selection where
  voted : List Witness
  miners : List Witness
  queued : List Witness
  running : List Witness
  processed : List Witness

namespace Selection

/-- `active_witnesses`. -/
def active (c : Selection) : List Witness := c.voted ++ c.miners ++ c.running

end Selection

/-- The three loops of `update_witness_schedule4` that choose. -/
def selectWitnesses (s : Database) : Selection :=
  let voted := s.selectVoted
  let (miners, queued) := selectMiners s.schedule.maxMinerWitnesses voted s.powQueue [] []
  let (running, processed) := selectRunning ((voted ++ miners).map Witness.id)
    (s.witnesses.rows.insertionSort Witness.byScheduleTime) (voted.length + miners.length)
  ⟨voted, miners, queued, running, processed⟩

/-- The marks of the chosen witnesses are set and the miners taken off the
queue. -/
def markSelection (s : Database) (c : Selection) : Database :=
  let s := s.modifyWitnesses c.voted fun w => { w with schedule := .top19 }
  let s := s.modifyWitnesses c.miners fun w => { w with schedule := .miner }
  let s := s.modifyWitnesses c.queued fun w => { w with powWorker := 0 }
  let s := { s with
    props := { s.props with numPowWitnesses := s.props.numPowWitnesses - c.queued.length } }
  s.modifyWitnesses c.running fun w => { w with schedule := .timeshare }

/-- Virtual time moves to the scheduled time of the last witness passed. -/
def timeReached (now : Int) (processed : List Witness) : Int :=
  match processed.getLast? with
  | none => now
  | some w => w.virtualScheduledTime

/-- After an overflow virtual time starts again. -/
def advanceVirtualTime (s : Database) (processed : List Witness) : Except String (Database × Int) :=
  do
  let now := timeReached s.schedule.currentVirtualTime processed
  let (s, overflow) ← updateProcessed now processed s
  if overflow then
    let s ← s.resetVirtualScheduleTime
    return (s, 0)
  else return (s, now)

/-- The hardfork the scheduled witnesses vote for. -/
def tallyHardforkVotes (s : Database) (scheduled : List Witness) : Database :=
  let vote := hardforkVote s.schedule.hardforkRequiredWitnesses
    (scheduled.map fun w => (w.hardforkVersionVote, w.hardforkTimeVote))
  { s with
    hardforks :=
      match vote with
      | some (version, time) =>
          { s.hardforks with nextHardfork := version, nextHardforkTime := time }
      | none => { s.hardforks with nextHardfork := s.hardforks.currentHardforkVersion } }

/-- The new schedule. -/
def installSchedule (s : Database) (c : Selection) (now : Int) (version : Nat) : Database :=
  let num := max (c.active.length % 256) 1
  let names := Vector.ofFn fun i : Fin 21 => (c.active.map Witness.owner).getD i.val ""
  { s with
    schedule :=
      { s.schedule with
        currentShuffledWitnesses := shuffleFrom s.headBlockTime num num 0 names
        numScheduledWitnesses := num
        witnessPayNormalizationFactor :=
          s.schedule.top19Weight * c.voted.length + s.schedule.minerWeight * c.miners.length
            + s.schedule.timeshareWeight * c.running.length
        currentVirtualTime := now
        nextShuffleBlockNum := s.props.headBlockNumber + num
        majorityVersion := version } }

/-- `update_witness_schedule4`. -/
def updateWitnessSchedule4 (s : Database) : Except String Database := do
  let c := s.selectWitnesses
  let total := s.witnesses.rows.length
  let (s, now) ← (s.markSelection c).advanceVirtualTime c.processed
  ensure (c.active.length = min maxWitnesses total)
    "number of active witnesses does not equal expected_active_witnesses"
  let scheduled ← s.scheduledWitnesses
  let version := majorityVersion s.schedule.hardforkRequiredWitnesses s.schedule.majorityVersion
    (scheduled.map Witness.runningVersion)
  ((s.tallyHardforkVotes scheduled).installSchedule c now version).updateMedianWitnessProps

/-- `update_witness_schedule`. -/
def updateWitnessSchedule (s : Database) : Except String Database :=
  if s.props.headBlockNumber % maxWitnesses = 0 then s.updateWitnessSchedule4 else .ok s

/-! ## Keys -/

/-- `witness_update_evaluator`. -/
def witnessUpdate (s : Database) (owner : AccountName) (key : Option Nat) (fee : Int)
    (maximumBlockSize gbdInterestRate : Nat) : Except String Database := do
  signedBy owner
  ensure (minAccountCreationFee ≤ fee)
    "account_creation_fee.amount >= GAMEBANK_MIN_ACCOUNT_CREATION_FEE"
  ensure (minBlockSizeLimit ≤ maximumBlockSize)
    "maximum_block_size >= GAMEBANK_MIN_BLOCK_SIZE_LIMIT"
  ensure ((gbdInterestRate : Int) ≤ hundredPercent) "gbd_interest_rate <= GAMEBANK_100_PERCENT"
  let _ ← s.getAccount owner
  match s.witnesses.find? fun w => w.owner = owner with
  | some _ =>
      return s.modifyWitness owner fun w =>
        { w with
          signingKey := key
          props := ⟨fee, maximumBlockSize, gbdInterestRate, w.props.accountSubsidyLimit⟩ }
  | none =>
      return { s with
        witnesses := s.witnesses.create fun id =>
          { Witness.make id owner with
            signingKey := key
            created := s.headBlockTime
            props := ⟨fee, maximumBlockSize, gbdInterestRate, 0⟩ } }

/-- `witness_set_properties_evaluator`; `none` leaves a property as it is. -/
def witnessSetProperties (s : Database) (owner : AccountName) (key : Option Nat)
    (newSigningKey : Option (Option Nat)) (fee : Option Int)
    (maximumBlockSize gbdInterestRate accountSubsidyLimit : Option Nat) :
    Except String Database := do
  ensure s.hardfork01 "witness_set_properties_evaluator not enabled until HF 20"
  let w ← s.getWitness owner
  ensure (key = w.signingKey) "'key' does not match witness signing key."
  return s.modifyWitness owner fun w =>
    { w with
      signingKey := newSigningKey.getD w.signingKey
      props := ⟨fee.getD w.props.accountCreationFee, maximumBlockSize.getD w.props.maximumBlockSize,
        gbdInterestRate.getD w.props.gbdInterestRate,
        accountSubsidyLimit.getD w.props.accountSubsidyLimit⟩ }

/-- What `update_global_dynamic_data` does with a witness that missed a block:
after a day without a block its key is taken away. -/
def recordMissedBlock (s : Database) (owner : AccountName) : Except String Database := do
  let w ← s.getWitness owner
  let silent := (blocksPerDay : Int) <
    toUInt64 ((s.props.headBlockNumber : Int) - w.lastConfirmedBlockNum)
  return s.modifyWitness owner fun w =>
    { w with
      totalMissed := w.totalMissed + 1
      signingKey := if silent then none else w.signingKey }

end Database

end Gamebank.Ledger
