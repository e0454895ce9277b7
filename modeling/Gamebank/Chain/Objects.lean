import Gamebank.Chain.Block
import Mathlib.Data.List.Sort

/-!
# The consensus objects the chain logic reads and writes

Head block, last irreversible block and the witnesses' confirmations, as
`database.cpp` keeps them in the object database, with the functions that
read and update them. Everything else a block changes (accounts, funds,
schedules, signing keys, …) is `rest`: transactions and the other
per-block routines write nothing but `rest`, and enter as the parameters
of `Evaluators`. Each of them may throw, and then leaves `rest` as far as
it got.

No skip flag is set.
-/

namespace Gamebank.Chain

universe u v w

def startMinerVotingBlock : Nat := 864000
def maxWitnesses : Nat := 21
def irreversibleThreshold : Nat := 7500
def hundredPercent : Nat := 10000
def maxUndoHistory : Nat := 10000
def blockInterval : Nat := 3
def maxBlockSize : Nat := 393216000

/-- The number of values of a `uint32_t`. -/
def uint32Size : Nat := 4294967296

/-- Subtraction of 32-bit unsigned numbers. -/
def sub32 (a b : Nat) : Nat := (a + (uint32Size - b % uint32Size)) % uint32Size

/-- The fields of `dynamic_global_property_object` and `witness_object` that
the chain logic writes itself. A witness that never confirmed a block has
the initial values zero. `applied` records the ids of the blocks applied
since the node was opened, newest first; nothing reads it. -/
structure Objects (Name : Type u) (Rest : Type w) where
  headBlockNumber : Nat
  headBlockId : BlockId
  time : Nat
  currentAslot : Nat
  lastIrreversibleBlockNum : Nat
  lastConfirmedBlockNum : Name → Nat
  lastAslot : Name → Nat
  applied : List BlockId
  rest : Rest

/-- What the rest of the node does. A routine gives the new `rest` and the
exception it threw, if any. -/
structure Evaluators (Name : Type u) (Tx : Type v) (Rest : Type w) where
  /-- The witness has an object. -/
  hasWitness : Rest → Name → Bool
  /-- `witness_object::signing_key`. -/
  signingKey : Rest → Name → Nat
  /-- The key that signed a header. -/
  signee : SignedBlock Name Tx → Nat
  /-- `current_shuffled_witnesses`, the first `num_scheduled_witnesses`. -/
  scheduledWitnesses : Rest → List Name
  /-- From `apply_block` to the merkle check. -/
  prepare : Objects Name Rest → SignedBlock Name Tx → Rest × Option ChainException
  /-- Block size, header extensions, hardfork version, transactions. -/
  execute : Objects Name Rest → SignedBlock Name Tx → Rest × Option ChainException
  /-- The witnesses of the slots the block skips. -/
  recordMissed : Objects Name Rest → SignedBlock Name Tx → Rest × Option ChainException
  /-- From `create_block_summary` to the end of `_apply_block`. -/
  finish : Objects Name Rest → SignedBlock Name Tx → Rest × Option ChainException
  /-- `_apply_transaction`. -/
  applyTransaction : Objects Name Rest → Tx → Rest × Option ChainException
  isKnownTransaction : Rest → Tx → Bool
  packSize : Tx → Nat
  blockSize : SignedBlock Name Tx → Nat
  maximumBlockSize : Rest → Nat
  expiration : Tx → Nat
  /-- The hash of the header assembled and signed by `_generate_block`. -/
  headerHash : Objects Name Rest → Nat → Name → Nat → List Tx → Nat

variable {Name : Type u} {Tx : Type v} {Rest : Type w}

namespace Objects

/-! ## Slots -/

/-- `get_slot_time`: a time has 32 bits. -/
def getSlotTime (o : Objects Name Rest) (slotNum : Nat) : Nat :=
  if slotNum = 0 then 0
  else if o.headBlockNumber = 0 then (o.time + slotNum * blockInterval) % uint32Size
  else (o.time / blockInterval * blockInterval + slotNum * blockInterval) % uint32Size

/-- `get_slot_at_time`. -/
def getSlotAtTime (o : Objects Name Rest) (time : Nat) : Nat :=
  if time < o.getSlotTime 1 then 0
  else (time - o.getSlotTime 1) / blockInterval + 1

/-- `get_scheduled_witness`; with nobody scheduled there is no witness. -/
def getScheduledWitness (ev : Evaluators Name Tx Rest) (o : Objects Name Rest) (slotNum : Nat) :
    Option Name :=
  (ev.scheduledWitnesses o.rest)[(o.currentAslot + slotNum) %
    (ev.scheduledWitnesses o.rest).length]?

/-- Replace `rest` by what a routine leaves. -/
def setRest (o : Objects Name Rest) (r : Rest) : Objects Name Rest := { o with rest := r }

@[simp] theorem setRest_headBlockNumber (o : Objects Name Rest) (r : Rest) :
    (o.setRest r).headBlockNumber = o.headBlockNumber := rfl
@[simp] theorem setRest_headBlockId (o : Objects Name Rest) (r : Rest) :
    (o.setRest r).headBlockId = o.headBlockId := rfl
@[simp] theorem setRest_lastIrreversibleBlockNum (o : Objects Name Rest) (r : Rest) :
    (o.setRest r).lastIrreversibleBlockNum = o.lastIrreversibleBlockNum := rfl
@[simp] theorem setRest_lastConfirmedBlockNum (o : Objects Name Rest) (r : Rest) :
    (o.setRest r).lastConfirmedBlockNum = o.lastConfirmedBlockNum := rfl

variable [DecidableEq Name]

/-! ## Headers -/

/-- `validate_block_header`. -/
def validateBlockHeader (ev : Evaluators Name Tx Rest) (o : Objects Name Rest)
    (b : SignedBlock Name Tx) : Except ChainException Unit :=
  if o.headBlockId ≠ b.previous then
    .error (.assertion "head_block_id() == next_block.previous")
  else if ¬o.time < b.timestamp then
    .error (.assertion "head_block_time() < next_block.timestamp")
  else if ¬ev.hasWitness o.rest b.witness then .error (.assertion "unknown key")
  else if ev.signee b ≠ ev.signingKey o.rest b.witness then
    .error (.assertion "next_block.validate_signee( witness.signing_key )")
  else if ¬0 < o.getSlotAtTime b.timestamp then .error (.assertion "slot_num > 0")
  else if o.getScheduledWitness ev (o.getSlotAtTime b.timestamp) ≠ some b.witness then
    .error (.assertion "Witness produced block at wrong time")
  else .ok ()

/-! ## Updates -/

/-- The part of `update_global_dynamic_data` that moves the head. -/
def advanceHead (o : Objects Name Rest) (b : SignedBlock Name Tx) : Objects Name Rest :=
  let missedBlocks := if o.time ≠ 0 then o.getSlotAtTime b.timestamp - 1 else 0
  { o with
    headBlockNumber := b.blockNum
    headBlockId := b.id
    time := b.timestamp
    currentAslot := o.currentAslot + missedBlocks + 1
    applied := b.id :: o.applied }

/-- The `modify` of `update_signing_witness` and `update_confirm_witness`. -/
def recordConfirmation (o : Objects Name Rest) (b : SignedBlock Name Tx) : Objects Name Rest :=
  let newBlockAslot := o.currentAslot + o.getSlotAtTime b.timestamp
  { o with
    lastAslot := fun n => if n = b.witness then newBlockAslot else o.lastAslot n
    lastConfirmedBlockNum := fun n =>
      if n = b.witness then b.blockNum else o.lastConfirmedBlockNum n }

/-- `update_signing_witness`. -/
def updateSigningWitness (o : Objects Name Rest) (b : SignedBlock Name Tx) : Objects Name Rest :=
  if b.blockNum < o.lastConfirmedBlockNum b.witness then o else o.recordConfirmation b

/-- The number the scheduled witnesses agree on: the element at the
threshold's offset in the order of their confirmations. -/
def confirmedByQuorum (ev : Evaluators Name Tx Rest) (o : Objects Name Rest) : Option Nat :=
  let confirmations := (ev.scheduledWitnesses o.rest).map o.lastConfirmedBlockNum
  let offset := (hundredPercent - irreversibleThreshold) * confirmations.length / hundredPercent
  (confirmations.insertionSort (· ≤ ·))[offset]?

/-- The first part of `update_last_irreversible_block`: the new value of
`last_irreversible_block_num`. -/
def newLastIrreversible (ev : Evaluators Name Tx Rest) (o : Objects Name Rest) :
    Except ChainException Nat :=
  if o.headBlockNumber < startMinerVotingBlock then
    .ok (if maxWitnesses < o.headBlockNumber then o.headBlockNumber - maxWitnesses
      else o.lastIrreversibleBlockNum)
  else if ¬(ev.scheduledWitnesses o.rest).all (ev.hasWitness o.rest) then
    .error (.assertion "unknown key")
  else
    match o.confirmedByQuorum ev with
    | none => .error (.assertion "no scheduled witness")
    | some n => .ok (max n o.lastIrreversibleBlockNum)

/-- The text of the exception of `update_global_dynamic_data`. -/
def undoHistoryMessage : String :=
  "The database does not have enough undo history to support a blockchain with so many " ++
  "missed blocks. Please add a checkpoint if you would like to continue applying blocks " ++
  "beyond this point."

/-- Everything `_apply_block` does before `update_last_irreversible_block`. -/
def applyHeader (ev : Evaluators Name Tx Rest) (o : Objects Name Rest) (b : SignedBlock Name Tx) :
    Objects Name Rest × Option ChainException :=
  match ev.prepare o b with
  | (r, some e) => (o.setRest r, some e)
  | (r, none) =>
      let o := o.setRest r
      match o.validateBlockHeader ev b with
      | .error e => (o, some e)
      | .ok () =>
          match ev.execute o b with
          | (r, some e) => (o.setRest r, some e)
          | (r, none) =>
              let o := o.setRest r
              match ev.recordMissed o b with
              | (r, some e) => (o.setRest r, some e)
              | (r, none) =>
                  let o := (o.setRest r).advanceHead b
                  if sub32 o.headBlockNumber o.lastIrreversibleBlockNum < maxUndoHistory then
                    (o.updateSigningWitness b, none)
                  else
                    (o, some (.undoDatabase undoHistoryMessage))

/-- The block gets through its transactions: the entry of the contract log is
written right after them. -/
def executes (ev : Evaluators Name Tx Rest) (o : Objects Name Rest) (b : SignedBlock Name Tx) :
    Bool :=
  match ev.prepare o b with
  | (_, some _) => false
  | (r, none) =>
      match (o.setRest r).validateBlockHeader ev b with
      | .error _ => false
      | .ok () => (ev.execute (o.setRest r) b).2.isNone

/-! ## What the updates do -/

@[simp] theorem updateSigningWitness_headBlockNumber (o : Objects Name Rest)
    (b : SignedBlock Name Tx) : (o.updateSigningWitness b).headBlockNumber = o.headBlockNumber := by
  unfold updateSigningWitness
  split <;> rfl

@[simp] theorem updateSigningWitness_headBlockId (o : Objects Name Rest)
    (b : SignedBlock Name Tx) : (o.updateSigningWitness b).headBlockId = o.headBlockId := by
  unfold updateSigningWitness
  split <;> rfl

@[simp] theorem updateSigningWitness_applied (o : Objects Name Rest) (b : SignedBlock Name Tx) :
    (o.updateSigningWitness b).applied = o.applied := by
  unfold updateSigningWitness
  split <;> rfl

@[simp] theorem updateSigningWitness_lastIrreversibleBlockNum (o : Objects Name Rest)
    (b : SignedBlock Name Tx) :
    (o.updateSigningWitness b).lastIrreversibleBlockNum = o.lastIrreversibleBlockNum := by
  unfold updateSigningWitness
  split <;> rfl

/-- A header is accepted only on top of the head. -/
theorem previous_of_validateBlockHeader {ev : Evaluators Name Tx Rest} {o : Objects Name Rest}
    {b : SignedBlock Name Tx} (h : o.validateBlockHeader ev b = .ok ()) :
    b.previous = o.headBlockId := by
  unfold validateBlockHeader at h
  by_cases hp : o.headBlockId ≠ b.previous
  · simp [hp] at h
  · exact (not_not.mp hp).symm

/-- A header is accepted only after the time of the head. -/
theorem time_of_validateBlockHeader {ev : Evaluators Name Tx Rest} {o : Objects Name Rest}
    {b : SignedBlock Name Tx} (h : o.validateBlockHeader ev b = .ok ()) : o.time < b.timestamp := by
  unfold validateBlockHeader at h
  by_cases hp : o.headBlockId ≠ b.previous
  · simp [hp] at h
  · by_cases ht : o.time < b.timestamp
    · exact ht
    · simp [hp, ht] at h

/-- **What `applyHeader` can do**: stop before the head moves, stop right
after it moved, or go through. -/
theorem applyHeader_cases (ev : Evaluators Name Tx Rest) (o : Objects Name Rest)
    (b : SignedBlock Name Tx) :
    (∃ r e, o.applyHeader ev b = (o.setRest r, some e)) ∨
    (∃ r e, b.previous = o.headBlockId ∧
      o.applyHeader ev b = ((o.setRest r).advanceHead b, some e)) ∨
    (∃ r, b.previous = o.headBlockId ∧
      o.applyHeader ev b = (((o.setRest r).advanceHead b).updateSigningWitness b, none)) := by
  unfold applyHeader
  split
  · rename_i r e _
    exact Or.inl ⟨r, e, rfl⟩
  · rename_i r _
    simp only
    split
    · rename_i e _
      exact Or.inl ⟨r, e, rfl⟩
    · rename_i hval
      have hprev : b.previous = (o.setRest r).headBlockId :=
        previous_of_validateBlockHeader hval
      rw [setRest_headBlockId] at hprev
      split
      · rename_i r' e _
        exact Or.inl ⟨r', e, rfl⟩
      · rename_i r' _
        split
        · rename_i r'' e _
          exact Or.inl ⟨r'', e, rfl⟩
        · rename_i r'' _
          split
          · exact Or.inr (Or.inr ⟨r'', hprev, rfl⟩)
          · exact Or.inr (Or.inl ⟨r'', _, hprev, rfl⟩)

/-- The rule for `applyHeader`: `P` is kept by every part until the head moves,
`M` holds once the transactions are applied, and `S` from the move on. -/
theorem applyHeader_parts {ev : Evaluators Name Tx Rest} {o : Objects Name Rest}
    {b : SignedBlock Name Tx} {P M S : Objects Name Rest → Prop}
    (hprepare : P (o.setRest (ev.prepare o b).1))
    (hexecute : ∀ p r e, P p → p.validateBlockHeader ev b = .ok () → ev.execute p b = (r, e) →
      P (p.setRest r) ∧ (e = none → M (p.setRest r)))
    (hmissed : ∀ p r e, P p → M p → ev.recordMissed p b = (r, e) →
      (e = none → S ((p.setRest r).advanceHead b)) ∧ (e ≠ none → P (p.setRest r)))
    (hsign : ∀ p, S p → S (p.updateSigningWitness b)) :
    P (o.applyHeader ev b).1 ∨ S (o.applyHeader ev b).1 := by
  unfold applyHeader
  cases hprep : ev.prepare o b with
  | mk r e =>
      rw [hprep] at hprepare
      cases e with
      | some e => exact Or.inl hprepare
      | none =>
          simp only
          split
          · exact Or.inl hprepare
          · rename_i hvalid
            cases hexec : ev.execute (o.setRest r) b with
            | mk r' e =>
                obtain ⟨hP, hM⟩ := hexecute _ r' e hprepare hvalid hexec
                cases e with
                | some e => exact Or.inl hP
                | none =>
                    simp only
                    cases hmiss : ev.recordMissed ((o.setRest r).setRest r') b with
                    | mk r'' e =>
                        obtain ⟨hmoved, hstopped⟩ := hmissed _ r'' e hP (hM rfl) hmiss
                        cases e with
                        | some e => exact Or.inl (hstopped (by simp))
                        | none =>
                            simp only
                            split
                            · exact Or.inr (hsign _ (hmoved rfl))
                            · exact Or.inr (hmoved rfl)

/-- The same where one property holds throughout. -/
theorem applyHeader_keeps {ev : Evaluators Name Tx Rest} {o : Objects Name Rest}
    {b : SignedBlock Name Tx} {P M : Objects Name Rest → Prop}
    (hprepare : P (o.setRest (ev.prepare o b).1))
    (hexecute : ∀ p r e, P p → p.validateBlockHeader ev b = .ok () → ev.execute p b = (r, e) →
      P (p.setRest r) ∧ (e = none → M (p.setRest r)))
    (hmissed : ∀ p r e, P p → M p → ev.recordMissed p b = (r, e) →
      (e = none → P ((p.setRest r).advanceHead b)) ∧ (e ≠ none → P (p.setRest r)))
    (hsign : ∀ p, P p → P (p.updateSigningWitness b)) : P (o.applyHeader ev b).1 :=
  (applyHeader_parts hprepare hexecute hmissed hsign).elim id id

end Objects

end Gamebank.Chain
