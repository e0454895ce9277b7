import Gamebank.Chain.Replay

/-!
# Slots and time

`get_slot_time` and `get_slot_at_time` round the 32-bit time to slots of
three seconds counted from the head block; `update_global_dynamic_data`
counts the slots of the whole chain in `current_aslot`. Between the two
stands the schedule check of `validate_block_header`: a block is accepted
only in a slot after the head's.

Block times need not be multiples of three. The slot of a time is its
quotient by the interval, whatever the rest.
-/

namespace Gamebank.Chain

universe u v w

def blocksPerDay : Nat := 28800

/-! ## Witnesses that miss their slots -/

/-- The fields of `witness_object` that the loop over the missed slots writes. -/
structure WitnessRecord where
  totalMissed : Nat
  signingKey : Nat
deriving DecidableEq

/-- `public_key_type()`. -/
def noKey : Nat := 0

/-- The witnesses and their schedule, with the rest of the database. -/
structure ScheduleState (Name : Type u) (Other : Type w) where
  witnesses : Name → Option WitnessRecord
  /-- `current_shuffled_witnesses`, the first `num_scheduled_witnesses`. -/
  currentShuffledWitnesses : List Name
  other : Other

namespace Objects

section Slots

variable {Name : Type u} {Rest : Type w}

/-! ## Rounding -/

theorem getSlotTime_of_head {o : Objects Name Rest} (h : 1 ≤ o.headBlockNumber) {n : Nat}
    (hn : 1 ≤ n) :
    o.getSlotTime n =
      (o.time / blockInterval * blockInterval + n * blockInterval) % uint32Size := by
  unfold getSlotTime
  rw [if_neg (by omega), if_neg (by omega)]

/-- Before the last second of 32-bit time the next slot has a time. -/
theorem getSlotTime_one {o : Objects Name Rest} (h : 1 ≤ o.headBlockNumber)
    (ht : o.time + 1 < uint32Size) :
    o.getSlotTime 1 = o.time / blockInterval * blockInterval + blockInterval := by
  rw [getSlotTime_of_head h (Nat.le_refl 1)]
  simp only [uint32Size, blockInterval] at *
  omega

/-- A time in a slot after the head's: the slots since then. -/
theorem getSlotAtTime_of_le {o : Objects Name Rest} (h : 1 ≤ o.headBlockNumber)
    (ht : o.time + 1 < uint32Size) {t : Nat} (hfirst : o.getSlotTime 1 ≤ t) :
    o.getSlotAtTime t = t / blockInterval - o.time / blockInterval ∧
      o.time / blockInterval < t / blockInterval := by
  unfold getSlotAtTime
  rw [if_neg (by omega)]
  rw [getSlotTime_one h ht] at *
  simp only [blockInterval] at *
  omega

theorem getSlotAtTime_mono (o : Objects Name Rest) : Monotone o.getSlotAtTime := by
  intro s t hst
  unfold getSlotAtTime
  by_cases hs : s < o.getSlotTime 1
  · simp [hs]
  · rw [if_neg hs, if_neg (by omega)]
    exact Nat.succ_le_succ (Nat.div_le_div_right (by omega))

/-- Slot `n` is found again at its own time exactly when that time has 32 bits. -/
theorem getSlotAtTime_getSlotTime_iff {o : Objects Name Rest} (h : 1 ≤ o.headBlockNumber)
    (ht : o.time + 1 < uint32Size) {n : Nat} (hn : 1 ≤ n) :
    o.getSlotAtTime (o.getSlotTime n) = n ↔
      o.time / blockInterval * blockInterval + n * blockInterval < uint32Size := by
  have hone := getSlotTime_one h ht
  rw [getSlotAtTime, hone, getSlotTime_of_head h hn]
  generalize o.time / blockInterval * blockInterval = base at *
  by_cases hwrap : (base + n * blockInterval) % uint32Size < base + blockInterval
  · rw [if_pos hwrap]
    simp only [uint32Size, blockInterval] at *
    omega
  · rw [if_neg hwrap]
    simp only [uint32Size, blockInterval] at *
    omega

/-- The slot of a time starts no later, and the next one starts after it. -/
theorem getSlotTime_getSlotAtTime {o : Objects Name Rest} (h : 1 ≤ o.headBlockNumber)
    (ht : o.time + 1 < uint32Size) {t : Nat} (hfirst : o.getSlotTime 1 ≤ t)
    (hlast : t < uint32Size) :
    o.getSlotTime (o.getSlotAtTime t) ≤ t ∧
      (t < o.getSlotTime (o.getSlotAtTime t + 1) ↔ t + 1 < uint32Size) := by
  obtain ⟨hslot, hlt⟩ := getSlotAtTime_of_le h ht hfirst
  rw [hslot, getSlotTime_of_head h (by omega), getSlotTime_of_head h (by omega)]
  simp only [uint32Size, blockInterval] at *
  omega

end Slots

/-! ## The slots a block skips -/

section Missed

variable {Name : Type u} {Tx : Type v} {Other : Type w} [DecidableEq Name]

/-- `missed_blocks` of `update_global_dynamic_data`. -/
def missedBlocks {Rest : Type w} (o : Objects Name Rest) (b : SignedBlock Name Tx) : Nat :=
  if o.time ≠ 0 then o.getSlotAtTime b.timestamp - 1 else 0

/-- The witness of a slot in the schedule `s`. -/
def scheduledIn (o : Objects Name (ScheduleState Name Other)) (s : ScheduleState Name Other)
    (slotNum : Nat) : Option Name :=
  s.currentShuffledWitnesses[(o.currentAslot + slotNum) % s.currentShuffledWitnesses.length]?

/-- A witness misses its slot. After a day without a confirmation it loses its
signing key. -/
def miss (o : Objects Name (ScheduleState Name Other)) (s : ScheduleState Name Other) (name : Name)
    (w : WitnessRecord) : ScheduleState Name Other :=
  { s with
    witnesses := fun n =>
      if n = name then
        some { totalMissed := w.totalMissed + 1
               signingKey :=
                if blocksPerDay < sub32 o.headBlockNumber (o.lastConfirmedBlockNum name) then noKey
                else w.signingKey }
      else s.witnesses n }

/-- The loop of `update_global_dynamic_data` over `count` slots from `slotNum` on. -/
def missLoop (o : Objects Name (ScheduleState Name Other)) (b : SignedBlock Name Tx) :
    Nat → Nat → ScheduleState Name Other → ScheduleState Name Other × Option ChainException
  | 0, _, s => (s, none)
  | count + 1, slotNum, s =>
      match o.scheduledIn s slotNum with
      | none => (s, some (.assertion "no scheduled witness"))
      | some name =>
          match s.witnesses name with
          | none => (s, some (.assertion "unknown key"))
          | some w =>
              missLoop o b count (slotNum + 1) (if name ≠ b.witness then o.miss s name w else s)

/-- The witnesses of the slots the block skips. -/
def recordMissed (o : Objects Name (ScheduleState Name Other)) (b : SignedBlock Name Tx) :
    ScheduleState Name Other × Option ChainException :=
  o.missLoop b (o.missedBlocks b) 1 o.rest

/-- `total_missed` of a witness. -/
def totalMissed (s : ScheduleState Name Other) (name : Name) : Nat :=
  ((s.witnesses name).map WitnessRecord.totalMissed).getD 0

omit [DecidableEq Name] in
theorem scheduledIn_congr {o : Objects Name (ScheduleState Name Other)}
    {s s' : ScheduleState Name Other}
    (h : s'.currentShuffledWitnesses = s.currentShuffledWitnesses) :
    o.scheduledIn s' = o.scheduledIn s := by
  funext k
  rw [scheduledIn, scheduledIn, h]

theorem totalMissed_miss {o : Objects Name (ScheduleState Name Other)}
    {s : ScheduleState Name Other} {name : Name} {w : WitnessRecord}
    (hw : s.witnesses name = some w) (n : Name) :
    totalMissed (o.miss s name w) n = totalMissed s n + if n = name then 1 else 0 := by
  by_cases hn : n = name
  · subst hn
    simp [totalMissed, miss, hw]
  · simp [totalMissed, miss, hn]

/-- The loop charges every witness once for each of its slots, but for the
producer of the block. -/
theorem missLoop_totalMissed {o : Objects Name (ScheduleState Name Other)}
    {b : SignedBlock Name Tx} {count slotNum : Nat} {s s' : ScheduleState Name Other}
    (h : o.missLoop b count slotNum s = (s', none)) (n : Name) :
    totalMissed s' n = totalMissed s n +
      if n = b.witness then 0
      else (List.range' slotNum count).countP fun k => o.scheduledIn s k = some n := by
  induction count generalizing slotNum s with
  | zero =>
      simp only [missLoop, Prod.mk.injEq, and_true] at h
      simp [h]
  | succ count ih =>
      unfold missLoop at h
      cases hname : o.scheduledIn s slotNum with
      | none => simp [hname] at h
      | some name =>
          cases hw : s.witnesses name with
          | none => simp [hname, hw] at h
          | some w =>
              simp only [hname, hw] at h
              have hsched : o.scheduledIn (if name ≠ b.witness then o.miss s name w else s) =
                  o.scheduledIn s := by
                refine scheduledIn_congr ?_
                split <;> rfl
              rw [ih h, hsched, List.range'_succ, List.countP_cons, hname]
              by_cases hn : n = b.witness
              · by_cases hb : name = b.witness
                · simp [hn, hb]
                · have hne : b.witness ≠ name := fun heq => hb heq.symm
                  simp [hn, hb, totalMissed_miss hw, hne]
              · by_cases hb : name = b.witness
                · have hne : b.witness ≠ n := fun heq => hn heq.symm
                  simp [hn, hb, hne]
                · by_cases hnn : n = name
                  · simp [hb, totalMissed_miss hw, hnn]
                    omega
                  · have hne : name ≠ n := fun heq => hnn heq.symm
                    simp [hn, hb, totalMissed_miss hw, hnn, hne]

end Missed

/-! ## Chains -/

section Chains

variable {Name : Type u} {Tx : Type v} {Rest : Type w} [DecidableEq Name]

/-- The blocks are accepted one after the other from `o` on, each leading to
the objects beside it. -/
def Accepted (ev : Evaluators Name Tx Rest) :
    Objects Name Rest → List (SignedBlock Name Tx × Objects Name Rest) → Prop
  | _, [] => True
  | o, e :: rest => o.afterBlock ev e.1 = .ok e.2 ∧ Accepted ev e.2 rest

/-- The slots without a block between the slot `s` and the later ones of the blocks. -/
def emptySlots : Nat → List (SignedBlock Name Tx) → Nat
  | _, [] => 0
  | s, b :: rest =>
      b.timestamp / blockInterval - s - 1 + emptySlots (b.timestamp / blockInterval) rest

/-- The slots without a block of a chain that starts at `o`. -/
def missedSlots (o : Objects Name Rest) : List (SignedBlock Name Tx) → Nat
  | [] => 0
  | b :: rest =>
      o.getSlotAtTime b.timestamp - 1 + emptySlots (b.timestamp / blockInterval) rest

/-- A header is accepted only in a slot after the head's, by the witness of the slot. -/
theorem slot_of_validateBlockHeader {ev : Evaluators Name Tx Rest} {o : Objects Name Rest}
    {b : SignedBlock Name Tx} (h : o.validateBlockHeader ev b = .ok ()) :
    0 < o.getSlotAtTime b.timestamp ∧
      o.getScheduledWitness ev (o.getSlotAtTime b.timestamp) = some b.witness := by
  unfold validateBlockHeader at h
  by_cases hp : o.headBlockId ≠ b.previous
  · simp [hp] at h
  by_cases ht : ¬o.time < b.timestamp
  · simp [hp, ht] at h
  by_cases hw : ¬ev.hasWitness o.rest b.witness
  · simp [hp, ht, hw] at h
  by_cases hs : ev.signee b ≠ ev.signingKey o.rest b.witness
  · simp [hp, ht, hw, hs] at h
  rw [if_neg hp, if_neg ht, if_neg hw, if_neg hs] at h
  by_cases h0 : 0 < o.getSlotAtTime b.timestamp
  · rw [if_neg (not_not.mpr h0)] at h
    by_cases hsched : o.getScheduledWitness ev (o.getSlotAtTime b.timestamp) ≠ some b.witness
    · simp [hsched] at h
    · exact ⟨h0, not_not.mp hsched⟩
  · simp [h0] at h

/-- What an accepted block did: its header was checked, the witnesses of the
skipped slots were charged, and the head moved to its slot. -/
structure Moves (ev : Evaluators Name Tx Rest) (o : Objects Name Rest) (b : SignedBlock Name Tx)
    (o' : Objects Name Rest) : Prop where
  valid : (o.setRest (ev.prepare o b).1).validateBlockHeader ev b = .ok ()
  missed : (ev.recordMissed ((o.setRest (ev.prepare o b).1).setRest
    (ev.execute (o.setRest (ev.prepare o b).1) b).1) b).2 = none
  headBlockNumber : o'.headBlockNumber = b.blockNum
  time : o'.time = b.timestamp
  currentAslot : o'.currentAslot = o.currentAslot + o.missedBlocks b + 1

theorem updateSigningWitness_time (o : Objects Name Rest) (b : SignedBlock Name Tx) :
    (o.updateSigningWitness b).time = o.time ∧
      (o.updateSigningWitness b).currentAslot = o.currentAslot := by
  unfold updateSigningWitness
  split <;> exact ⟨rfl, rfl⟩

/-- A header that goes through, whatever the later routines make of the rest. -/
theorem applyHeader_moves {ev : Evaluators Name Tx Rest} {o p : Objects Name Rest}
    {b : SignedBlock Name Tx} (h : o.applyHeader ev b = (p, none)) (lib : Nat) (r : Rest) :
    Moves ev o b ({ p with lastIrreversibleBlockNum := lib }.setRest r) := by
  unfold applyHeader at h
  cases hprep : ev.prepare o b with
  | mk r₁ e =>
      cases e with
      | some e => simp [hprep] at h
      | none =>
          simp only [hprep] at h
          cases hval : (o.setRest r₁).validateBlockHeader ev b with
          | error e => simp [hval] at h
          | ok _ =>
              simp only [hval] at h
              cases hexec : ev.execute (o.setRest r₁) b with
              | mk r₂ e =>
                  cases e with
                  | some e => simp [hexec] at h
                  | none =>
                      simp only [hexec] at h
                      cases hmiss : ev.recordMissed ((o.setRest r₁).setRest r₂) b with
                      | mk r₃ e =>
                          cases e with
                          | some e => simp [hmiss] at h
                          | none =>
                              simp only [hmiss] at h
                              by_cases hundo : sub32
                                  ((((o.setRest r₁).setRest r₂).setRest r₃).advanceHead
                                    b).headBlockNumber
                                  ((((o.setRest r₁).setRest r₂).setRest r₃).advanceHead
                                    b).lastIrreversibleBlockNum < maxUndoHistory
                              · rw [if_pos hundo] at h
                                simp only [Prod.mk.injEq, and_true] at h
                                subst h
                                have htime := updateSigningWitness_time
                                  ((((o.setRest r₁).setRest r₂).setRest r₃).advanceHead b) b
                                exact
                                  { valid := by rw [hprep]; exact hval
                                    missed := by rw [hprep, hexec, hmiss]
                                    headBlockNumber := updateSigningWitness_headBlockNumber _ b
                                    time := htime.1
                                    currentAslot := htime.2 }
                              · rw [if_neg hundo] at h
                                simp at h

theorem afterBlock_moves {ev : Evaluators Name Tx Rest} {o o' : Objects Name Rest}
    {b : SignedBlock Name Tx} (h : o.afterBlock ev b = .ok o') : Moves ev o b o' := by
  unfold afterBlock at h
  cases hheader : o.applyHeader ev b with
  | mk p e =>
      cases e with
      | some e => simp [hheader] at h
      | none =>
          simp only [hheader] at h
          cases hlib : p.newLastIrreversible ev with
          | error e => simp [hlib] at h
          | ok lib =>
              simp only [hlib] at h
              cases hfin : ev.finish { p with lastIrreversibleBlockNum := lib } b with
              | mk r e =>
                  cases e with
                  | some e => simp [hfin] at h
                  | none =>
                      simp only [hfin, Except.ok.injEq] at h
                      subst h
                      exact applyHeader_moves hheader _ _

theorem Moves.later {ev : Evaluators Name Tx Rest} {o o' : Objects Name Rest}
    {b : SignedBlock Name Tx} (h : Moves ev o b o') : o.time < b.timestamp := by
  have hlater := time_of_validateBlockHeader h.valid
  exact hlater

/-- The block's slot is after the head's, and `current_aslot` moves along. -/
theorem Moves.slot {ev : Evaluators Name Tx Rest} {o o' : Objects Name Rest}
    {b : SignedBlock Name Tx} (h : Moves ev o b o') (hhead : 1 ≤ o.headBlockNumber)
    (htime : o.time ≠ 0) (hb : b.timestamp < uint32Size) :
    o.time / blockInterval < b.timestamp / blockInterval ∧
      o'.currentAslot + o.time / blockInterval = o.currentAslot + b.timestamp / blockInterval := by
  have hafter := h.later
  have hslot : 0 < o.getSlotAtTime b.timestamp := (slot_of_validateBlockHeader h.valid).1
  have hfirst : o.getSlotTime 1 ≤ b.timestamp := by
    by_contra hlt
    rw [getSlotAtTime, if_pos (by omega)] at hslot
    omega
  obtain ⟨heq, hlt⟩ := getSlotAtTime_of_le hhead (by omega) hfirst
  refine ⟨hlt, ?_⟩
  rw [h.currentAslot, missedBlocks, if_pos htime, heq]
  omega

/-- What holds of the blocks accepted on top of a block. -/
structure OnTop (o : Objects Name Rest) (chain : List (SignedBlock Name Tx × Objects Name Rest)) :
    Prop where
  later : ∀ e ∈ chain, o.time / blockInterval < e.1.timestamp / blockInterval
  aslot : ∀ e ∈ chain,
    e.2.currentAslot + o.time / blockInterval = o.currentAslot + e.2.time / blockInterval
  distinct : chain.Pairwise fun e e' =>
    e.1.timestamp / blockInterval < e'.1.timestamp / blockInterval
  counted : ∀ e ∈ chain.getLast?, e.2.currentAslot =
    o.currentAslot + chain.length + emptySlots (o.time / blockInterval) (chain.map Prod.fst)

/-- On top of a block every accepted block has a slot of its own, and
`current_aslot` counts the slots. -/
theorem Accepted.onTop {ev : Evaluators Name Tx Rest} {o : Objects Name Rest}
    {chain : List (SignedBlock Name Tx × Objects Name Rest)} (h : Accepted ev o chain)
    (hhead : 1 ≤ o.headBlockNumber) (htime : o.time ≠ 0)
    (hb : ∀ e ∈ chain, e.1.timestamp < uint32Size) : OnTop o chain := by
  induction chain generalizing o with
  | nil => exact ⟨by simp, by simp, List.Pairwise.nil, by simp⟩
  | cons e rest ih =>
      obtain ⟨hstep, hrest⟩ := h
      have hmoves := afterBlock_moves hstep
      obtain ⟨hlt, haslot⟩ := hmoves.slot hhead htime (hb e List.mem_cons_self)
      have hafter := hmoves.later
      have hnext := ih hrest (by rw [hmoves.headBlockNumber, SignedBlock.blockNum]; omega)
        (by rw [hmoves.time]; omega) fun e' he' => hb e' (List.mem_cons_of_mem e he')
      have hlater : ∀ e' ∈ rest,
          e.1.timestamp / blockInterval < e'.1.timestamp / blockInterval := by
        intro e' he'
        have := hnext.later e' he'
        rwa [hmoves.time] at this
      refine ⟨?_, ?_, List.pairwise_cons.mpr ⟨hlater, hnext.distinct⟩, ?_⟩
      · intro e' he'
        rcases List.mem_cons.mp he' with rfl | he'
        · exact hlt
        · have := hlater e' he'
          omega
      · intro e' he'
        rcases List.mem_cons.mp he' with rfl | he'
        · rw [hmoves.time]
          exact haslot
        · have := hnext.aslot e' he'
          rw [hmoves.time] at this
          omega
      · intro last hlast
        simp only [List.map_cons, emptySlots, List.length_cons]
        cases hr : rest.getLast? with
        | none =>
            obtain rfl := List.getLast?_eq_none_iff.mp hr
            simp only [List.getLast?_singleton, Option.mem_some_iff] at hlast
            subst hlast
            simp only [List.map_nil, emptySlots, List.length_nil]
            omega
        | some last' =>
            have hsame : last' = last := by
              rw [List.getLast?_cons, hr] at hlast
              exact Option.some.inj hlast
            subst hsame
            have := hnext.counted last' hr
            rw [hmoves.time] at this
            omega

end Chains

/-! ## Slots and time agree -/

section Agreement

variable {Name : Type u} {Tx : Type v} {Other : Type w} [DecidableEq Name]

/-- Before the last second of 32-bit time: a slot whose time has 32 bits is
found again at its time, later times have later slots, and every time from
the next slot on is between the times of its slot and the one after. -/
structure RoundsToSlots {Rest : Type w} (o : Objects Name Rest) : Prop where
  slotOfTime : ∀ n, 1 ≤ n → (o.getSlotAtTime (o.getSlotTime n) = n ↔
    o.time / blockInterval * blockInterval + n * blockInterval < uint32Size)
  mono : Monotone o.getSlotAtTime
  start : ∀ t, o.getSlotTime 1 ≤ t → t < uint32Size → o.getSlotTime (o.getSlotAtTime t) ≤ t
  finish : ∀ t, o.getSlotTime 1 ≤ t → t < uint32Size →
    (t < o.getSlotTime (o.getSlotAtTime t + 1) ↔ t + 1 < uint32Size)

/-- The witnesses, their schedule and the loop over the missed slots as the
source has them; the other routines as in `ev`. -/
def onSchedule (ev : Evaluators Name Tx (ScheduleState Name Other)) :
    Evaluators Name Tx (ScheduleState Name Other) :=
  { ev with
    hasWitness := fun s name => (s.witnesses name).isSome
    signingKey := fun s name => ((s.witnesses name).map WitnessRecord.signingKey).getD noKey
    scheduledWitnesses := ScheduleState.currentShuffledWitnesses
    recordMissed := recordMissed }

/-- The witness checked for the block's slot is the one the loop over the
missed slots skips: every other witness is charged once for each slot of its
own before the block's. -/
def SkipsProducer (ev : Evaluators Name Tx (ScheduleState Name Other))
    (o : Objects Name (ScheduleState Name Other)) (b : SignedBlock Name Tx) : Prop :=
  let checked := o.setRest (ev.prepare o b).1
  let executed := checked.setRest (ev.execute checked b).1
  let witness := checked.getScheduledWitness (onSchedule ev) (checked.getSlotAtTime b.timestamp)
  witness = some b.witness ∧
    ∀ name, totalMissed (executed.recordMissed b).1 name = totalMissed executed.rest name +
      if some name = witness then 0
      else (List.range' 1 (checked.getSlotAtTime b.timestamp - 1)).countP fun k =>
        executed.getScheduledWitness (onSchedule ev) k = some name

/-- What holds of a chain accepted from the genesis objects `g` on. -/
structure CountsSlots (ev : Evaluators Name Tx (ScheduleState Name Other))
    (g : Objects Name (ScheduleState Name Other))
    (chain : List (SignedBlock Name Tx × Objects Name (ScheduleState Name Other))) : Prop where
  constant : ∀ e ∈ chain, ∀ e' ∈ chain,
    (e.2.currentAslot : Int) - (e.2.time / blockInterval : Nat) =
      (e'.2.currentAslot : Int) - (e'.2.time / blockInterval : Nat)
  distinct : chain.Pairwise fun e e' =>
    e.1.timestamp / blockInterval ≠ e'.1.timestamp / blockInterval
  counted : ∀ e ∈ chain.getLast?,
    e.2.currentAslot = chain.length + missedSlots g (chain.map Prod.fst)
  skipped : ∀ s ∈ (g :: chain.map Prod.snd).zip (chain.map Prod.fst), SkipsProducer ev s.1 s.2

theorem Moves.skipsProducer {ev : Evaluators Name Tx (ScheduleState Name Other)}
    {o o' : Objects Name (ScheduleState Name Other)} {b : SignedBlock Name Tx}
    (h : Moves (onSchedule ev) o b o') (htime : o.time ≠ 0) : SkipsProducer ev o b := by
  have hwitness := (slot_of_validateBlockHeader h.valid).2
  refine ⟨hwitness, fun name => ?_⟩
  -- the loop ran to its end
  have hloop : (((o.setRest (ev.prepare o b).1).setRest
      (ev.execute (o.setRest (ev.prepare o b).1) b).1).recordMissed b).2 = none := h.missed
  generalize hq : (o.setRest (ev.prepare o b).1).setRest
    (ev.execute (o.setRest (ev.prepare o b).1) b).1 = q at hloop
  have hmissed : q.missedBlocks b =
      (o.setRest (ev.prepare o b).1).getSlotAtTime b.timestamp - 1 := by
    rw [← hq]
    exact if_pos htime
  have hproducer : some name = (o.setRest (ev.prepare o b).1).getScheduledWitness
      (onSchedule ev) ((o.setRest (ev.prepare o b).1).getSlotAtTime b.timestamp) ↔
      name = b.witness := by
    have hw : (o.setRest (ev.prepare o b).1).getScheduledWitness (onSchedule ev)
      ((o.setRest (ev.prepare o b).1).getSlotAtTime b.timestamp) = some b.witness := hwitness
    rw [hw]
    exact Option.some_inj
  have hrun : q.missLoop b (q.missedBlocks b) 1 q.rest = ((q.recordMissed b).1, none) :=
    Prod.ext rfl hloop
  have htotal := missLoop_totalMissed hrun name
  rw [hmissed] at htotal
  by_cases hname : name = b.witness
  · rw [if_pos hname] at htotal
    rw [if_pos (hproducer.mpr hname)]
    exact htotal
  · rw [if_neg hname] at htotal
    rw [if_neg fun h => hname (hproducer.mp h)]
    exact htotal

theorem Accepted.skipsProducer {ev : Evaluators Name Tx (ScheduleState Name Other)}
    {o : Objects Name (ScheduleState Name Other)}
    {chain : List (SignedBlock Name Tx × Objects Name (ScheduleState Name Other))}
    (h : Accepted (onSchedule ev) o chain) (htime : o.time ≠ 0) :
    ∀ s ∈ (o :: chain.map Prod.snd).zip (chain.map Prod.fst), SkipsProducer ev s.1 s.2 := by
  induction chain generalizing o with
  | nil => simp
  | cons e rest ih =>
      obtain ⟨hstep, hrest⟩ := h
      have hmoves := afterBlock_moves hstep
      have hnext : e.2.time ≠ 0 := by
        have := hmoves.later
        rw [hmoves.time]
        omega
      intro s hs
      rcases List.mem_cons.mp hs with rfl | hs
      · exact hmoves.skipsProducer htime
      · exact ih hrest hnext s hs

/-- **Slots and time agree**: before the last second of 32-bit time the slots
of a state after block 1 and the times match; and over every chain from
genesis on whose headers are checked, `current_aslot` and the slot of the
head's time keep their distance, no two blocks have the same slot,
`current_aslot` counts blocks and missed slots, and each block's producer is
the witness that the loop over the missed slots skips. -/
theorem slots_agree_with_time (ev : Evaluators Name Tx (ScheduleState Name Other)) :
    (∀ o : Objects Name (ScheduleState Name Other), 1 ≤ o.headBlockNumber →
      o.time + 1 < uint32Size → o.RoundsToSlots) ∧
    ∀ (g : Objects Name (ScheduleState Name Other))
      (chain : List (SignedBlock Name Tx × Objects Name (ScheduleState Name Other))),
      g.headBlockNumber = 0 → g.currentAslot = 0 → g.time ≠ 0 →
      (∀ e ∈ chain, e.1.timestamp < uint32Size) → Accepted (onSchedule ev) g chain →
      CountsSlots ev g chain := by
  constructor
  · intro o hhead htime
    exact ⟨fun n hn => getSlotAtTime_getSlotTime_iff hhead htime hn, o.getSlotAtTime_mono,
      fun t hfirst hlast => (getSlotTime_getSlotAtTime hhead htime hfirst hlast).1,
      fun t hfirst hlast => (getSlotTime_getSlotAtTime hhead htime hfirst hlast).2⟩
  · intro g chain _ haslot htime hb hchain
    have hskipped := hchain.skipsProducer htime
    cases chain with
    | nil => exact ⟨by simp, List.Pairwise.nil, by simp, hskipped⟩
    | cons e rest =>
        obtain ⟨hstep, hrest⟩ := hchain
        have hmoves := afterBlock_moves hstep
        have hafter := hmoves.later
        have htop := hrest.onTop (by rw [hmoves.headBlockNumber, SignedBlock.blockNum]; omega)
          (by rw [hmoves.time]; omega) fun e' he' => hb e' (List.mem_cons_of_mem e he')
        have hfirst : e.2.currentAslot = g.getSlotAtTime e.1.timestamp - 1 + 1 := by
          rw [hmoves.currentAslot, haslot, missedBlocks, if_pos htime, Nat.zero_add]
        -- every later state is at the first one's distance
        have hall : ∀ e' ∈ e :: rest, e'.2.currentAslot + e.2.time / blockInterval =
            e.2.currentAslot + e'.2.time / blockInterval := by
          intro e' he'
          rcases List.mem_cons.mp he' with rfl | he'
          · rfl
          · exact htop.aslot e' he'
        refine ⟨fun a ha c hc => ?_, ?_, fun last hlast => ?_, hskipped⟩
        · have h1 := hall a ha
          have h2 := hall c hc
          omega
        · refine List.pairwise_cons.mpr ⟨fun e' he' => ?_, htop.distinct.imp fun h => h.ne⟩
          have hlt := htop.later e' he'
          rw [hmoves.time] at hlt
          exact hlt.ne
        · simp only [List.map_cons, missedSlots, List.length_cons]
          cases hr : rest.getLast? with
          | none =>
              obtain rfl := List.getLast?_eq_none_iff.mp hr
              simp only [List.getLast?_singleton, Option.mem_some_iff] at hlast
              subst hlast
              simp only [List.map_nil, emptySlots, List.length_nil]
              omega
          | some last' =>
              have hsame : last' = last := by
                rw [List.getLast?_cons, hr] at hlast
                exact Option.some.inj hlast
              subst hsame
              have hcount := htop.counted last' hr
              rw [hmoves.time] at hcount
              omega

end Agreement

end Objects

/-! ### Two witnesses in turn -/

/-- The routines of a chain of empty blocks. -/
def emptyBlocks : Evaluators Nat Nat (ScheduleState Nat Unit) where
  hasWitness _ _ := true
  signingKey _ _ := 7
  signee _ := 7
  scheduledWitnesses _ := []
  prepare o _ := (o.rest, none)
  execute o _ := (o.rest, none)
  recordMissed o _ := (o.rest, none)
  finish o _ := (o.rest, none)
  applyTransaction o _ := (o.rest, none)
  isKnownTransaction _ _ := false
  packSize _ := 100
  blockSize _ := 100
  maximumBlockSize _ := 65536
  expiration _ := 4000000
  headerHash _ _ _ _ _ := 9

/-- Genesis, or block 1 one slot later. -/
def startOfChain (headBlockNumber time : Nat) : Objects Nat (ScheduleState Nat Unit) where
  headBlockNumber := headBlockNumber
  headBlockId := ⟨headBlockNumber, 0⟩
  time := time
  currentAslot := headBlockNumber
  lastIrreversibleBlockNum := 0
  lastConfirmedBlockNum _ := 0
  lastAslot _ := 0
  applied := []
  rest := ⟨fun _ => some ⟨0, 7⟩, [0, 1], ()⟩

/-- Block 1 in its slot, and block 2 three slots and one second later. -/
def gapBlocks : List (SignedBlock Nat Nat) :=
  [⟨⟨0, 0⟩, 1458835203, 1, [], 1⟩, ⟨⟨1, 1⟩, 1458835213, 0, [], 2⟩]

/-- The blocks with the objects each leads to, up to the first that fails. -/
def acceptedChain (o : Objects Nat (ScheduleState Nat Unit)) :
    List (SignedBlock Nat Nat) →
      List (SignedBlock Nat Nat × Objects Nat (ScheduleState Nat Unit))
  | [] => []
  | b :: rest =>
      match o.afterBlock (Objects.onSchedule emptyBlocks) b with
      | .error _ => []
      | .ok o' => (b, o') :: acceptedChain o' rest

theorem acceptedChain_accepted (o : Objects Nat (ScheduleState Nat Unit))
    (blocks : List (SignedBlock Nat Nat)) :
    Objects.Accepted (Objects.onSchedule emptyBlocks) o (acceptedChain o blocks) := by
  induction blocks generalizing o with
  | nil => trivial
  | cons b rest ih =>
      unfold acceptedChain
      cases h : o.afterBlock (Objects.onSchedule emptyBlocks) b with
      | error e => trivial
      | ok o' => exact ⟨h, ih o'⟩

/-- The time of slot 2147483648 wraps around, and so does the slot after the
last second. -/
theorem slot_times_wrap :
    (startOfChain 1 1458835203).getSlotAtTime
      ((startOfChain 1 1458835203).getSlotTime 2147483648) ≠ 2147483648 ∧
    (startOfChain 1 1458835203).getSlotTime 1 ≤ 4294967295 ∧
    ¬4294967295 < (startOfChain 1 1458835203).getSlotTime
      ((startOfChain 1 1458835203).getSlotAtTime 4294967295 + 1) := by
  refine ⟨?_, ?_, ?_⟩ <;> decide +kernel

theorem slots_agree_with_time_gap :
    (startOfChain 1 1458835203).RoundsToSlots ∧
    (acceptedChain (startOfChain 0 1458835200) gapBlocks).map (fun e => e.2.currentAslot) = [1, 4] ∧
    Objects.CountsSlots emptyBlocks (startOfChain 0 1458835200)
      (acceptedChain (startOfChain 0 1458835200) gapBlocks) :=
  ⟨(Objects.slots_agree_with_time emptyBlocks).1 _ (by decide) (by decide), by decide +kernel,
    (Objects.slots_agree_with_time emptyBlocks).2 _ _ rfl rfl (by decide) (by decide +kernel)
      (acceptedChain_accepted _ _)⟩

end Gamebank.Chain
