import Gamebank.Chain.Routines
import Gamebank.Chain.Slots

/-!
# Witnesses that are shut down

A witness that misses a slot loses its signing key when the number of the
head exceeds its last confirmed block by more than the blocks of a day, and
`shutdown_witness_operation` is pushed. The difference is one of unsigned
numbers, and `confirm_block` records the number **after** the head. So a
witness whose header was confirmed, but whose block was then passed over, is
shut down at once: the difference wraps round.

`Watched` records the operations pushed, with the two numbers. In a run
without accepted confirmations every one of them comes after a day of silence.
-/

namespace Gamebank.Chain

open Gamebank.Lib

universe u v w

variable {Name : Type u} {Tx : Type v} {Other : Type w}

/-- A `shutdown_witness_operation`, with the number of the head and
`last_confirmed_block_num` of the witness as they were. -/
structure WitnessShutdown (Name : Type u) where
  owner : Name
  headBlockNum : Nat
  lastConfirmedBlockNum : Nat
deriving DecidableEq

namespace WitnessShutdown

/-- The witness has confirmed nothing for more than a day. -/
def AfterSilence (s : WitnessShutdown Name) : Prop :=
  s.lastConfirmedBlockNum + blocksPerDay < s.headBlockNum

/-- The witness was silent, or its last confirmation is above the head, by at
most `slack`. -/
def Within (slack : Nat) (s : WitnessShutdown Name) : Prop :=
  s.AfterSilence ∨
    s.headBlockNum < s.lastConfirmedBlockNum ∧ s.lastConfirmedBlockNum ≤ s.headBlockNum + slack

/-- What the unsigned comparison says of numbers that are near. -/
theorem within_of_sub32 {s : WitnessShutdown Name} {slack : Nat}
    (hnear : s.lastConfirmedBlockNum ≤ s.headBlockNum + slack)
    (h : blocksPerDay < sub32 s.headBlockNum s.lastConfirmedBlockNum) : s.Within slack := by
  rcases Nat.lt_or_ge s.headBlockNum s.lastConfirmedBlockNum with hearly | hle
  · exact Or.inr ⟨hearly, hnear⟩
  · refine Or.inl ?_
    have hsub : sub32 s.headBlockNum s.lastConfirmedBlockNum ≤
        s.headBlockNum - s.lastConfirmedBlockNum := by
      unfold sub32 uint32Size
      omega
    show s.lastConfirmedBlockNum + blocksPerDay < s.headBlockNum
    omega

end WitnessShutdown

/-! ## The operations pushed -/

namespace Objects

variable [DecidableEq Name]

/-- What the loop over `count` slots from `slotNum` on pushes. -/
def pushedShutdowns (o : Objects Name (ScheduleState Name Other)) (b : SignedBlock Name Tx) :
    Nat → Nat → ScheduleState Name Other → List (WitnessShutdown Name)
  | 0, _, _ => []
  | count + 1, slotNum, s =>
      match o.scheduledIn s slotNum with
      | none => []
      | some name =>
          match s.witnesses name with
          | none => []
          | some w =>
              if name ≠ b.witness then
                if blocksPerDay < sub32 o.headBlockNumber (o.lastConfirmedBlockNum name) then
                  ⟨name, o.headBlockNumber, o.lastConfirmedBlockNum name⟩ ::
                    pushedShutdowns o b count (slotNum + 1) (o.miss s name w)
                else pushedShutdowns o b count (slotNum + 1) (o.miss s name w)
              else pushedShutdowns o b count (slotNum + 1) s

/-- What a block pushes for the slots it skips. -/
def shutdowns (o : Objects Name (ScheduleState Name Other)) (b : SignedBlock Name Tx) :
    List (WitnessShutdown Name) :=
  o.pushedShutdowns b (o.missedBlocks b) 1 o.rest

theorem pushedShutdowns_cons {o : Objects Name (ScheduleState Name Other)}
    {b : SignedBlock Name Tx} {count slotNum : Nat} {s : ScheduleState Name Other} {name : Name}
    {w : WitnessRecord} (hname : o.scheduledIn s slotNum = some name)
    (hw : s.witnesses name = some w) (hb : name ≠ b.witness) :
    o.pushedShutdowns b (count + 1) slotNum s =
      (if blocksPerDay < sub32 o.headBlockNumber (o.lastConfirmedBlockNum name) then
        [⟨name, o.headBlockNumber, o.lastConfirmedBlockNum name⟩] else []) ++
        o.pushedShutdowns b count (slotNum + 1) (o.miss s name w) := by
  rw [pushedShutdowns]
  simp only [hname, hw, if_pos hb]
  split <;> rfl

/-- Every operation says what the loop compared. -/
theorem mem_pushedShutdowns {o : Objects Name (ScheduleState Name Other)}
    {b : SignedBlock Name Tx} {count slotNum : Nat} {s : ScheduleState Name Other}
    {x : WitnessShutdown Name} (h : x ∈ o.pushedShutdowns b count slotNum s) :
    x.headBlockNum = o.headBlockNumber ∧
      x.lastConfirmedBlockNum = o.lastConfirmedBlockNum x.owner ∧
        blocksPerDay < sub32 x.headBlockNum x.lastConfirmedBlockNum := by
  induction count generalizing slotNum s with
  | zero => simp [pushedShutdowns] at h
  | succ count ih =>
      cases hname : o.scheduledIn s slotNum with
      | none => simp [pushedShutdowns, hname] at h
      | some name =>
          cases hw : s.witnesses name with
          | none => simp [pushedShutdowns, hname, hw] at h
          | some w =>
              by_cases hb : name ≠ b.witness
              · rw [pushedShutdowns_cons hname hw hb, List.mem_append] at h
                rcases h with hpushed | hrest
                · by_cases hsilent : blocksPerDay <
                      sub32 o.headBlockNumber (o.lastConfirmedBlockNum name)
                  · rw [if_pos hsilent, List.mem_singleton] at hpushed
                    subst hpushed
                    exact ⟨rfl, rfl, hsilent⟩
                  · simp [if_neg hsilent] at hpushed
                · exact ih hrest
              · rw [pushedShutdowns] at h
                simp only [hname, hw, if_neg hb] at h
                exact ih h

end Objects

/-! ## Runs -/

/-- The routines' state with the operations pushed on the present chain, in
their order. Nothing reads them. -/
structure Watched (Name : Type u) (Other : Type w) where
  shutdowns : List (WitnessShutdown Name)
  schedule : ScheduleState Name Other

namespace Watched

/-- What a routine leaves that pushes no such operation. -/
def keep (s : Watched Name Other) (r : ScheduleState Name Other × Option ChainException) :
    Watched Name Other × Option ChainException :=
  ({ s with schedule := r.1 }, r.2)

end Watched

namespace Objects

/-- The objects as the routines see them. -/
def unwatched (o : Objects Name (Watched Name Other)) : Objects Name (ScheduleState Name Other) :=
  { o with rest := o.rest.schedule }

variable [DecidableEq Name]

/-- The routines of `ev`, with the witnesses and the loop over the missed slots
as the source has them. -/
def watched (ev : Evaluators Name Tx (ScheduleState Name Other)) :
    Evaluators Name Tx (Watched Name Other) where
  hasWitness s := (onSchedule ev).hasWitness s.schedule
  signingKey s := (onSchedule ev).signingKey s.schedule
  signee := ev.signee
  scheduledWitnesses s := (onSchedule ev).scheduledWitnesses s.schedule
  prepare o b := o.rest.keep (ev.prepare o.unwatched b)
  execute o b := o.rest.keep (ev.execute o.unwatched b)
  recordMissed o b :=
    ({ shutdowns := o.rest.shutdowns ++ o.unwatched.shutdowns b
       schedule := (o.unwatched.recordMissed b).1 }, (o.unwatched.recordMissed b).2)
  finish o b := o.rest.keep (ev.finish o.unwatched b)
  applyTransaction o tx := o.rest.keep (ev.applyTransaction o.unwatched tx)
  isKnownTransaction s := ev.isKnownTransaction s.schedule
  packSize := ev.packSize
  blockSize := ev.blockSize
  maximumBlockSize s := ev.maximumBlockSize s.schedule
  expiration := ev.expiration
  headerHash o := ev.headerHash o.unwatched

/-- No confirmation is further above the head than `slack`, and none was when
a witness was shut down. -/
structure Attentive (slack : Nat) (o : Objects Name (Watched Name Other)) : Prop where
  idNum : o.headBlockId.num = o.headBlockNumber
  confirmed : ∀ w, o.lastConfirmedBlockNum w ≤ o.headBlockNumber + slack
  within : ∀ x ∈ o.rest.shutdowns, x.Within slack

variable {ev : Evaluators Name Tx (ScheduleState Name Other)} {slack : Nat}
  {o : Objects Name (Watched Name Other)}

namespace Attentive

omit [DecidableEq Name] in
theorem setRest (h : o.Attentive slack) {r : Watched Name Other}
    (hr : ∀ x ∈ r.shutdowns, x.Within slack) : (o.setRest r).Attentive slack :=
  ⟨h.idNum, h.confirmed, hr⟩

omit [DecidableEq Name] in
theorem advanceHead (h : o.Attentive slack) {b : SignedBlock Name Tx}
    (hprev : b.previous = o.headBlockId) : (o.advanceHead b).Attentive slack := by
  have hnum : b.blockNum = o.headBlockNumber + 1 := by
    rw [SignedBlock.blockNum, hprev, h.idNum]
  refine ⟨rfl, fun w => ?_, h.within⟩
  show o.lastConfirmedBlockNum w ≤ b.blockNum + slack
  have := h.confirmed w
  omega

theorem recordConfirmation (h : o.Attentive slack) {b : SignedBlock Name Tx}
    (hnum : b.blockNum ≤ o.headBlockNumber + slack) : (o.recordConfirmation b).Attentive slack := by
  refine ⟨h.idNum, fun w => ?_, h.within⟩
  simp only [Objects.recordConfirmation]
  split
  · exact hnum
  · exact h.confirmed w

/-- A block adds only operations within the slack. -/
theorem recordMissed (h : o.Attentive slack) (ev : Evaluators Name Tx (ScheduleState Name Other))
    (b : SignedBlock Name Tx) :
    ∀ x ∈ ((watched ev).recordMissed o b).1.shutdowns, x.Within slack := by
  intro x hx
  rcases List.mem_append.mp hx with hold | hnew
  · exact h.within x hold
  · obtain ⟨hhead, hlast, hsilent⟩ := mem_pushedShutdowns hnew
    refine WitnessShutdown.within_of_sub32 ?_ hsilent
    rw [hlast, hhead]
    exact h.confirmed x.owner

theorem applyHeader (h : o.Attentive slack) (b : SignedBlock Name Tx) :
    (o.applyHeader (watched ev) b).1.Attentive slack := by
  suffices hmoves : Attentive slack (o.applyHeader (watched ev) b).1 ∨
      (Attentive slack (o.applyHeader (watched ev) b).1 ∧
        (o.applyHeader (watched ev) b).1.headBlockNumber = b.blockNum) by
    exact hmoves.elim id And.left
  refine Objects.applyHeader_parts (P := Attentive slack)
    (M := fun q => b.previous = q.headBlockId)
    (S := fun q => q.Attentive slack ∧ q.headBlockNumber = b.blockNum) ?_ ?_ ?_ ?_
  · exact h.setRest h.within
  · intro p r e hp hvalid hexec
    obtain ⟨rfl, -⟩ := Prod.mk.inj hexec
    have hprev := Objects.previous_of_validateBlockHeader hvalid
    exact ⟨hp.setRest hp.within, fun _ => hprev⟩
  · intro p r e hp hprev hmissed
    have hr : ∀ x ∈ r.shutdowns, x.Within slack := by
      have hwithin := hp.recordMissed ev b
      rwa [hmissed] at hwithin
    exact ⟨fun _ => ⟨(hp.setRest hr).advanceHead hprev, rfl⟩, fun _ => hp.setRest hr⟩
  · intro p hp
    refine ⟨?_, (Objects.updateSigningWitness_headBlockNumber p b).trans hp.2⟩
    unfold Objects.updateSigningWitness
    split
    · exact hp.1
    · refine hp.1.recordConfirmation ?_
      rw [hp.2]
      exact Nat.le_add_right _ _

end Attentive

/-- Every routine but `confirm_block` leaves the confirmations where they are
or at the head. -/
theorem attentive_pushes (ev : Evaluators Name Tx (ScheduleState Name Other)) (slack : Nat) :
    KeptByPushes (watched ev) (Attentive slack) where
  transaction _ _ h := h.setRest h.within
  header _ b h := h.applyHeader b
  irreversible _ _ h := ⟨h.idNum, h.confirmed, h.within⟩
  finish _ _ h _ := h.setRest h.within

/-- A confirmation is of the number after the head. -/
theorem attentive_blocks (ev : Evaluators Name Tx (ScheduleState Name Other)) :
    KeptByBlocks (watched ev) (Attentive 1) where
  toKeptByPushes := attentive_pushes ev 1
  confirmation o b h hvalid := by
    refine h.recordConfirmation ?_
    rw [SignedBlock.blockNum, Objects.previous_of_validateBlockHeader hvalid, h.idNum]

/-- **Who is shut down.** After any calls, every witness shut down on the
present chain had been silent for a day, or was confirmed for the very next
block that then another witness made; the latter only if a confirmation was
accepted. -/
theorem shutdowns_after_silence (ev : Evaluators Name Tx (ScheduleState Name Other))
    (n : Node Name Tx (Watched Name Other)) (hopen : n.Opened)
    (hconfirmed : ∀ w, n.objects.lastConfirmedBlockNum w ≤ n.headBlockNum)
    (hstart : n.objects.rest.shutdowns = []) (steps : List (Step Name Tx)) :
    (∀ x ∈ (n.run (watched ev) steps).objects.rest.shutdowns,
      x.AfterSilence ∨ x.lastConfirmedBlockNum = x.headBlockNum + 1) ∧
    (Node.Along (watched ev) (Node.NoConfirmation (watched ev)) n steps →
      ∀ x ∈ (n.run (watched ev) steps).objects.rest.shutdowns, x.AfterSilence) := by
  have hall : ∀ slack, n.db.AllStates (Attentive slack) := by
    intro slack
    refine ⟨⟨hopen.headId, fun w => Nat.le_add_right_of_le (hconfirmed w), ?_⟩, ?_⟩
    · intro x hx
      have hnone : n.db.cur.rest.shutdowns = [] := hstart
      rw [hnone] at hx
      cases hx
    · rw [hopen.stack]
      simp
  refine ⟨fun x hx => ?_, fun hsteps x hx => ?_⟩
  · rcases ((attentive_blocks ev).run steps (hall 1)).1.within x hx with hsilent | hearly
    · exact Or.inl hsilent
    · exact Or.inr (Nat.le_antisymm hearly.2 hearly.1)
  · rcases ((attentive_pushes ev 0).run steps (hall 0) hsteps).1.within x hx with hsilent | hearly
    · exact hsilent
    · exact absurd hearly.2 (Nat.not_le.mpr hearly.1)

end Objects

/-! ### Confirmed and passed over -/

/-- Two witnesses in turn; witness 1 has the slot after the head. -/
def pairedNode : Node Nat Nat (Watched Nat Unit) where
  db :=
    { cur :=
        { headBlockNumber := 40000, headBlockId := ⟨40000, 1⟩, time := 120000,
          currentAslot := 40000, lastIrreversibleBlockNum := 39990,
          lastConfirmedBlockNum := fun _ => 39999, lastAslot := fun _ => 39999, applied := [],
          rest := ⟨[], fun _ => some ⟨0, 7⟩, [0, 1], ()⟩ }
      stack := []
      revision := 40000 }
  forkDb := ForkDatabase.empty.startBlock ⟨⟨39999, 0⟩, 120000, 0, [], 1⟩
  blockLog := [⟨⟨39999, 0⟩, 120000, 0, [], 1⟩]
  pendingTxSession := none
  pendingTx := []
  poppedTx := []
  committed := 40000

/-- The header of witness 1 in its slot is confirmed; the block of witness 0
in the next slot comes instead. -/
def passedOver : List (Step Nat Nat) :=
  [.confirmBlock ⟨⟨40000, 1⟩, 120003, 1, [], 2⟩, .pushBlock ⟨⟨40000, 1⟩, 120006, 0, [], 3⟩]

theorem passedOver_shutdown :
    (pairedNode.run (Objects.watched emptyBlocks) passedOver).objects.rest.shutdowns =
        [⟨1, 40000, 40001⟩] ∧
      (∀ x ∈ (pairedNode.run (Objects.watched emptyBlocks) passedOver).objects.rest.shutdowns,
        x.AfterSilence ∨ x.lastConfirmedBlockNum = x.headBlockNum + 1) ∧
      ∀ x ∈ (pairedNode.run (Objects.watched emptyBlocks) (passedOver.drop 1)
        ).objects.rest.shutdowns, x.AfterSilence := by
  have hshutdown := Objects.shutdowns_after_silence emptyBlocks pairedNode
    ⟨rfl, rfl, rfl, rfl, rfl, rfl, rfl, rfl⟩ (fun _ => by show 39999 ≤ 40000; decide) rfl
  exact ⟨by decide +kernel, (hshutdown passedOver).1, (hshutdown (passedOver.drop 1)).2
    ⟨trivial, trivial⟩⟩

end Gamebank.Chain
