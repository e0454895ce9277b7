import Gamebank.Stake.Witnesses
import Mathlib.Tactic.Linarith

/-!
# Virtual time

A witness moves along its lap at the speed of its votes. `InLap now w` says
that it has not passed its end at the virtual time `now`: its scheduled time is
when it would arrive, at the latest. The number of votes plus one divides the
rest of the lap, so a position is never past the end (`InLap.arrives`).

A witness with less than no votes would move backwards, so virtual time must
not go on while there is one. Votes are sums of vesting shares, which are not
negative unless a conversion has gone wrong.
-/

namespace Gamebank.Ledger

open Gamebank.Lib Gamebank.Protocol

/-- The witness is on its lap at the virtual time `now`. -/
structure InLap (now : Int) (w : Witness) : Prop where
  started : 0 ≤ w.virtualLastUpdate
  updated : w.virtualLastUpdate ≤ now
  scheduled : now ≤ w.virtualScheduledTime
  inRange : w.virtualScheduledTime ≤ maxUInt128
  fits : w.votes < 9223372036854775808
  position : 0 ≤ w.virtualPosition ∧ w.virtualPosition ≤ maxUInt128
  forward : 0 ≤ w.votes →
    (w.votes + 1) * (w.virtualScheduledTime - w.virtualLastUpdate) ≤ maxUInt128 - w.virtualPosition
  backward : w.votes < 0 → w.virtualLastUpdate = now

variable {now : Int} {w : Witness}

/-! ## Arithmetic -/

theorem toUInt128_of_mem {n : Int} (h0 : 0 ≤ n) (hmax : n ≤ maxUInt128) : toUInt128 n = n := by
  unfold maxUInt128 at hmax
  unfold toUInt128
  omega

theorem toUInt128_mem (n : Int) : 0 ≤ toUInt128 n ∧ toUInt128 n ≤ maxUInt128 := by
  unfold toUInt128 maxUInt128
  omega

/-- The divisor is at least the votes plus one; when these are `2 ^ 63` it is
far more. -/
theorem le_votesPlusOne {votes : Int} (h0 : 0 ≤ votes) (hfits : votes < 9223372036854775808) :
    votes + 1 ≤ votesPlusOne votes := by
  unfold votesPlusOne toUInt64 toInt64 toUInt128
  split <;> omega

/-- The rest of a lap, at the speed of the votes. -/
theorem mul_div_votesPlusOne {votes rest : Int} (h0 : 0 ≤ votes)
    (hfits : votes < 9223372036854775808) (hrest : 0 ≤ rest) :
    (votes + 1) * (rest / votesPlusOne votes) ≤ rest := by
  have hdivisor := le_votesPlusOne h0 hfits
  have hquotient : 0 ≤ rest / votesPlusOne votes := Int.ediv_nonneg hrest (by omega)
  calc (votes + 1) * (rest / votesPlusOne votes)
      ≤ votesPlusOne votes * (rest / votesPlusOne votes) := by gcongr
    _ ≤ rest := Int.mul_ediv_self_le (by omega)

theorem div_votesPlusOne_mem (votes : Int) {rest : Int} (hrest : 0 ≤ rest) :
    0 ≤ rest / votesPlusOne votes ∧ rest / votesPlusOne votes ≤ rest :=
  ⟨Int.ediv_nonneg hrest (toUInt128_mem _).1, Int.ediv_le_self _ hrest⟩

/-! ## A change of votes -/

/-- Time goes on, as long as it does not pass the witness. -/
theorem InLap.later {now' : Int} (h : InLap now w) (hle : now ≤ now')
    (hscheduled : now' ≤ w.virtualScheduledTime) (hvotes : 0 ≤ w.votes) : InLap now' w :=
  { h with
    updated := h.updated.trans hle
    scheduled := hscheduled
    backward := fun hneg => absurd hneg (not_lt.mpr hvotes) }

/-- **A witness does not pass the end of its lap.** -/
theorem InLap.arrives (h : InLap now w) (hvotes : 0 ≤ w.votes) :
    w.virtualPosition + w.votes * (now - w.virtualLastUpdate) ≤ maxUInt128 := by
  have hmoved : w.votes * (now - w.virtualLastUpdate) ≤
      (w.votes + 1) * (w.virtualScheduledTime - w.virtualLastUpdate) := by
    have h1 := h.updated
    have h2 := h.scheduled
    nlinarith
  have hforward := h.forward hvotes
  omega

/-- The position, without a wrap. -/
def Witness.positionAt (now : Int) (w : Witness) : Int :=
  w.virtualPosition + w.votes * (now - w.virtualLastUpdate)

theorem InLap.positionAt_mem (h : InLap now w) :
    0 ≤ w.positionAt now ∧ w.positionAt now ≤ maxUInt128 := by
  unfold Witness.positionAt
  rcases le_or_gt 0 w.votes with hvotes | hvotes
  · have hmoved := mul_nonneg hvotes (sub_nonneg.mpr h.updated)
    exact ⟨add_nonneg h.position.1 hmoved, h.arrives hvotes⟩
  · rw [h.backward hvotes, sub_self, mul_zero, add_zero]
    exact h.position

theorem InLap.moveVotes_position (h : InLap now w) (d : Int) :
    (w.moveVotes now d).virtualPosition = w.positionAt now := by
  have hmem := h.positionAt_mem
  have hwrap : toUInt128 (toUInt128 w.votes * toUInt128 (now - w.virtualLastUpdate)) =
      toUInt128 (w.votes * (now - w.virtualLastUpdate)) := (Int.mul_emod _ _ _).symm
  show toUInt128 (w.virtualPosition +
    toUInt128 (toUInt128 w.votes * toUInt128 (now - w.virtualLastUpdate))) = _
  rw [hwrap]
  unfold toUInt128
  rw [Int.add_emod_emod]
  exact toUInt128_of_mem hmem.1 hmem.2

/-- The new scheduled time is in range, not before now, and not after the
time of arrival. -/
theorem InLap.moveVotes_scheduled (h : InLap now w) (d : Int) :
    now ≤ (w.moveVotes now d).virtualScheduledTime ∧
      (w.moveVotes now d).virtualScheduledTime ≤ maxUInt128 ∧
      (w.moveVotes now d).virtualScheduledTime ≤
        now + (maxUInt128 - w.positionAt now) / votesPlusOne (w.votes + d) := by
  have hmem := h.positionAt_mem
  have hrest : toUInt128 (maxUInt128 - w.positionAt now) = maxUInt128 - w.positionAt now :=
    toUInt128_of_mem (by omega) (by omega)
  have hscheduled : (w.moveVotes now d).virtualScheduledTime =
      if toUInt128 (now + (maxUInt128 - w.positionAt now) / votesPlusOne (w.votes + d)) < now
      then maxUInt128
      else toUInt128 (now + (maxUInt128 - w.positionAt now) / votesPlusOne (w.votes + d)) := by
    rw [← hrest, ← h.moveVotes_position d]
    rfl
  have hquotient := div_votesPlusOne_mem (w.votes + d) (sub_nonneg.mpr hmem.2)
  have hnow : 0 ≤ now ∧ now ≤ maxUInt128 :=
    ⟨h.started.trans h.updated, h.scheduled.trans h.inRange⟩
  rw [hscheduled]
  generalize (maxUInt128 - w.positionAt now) / votesPlusOne (w.votes + d) = q at *
  -- the sum is below twice the lap, so it has wrapped if and only if it looks early
  unfold toUInt128
  unfold maxUInt128 at *
  split <;> omega

/-- **A change of votes keeps a witness on its lap.** -/
theorem inLap_paced (h0 : 0 ≤ now) (hmax : now ≤ maxUInt128) :
    Database.Paced now (InLap now) where
  congr := by
    intro w w' hclock h
    have hlap : InLap now w.clock := { h with }
    rw [← hclock] at hlap
    exact { hlap with }
  create := fun id owner =>
    { started := le_rfl
      updated := h0
      scheduled := hmax
      inRange := le_rfl
      fits := by show (0 : Int) < 9223372036854775808; decide
      position := by show (0 : Int) ≤ 0 ∧ (0 : Int) ≤ maxUInt128; decide
      forward := fun _ => by
        show (0 + 1 : Int) * (maxUInt128 - 0) ≤ maxUInt128 - 0
        omega
      backward := fun hneg => absurd hneg (by show ¬(0 : Int) < 0; omega) }
  move := by
    intro w d hfits hne h
    obtain ⟨hscheduled, hinRange, harrival⟩ := h.moveVotes_scheduled d
    have hmem := h.positionAt_mem
    have hvotes : w.votes + d < 9223372036854775808 := by
      unfold fitsInt64 at hfits
      rw [decide_eq_true_eq] at hfits
      exact hfits.2
    exact
      { started := h.started.trans h.updated
        updated := le_rfl
        scheduled := hscheduled
        inRange := hinRange
        fits := hvotes
        position := by
          rw [h.moveVotes_position d]
          exact hmem
        forward := fun hnonneg => by
          rw [h.moveVotes_position d]
          have hspeed := mul_div_votesPlusOne hnonneg hvotes (sub_nonneg.mpr hmem.2)
          show (w.votes + d + 1) * ((w.moveVotes now d).virtualScheduledTime - now) ≤ _
          have hlap : (w.moveVotes now d).virtualScheduledTime - now ≤
              (maxUInt128 - w.positionAt now) / votesPlusOne (w.votes + d) := by omega
          have hfactor : 0 ≤ w.votes + d + 1 := by
            have : 0 ≤ w.votes + d := hnonneg
            omega
          exact (Int.mul_le_mul_of_nonneg_left hlap hfactor).trans hspeed
        backward := fun _ => rfl }

/-! ## Choosing the running witnesses -/

theorem Witness.byScheduleTime_total (a b : Witness) : a.byScheduleTime b ∨ b.byScheduleTime a := by
  unfold Witness.byScheduleTime
  omega

theorem Witness.byScheduleTime_trans {a b c : Witness} (hab : a.byScheduleTime b)
    (hbc : b.byScheduleTime c) : a.byScheduleTime c := by
  unfold Witness.byScheduleTime at *
  omega

instance : Std.Total Witness.byScheduleTime := ⟨Witness.byScheduleTime_total⟩

instance : IsTrans Witness Witness.byScheduleTime := ⟨fun _ _ _ => Witness.byScheduleTime_trans⟩

theorem Witness.byScheduleTime.le {a b : Witness} (h : a.byScheduleTime b) :
    a.virtualScheduledTime ≤ b.virtualScheduledTime := by
  unfold Witness.byScheduleTime at h
  omega

namespace Database

variable {s t : Database}

/-- The witnesses passed are the first ones. -/
theorem selectRunning_processed (others : List Nat) (queue : List Witness) (count : Nat) :
    ∃ rest, queue = (selectRunning others queue count).2 ++ rest := by
  induction queue generalizing count with
  | nil => exact ⟨[], rfl⟩
  | cons w queue ih =>
      unfold selectRunning
      split
      · exact ⟨w :: queue, rfl⟩
      · split
        · obtain ⟨rest, hrest⟩ := ih (count + 1)
          exact ⟨rest, congrArg (w :: ·) hrest⟩
        · obtain ⟨rest, hrest⟩ := ih count
          exact ⟨rest, congrArg (w :: ·) hrest⟩

/-- Those passed are scheduled before those that are not. -/
theorem processed_split (s : Database) :
    ∃ rest, s.selectWitnesses.processed ++ rest =
      s.witnesses.rows.insertionSort Witness.byScheduleTime ∧
      (s.selectWitnesses.processed ++ rest).Pairwise Witness.byScheduleTime := by
  obtain ⟨rest, hrest⟩ := selectRunning_processed
    ((s.selectWitnesses.voted ++ s.selectWitnesses.miners).map Witness.id)
    (s.witnesses.rows.insertionSort Witness.byScheduleTime)
    (s.selectWitnesses.voted.length + s.selectWitnesses.miners.length)
  refine ⟨rest, hrest.symm, ?_⟩
  have hsorted := List.pairwise_insertionSort Witness.byScheduleTime s.witnesses.rows
  rw [hrest] at hsorted
  exact hsorted

/-! ## The processed witnesses -/

theorem mem_modifyWitness (howners : (s.witnesses.rows.map Witness.owner).Nodup)
    {owner : AccountName} {f : Witness → Witness} {w : Witness}
    (hw : w ∈ (s.modifyWitness owner f).witnesses.rows) :
    (∃ w0 ∈ s.witnesses.rows, w0.owner = owner ∧ w = f w0) ∨
      (w ∈ s.witnesses.rows ∧ w.owner ≠ owner) := by
  cases hfind : s.witnesses.find? fun w => w.owner = owner with
  | none =>
      have hnone : ∀ b ∈ s.witnesses.rows, ¬decide (b.owner = owner) = true :=
        List.find?_eq_none.mp hfind
      have hsame : (s.modifyWitness owner f).witnesses.rows = s.witnesses.rows :=
        modifyFirst_of_forall_not hnone
      rw [hsame] at hw
      exact Or.inr ⟨hw, by simpa using hnone w hw⟩
  | some w0 =>
      have howner : w0.owner = owner := by simpa using List.find?_some hfind
      rcases (replaces_modifyFirst hfind f).mem_or howners hw with rfl | ⟨hw, hne⟩
      · exact Or.inl ⟨w0, List.mem_of_find?_eq_some hfind, howner, rfl⟩
      · exact Or.inr ⟨hw, howner ▸ hne⟩

/-- The witness starts a lap at `now`. -/
structure Restarted (now : Int) (w : Witness) : Prop where
  updated : w.virtualLastUpdate = now
  position : w.virtualPosition = 0
  scheduled : w.virtualScheduledTime = now + maxUInt128 / votesPlusOne w.votes
  inRange : w.virtualScheduledTime ≤ maxUInt128

theorem Restarted.inLap {w : Witness} (h : Restarted now w) (h0 : 0 ≤ now) (hvotes : 0 ≤ w.votes)
    (hfits : w.votes < 9223372036854775808) : InLap now w := by
  have hlap : (0 : Int) ≤ maxUInt128 := by decide
  have hquotient := div_votesPlusOne_mem w.votes hlap
  exact
    { started := h.updated ▸ h0
      updated := h.updated.le
      scheduled := by
        rw [h.scheduled]
        omega
      inRange := h.inRange
      fits := hfits
      position := by
        rw [h.position]
        exact ⟨le_rfl, hlap⟩
      forward := fun _ => by
        rw [h.scheduled, h.updated, h.position, add_sub_cancel_left, sub_zero]
        exact mul_div_votesPlusOne hvotes hfits hlap
      backward := fun hneg => absurd hneg (not_lt.mpr hvotes) }

/-- Without an overflow, the processed witnesses start a lap and the others are
left alone. -/
theorem updateProcessed_spec (h0 : 0 ≤ now) (hmax : now ≤ maxUInt128) (processed : List Witness)
    (howners : (s.witnesses.rows.map Witness.owner).Nodup)
    (hvotes : ∀ w0 ∈ processed, ∀ w ∈ s.witnesses.rows, w.owner = w0.owner → w.votes = w0.votes) :
    Returns (updateProcessed now processed s) fun r => r.2 = false →
      ∀ w ∈ r.1.witnesses.rows, Restarted now w ∨
        (w ∈ s.witnesses.rows ∧ w.owner ∉ processed.map Witness.owner) := by
  induction processed generalizing s with
  | nil => exact .ok fun _ w hw => Or.inr ⟨hw, List.not_mem_nil⟩
  | cons w0 rest ih =>
      unfold updateProcessed
      refine .bind_eq fun lap hlap => .ite (fun _ => .pure fun h => by cases h) fun hnot => ?_
      have hlap : lap = maxUInt128 / votesPlusOne w0.votes := by
        unfold lapTime at hlap
        rw [ensure_bind_eq_ok, pure_eq_ok] at hlap
        exact hlap.2.symm
      have hwhole : (0 : Int) ≤ maxUInt128 := by decide
      have hquotient := div_votesPlusOne_mem w0.votes hwhole
      rw [← hlap] at hquotient
      have hexact : toUInt128 (now + lap) = now + lap := by
        unfold toUInt128 at hnot ⊢
        unfold maxUInt128 at *
        omega
      have hin : now + lap ≤ maxUInt128 := hexact ▸ (toUInt128_mem (now + lap)).2
      refine (ih ?_ ?_).mono fun r hr hfalse w hw => ?_
      · show ((modifyFirst _ _ s.witnesses.rows).map Witness.owner).Nodup
        rw [map_modifyFirst]
        · exact howners
        · exact fun _ => rfl
      · intro v hv w hw heq
        rcases mem_modifyWitness howners hw with ⟨w1, hw1, _, rfl⟩ | ⟨hw, _⟩
        · exact hvotes v (List.mem_cons_of_mem _ hv) w1 hw1 heq
        · exact hvotes v (List.mem_cons_of_mem _ hv) w hw heq
      · rcases hr hfalse w hw with hw | ⟨hw, hrest⟩
        · exact Or.inl hw
        rcases mem_modifyWitness howners hw with ⟨w1, hw1, howner, rfl⟩ | ⟨hw, hne⟩
        · left
          have hsame := hvotes w0 List.mem_cons_self w1 hw1 howner
          refine ⟨rfl, rfl, ?_, ?_⟩
          · show toUInt128 (now + lap) = now + maxUInt128 / votesPlusOne w1.votes
            rw [hexact, hlap, hsame]
          · show toUInt128 (now + lap) ≤ maxUInt128
            rw [hexact]
            exact hin
        · right
          refine ⟨hw, ?_⟩
          rw [List.map_cons, List.mem_cons]
          rintro (heq | hmem)
          · exact hne heq
          · exact hrest hmem

theorem resetVirtualScheduleTime_spec (s : Database) :
    Returns s.resetVirtualScheduleTime fun t => ∀ w ∈ t.witnesses.rows,
      Restarted 0 w ∧ ∃ w0 ∈ s.witnesses.rows, w0.votes = w.votes := by
  unfold resetVirtualScheduleTime
  refine .ensure fun _ => .pure fun w hw => ?_
  obtain ⟨w0, hw0, rfl⟩ := List.mem_map.mp hw
  have hlap : (0 : Int) ≤ maxUInt128 := by decide
  have hquotient := div_votesPlusOne_mem w0.votes hlap
  exact ⟨⟨rfl, rfl, (zero_add _).symm, hquotient.2⟩, w0, hw0, rfl⟩

/-! ## A round -/

/-- `t` has the votes and the virtual times of `s`. -/
structure SameClocks (s t : Database) : Prop where
  schedule : t.schedule = s.schedule
  witnesses : t.witnesses.rows.map Witness.clock = s.witnesses.rows.map Witness.clock

theorem SameClocks.modifyWitnesses (hs : SameClocks s t) (chosen : List Witness)
    {f : Witness → Witness} (h : ∀ w, (f w).clock = w.clock) :
    SameClocks s (t.modifyWitnesses chosen f) := by
  induction chosen generalizing t with
  | nil => exact hs
  | cons w rest ih =>
      exact ih (t := t.modifyWitness w.owner f)
        ⟨hs.schedule, (map_modifyFirst h t.witnesses.rows).trans hs.witnesses⟩

theorem SameClocks.withProps (hs : SameClocks s t) (props : GlobalProperties) :
    SameClocks s { t with props := props } :=
  ⟨hs.schedule, hs.witnesses⟩

/-- The marks say nothing about votes and virtual time. -/
theorem markSelection_sameClocks (s : Database) (c : Selection) :
    SameClocks s (s.markSelection c) := by
  unfold markSelection
  refine SameClocks.modifyWitnesses (SameClocks.withProps ?_ _) c.running fun _ => rfl
  refine SameClocks.modifyWitnesses ?_ c.queued fun _ => rfl
  refine SameClocks.modifyWitnesses ?_ c.miners fun _ => rfl
  exact SameClocks.modifyWitnesses ⟨rfl, rfl⟩ c.voted fun _ => rfl

/-- Every witness is on its lap. -/
structure OnTime (s : Database) : Prop where
  start : 0 ≤ s.schedule.currentVirtualTime
  inRange : s.schedule.currentVirtualTime ≤ maxUInt128
  witnesses : s.witnesses.All (InLap s.schedule.currentVirtualTime)

theorem mem_of_processed {w : Witness} (hw : w ∈ s.selectWitnesses.processed) :
    w ∈ s.witnesses.rows := by
  obtain ⟨rest, hall, -⟩ := processed_split s
  rw [← List.mem_insertionSort Witness.byScheduleTime, ← hall]
  exact List.mem_append_left rest hw

/-- Virtual time goes on, but not past a witness that is not processed. -/
theorem OnTime.timeReached (h : OnTime s) :
    s.schedule.currentVirtualTime ≤
        Database.timeReached s.schedule.currentVirtualTime s.selectWitnesses.processed ∧
      Database.timeReached s.schedule.currentVirtualTime s.selectWitnesses.processed ≤ maxUInt128 ∧
      ∀ w ∈ s.witnesses.rows, w ∉ s.selectWitnesses.processed →
        Database.timeReached s.schedule.currentVirtualTime s.selectWitnesses.processed ≤
          w.virtualScheduledTime := by
  obtain ⟨rest, hall, hsorted⟩ := processed_split s
  unfold Database.timeReached
  split
  next => exact ⟨le_rfl, h.inRange, fun w hw _ => (h.witnesses w hw).scheduled⟩
  next last hlast =>
    have hmem := List.mem_of_getLast? hlast
    have hlap := h.witnesses last (mem_of_processed hmem)
    refine ⟨hlap.scheduled, hlap.inRange, fun w hw hnot => ?_⟩
    have hrest : w ∈ rest := by
      rw [← List.mem_insertionSort Witness.byScheduleTime, ← hall] at hw
      exact (List.mem_append.mp hw).resolve_left hnot
    exact ((List.pairwise_append.mp hsorted).2.2 last hmem w hrest).le

/-- The witnesses before a step that leaves their clocks alone. -/
theorem SameClocks.exists_old (hs : SameClocks s t) {w : Witness} (hw : w ∈ t.witnesses.rows) :
    ∃ w0 ∈ s.witnesses.rows, w0.clock = w.clock := by
  have hmem : w.clock ∈ t.witnesses.rows.map Witness.clock := List.mem_map_of_mem hw
  rw [hs.witnesses] at hmem
  exact List.mem_map.mp hmem

theorem SameWitnesses.exists_old (hs : SameWitnesses s t) {w : Witness}
    (hw : w ∈ t.witnesses.rows) : ∃ w0 ∈ s.witnesses.rows, w0.votes = w.votes := by
  have hmem : identity w ∈ t.witnesses.rows.map identity := List.mem_map_of_mem hw
  rw [hs.witnesses] at hmem
  obtain ⟨w0, hw0, heq⟩ := List.mem_map.mp hmem
  exact ⟨w0, hw0, congrArg (fun i => i.2.2.1) heq⟩

/-- **Virtual time moves on**: without an overflow to the last witness passed,
with one to zero. -/
theorem OnTime.advance (h : OnTime s) (howners : (s.witnesses.rows.map Witness.owner).Nodup)
    (hvotes : s.witnesses.All fun w => 0 ≤ w.votes) :
    Returns ((s.markSelection s.selectWitnesses).advanceVirtualTime s.selectWitnesses.processed)
      fun r => 0 ≤ r.2 ∧ r.2 ≤ maxUInt128 ∧ r.1.witnesses.All (InLap r.2) ∧
        (s.schedule.currentVirtualTime ≤ r.2 ∨ r.2 = 0) := by
  have hclocks := markSelection_sameClocks s s.selectWitnesses
  have hsame := markSelection_same s s.selectWitnesses
  obtain ⟨hlater, hmax, hnext⟩ := h.timeReached
  have h0 := h.start.trans hlater
  unfold advanceVirtualTime
  rw [hclocks.schedule]
  generalize Database.timeReached s.schedule.currentVirtualTime s.selectWitnesses.processed = now
    at hlater hmax hnext h0
  generalize s.markSelection s.selectWitnesses = m at hclocks hsame
  have hmowners : (m.witnesses.rows.map Witness.owner).Nodup := by
    rw [map_eq_of_map_eq hclocks.witnesses fun _ => rfl]
    exact howners
  refine .bind_eq fun ⟨t, overflow⟩ ht => ?_
  have htsame := hsame.trans (updateProcessed_same now _ (.refl m) _ ht)
  -- the votes are those of `s`
  have hold : ∀ w ∈ t.witnesses.rows, 0 ≤ w.votes ∧ w.votes < 9223372036854775808 := by
    intro w hw
    obtain ⟨w0, hw0, heq⟩ := htsame.exists_old hw
    rw [← heq]
    exact ⟨hvotes w0 hw0, (h.witnesses w0 hw0).fits⟩
  refine .ite (fun _ => ?_) fun hover => .pure ⟨h0, hmax, ?_, Or.inl hlater⟩
  · -- everybody starts again
    refine .bind (resetVirtualScheduleTime_spec t) fun u hu => ?_
    have hlap : (0 : Int) ≤ maxUInt128 := by decide
    refine .pure ⟨le_rfl, hlap, fun w hw => ?_, Or.inr rfl⟩
    obtain ⟨hrestarted, w0, hw0, heq⟩ := hu w hw
    exact hrestarted.inLap le_rfl (heq ▸ (hold w0 hw0).1) (heq ▸ (hold w0 hw0).2)
  · intro w hw
    have hspec := updateProcessed_spec h0 hmax s.selectWitnesses.processed hmowners ?_ _ ht
      (by simpa using hover) w hw
    · rcases hspec with hrestarted | ⟨hm, hnot⟩
      · exact hrestarted.inLap h0 (hold w hw).1 (hold w hw).2
      · obtain ⟨w0, hw0, heq⟩ := hclocks.exists_old hm
        have howner : w0.owner = w.owner := by
          have := congrArg Witness.owner heq
          exact this
        have hnot0 : w0 ∉ s.selectWitnesses.processed := fun hmem =>
          hnot (howner ▸ List.mem_map_of_mem hmem)
        have hlap := (h.witnesses w0 hw0).later hlater (hnext w0 hw0 hnot0) (hvotes w0 hw0)
        exact (inLap_paced h0 hmax).congr heq.symm hlap
    · intro w0 hw0 w hw heq
      obtain ⟨w1, hw1, hclock⟩ := hclocks.exists_old hw
      have howner := congrArg Witness.owner hclock
      have hvotes := congrArg Witness.votes hclock
      have hsame : w1 = w0 := List.inj_on_of_nodup_map howners hw1 (mem_of_processed hw0)
        (howner.trans heq)
      rw [← hsame]
      exact hvotes.symm

/-- The median of the properties is no matter of virtual time. -/
theorem updateMedianWitnessProps_sameTime (s : Database) :
    Returns s.updateMedianWitnessProps fun t => t.witnesses = s.witnesses ∧
      t.schedule.currentVirtualTime = s.schedule.currentVirtualTime := by
  unfold updateMedianWitnessProps
  exact .bind_any fun _ => .bind_any fun _ => .bind_any fun _ => .bind_any fun _ =>
    .bind_any fun _ => .pure ⟨rfl, rfl⟩

theorem OnTime.updateWitnessSchedule (h : OnTime s)
    (howners : (s.witnesses.rows.map Witness.owner).Nodup)
    (hvotes : s.witnesses.All fun w => 0 ≤ w.votes) :
    Returns s.updateWitnessSchedule fun t => OnTime t ∧
      (s.schedule.currentVirtualTime ≤ t.schedule.currentVirtualTime ∨
        t.schedule.currentVirtualTime = 0) := by
  unfold Database.updateWitnessSchedule
  refine .ite (fun _ => ?_) fun _ => .ok ⟨h, Or.inl le_rfl⟩
  unfold updateWitnessSchedule4
  refine .bind (h.advance howners hvotes) fun ⟨t, now⟩ ⟨h0, hmax, hall, htime⟩ =>
    .ensure fun _ => ?_
  refine .bind_any fun scheduled => (updateMedianWitnessProps_sameTime _).mono fun u hu => ?_
  have hwitnesses : u.witnesses = t.witnesses := hu.1
  have hnow : u.schedule.currentVirtualTime = now := hu.2
  refine ⟨⟨hnow ▸ h0, hnow ▸ hmax, ?_⟩, hnow ▸ htime⟩
  rw [hwitnesses, hnow]
  exact hall

/-! ## Runs -/

/-- Vesting shares are not negative. -/
theorem shares_kept :
    Kept (fun _ _ => True) (fun _ _ => True) fun a => 0 ≤ a.vestingShares where
  congr := by
    intro a a' hpower ha
    have hshares := congrArg Account.vestingShares hpower
    exact ha.trans_eq hshares.symm
  create := fun _ _ => le_rfl
  gain := fun hx ha => add_nonneg ha hx
  receive := fun _ ha => ha
  delegate := fun _ _ _ ha => ha
  lend := fun _ _ ha => ha
  back := fun _ ha => ha
  withdraw := fun _ _ _ _ _ ha => ha
  week := by
    intro a c toWithdraw hweek hgrown _ _
    have hle : toWithdraw ≤ a.vestingShares := by
      unfold weeklyWithdrawal at hweek
      obtain ⟨left, -, hweek⟩ := bind_eq_ok.mp hweek
      split at hweek
      · obtain ⟨-, hweek⟩ := ensure_bind_eq_ok.mp hweek
        rw [pure_eq_ok] at hweek
        exact hweek ▸ min_le_left _ _
      · rw [pure_eq_ok] at hweek
        exact hweek ▸ min_le_left _ _
    exact sub_nonneg.mpr (hle.trans hgrown.2)
  burn := fun _ _ => le_rfl

theorem shares_genesis (supply : Int) :
    (genesis supply).accounts.All fun a => 0 ≤ a.vestingShares := by
  intro a ha
  simp only [genesis, List.mem_cons, List.not_mem_nil, or_false] at ha
  rcases ha with rfl | rfl | rfl | rfl <;> exact le_rfl

theorem Reachable.shares_nonneg (h : Reachable sharesFit s) :
    s.accounts.All fun a => 0 ≤ a.vestingShares := by
  refine h.invariant shares_genesis (fun s t c hs hall hc ht => ?_) fun s t hs hst =>
    (SamePower.of_sameStake hst).all hs shares_kept.congr
  exact shares_kept.perform hall (Books.names hs.tallied) c hc (fun _ _ _ _ _ => trivial)
    (fun _ _ _ _ _ => trivial) t ht

/-- Votes are sums of vesting shares. -/
theorem Tallied.votes_nonneg (h : Tallied s)
    (hshares : s.accounts.All fun a => 0 ≤ a.vestingShares) :
    s.witnesses.All fun w => 0 ≤ w.votes := by
  have hlevel : ∀ k p, 0 ≤ s.sharesBelow k p := by
    intro k p
    apply sumOf_nonneg
    intro a ha
    split
    · exact hshares a ha
    · exact le_rfl
  have hproxied : ∀ a ∈ s.accounts.rows, ∀ i : Fin 4, 0 ≤ a.proxiedVsfVotes.get i := by
    intro a ha i
    rw [Books.proxied h a ha i, page_level]
    exact add_nonneg (hlevel _ _) le_rfl
  intro w hw
  rw [Books.votes h w hw]
  show 0 ≤ _ + 0
  rw [add_zero]
  apply sumOf_nonneg
  intro a ha
  apply mul_nonneg
  · show 0 ≤ if _ then (1 : Int) else 0
    split <;> decide
  · have h0 := hproxied a ha 0
    have h1 := hproxied a ha 1
    have h2 := hproxied a ha 2
    have h3 := hproxied a ha 3
    have hown := hshares a ha
    unfold Account.witnessVoteWeight
    exact add_nonneg hown (add_nonneg (add_nonneg (add_nonneg h0 h1) h2) h3)

theorem onTime_genesis (supply : Int) : OnTime (genesis supply) where
  start := le_rfl
  inRange := by show (0 : Int) ≤ maxUInt128; decide
  witnesses := by
    intro w hw
    have hpaced : Paced 0 (InLap 0) := inLap_paced le_rfl (by decide)
    have hw :
      w = { Witness.make 0 initMinerName with signingKey := some 0, schedule := .miner } := by
      simpa [genesis] using hw
    exact hpaced.congr (hw ▸ rfl) (hpaced.create 0 initMinerName)

theorem OnTime.between (h : OnTime s) (ht : Between s (InLap s.schedule.currentVirtualTime) t) :
    OnTime t ∧ t.schedule.currentVirtualTime = s.schedule.currentVirtualTime := by
  have hnow := congrArg WitnessSchedule.currentVirtualTime ht.schedule
  change t.schedule.currentVirtualTime = s.schedule.currentVirtualTime at hnow
  refine ⟨⟨hnow ▸ h.start, hnow ▸ h.inRange, ?_⟩, hnow⟩
  rw [hnow]
  exact ht.witnesses

/-- **What one call does to virtual time.** -/
theorem OnTime.perform (h : OnTime s) (htallied : Tallied s)
    (hshares : s.accounts.All fun a => 0 ≤ a.vestingShares) (c : Call) :
    Returns (s.perform c) fun t => OnTime t ∧
      (s.schedule.currentVirtualTime ≤ t.schedule.currentVirtualTime ∨
        t.schedule.currentVirtualTime = 0) := by
  by_cases hc : c = .updateWitnessSchedule
  · subst hc
    exact h.updateWitnessSchedule (Books.owners htallied) (htallied.votes_nonneg hshares)
  · refine ((inLap_paced h.start h.inRange).perform (.start h.witnesses) hc).mono fun t ht => ?_
    obtain ⟨hon, hnow⟩ := h.between ht
    exact ⟨hon, Or.inl hnow.ge⟩

theorem OnTime.sameStake (h : OnTime s) (hs : SameStake s t) :
    OnTime t ∧ t.schedule.currentVirtualTime = s.schedule.currentVirtualTime :=
  h.between ((Between.start h.witnesses).sameStake (inLap_paced h.start h.inRange) hs)

theorem Reachable.onTime (h : Reachable sharesFit s) : OnTime s :=
  h.invariant onTime_genesis
    (fun _ t c hs hon _ ht => (hon.perform hs.tallied hs.shares_nonneg c t ht).1)
    fun _ _ hon hst => (hon.sameStake hst).1

/-- The position of the witness and the rest of its lap are computed without a
wrap when its votes change. -/
def Unwrapped (now : Int) (w : Witness) : Prop :=
  0 ≤ w.positionAt now ∧ w.positionAt now ≤ maxUInt128 ∧
    ∀ d, (w.moveVotes now d).virtualPosition = w.positionAt now

/-- When the votes have changed once at this time, the position stays. -/
theorem unwrapped_moveVotes (now : Int) (w : Witness) (d : Int) :
    Unwrapped now (w.moveVotes now d) := by
  have hmem : 0 ≤ (w.moveVotes now d).virtualPosition ∧
      (w.moveVotes now d).virtualPosition ≤ maxUInt128 := toUInt128_mem _
  have hstay : (w.moveVotes now d).positionAt now = (w.moveVotes now d).virtualPosition := by
    show _ + _ * (now - now) = _
    rw [sub_self, mul_zero, add_zero]
  refine ⟨hstay ▸ hmem.1, hstay ▸ hmem.2, fun d' => ?_⟩
  rw [hstay]
  show toUInt128 ((w.moveVotes now d).virtualPosition +
    toUInt128 (toUInt128 (w.moveVotes now d).votes * toUInt128 (now - now))) = _
  have hzero : toUInt128 (toUInt128 (w.moveVotes now d).votes * toUInt128 (now - now)) = 0 := by
    rw [sub_self, show toUInt128 0 = 0 from rfl, mul_zero]
    rfl
  rw [hzero, add_zero]
  exact toUInt128_of_mem hmem.1 hmem.2

/-- However often the votes change at this time. -/
theorem Unwrapped.foldl {now : Int} {w : Witness} (h : Unwrapped now w) (deltas : List Int) :
    Unwrapped now (deltas.foldl (fun w d => w.moveVotes now d) w) := by
  induction deltas generalizing w with
  | nil => exact h
  | cons d rest ih => exact ih (unwrapped_moveVotes now w d)

/-- What the virtual schedule promises of a witness at the time `now`; its votes
may change any number of times before time goes on. -/
structure LapHolds (now : Int) (w : Witness) : Prop where
  updated : w.virtualLastUpdate ≤ now
  scheduled : now ≤ w.virtualScheduledTime
  lap : w.virtualPosition + w.votes * (now - w.virtualLastUpdate) ≤ maxUInt128
  unwrapped : ∀ deltas : List Int, Unwrapped now (deltas.foldl (fun w d => w.moveVotes now d) w)

/-- **The virtual schedule.** Every witness is on its lap, and virtual time only
moves back to zero. -/
theorem virtual_schedule (h : Reachable sharesFit s) :
    (∀ w ∈ s.witnesses.rows, LapHolds s.schedule.currentVirtualTime w) ∧
      ∀ c t, Step s c t → s.schedule.currentVirtualTime ≤ t.schedule.currentVirtualTime ∨
        t.schedule.currentVirtualTime = 0 := by
  have hon := h.onTime
  refine ⟨fun w hw => ?_, fun c t hstep => ?_⟩
  · have hlap := hon.witnesses w hw
    have hmem := hlap.positionAt_mem
    exact ⟨hlap.updated, hlap.scheduled, hmem.2,
      Unwrapped.foldl ⟨hmem.1, hmem.2, hlap.moveVotes_position⟩⟩
  · cases hstep with
    | call hc => exact (hon.perform h.tallied h.shares_nonneg c t hc).2
    | other hs => exact Or.inl (hon.sameStake hs).2.ge

theorem virtual_schedule_first :
    ∃ t, run sharesFit (genesis 3) (firstVotes ++ [.updateWitnessSchedule]) = .ok t ∧
      0 < t.schedule.currentVirtualTime ∧
      (∀ w ∈ t.witnesses.rows, LapHolds t.schedule.currentVirtualTime w) ∧
      ∀ c u, Step t c u → t.schedule.currentVirtualTime ≤ u.schedule.currentVirtualTime ∨
        u.schedule.currentVirtualTime = 0 := by
  obtain ⟨t, hrun, htime⟩ :=
    exists_run sharesFit (genesis 3) (firstVotes ++ [.updateWitnessSchedule])
    (fun t => 0 < t.schedule.currentVirtualTime) (by decide +kernel)
  exact ⟨t, hrun, by simpa using htime, virtual_schedule (.run (.genesis 3) hrun)⟩

/-- Enough witnesses for a round that leaves one of them out. -/
def crowd : List AccountName :=
  ["aaa", "bbb", "ccc", "ddd", "eee", "fff", "ggg", "hhh", "iii", "jjj", "kkk", "lll", "mmm", "nnn",
    "ooo", "ppp", "qqq", "rrr", "sss", "ttt", "uuu"]

/-- `initminer` has less than no shares and votes for two witnesses; the round
takes the first. -/
def negativeVotes : List Call :=
  crowd.map (fun n => .accountCreate "initminer" n [] 0) ++
    crowd.map (fun n => .witnessUpdate n (some 1) 1 65536 0) ++
    [.transferToVesting "initminer" "" (.gbc 10000000000000000),
      .accountWitnessVote "initminer" "ttt" true, .accountWitnessVote "initminer" "uuu" true,
      .updateWitnessSchedule]

/-- With `10 ^ 16` for a supply, all of it turned into shares is `10 ^ 19` of
them, a negative number in 64 bits, and the position of a witness wraps. -/
theorem virtual_schedule_wraps :
    ∃ s, Reachable anyCall s ∧
      ¬∀ w ∈ s.witnesses.rows, LapHolds s.schedule.currentVirtualTime w := by
  obtain ⟨t, hrun, hfails⟩ := exists_run anyCall (genesis 10000000000000000) negativeVotes
    (fun t => ∃ w ∈ t.witnesses.rows, w.positionAt t.schedule.currentVirtualTime < 0)
    (by decide +kernel)
  obtain ⟨w, hw, hneg⟩ := of_decide_eq_true hfails
  refine ⟨t, .run (.genesis 10000000000000000) hrun, fun hall => ?_⟩
  exact absurd ((hall w hw).unwrapped []).1 (not_le.mpr hneg)

end Database

end Gamebank.Ledger
