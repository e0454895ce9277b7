import Gamebank.Stake.VirtualTime

/-!
# Rounds that complete

`update_witness_schedule` asserts that it has chosen `min (21, witnesses)` of
the witnesses, but it chooses only among those with a key: the three loops
together choose `min (21, enabled)` of them (`active_length`). Nothing else can
stop it. The votes plus one divide a lap, and no witness has `-1` votes; the
names of the last round are names of witnesses, because witnesses are never
removed.
-/

namespace Gamebank.Ledger

open Gamebank.Lib Gamebank.Protocol

namespace Database

variable {s t : Database}

/-! ## How many are chosen -/

/-- The witnesses that may be chosen. -/
def enabledCount (s : Database) : Nat := s.witnesses.rows.countP Witness.enabled

theorem selectRunning_length (others : List Nat) (queue : List Witness) (count : Nat) :
    (selectRunning others queue count).1.length =
      min (maxWitnesses - count)
        (queue.countP fun w => w.enabled && !others.contains w.id) := by
  induction queue generalizing count with
  | nil => simp [selectRunning]
  | cons w queue ih =>
      unfold selectRunning
      rw [List.countP_cons]
      split
      · simp only [List.length_nil]
        omega
      · split
        next =>
          rw [List.length_cons, ih]
          omega
        next =>
          rw [ih]
          omega

theorem selectRunning_subset (others : List Nat) (queue : List Witness) (count : Nat) :
    ∀ w ∈ (selectRunning others queue count).1, w ∈ queue := by
  induction queue generalizing count with
  | nil => simp [selectRunning]
  | cons w queue ih =>
      unfold selectRunning
      split
      · simp
      · split
        · intro v hv
          rcases List.mem_cons.mp hv with rfl | hv
          · exact List.mem_cons_self
          · exact List.mem_cons_of_mem w (ih _ v hv)
        · exact fun v hv => List.mem_cons_of_mem w (ih _ v hv)

/-- The witnesses by votes, without those that have no key. -/
def candidates (s : Database) : List Witness :=
  (s.witnesses.rows.insertionSort Witness.byVoteName).filter Witness.enabled

theorem candidates_perm (s : Database) :
    s.candidates.Perm (s.witnesses.rows.filter Witness.enabled) :=
  (List.perm_insertionSort Witness.byVoteName s.witnesses.rows).filter _

theorem candidates_length (s : Database) : s.candidates.length = s.enabledCount := by
  rw [s.candidates_perm.length_eq, enabledCount, List.countP_eq_length_filter]

/-- Those with a key that are not elected. -/
theorem countP_not_elected (hids : (s.witnesses.rows.map Witness.id).Nodup) (n : Nat) :
    (s.witnesses.rows.countP fun w =>
      w.enabled && !((s.candidates.take n).map Witness.id).contains w.id) = s.enabledCount - n := by
  have hnodup : (s.candidates.map Witness.id).Nodup := by
    rw [(s.candidates_perm.map Witness.id).nodup_iff]
    exact hids.sublist ((List.filter_sublist).map Witness.id)
  have hcount : (s.witnesses.rows.countP fun w =>
      w.enabled && !((s.candidates.take n).map Witness.id).contains w.id) =
      s.candidates.countP fun w => !((s.candidates.take n).map Witness.id).contains w.id := by
    rw [s.candidates_perm.countP_eq, List.countP_filter]
    apply List.countP_congr
    intro w _
    rw [Bool.and_comm]
  have helected : ((s.candidates.take n).countP fun w =>
      !((s.candidates.take n).map Witness.id).contains w.id) = 0 := by
    rw [List.countP_eq_zero]
    intro w hw
    have hmem : w.id ∈ (s.candidates.take n).map Witness.id := List.mem_map_of_mem hw
    simp only [List.contains_iff_mem.mpr hmem, Bool.not_true, Bool.false_eq_true, not_false_eq_true]
  have hrest : ((s.candidates.drop n).countP fun w =>
      !((s.candidates.take n).map Witness.id).contains w.id) = (s.candidates.drop n).length := by
    rw [List.countP_eq_length]
    intro w hw
    rw [← List.take_append_drop n s.candidates, List.map_append, List.nodup_append] at hnodup
    have hnot : w.id ∉ (s.candidates.take n).map Witness.id := fun hmem =>
      hnodup.2.2 w.id hmem w.id (List.mem_map_of_mem hw) rfl
    rw [Bool.not_eq_true', ← Bool.not_eq_true, List.contains_iff_mem]
    exact hnot
  calc (s.witnesses.rows.countP fun w =>
          w.enabled && !((s.candidates.take n).map Witness.id).contains w.id)
      = (s.candidates.take n ++ s.candidates.drop n).countP fun w =>
          !((s.candidates.take n).map Witness.id).contains w.id := by
        rw [hcount, List.take_append_drop]
    _ = (s.candidates.drop n).length := by rw [List.countP_append, helected, hrest, zero_add]
    _ = s.enabledCount - n := by rw [List.length_drop, candidates_length]

/-- The limits on the three loops. -/
structure Limits (s : Database) : Prop where
  voted : s.schedule.maxVotedWitnesses = 20
  miners : s.schedule.maxMinerWitnesses = 0

theorem Limits.selectMiners (h : Limits s) (voted queue : List Witness) :
    Database.selectMiners s.schedule.maxMinerWitnesses voted queue [] [] = ([], []) := by
  rw [h.miners]
  cases queue with
  | nil => rfl
  | cons w queue => rfl

theorem Limits.selectWitnesses (h : Limits s) :
    s.selectWitnesses.voted = s.candidates.take 20 ∧ s.selectWitnesses.miners = [] ∧
      s.selectWitnesses.running =
        (selectRunning ((s.candidates.take 20).map Witness.id)
          (s.witnesses.rows.insertionSort Witness.byScheduleTime)
          (s.candidates.take 20).length).1 := by
  have hvoted : s.selectVoted = s.candidates.take 20 := by
    rw [selectVoted, h.voted]
    rfl
  unfold Database.selectWitnesses
  simp only [hvoted, h.selectMiners, List.append_nil, List.length_nil, Nat.add_zero, and_self]

/-- **The loops choose among the witnesses with a key.** -/
theorem active_length (h : Limits s) (hids : (s.witnesses.rows.map Witness.id).Nodup) :
    s.selectWitnesses.active.length = min maxWitnesses s.enabledCount := by
  obtain ⟨hvoted, hminers, hrunning⟩ := h.selectWitnesses
  have hcount := countP_not_elected hids 20
  rw [← (List.perm_insertionSort Witness.byScheduleTime s.witnesses.rows).countP_eq] at hcount
  unfold Selection.active
  rw [hvoted, hminers, hrunning, List.append_nil, List.length_append, selectRunning_length, hcount,
    List.length_take, candidates_length]
  unfold maxWitnesses
  omega

theorem active_subset (h : Limits s) : ∀ w ∈ s.selectWitnesses.active, w ∈ s.witnesses.rows := by
  obtain ⟨hvoted, hminers, hrunning⟩ := h.selectWitnesses
  unfold Selection.active
  rw [hvoted, hminers, hrunning, List.append_nil]
  intro w hw
  rcases List.mem_append.mp hw with hw | hw
  · have hcandidate := List.mem_of_mem_filter (List.mem_of_mem_take hw)
    exact (List.mem_insertionSort Witness.byVoteName).mp hcandidate
  · exact (List.mem_insertionSort Witness.byScheduleTime).mp (selectRunning_subset _ _ _ w hw)

/-! ## The schedule -/

/-- The names on the schedule. -/
def scheduledNames (s : Database) : List AccountName :=
  s.schedule.currentShuffledWitnesses.toList.take s.schedule.numScheduledWitnesses

/-- The first `num` names satisfy `P`. -/
def NamesUpTo (num : Nat) (P : AccountName → Prop) (names : Vector AccountName 21) : Prop :=
  ∀ (i : Nat) (hi : i < 21), i < num → P names[i]

/-- The shuffle exchanges the names in use. -/
theorem NamesUpTo.shuffleFrom {num : Nat} {P : AccountName → Prop} (headTime left i : Nat)
    (hleft : i + left = num) {names : Vector AccountName 21} (h : NamesUpTo num P names) :
    NamesUpTo num P (Database.shuffleFrom headTime num left i names) := by
  induction left generalizing i names with
  | zero => exact h
  | succ left ih =>
      unfold Database.shuffleFrom
      dsimp only
      split
      next hbounds =>
        refine ih (i + 1) (by omega) fun k hk hnum => ?_
        have hdraw : shuffleDraw headTime i % (num - i) < num - i := Nat.mod_lt _ (by omega)
        rw [Vector.getElem_swap]
        split
        · exact h _ _ (by omega)
        · split
          · exact h _ _ (by omega)
          · exact h k hk hnum
      next => exact h

theorem exists_getWitness {owner : AccountName} :
    (∃ w, s.getWitness owner = .ok w) ↔ owner ∈ s.witnesses.rows.map Witness.owner := by
  constructor
  · rintro ⟨w, hw⟩
    obtain ⟨hmem, rfl⟩ := getWitness_mem hw
    exact List.mem_map_of_mem hmem
  · intro hmem
    cases hfind : s.witnesses.find? fun w => w.owner = owner with
    | none => exact absurd hmem (find?_key_eq_none.mp hfind)
    | some w => exact ⟨w, require_eq_ok.mpr hfind⟩

theorem median_eq_ok (key : ChainProperties → Int) {active : List Witness} (h : 0 < active.length) :
    ∃ p, median key active = .ok p := by
  have hlength : active.length / 2 <
      ((active.map Witness.props).insertionSort fun a b => key a ≤ key b).length := by
    rw [List.length_insertionSort, List.length_map]
    omega
  exact ⟨_, require_eq_ok.mpr (List.getElem?_eq_getElem hlength)⟩

/-- With somebody on the schedule, and everybody there a witness, the medians
are found. -/
theorem updateMedianWitnessProps_eq_ok (hpos : 0 < s.scheduledNames.length)
    (hnames : ∀ n ∈ s.scheduledNames, n ∈ s.witnesses.rows.map Witness.owner) :
    ∃ t, s.updateMedianWitnessProps = .ok t := by
  obtain ⟨active, hactive, hlength⟩ := mapM_eq_ok fun n hn => exists_getWitness.mpr (hnames n hn)
  have hactive : s.scheduledWitnesses = .ok active := hactive
  have hpos : 0 < active.length := hlength ▸ hpos
  obtain ⟨fee, hfee⟩ := median_eq_ok ChainProperties.accountCreationFee hpos
  obtain ⟨size, hsize⟩ := median_eq_ok (fun p => p.maximumBlockSize) hpos
  obtain ⟨interest, hinterest⟩ := median_eq_ok (fun p => p.gbdInterestRate) hpos
  obtain ⟨subsidy, hsubsidy⟩ := median_eq_ok (fun p => p.accountSubsidyLimit) hpos
  unfold updateMedianWitnessProps
  rw [hactive]
  simp only [bind, Except.bind, hfee, hsize, hinterest, hsubsidy]
  exact ⟨_, rfl⟩

/-! ## Nothing else stops a round -/

theorem updateProcessed_eq_ok (now : Int) {processed : List Witness}
    (h : ∀ w ∈ processed, w.votes ≠ -1) (s : Database) :
    ∃ r, updateProcessed now processed s = .ok r := by
  induction processed generalizing s with
  | nil => exact ⟨_, rfl⟩
  | cons w rest ih =>
      have hlap : lapTime w = .ok (maxUInt128 / votesPlusOne w.votes) := by
        unfold lapTime
        rw [ensure_bind_eq_ok, pure_eq_ok]
        exact ⟨by simpa using h w List.mem_cons_self, rfl⟩
      unfold updateProcessed
      rw [hlap]
      simp only [bind, Except.bind]
      split
      · exact ⟨_, rfl⟩
      · exact ih (fun v hv => h v (List.mem_cons_of_mem w hv)) _

theorem resetVirtualScheduleTime_eq_ok (h : s.witnesses.All fun w => w.votes ≠ -1) :
    ∃ t, s.resetVirtualScheduleTime = .ok t := by
  unfold resetVirtualScheduleTime
  refine ⟨_, ensure_bind_eq_ok.mpr ⟨?_, rfl⟩⟩
  simpa [Table.All] using h

theorem SameWitnesses.votes_ne (hs : SameWitnesses s t)
    (h : s.witnesses.All fun w => w.votes ≠ -1) : t.witnesses.All fun w => w.votes ≠ -1 := by
  intro w hw
  obtain ⟨w0, hw0, heq⟩ := hs.exists_old hw
  exact heq ▸ h w0 hw0

theorem SameWitnesses.owners_eq (hs : SameWitnesses s t) :
    t.witnesses.rows.map Witness.owner = s.witnesses.rows.map Witness.owner := by
  have howners :=
    congrArg (List.map fun i : Nat × AccountName × Int × Option Nat => i.2.1) hs.witnesses
  rw [List.map_map, List.map_map] at howners
  exact howners

theorem advanceVirtualTime_eq_ok (h : s.witnesses.All fun w => w.votes ≠ -1)
    {processed : List Witness} (hprocessed : ∀ w ∈ processed, w.votes ≠ -1) :
    ∃ r, s.advanceVirtualTime processed = .ok r := by
  obtain ⟨⟨t, overflow⟩, ht⟩ := updateProcessed_eq_ok
    (timeReached s.schedule.currentVirtualTime processed) hprocessed s
  unfold advanceVirtualTime
  simp only [bind, Except.bind, ht]
  split
  · have hsame := updateProcessed_same _ processed (.refl s) _ ht
    obtain ⟨u, hu⟩ := resetVirtualScheduleTime_eq_ok (hsame.votes_ne h)
    rw [hu]
    exact ⟨_, rfl⟩
  · exact ⟨_, rfl⟩

/-- What a round needs, and finds in every state. -/
structure Ready (s : Database) : Prop extends Limits s where
  numbered : Numbered s
  votes : s.witnesses.All fun w => w.votes ≠ -1
  names : ∀ n ∈ s.scheduledNames, n ∈ s.witnesses.rows.map Witness.owner

theorem updateProcessed_schedule (now : Int) (processed : List Witness) (s : Database) :
    Returns (updateProcessed now processed s) fun r => r.1.schedule = s.schedule := by
  induction processed generalizing s with
  | nil => exact .ok rfl
  | cons w rest ih =>
      unfold updateProcessed
      exact .bind_any fun lap => .ite (fun _ => .pure rfl) fun _ => ih (s.modifyWitness w.owner _)

/-- Nothing but virtual time moves on. -/
theorem advanceVirtualTime_schedule (s : Database) (processed : List Witness) :
    Returns (s.advanceVirtualTime processed) fun r => r.1.scheduledNames = s.scheduledNames ∧
      (Limits s → Limits r.1) := by
  unfold advanceVirtualTime
  refine .bind (updateProcessed_schedule _ processed s) fun ⟨t, overflow⟩ ht => ?_
  have hschedule : t.schedule = s.schedule := ht
  refine .ite (fun _ => ?_) fun _ => .pure ⟨?_, fun h => ⟨?_, ?_⟩⟩
  · refine .bind (Q := fun u => u.scheduledNames = s.scheduledNames ∧ (Limits s → Limits u)) ?_
      fun u hu => .pure hu
    unfold resetVirtualScheduleTime
    refine .ensure fun _ => .pure ⟨?_, fun h => ⟨?_, ?_⟩⟩
    · unfold scheduledNames
      rw [← hschedule]
    · show t.schedule.maxVotedWitnesses = 20
      rw [hschedule]
      exact h.voted
    · show t.schedule.maxMinerWitnesses = 0
      rw [hschedule]
      exact h.miners
  · unfold scheduledNames
    rw [← hschedule]
  · rw [hschedule]
    exact h.voted
  · rw [hschedule]
    exact h.miners

theorem mem_take_toList {num : Nat} {names : Vector AccountName 21} {P : AccountName → Prop}
    (h : NamesUpTo num P names) : ∀ n ∈ names.toList.take num, P n := by
  intro n hn
  obtain ⟨i, hi, rfl⟩ := List.mem_iff_getElem.mp hn
  rw [List.length_take, Vector.length_toList] at hi
  rw [List.getElem_take, Vector.getElem_toList]
  exact h i (by omega) (by omega)

/-- The new schedule has the names of those chosen. -/
theorem installSchedule_names {c : Selection} (hpos : 0 < c.active.length)
    (hle : c.active.length ≤ 21) (now : Int) (version : Nat) :
    (s.installSchedule c now version).scheduledNames.length = c.active.length ∧
      ∀ n ∈ (s.installSchedule c now version).scheduledNames, n ∈ c.active.map Witness.owner := by
  have hnum : max (c.active.length % 256) 1 = c.active.length := by omega
  have hschedule : (s.installSchedule c now version).scheduledNames =
      (shuffleFrom s.headBlockTime c.active.length c.active.length 0 (Vector.ofFn fun i : Fin 21 =>
        (c.active.map Witness.owner).getD i.val "")).toList.take c.active.length := by
    show List.take (max (c.active.length % 256) 1) (Vector.toList (shuffleFrom s.headBlockTime
      (max (c.active.length % 256) 1) (max (c.active.length % 256) 1) 0 _)) = _
    rw [hnum]
  rw [hschedule]
  constructor
  · rw [List.length_take, Vector.length_toList]
    omega
  · refine mem_take_toList (NamesUpTo.shuffleFrom _ _ 0 (zero_add _) fun i hi hnum => ?_)
    rw [Vector.getElem_ofFn]
    have hi' : i < (c.active.map Witness.owner).length := by
      rw [List.length_map]
      exact hnum
    rw [List.getD_eq_getElem?_getD, List.getElem?_eq_getElem hi', Option.getD_some]
    exact List.getElem_mem hi'

/-- **When a round completes.** -/
theorem Ready.completes_iff (h : Ready s) (henabled : 0 < s.enabledCount) :
    (∃ t, s.updateWitnessSchedule4 = .ok t) ↔
      min maxWitnesses s.witnesses.rows.length ≤ s.enabledCount := by
  have hids : (s.witnesses.rows.map Witness.id).Nodup := by
    rw [h.numbered]
    exact List.nodup_range
  have hactive := active_length h.toLimits hids
  have hle : s.enabledCount ≤ s.witnesses.rows.length := List.countP_le_length
  constructor
  · rintro ⟨t, ht⟩
    unfold updateWitnessSchedule4 at ht
    obtain ⟨⟨u, now⟩, -, ht⟩ := bind_eq_ok.mp ht
    obtain ⟨hassert, -⟩ := ensure_bind_eq_ok.mp ht
    rw [decide_eq_true_eq, hactive] at hassert
    omega
  · intro henough
    have hsame := markSelection_same s s.selectWitnesses
    have hvotes : ∀ w ∈ s.selectWitnesses.processed, w.votes ≠ -1 :=
      fun w hw => h.votes w (mem_of_processed hw)
    obtain ⟨⟨t, now⟩, ht⟩ := advanceVirtualTime_eq_ok (hsame.votes_ne h.votes) hvotes
    have htsame := hsame.trans (advanceVirtualTime_same _ _ _ ht)
    have howners : t.witnesses.rows.map Witness.owner = s.witnesses.rows.map Witness.owner :=
      htsame.owners_eq
    have hnames : t.scheduledNames = s.scheduledNames := by
      rw [(advanceVirtualTime_schedule _ _ _ ht).1]
      unfold scheduledNames
      rw [(markSelection_sameClocks s s.selectWitnesses).schedule]
    obtain ⟨scheduled, hscheduled, -⟩ := mapM_eq_ok (l := t.scheduledNames) (f := t.getWitness)
      fun n hn => exists_getWitness.mpr (by rw [howners]; exact h.names n (hnames ▸ hn))
    have hscheduled : t.scheduledWitnesses = .ok scheduled := hscheduled
    have hlength : s.selectWitnesses.active.length = min maxWitnesses s.witnesses.rows.length := by
      omega
    unfold updateWitnessSchedule4
    simp only [bind, Except.bind, ht, hlength, decide_true, ensure, if_true, hscheduled]
    have hmax : maxWitnesses = 21 := rfl
    obtain ⟨hcount, hall⟩ := installSchedule_names
      (s := t.tallyHardforkVotes scheduled) (c := s.selectWitnesses) (by omega) (by omega) now
      (majorityVersion t.schedule.hardforkRequiredWitnesses t.schedule.majorityVersion
        (scheduled.map Witness.runningVersion))
    refine updateMedianWitnessProps_eq_ok (by omega) fun n hn => ?_
    show n ∈ t.witnesses.rows.map Witness.owner
    rw [howners]
    obtain ⟨w, hw, rfl⟩ := List.mem_map.mp (hall n hn)
    exact List.mem_map_of_mem (active_subset h.toLimits w hw)

/-! ## Runs -/

theorem ready_genesis (supply : Int) : Ready (genesis supply) where
  voted := rfl
  miners := rfl
  numbered := rfl
  votes := by
    intro w hw
    have hw :
      w = { Witness.make 0 initMinerName with signingKey := some 0, schedule := .miner } := by
      simpa [genesis] using hw
    rw [hw]
    decide
  names := by
    intro n hn
    have hn : n ∈ [initMinerName] := hn
    rw [List.mem_singleton] at hn
    rw [hn]
    exact List.mem_cons_self

theorem votes_paced (now : Int) : Paced now fun w => w.votes ≠ -1 where
  congr := by
    intro w w' hclock hw
    have hvotes := congrArg Witness.votes hclock
    exact fun heq => hw (hvotes.symm.trans heq)
  create := fun _ _ => by show (0 : Int) ≠ -1; decide
  move := fun _ hne _ => hne

theorem Ready.between (h : Ready s) (ht : Between s (fun w => w.votes ≠ -1) t) : Ready t where
  voted := by
    have := congrArg WitnessSchedule.maxVotedWitnesses ht.schedule
    exact this.trans h.voted
  miners := by
    have := congrArg WitnessSchedule.maxMinerWitnesses ht.schedule
    exact this.trans h.miners
  numbered := ht.numbered h.numbered
  votes := ht.witnesses
  names := by
    intro n hn
    have hnames := congrArg (fun p : WitnessSchedule =>
      p.currentShuffledWitnesses.toList.take p.numScheduledWitnesses) ht.schedule
    change t.scheduledNames = s.scheduledNames at hnames
    rw [hnames] at hn
    exact ht.owners (h.names n hn)

theorem updateMedianWitnessProps_names (s : Database) :
    Returns s.updateMedianWitnessProps fun t => t.scheduledNames = s.scheduledNames ∧
      (Limits s → Limits t) ∧ ∀ n ∈ s.scheduledNames, n ∈ s.witnesses.rows.map Witness.owner := by
  unfold updateMedianWitnessProps
  refine .bind_eq fun active hactive => .bind_any fun _ => .bind_any fun _ => .bind_any fun _ =>
    .bind_any fun _ => .pure ⟨rfl, fun h => ⟨h.voted, h.miners⟩, fun n hn => ?_⟩
  exact exists_getWitness.mp (forall_of_mapM_eq_ok hactive n hn)

theorem SameWitnesses.numbered (hs : SameWitnesses s t) (h : Numbered s) : Numbered t := by
  have hids := congrArg (List.map fun i : Nat × AccountName × Int × Option Nat => i.1) hs.witnesses
  rw [List.map_map, List.map_map] at hids
  unfold Numbered
  rw [hs.nextId]
  exact hids.trans h

/-- A round that completes has put witnesses on the schedule. -/
theorem Ready.updateWitnessSchedule4 (h : Ready s) (hsame : SameWitnesses s t)
    (ht : s.updateWitnessSchedule4 = .ok t) : Ready t := by
  unfold Database.updateWitnessSchedule4 at ht
  obtain ⟨⟨u, now⟩, hu, ht⟩ := bind_eq_ok.mp ht
  obtain ⟨-, ht⟩ := ensure_bind_eq_ok.mp ht
  obtain ⟨scheduled, -, ht⟩ := bind_eq_ok.mp ht
  obtain ⟨hnames, hlimits, hall⟩ := updateMedianWitnessProps_names _ t ht
  have husame := (markSelection_same s s.selectWitnesses).trans (advanceVirtualTime_same _ _ _ hu)
  have hu' : Limits u := by
    refine (advanceVirtualTime_schedule _ _ _ hu).2 ⟨?_, ?_⟩
    · rw [(markSelection_sameClocks s s.selectWitnesses).schedule]
      exact h.voted
    · rw [(markSelection_sameClocks s s.selectWitnesses).schedule]
      exact h.miners
  exact
    { toLimits := hlimits ⟨hu'.voted, hu'.miners⟩
      numbered := hsame.numbered h.numbered
      votes := hsame.votes_ne h.votes
      names := fun n hn => by
        have hn : n ∈ u.witnesses.rows.map Witness.owner := hall n (hnames ▸ hn)
        rw [husame.owners_eq] at hn
        rw [hsame.owners_eq]
        exact hn }

theorem Ready.perform (h : Ready s) (c : Call) : Returns (s.perform c) Ready := by
  by_cases hc : c = .updateWitnessSchedule
  · subst hc
    intro t ht
    have hsame := updateWitnessSchedule_same s t ht
    have ht : s.updateWitnessSchedule = .ok t := ht
    unfold updateWitnessSchedule at ht
    split at ht
    · exact h.updateWitnessSchedule4 hsame ht
    · exact Except.ok.inj ht ▸ h
  · exact ((votes_paced _).perform (.start h.votes) hc).mono fun t ht => h.between ht

theorem Reachable.ready {C : Database → Call → Prop} (h : Reachable C s) : Ready s :=
  h.invariant ready_genesis (fun _ t c _ hs _ ht => hs.perform c t ht) fun _ _ hs hst =>
    hs.between ((Between.start hs.votes).sameStake (votes_paced _) hst)

/-- **A round completes** if and only if it is not due, or enough witnesses have
a key. -/
theorem update_witness_schedule_completes (h : Reachable anyCall s)
    (henabled : ∃ w ∈ s.witnesses.rows, w.enabled) :
    (∃ t, s.updateWitnessSchedule = .ok t) ↔
      s.props.headBlockNumber % maxWitnesses ≠ 0 ∨
        min maxWitnesses s.witnesses.rows.length ≤ s.enabledCount := by
  have hpos : 0 < s.enabledCount := List.countP_pos_iff.mpr henabled
  unfold updateWitnessSchedule
  split
  next hdue => simp [h.ready.completes_iff hpos, hdue]
  next hnot => simp [hnot]

/-- The state at another block number. -/
def atBlock (s : Database) (n : Nat) : Database :=
  { s with props := { s.props with headBlockNumber := n } }

theorem atBlock_step (s : Database) (n : Nat) : Step s .other (s.atBlock n) :=
  .other ⟨rfl, rfl, rfl, rfl, rfl, rfl, rfl, rfl, rfl, rfl⟩

/-- `alice` becomes a witness, with the key `key`. -/
def secondWitness (key : Option Nat) : List Call :=
  [.accountCreate "initminer" "alice" [] 0, .witnessUpdate "alice" key 1 65536 0]

theorem update_witness_schedule_second :
    ∃ t, run anyCall (genesis 0) (secondWitness (some 1)) = .ok t ∧
      ((∃ u, (t.atBlock 21).updateWitnessSchedule = .ok u) ↔
        (t.atBlock 21).props.headBlockNumber % maxWitnesses ≠ 0 ∨
          min maxWitnesses (t.atBlock 21).witnesses.rows.length ≤ (t.atBlock 21).enabledCount) := by
  obtain ⟨t, hrun, henabled⟩ := exists_run anyCall (genesis 0) (secondWitness (some 1))
    (fun t => ∃ w ∈ (t.atBlock 21).witnesses.rows, w.enabled) (by decide +kernel)
  exact ⟨t, hrun, update_witness_schedule_completes
    (.step (.run (.genesis 0) hrun) trivial (atBlock_step t 21)) (of_decide_eq_true henabled)⟩

/-- `alice` is a witness without a key, and block 21 cannot be applied. -/
theorem update_witness_schedule_stops :
    ∃ s, Reachable anyCall s ∧ (∃ w ∈ s.witnesses.rows, w.enabled) ∧
      ¬∃ t, s.updateWitnessSchedule = .ok t := by
  obtain ⟨t, hrun, hfails⟩ := exists_run anyCall (genesis 0) (secondWitness none)
    (fun t => (∃ w ∈ (t.atBlock 21).witnesses.rows, w.enabled) ∧
      (t.atBlock 21).updateWitnessSchedule.toOption.isNone) (by decide +kernel)
  obtain ⟨henabled, hnone⟩ := of_decide_eq_true hfails
  refine ⟨t.atBlock 21, .step (.run (.genesis 0) hrun) trivial (atBlock_step t 21), henabled, ?_⟩
  rintro ⟨u, hu⟩
  rw [hu] at hnone
  cases hnone

end Database

end Gamebank.Ledger
