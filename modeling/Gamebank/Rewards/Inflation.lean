import Gamebank.Ledger.Rewards
import Gamebank.Lib.ProRata
import Gamebank.Stake.Rounds

/-!
# What a round of blocks mints

`update_witness_schedule4` marks the witnesses it chooses and adds up their
weights; `process_funds` pays the producer of a block its weight out of that
sum, of 21 times the share of one block. Over a round the weights add up, so
that 21 shares are paid, less what rounding down takes, whatever the number
of blocks in the round.
-/

namespace Gamebank.Ledger

open Gamebank.Lib Gamebank.Protocol

variable {s t u : Database}

/-- What `process_funds` looks at of a witness. -/
def Witness.mark (w : Witness) : AccountName × WitnessScheduleType := (w.owner, w.schedule)

namespace Database

/-! ## The chosen witnesses -/

/-- The unique indices of `witness_object`. -/
structure Indexed (s : Database) : Prop where
  ids : (s.witnesses.rows.map Witness.id).Nodup
  owners : (s.witnesses.rows.map Witness.owner).Nodup

theorem selectMiners_sublist (limit : Nat) (voted queue chosen processed : List Witness) :
    ∃ more, (selectMiners limit voted queue chosen processed).1 = chosen ++ more ∧
      more.Sublist (queue.filter fun w => !(voted.map Witness.id).contains w.id) := by
  induction queue generalizing chosen processed with
  | nil => exact ⟨[], by rw [selectMiners, List.append_nil], List.nil_sublist _⟩
  | cons w queue ih =>
      rw [selectMiners]
      by_cases hfull : limit ≤ chosen.length
      · rw [if_pos hfull]
        exact ⟨[], by rw [List.append_nil], List.nil_sublist _⟩
      · rw [if_neg hfull]
        by_cases hw : (!(voted.map Witness.id).contains w.id && w.enabled) = true
        · obtain ⟨more, heq, hsub⟩ := ih (chosen ++ [w]) (processed ++ [w])
          have hnew := (Bool.and_eq_true_iff.mp hw).1
          rw [if_pos hw, heq, List.append_assoc,
            List.filter_cons_of_pos (p := fun w : Witness => !(voted.map Witness.id).contains w.id)
              hnew]
          exact ⟨w :: more, rfl, hsub.cons_cons w⟩
        · obtain ⟨more, heq, hsub⟩ := ih chosen (processed ++ [w])
          rw [if_neg hw, heq]
          exact ⟨more, rfl, hsub.trans ((List.sublist_cons_self w queue).filter _)⟩

theorem selectRunning_sublist (others : List Nat) (queue : List Witness) (count : Nat) :
    (selectRunning others queue count).1.Sublist
      (queue.filter fun w => !others.contains w.id) := by
  induction queue generalizing count with
  | nil => exact List.nil_sublist _
  | cons w queue ih =>
      have hskip := (ih count).trans ((List.sublist_cons_self w queue).filter _)
      rw [selectRunning]
      by_cases hfull : maxWitnesses ≤ count
      · rw [if_pos hfull]
        exact List.nil_sublist _
      · rw [if_neg hfull]
        by_cases hw : (w.enabled && !others.contains w.id) = true
        · have hnew := (Bool.and_eq_true_iff.mp hw).2
          rw [if_pos hw,
            List.filter_cons_of_pos (p := fun w : Witness => !others.contains w.id) hnew]
          exact (ih (count + 1)).cons_cons w
        · rw [if_neg hw]
          exact hskip

/-- Every witness is chosen at most once. -/
theorem Indexed.active_nodup (h : Indexed s) :
    (∀ w ∈ s.selectWitnesses.active, w ∈ s.witnesses.rows) ∧
      (s.selectWitnesses.active.map Witness.owner).Nodup := by
  have hsorted : ∀ (le : Witness → Witness → Prop) [DecidableRel le],
      (s.witnesses.rows.insertionSort le).Perm s.witnesses.rows :=
    fun le _ => List.perm_insertionSort le _
  have honce : ∀ {l : List Witness}, l.Subperm s.witnesses.rows → l.Nodup := by
    rintro l ⟨l', hperm, hsub⟩
    exact hperm.nodup_iff.mp (hsub.nodup (.of_map _ h.ids))
  obtain ⟨miners, hminers, hsubMiners⟩ :=
    selectMiners_sublist s.schedule.maxMinerWitnesses s.selectVoted s.powQueue [] []
  have hvoted : s.selectWitnesses.voted = s.selectVoted := rfl
  have hminers' : s.selectWitnesses.miners = miners := hminers
  have hrunning : s.selectWitnesses.running.Sublist
      ((s.witnesses.rows.insertionSort Witness.byScheduleTime).filter fun w =>
        !((s.selectVoted ++ miners).map Witness.id).contains w.id) := by
    rw [← hminers']
    exact selectRunning_sublist _ _ _
  have hvotedRows : s.selectVoted.Subperm s.witnesses.rows :=
    ((List.take_sublist _ _).trans List.filter_sublist).subperm.trans (hsorted _).subperm
  have hminersRows : miners.Subperm s.witnesses.rows :=
    (hsubMiners.trans List.filter_sublist).subperm.trans
      ((List.perm_insertionSort _ _).subperm.trans List.filter_sublist.subperm)
  have hrunningRows : s.selectWitnesses.running.Subperm s.witnesses.rows :=
    (hrunning.trans List.filter_sublist).subperm.trans (hsorted _).subperm
  have hmem : ∀ w ∈ s.selectWitnesses.active, w ∈ s.witnesses.rows := by
    intro w hw
    rw [Selection.active, hvoted, hminers', List.mem_append, List.mem_append] at hw
    rcases hw with (hw | hw) | hw
    · exact hvotedRows.subset hw
    · exact hminersRows.subset hw
    · exact hrunningRows.subset hw
  refine ⟨hmem, ?_⟩
  have hnotVoted : ∀ w ∈ miners, w ∉ s.selectVoted := by
    intro w hw hwv
    have := List.of_mem_filter (hsubMiners.subset hw)
    simp only [Bool.not_eq_true', List.contains_eq_mem, decide_eq_false_iff_not] at this
    exact this (List.mem_map_of_mem hwv)
  have hnotChosen : ∀ w ∈ s.selectWitnesses.running, w ∉ s.selectVoted ++ miners := by
    intro w hw hwc
    have := List.of_mem_filter (hrunning.subset hw)
    simp only [Bool.not_eq_true', List.contains_eq_mem, decide_eq_false_iff_not] at this
    exact this (List.mem_map_of_mem hwc)
  have hnodup : s.selectWitnesses.active.Nodup := by
    rw [Selection.active, hvoted, hminers', List.nodup_append, List.nodup_append]
    refine ⟨⟨honce hvotedRows, honce hminersRows, ?_⟩, honce hrunningRows, ?_⟩
    · rintro a ha b hb rfl
      exact hnotVoted a hb ha
    · rintro a ha b hb rfl
      exact hnotChosen a hb ha
  exact hnodup.map_on fun a ha b hb =>
    List.inj_on_of_nodup_map h.owners (hmem a ha) (hmem b hb)

/-! ## The marks -/

def marks (s : Database) : List (AccountName × WitnessScheduleType) :=
    s.witnesses.rows.map Witness.mark

/-- The mark `k` for the names in the list. -/
def remark (names : List AccountName) (k : WitnessScheduleType)
    (m : AccountName × WitnessScheduleType) : AccountName × WitnessScheduleType :=
  if m.1 ∈ names then (m.1, k) else m

@[simp] theorem remark_fst (names : List AccountName) (k : WitnessScheduleType)
    (m : AccountName × WitnessScheduleType) : (remark names k m).1 = m.1 := by
  unfold remark
  by_cases hm : m.1 ∈ names
  · rw [if_pos hm]
  · rw [if_neg hm]

theorem map_remark_fst (names : List AccountName) (k : WitnessScheduleType)
    (l : List (AccountName × WitnessScheduleType)) :
    (l.map (remark names k)).map Prod.fst = l.map Prod.fst := by
  rw [List.map_map]
  exact List.map_congr_left fun m _ => remark_fst names k m

theorem marks_owners (s : Database) :
    s.marks.map Prod.fst = s.witnesses.rows.map Witness.owner := by
  rw [marks, List.map_map]
  rfl

theorem marks_modifyWitness (howners : (s.marks.map Prod.fst).Nodup) (owner : AccountName)
    (k : WitnessScheduleType) :
    (s.modifyWitness owner fun w => { w with schedule := k }).marks =
      s.marks.map (remark [owner] k) := by
  rw [marks_owners] at howners
  have hrows : (s.modifyWitness owner fun w => { w with schedule := k }).witnesses.rows =
      s.witnesses.rows.map fun w => if w.owner = owner then { w with schedule := k } else w :=
    @modifyFirst_eq_map _ _ _ Witness.owner _ _ howners _
  rw [marks, hrows, marks, List.map_map, List.map_map]
  refine List.map_congr_left fun w _ => ?_
  show Witness.mark (if w.owner = owner then { w with schedule := k } else w) =
    if w.owner ∈ [owner] then (w.owner, k) else w.mark
  by_cases hw : w.owner = owner
  · rw [if_pos hw, if_pos (List.mem_singleton.mpr hw)]
    rfl
  · rw [if_neg hw, if_neg fun h => hw (List.mem_singleton.mp h)]

/-- All the chosen witnesses get the mark, and no others. -/
theorem marks_modifyWitnesses (howners : (s.marks.map Prod.fst).Nodup) (chosen : List Witness)
    (k : WitnessScheduleType) :
    (s.modifyWitnesses chosen fun w => { w with schedule := k }).marks =
      s.marks.map (remark (chosen.map Witness.owner) k) := by
  induction chosen generalizing s with
  | nil =>
      have hid : remark ([] : List AccountName) k = id := by
        funext m
        exact if_neg List.not_mem_nil
      show s.marks = s.marks.map (remark [] k)
      rw [hid, List.map_id]
  | cons c rest ih =>
      have hfirst := marks_modifyWitness howners c.owner k
      have howners' : ((s.modifyWitness c.owner fun w =>
          { w with schedule := k }).marks.map Prod.fst).Nodup := by
        rw [hfirst, map_remark_fst]
        exact howners
      show ((s.modifyWitness c.owner _).modifyWitnesses rest _).marks = _
      rw [ih howners', hfirst, List.map_map]
      refine List.map_congr_left fun m _ => ?_
      show remark (rest.map Witness.owner) k (remark [c.owner] k m) = _
      unfold remark
      by_cases hm : m.1 = c.owner
      · simp [hm]
      · simp [hm]

/-- What the virtual schedule does not touch. -/
structure SameMarks (s t : Database) : Prop where
  marks : t.marks = s.marks
  top19 : t.schedule.top19Weight = s.schedule.top19Weight
  miner : t.schedule.minerWeight = s.schedule.minerWeight
  timeshare : t.schedule.timeshareWeight = s.schedule.timeshareWeight

theorem SameMarks.refl (s : Database) : SameMarks s s := ⟨rfl, rfl, rfl, rfl⟩

theorem SameMarks.trans (h : SameMarks s t) (h' : SameMarks t u) : SameMarks s u :=
  ⟨h'.marks.trans h.marks, h'.top19.trans h.top19, h'.miner.trans h.miner,
    h'.timeshare.trans h.timeshare⟩

theorem SameMarks.modifyWitness (owner : AccountName) {f : Witness → Witness}
    (hf : ∀ w, (f w).mark = w.mark) : SameMarks s (s.modifyWitness owner f) :=
  ⟨map_modifyFirst hf s.witnesses.rows, rfl, rfl, rfl⟩

theorem SameMarks.modifyWitnesses (chosen : List Witness) {f : Witness → Witness}
    (hf : ∀ w, (f w).mark = w.mark) : SameMarks s (s.modifyWitnesses chosen f) := by
  induction chosen generalizing s with
  | nil => exact .refl s
  | cons c rest ih =>
      exact (SameMarks.modifyWitness c.owner hf).trans (ih (s := s.modifyWitness c.owner f))

theorem updateProcessed_marks (now : Int) (processed : List Witness) (s : Database) :
    Returns (updateProcessed now processed s) fun r => SameMarks s r.1 := by
  induction processed generalizing s with
  | nil => exact .ok (.refl s)
  | cons w rest ih =>
      unfold updateProcessed
      refine .bind_any fun lap => .ite (fun _ => .pure (.refl s)) fun _ => ?_
      refine (ih _).mono fun r hr => SameMarks.trans (SameMarks.modifyWitness w.owner ?_) hr
      exact fun _ => rfl

theorem advanceVirtualTime_marks (s : Database) (processed : List Witness) :
    Returns (s.advanceVirtualTime processed) fun r => SameMarks s r.1 := by
  unfold advanceVirtualTime
  refine .bind (updateProcessed_marks _ processed s) fun ⟨t, overflow⟩ ht => ?_
  refine .ite (fun _ => .bind (Q := SameMarks t) ?_ fun u hu => .pure (ht.trans hu)) fun _ =>
    .pure ht
  unfold resetVirtualScheduleTime
  refine .ensure fun _ => .pure ⟨?_, rfl, rfl, rfl⟩
  rw [marks, marks, List.map_map]
  rfl

/-- The chosen witnesses are marked by the way they were chosen. -/
theorem markSelection_marks (howners : (s.marks.map Prod.fst).Nodup) (c : Selection) :
    (s.markSelection c).marks = ((s.marks.map (remark (c.voted.map Witness.owner) .top19)).map
      (remark (c.miners.map Witness.owner) .miner)).map
        (remark (c.running.map Witness.owner) .timeshare) := by
  have hvoted := marks_modifyWitnesses howners c.voted .top19
  unfold markSelection
  dsimp only
  generalize (s.modifyWitnesses c.voted fun w => { w with schedule := .top19 }) = v at hvoted ⊢
  have hminers := marks_modifyWitnesses
    (by rw [hvoted, map_remark_fst]; exact howners) c.miners .miner
  generalize (v.modifyWitnesses c.miners fun w => { w with schedule := .miner }) = m at hminers ⊢
  have hqueued := (SameMarks.modifyWitnesses (s := m) c.queued
    (f := fun w => { w with powWorker := 0 }) fun _ => rfl).marks
  generalize (m.modifyWitnesses c.queued fun w => { w with powWorker := 0 }) = q at hqueued ⊢
  have hrunning := marks_modifyWitnesses
    (s := { q with props := { q.props with numPowWitnesses := q.props.numPowWitnesses -
      c.queued.length } })
    (by
      show (q.marks.map Prod.fst).Nodup
      rw [hqueued, hminers, hvoted, map_remark_fst, map_remark_fst]
      exact howners) c.running .timeshare
  refine hrunning.trans ?_
  show q.marks.map _ = _
  rw [hqueued, hminers, hvoted]

/-! ## The schedule -/

/-- A swap among the first `num` names leaves the others alone. -/
theorem drop_swap {num i j : Nat} (names : Vector AccountName 21) (hi : i < 21) (hj : j < 21)
    (hi' : i < num) (hj' : j < num) :
    (names.swap i j hi hj).toList.drop num = names.toList.drop num := by
  refine List.ext_getElem (by simp) fun k hk hk' => ?_
  rw [List.getElem_drop, List.getElem_drop, Vector.getElem_toList, Vector.getElem_toList,
    Vector.getElem_swap_of_ne] <;> omega

/-- A swap among the first `num` names permutes them. -/
theorem take_swap_perm {num i j : Nat} (names : Vector AccountName 21) (hi : i < 21) (hj : j < 21)
    (hi' : i < num) (hj' : j < num) :
    ((names.swap i j hi hj).toList.take num).Perm (names.toList.take num) := by
  have hall : (names.swap i j hi hj).toList.Perm names.toList :=
    (Vector.swap_perm hi hj).toList
  rw [← List.take_append_drop num (names.swap i j hi hj).toList,
    ← List.take_append_drop num names.toList, drop_swap names hi hj hi' hj'] at hall
  exact (List.perm_append_right_iff _).mp hall

/-- The shuffle permutes the names in use, and leaves the others alone. -/
theorem shuffleFrom_perm (headTime : Nat) {num : Nat} (left i : Nat) (names : Vector AccountName 21)
    (hnum : num ≤ 21) (hleft : i + left ≤ num) :
    ((shuffleFrom headTime num left i names).toList.take num).Perm (names.toList.take num) ∧
      (shuffleFrom headTime num left i names).toList.drop num = names.toList.drop num := by
  induction left generalizing i names with
  | zero => exact ⟨.refl _, rfl⟩
  | succ left ih =>
      have hj : i + shuffleDraw headTime i % (num - i) < num := by
        have := Nat.mod_lt (shuffleDraw headTime i) (show 0 < num - i by omega)
        omega
      rw [shuffleFrom]
      rw [dif_pos ⟨by omega, by omega⟩]
      obtain ⟨hperm, hdrop⟩ := ih (i + 1)
        (names.swap i (i + shuffleDraw headTime i % (num - i)) (by omega) (by omega)) (by omega)
      exact ⟨hperm.trans (take_swap_perm names _ _ (by omega) hj),
        hdrop.trans (drop_swap names _ _ (by omega) hj)⟩

/-- The schedule that is made of a selection, with the weights it pays. -/
structure Produced (s : Database) (c : Selection) (t : Database) : Prop where
  names : t.scheduledNames.Perm (c.active.map Witness.owner)
  pos : 0 < c.active.length
  le : c.active.length ≤ maxWitnesses
  marks : t.marks = ((s.marks.map (remark (c.voted.map Witness.owner) .top19)).map
    (remark (c.miners.map Witness.owner) .miner)).map
      (remark (c.running.map Witness.owner) .timeshare)
  normalization : t.schedule.witnessPayNormalizationFactor =
    t.schedule.top19Weight * c.voted.length + t.schedule.minerWeight * c.miners.length
      + t.schedule.timeshareWeight * c.running.length

theorem installSchedule_perm {c : Selection} (hpos : 0 < c.active.length)
    (hle : c.active.length ≤ 21) (now : Int) (version : Nat) :
    (s.installSchedule c now version).scheduledNames.Perm (c.active.map Witness.owner) := by
  have hnum : max (c.active.length % 256) 1 = c.active.length := by omega
  have hnames :
    (Vector.ofFn fun i : Fin 21 => (c.active.map Witness.owner).getD i.val "").toList.take
      c.active.length = c.active.map Witness.owner := by
    refine List.ext_getElem (by simp; omega) fun k hk hk' => ?_
    rw [List.getElem_take, Vector.getElem_toList, Vector.getElem_ofFn, List.getD_eq_getElem?_getD,
      List.getElem?_eq_getElem hk', Option.getD_some]
  have hshuffled := (shuffleFrom_perm s.headBlockTime c.active.length 0
    (Vector.ofFn fun i : Fin 21 => (c.active.map Witness.owner).getD i.val "") hle (by omega)).1
  rw [hnames] at hshuffled
  show (List.take (max (c.active.length % 256) 1) (Vector.toList (shuffleFrom s.headBlockTime
    (max (c.active.length % 256) 1) (max (c.active.length % 256) 1) 0 _))).Perm _
  rw [hnum]
  exact hshuffled

theorem updateMedianWitnessProps_marks (s : Database) :
    Returns s.updateMedianWitnessProps fun t => SameMarks s t ∧
      t.schedule.witnessPayNormalizationFactor = s.schedule.witnessPayNormalizationFactor := by
  unfold updateMedianWitnessProps
  exact .bind_any fun _ => .bind_any fun _ => .bind_any fun _ => .bind_any fun _ =>
    .bind_any fun _ => .pure ⟨⟨rfl, rfl, rfl, rfl⟩, rfl⟩

theorem Indexed.produced (h : Indexed s) (ht : s.updateWitnessSchedule4 = .ok t) :
    Produced s s.selectWitnesses t := by
  have howners : (s.marks.map Prod.fst).Nodup := by
    rw [marks_owners]
    exact h.owners
  unfold updateWitnessSchedule4 at ht
  obtain ⟨⟨u, now⟩, hu, ht⟩ := bind_eq_ok.mp ht
  obtain ⟨hlength, ht⟩ := ensure_bind_eq_ok.mp ht
  obtain ⟨scheduled, -, ht⟩ := bind_eq_ok.mp ht
  rw [decide_eq_true_eq] at hlength
  dsimp only at ht
  have hmarks := advanceVirtualTime_marks _ _ _ hu
  obtain ⟨hnames, -, hknown⟩ := updateMedianWitnessProps_names _ t ht
  obtain ⟨hsame, hnormal⟩ := updateMedianWitnessProps_marks _ t ht
  have hle : s.selectWitnesses.active.length ≤ maxWitnesses := by omega
  have hpos : 0 < s.selectWitnesses.active.length := by
    by_contra hzero
    have hempty : s.selectWitnesses.active.length = 0 := by omega
    have hrows : s.witnesses.rows = [] := by
      rw [← List.length_eq_zero_iff]
      unfold maxWitnesses at hlength
      omega
    have hsched := ((markSelection_same s s.selectWitnesses).trans
      (advanceVirtualTime_same _ _ _ hu)).owners_eq
    rw [hrows, List.map_nil] at hsched
    have hone : (installSchedule (u.tallyHardforkVotes scheduled) s.selectWitnesses now
        (majorityVersion u.schedule.hardforkRequiredWitnesses u.schedule.majorityVersion
          (scheduled.map Witness.runningVersion))).scheduledNames.length = 1 := by
      show (List.take (max (s.selectWitnesses.active.length % 256) 1) (Vector.toList _)).length = 1
      rw [List.length_take, Vector.length_toList, hempty]
      decide
    obtain ⟨n, hn⟩ := List.exists_mem_of_length_pos (show 0 < _ by rw [hone]; exact one_pos)
    have hmem := hknown n hn
    rw [show (installSchedule (u.tallyHardforkVotes scheduled) s.selectWitnesses now _).witnesses =
      u.witnesses from rfl, hsched] at hmem
    exact absurd hmem List.not_mem_nil
  exact
    { names := by
        rw [hnames]
        exact installSchedule_perm hpos hle _ _
      pos := hpos
      le := hle
      marks := by
        rw [hsame.marks]
        show u.marks = _
        rw [hmarks.marks, markSelection_marks howners]
      normalization := by
        rw [hnormal, hsame.top19, hsame.miner, hsame.timeshare]
        rfl }

/-! ## The weights of a round -/

/-- The weight `process_funds` gives the producer of a block. -/
def producerWeight (s : Database) (name : AccountName) : Int :=
  match s.witnesses.find? fun w => w.owner = name with
  | some w => payWeight s.schedule w.schedule
  | none => 0

/-- The weights of the witnesses on the schedule. -/
def roundWeights (s : Database) : List Int := s.scheduledNames.map s.producerWeight

theorem producerWeight_of_mark (howners : (s.marks.map Prod.fst).Nodup) {name : AccountName}
    {k : WitnessScheduleType} (h : (name, k) ∈ s.marks) :
    s.producerWeight name = payWeight s.schedule k := by
  obtain ⟨w, hw, hmark⟩ := List.mem_map.mp h
  obtain ⟨rfl, rfl⟩ := Prod.mk.inj hmark
  rw [marks_owners] at howners
  have hfind : s.witnesses.find? (fun w' => w'.owner = w.owner) = some w :=
    (@find?_key_eq_some _ _ _ Witness.owner _ _ _ howners).mpr ⟨hw, rfl⟩
  rw [producerWeight, hfind]

theorem remark_of_mem {names : List AccountName} {k : WitnessScheduleType}
    {m : AccountName × WitnessScheduleType} (h : m.1 ∈ names) : remark names k m = (m.1, k) :=
  if_pos h

theorem remark_of_not_mem {names : List AccountName} {k : WitnessScheduleType}
    {m : AccountName × WitnessScheduleType} (h : m.1 ∉ names) : remark names k m = m :=
  if_neg h

theorem sum_map_const {α : Type} {f : α → Int} {x : Int} {l : List α} (h : ∀ a ∈ l, f a = x) :
    (l.map f).sum = x * l.length := by
  rw [List.map_congr_left h, List.map_const', List.sum_replicate, nsmul_eq_mul, mul_comm]

/-- **The weights add up** to the normalization factor. -/
theorem Indexed.sum_roundWeights (h : Indexed s) (ht : s.updateWitnessSchedule4 = .ok t) :
    t.roundWeights.sum = t.schedule.witnessPayNormalizationFactor := by
  have hp := h.produced ht
  have howners : (t.marks.map Prod.fst).Nodup := by
    rw [hp.marks, map_remark_fst, map_remark_fst, map_remark_fst, marks_owners]
    exact h.owners
  obtain ⟨hrows, hnodup⟩ := h.active_nodup
  rw [Selection.active, List.map_append, List.map_append, List.nodup_append,
    List.nodup_append] at hnodup
  obtain ⟨⟨-, -, hvm⟩, -, hcr⟩ := hnodup
  have hmark : ∀ w ∈ s.selectWitnesses.active,
      remark (s.selectWitnesses.running.map Witness.owner) .timeshare
        (remark (s.selectWitnesses.miners.map Witness.owner) .miner
          (remark (s.selectWitnesses.voted.map Witness.owner) .top19 (w.owner, w.schedule))) ∈
        t.marks := by
    intro w hw
    rw [hp.marks]
    exact List.mem_map_of_mem (List.mem_map_of_mem (List.mem_map_of_mem
      (List.mem_map_of_mem (hrows w hw))))
  -- a witness is in one of the three lists only, and keeps the mark it gets there
  have hrunning : ∀ w ∈ s.selectWitnesses.running,
      t.producerWeight w.owner = t.schedule.timeshareWeight := by
    intro w hw
    have hm := hmark w (List.mem_append_right _ hw)
    rw [remark_of_mem (by simpa using List.mem_map_of_mem hw)] at hm
    exact producerWeight_of_mark howners (by simpa using hm)
  have hminers : ∀ w ∈ s.selectWitnesses.miners,
      t.producerWeight w.owner = t.schedule.minerWeight := by
    intro w hw
    have hm := hmark w (List.mem_append_left _ (List.mem_append_right _ hw))
    have hin : w.owner ∈ s.selectWitnesses.miners.map Witness.owner := List.mem_map_of_mem hw
    have hout : w.owner ∉ s.selectWitnesses.running.map Witness.owner :=
      fun hr => hcr _ (List.mem_append_right _ hin) _ hr rfl
    rw [remark_of_not_mem (by simpa using hout), remark_of_mem (by simpa using hin)] at hm
    exact producerWeight_of_mark howners (by simpa using hm)
  have hvoted : ∀ w ∈ s.selectWitnesses.voted,
      t.producerWeight w.owner = t.schedule.top19Weight := by
    intro w hw
    have hm := hmark w (List.mem_append_left _ (List.mem_append_left _ hw))
    have hin : w.owner ∈ s.selectWitnesses.voted.map Witness.owner := List.mem_map_of_mem hw
    have hout : w.owner ∉ s.selectWitnesses.miners.map Witness.owner :=
      fun hr => hvm _ hin _ hr rfl
    have hout' : w.owner ∉ s.selectWitnesses.running.map Witness.owner :=
      fun hr => hcr _ (List.mem_append_left _ hin) _ hr rfl
    rw [remark_of_not_mem (by simpa using hout'), remark_of_not_mem (by simpa using hout),
      remark_of_mem (by simpa using hin)] at hm
    exact producerWeight_of_mark howners (by simpa using hm)
  have hperm := (hp.names.map t.producerWeight).sum_eq
  rw [roundWeights, hperm, Selection.active, List.map_map, List.map_append, List.map_append,
    List.sum_append, List.sum_append,
    sum_map_const (f := t.producerWeight ∘ Witness.owner) hvoted,
    sum_map_const (f := t.producerWeight ∘ Witness.owner) hminers,
    sum_map_const (f := t.producerWeight ∘ Witness.owner) hrunning, hp.normalization]
  push_cast
  ring

/-! ## What a block mints -/

/-- The inflation of one block. -/
def newGbc (s : Database) : Int :=
  (s.props.virtualSupply * inflationRate s.props.headBlockNumber).tdiv
    (hundredPercent * blocksPerYear)

/-- What the reward funds and the vesting fund leave of the inflation of a block
for its witness. -/
def witnessShare (s : Database) : Except String Int := do
  let (_, contentReward) ← s.payRewardFunds ((s.newGbc * contentRewardPercent).tdiv hundredPercent)
  return s.newGbc - contentReward - (s.newGbc * vestingFundPercent).tdiv hundredPercent

theorem payRewardFunds_rest (s : Database) (reward : Int) :
    Returns (s.payRewardFunds reward) fun r => r.1.props = s.props ∧ r.1.schedule = s.schedule ∧
      r.1.witnesses = s.witnesses := by
  unfold payRewardFunds
  exact .bind_any fun _ => .pure ⟨rfl, rfl, rfl⟩

theorem createVesting_supply (s : Database) (name : AccountName) (liquid : Asset) :
    Returns (s.createVesting name liquid) fun t =>
      t.props.currentSupply = s.props.currentSupply := by
  refine createVesting_cases s name liquid fun price shares _ _ _ t a _ u hu => ?_
  refine ((OnlyVotes.refl u).adjustProxiedWitnessVotes name shares.amount).mono fun v hv => ?_
  rw [hv.rest, hu]

/-- A block mints its inflation, but for the witness the weight decides. -/
theorem processFunds_mints (ht : s.processFunds = .ok t) :
    ∃ share, s.witnessShare = .ok share ∧ s.schedule.witnessPayNormalizationFactor ≠ 0 ∧
      t.props.currentSupply = s.props.currentSupply + (s.newGbc - share) +
        (share * maxWitnesses * s.producerWeight s.props.currentWitness).tdiv
          s.schedule.witnessPayNormalizationFactor := by
  unfold processFunds at ht
  obtain ⟨-, ht⟩ := ensure_bind_eq_ok.mp ht
  obtain ⟨-, ht⟩ := ensure_bind_eq_ok.mp ht
  obtain ⟨⟨funds, content⟩, hfunds, ht⟩ := bind_eq_ok.mp ht
  dsimp only at ht
  obtain ⟨hprops, hschedule, hwitnesses⟩ := payRewardFunds_rest s _ _ hfunds
  dsimp only at hprops hschedule hwitnesses
  obtain ⟨w, hw, ht⟩ := bind_eq_ok.mp ht
  obtain ⟨-, ht⟩ := ensure_bind_eq_ok.mp ht
  obtain ⟨hnonzero, ht⟩ := ensure_bind_eq_ok.mp ht
  obtain ⟨u, hu, ht⟩ := bind_eq_ok.mp ht
  obtain ⟨-, hu⟩ := modifyProps_spec _ _ _ hu
  have hfind : s.witnesses.find? (fun w => w.owner = s.props.currentWitness) = some w := by
    rw [← hwitnesses, ← hprops]
    exact require_eq_ok.mp hw
  have hshare : s.witnessShare = .ok
      (s.newGbc - content - (s.newGbc * vestingFundPercent).tdiv hundredPercent) := by
    unfold witnessShare
    exact bind_eq_ok.mpr ⟨_, hfunds, rfl⟩
  rw [hschedule] at hnonzero
  refine ⟨_, hshare, by simpa using hnonzero, ?_⟩
  rw [createVesting_supply u _ _ _ ht, hu, producerWeight, hfind]
  dsimp only
  rw [hschedule, hprops]
  show _ + (content + (s.newGbc * vestingFundPercent).tdiv hundredPercent + _) = _
  unfold newGbc
  ring

/-! ## A round -/

/-- One block of a round: `process_funds` goes from the first state to the
second. The producer has the mark and the schedule the weights they had when
the schedule was made, and the inflation is that of the round. -/
structure Mints (t : Database) (gbc share : Int) (producer : AccountName)
    (block : Database × Database) : Prop where
  funds : block.1.processFunds = .ok block.2
  currentWitness : block.1.props.currentWitness = producer
  schedule : block.1.schedule = t.schedule
  mark : (block.1.witnesses.find? fun w => w.owner = producer).map Witness.schedule =
    (t.witnesses.find? fun w => w.owner = producer).map Witness.schedule
  gbc : block.1.newGbc = gbc
  share : block.1.witnessShare = .ok share

/-- The supply a block adds. -/
def minted (block : Database × Database) : Int :=
  block.2.props.currentSupply - block.1.props.currentSupply

/-- What of it is the reward of the witness. -/
def witnessReward (gbc share : Int) (block : Database × Database) : Int :=
  minted block - (gbc - share)

/-- The inflation of a round of `n` blocks: the witnesses are paid their shares
of `n` blocks at most, and no more is minted than the inflation of `n` blocks. -/
structure KeepsInflation (n : Nat) (gbc share : Int) (round : List (Database × Database)) :
    Prop where
  rewards : (round.map (witnessReward gbc share)).sum ≤ n * share
  supply : (round.map minted).sum ≤ n * gbc

theorem Mints.reward {gbc share : Int} {producer : AccountName} {block : Database × Database}
    (h : Mints t gbc share producer block) :
    witnessReward gbc share block = (share * maxWitnesses * t.producerWeight producer).tdiv
        t.schedule.witnessPayNormalizationFactor ∧
      t.schedule.witnessPayNormalizationFactor ≠ 0 := by
  obtain ⟨share', hshare, hnonzero, hsupply⟩ := processFunds_mints h.funds
  obtain rfl : share = share' := Except.ok.inj (h.share.symm.trans hshare)
  have hweight : block.1.producerWeight producer = t.producerWeight producer := by
    have hmark := h.mark
    unfold producerWeight
    rw [h.schedule]
    cases hb : block.1.witnesses.find? fun w => w.owner = producer with
    | none =>
        rw [hb, Option.map_none, eq_comm, Option.map_eq_none_iff] at hmark
        rw [hmark]
    | some w =>
        rw [hb, Option.map_some, eq_comm, Option.map_eq_some_iff] at hmark
        obtain ⟨w', hw', hkind⟩ := hmark
        rw [hw']
        dsimp only
        rw [hkind]
  rw [h.currentWitness, hweight, h.schedule, h.gbc] at hsupply
  rw [h.schedule] at hnonzero
  refine ⟨?_, hnonzero⟩
  rw [witnessReward, minted, hsupply]
  ring

/-- The rewards of a round are the shares of its weights. -/
theorem rewards_eq_shares {gbc share : Int} {names : List AccountName}
    {round : List (Database × Database)} (h : List.Forall₂ (Mints t gbc share) names round) :
    round.map (witnessReward gbc share) = shares (share * maxWitnesses)
        t.schedule.witnessPayNormalizationFactor (names.map t.producerWeight) ∧
      (round.map minted).sum = names.length * (gbc - share) +
        (round.map (witnessReward gbc share)).sum := by
  induction h with
  | nil => exact ⟨rfl, by simp⟩
  | @cons name block names round hblock _ ih =>
      obtain ⟨hrewards, hminted⟩ := ih
      constructor
      · rw [List.map_cons, hrewards, hblock.reward.1]
        rfl
      · rw [List.map_cons, List.sum_cons, hminted, List.map_cons, List.sum_cons, List.length_cons]
        unfold witnessReward
        push_cast
        ring

/-- **A round keeps the inflation** if and only if what rounding down takes
from its weights covers the shares of the blocks that are missing to 21; for
every share this is so only if all 21 places are taken. -/
theorem round_keeps_inflation_iff (hs : Indexed s) (ht : s.updateWitnessSchedule4 = .ok t)
    {gbc share : Int} {round : List (Database × Database)}
    (hround : List.Forall₂ (Mints t gbc share) t.scheduledNames round) :
    (KeepsInflation t.scheduledNames.length gbc share round ↔
      (maxWitnesses - t.scheduledNames.length) * share * t.schedule.witnessPayNormalizationFactor ≤
        (losses (share * maxWitnesses) t.schedule.witnessPayNormalizationFactor
          t.roundWeights).sum) ∧
    ((∀ share' : Int, 0 ≤ share' →
      (maxWitnesses - t.scheduledNames.length) * share' * t.schedule.witnessPayNormalizationFactor ≤
        (losses (share' * maxWitnesses) t.schedule.witnessPayNormalizationFactor
          t.roundWeights).sum) ↔ t.scheduledNames.length = maxWitnesses) := by
  have hp := hs.produced ht
  have hlength : t.scheduledNames.length = s.selectWitnesses.active.length := by
    rw [hp.names.length_eq, List.length_map]
  have hn : 0 < t.scheduledNames.length := hlength ▸ hp.pos
  have hmax : t.scheduledNames.length ≤ maxWitnesses := hlength ▸ hp.le
  have hfactor : (0 : Int) < t.schedule.witnessPayNormalizationFactor := by
    cases hround' : t.scheduledNames with
    | nil => simp [hround'] at hn
    | cons name names =>
        rw [hround'] at hround
        cases hround with
        | cons hblock _ => exact_mod_cast Nat.pos_of_ne_zero hblock.reward.2
  have hsum := hs.sum_roundWeights ht
  obtain ⟨hrewards, hminted⟩ := rewards_eq_shares hround
  constructor
  · have hsplit := sum_shares_add_losses (share * maxWitnesses)
      t.schedule.witnessPayNormalizationFactor t.roundWeights
    rw [hsum] at hsplit
    change round.map (witnessReward gbc share) = shares (share * maxWitnesses)
      t.schedule.witnessPayNormalizationFactor t.roundWeights at hrewards
    rw [← hrewards] at hsplit
    have hiff : (round.map (witnessReward gbc share)).sum ≤ t.scheduledNames.length * share ↔
        (maxWitnesses - t.scheduledNames.length) * share *
            t.schedule.witnessPayNormalizationFactor ≤
          (losses (share * maxWitnesses) t.schedule.witnessPayNormalizationFactor
            t.roundWeights).sum := by
      rw [← mul_le_mul_iff_of_pos_right hfactor]
      constructor <;> intro h <;> linarith
    rw [← hiff]
    constructor
    · exact fun h => h.rewards
    · intro h
      refine ⟨h, ?_⟩
      rw [hminted]
      linarith
  · constructor
    · intro h
      by_contra hne
      -- a share above the number of the places outweighs all that is lost
      have hless : (t.scheduledNames.length : Int) + 1 ≤ maxWitnesses := by
        exact_mod_cast Nat.lt_of_le_of_ne hmax hne
      have hlarge := h (t.scheduledNames.length + 1) (by omega)
      have hloss := losses_le ((t.scheduledNames.length + 1 : Int) * maxWitnesses) hfactor
        t.roundWeights
      rw [roundWeights, List.length_map] at hloss
      have hexcess : ((t.scheduledNames.length : Int) + 1) *
          t.schedule.witnessPayNormalizationFactor ≤
            (maxWitnesses - t.scheduledNames.length) * (t.scheduledNames.length + 1) *
              t.schedule.witnessPayNormalizationFactor := by
        refine mul_le_mul_of_nonneg_right ?_ hfactor.le
        refine le_mul_of_one_le_left ?_ (by omega)
        omega
      rw [roundWeights] at hlarge
      linarith
    · intro hfull share' hshare'
      rw [hfull, sub_self, zero_mul, zero_mul]
      refine losses_nonneg (mul_nonneg hshare' (Int.natCast_nonneg _)) fun x hx => ?_
      obtain ⟨name, -, rfl⟩ := List.mem_map.mp hx
      unfold producerWeight
      split
      · exact Int.natCast_nonneg _
      · exact le_refl _

/-- The schedule of the first witness, and the block it produces. -/
def firstRound : Except String (Database × Database) := do
  let t ← (genesis 1000000000000).updateWitnessSchedule4
  let u ← t.processFunds
  return (t, u)

theorem exists_firstRound (P : Database → Database → Bool)
    (h : firstRound.toOption.any (fun r => P r.1 r.2) = true) :
    ∃ t u, (genesis 1000000000000).updateWitnessSchedule4 = .ok t ∧ t.processFunds = .ok u ∧
      P t u = true := by
  obtain ⟨r, hround, hr⟩ := exists_of_any h
  obtain ⟨t, ht, hround⟩ := bind_eq_ok.mp hround
  obtain ⟨u, hu, hround⟩ := bind_eq_ok.mp hround
  cases hround
  exact ⟨t, u, ht, hu, hr⟩

theorem round_keeps_inflation_first : ∃ t u,
    (genesis 1000000000000).updateWitnessSchedule4 = .ok t ∧ t.processFunds = .ok u ∧
      (KeepsInflation t.scheduledNames.length 9303 931 [(t, u)] ↔
        (maxWitnesses - t.scheduledNames.length) * (931 : Int) *
            t.schedule.witnessPayNormalizationFactor ≤
          (losses ((931 : Int) * maxWitnesses) t.schedule.witnessPayNormalizationFactor
            t.roundWeights).sum) := by
  obtain ⟨t, u, ht, hu, hround⟩ := exists_firstRound
    (fun t _ => t.scheduledNames = ["initminer"] ∧ t.props.currentWitness = "initminer" ∧
      t.newGbc = 9303 ∧ t.witnessShare.toOption = some 931) (by decide +kernel)
  obtain ⟨hnames, hproducer, hgbc, hshare⟩ := of_decide_eq_true hround
  have hindexed : Indexed (genesis 1000000000000) := ⟨by decide, by decide⟩
  have hmints : Mints t 9303 931 "initminer" (t, u) :=
    ⟨hu, hproducer, rfl, rfl, hgbc, toOption_eq_some.mp hshare⟩
  have hround : List.Forall₂ (Mints t 9303 931) t.scheduledNames [(t, u)] := by
    rw [hnames]
    exact .cons hmints .nil
  exact ⟨t, u, ht, hu, (round_keeps_inflation_iff hindexed ht hround).1⟩

/-- One witness is paid 21 times its share: 27923 is minted in a round of one
block, of 9303. -/
theorem single_witness_mints : ∃ t u,
    (genesis 1000000000000).updateWitnessSchedule4 = .ok t ∧ t.processFunds = .ok u ∧
      t.scheduledNames = ["initminer"] ∧ t.props.currentWitness = "initminer" ∧
      t.newGbc = 9303 ∧ t.witnessShare.toOption = some 931 ∧
      ¬KeepsInflation t.scheduledNames.length 9303 931 [(t, u)] := by
  obtain ⟨t, u, ht, hu, hround⟩ := exists_firstRound
    (fun t u => t.scheduledNames = ["initminer"] ∧ t.props.currentWitness = "initminer" ∧
      t.newGbc = 9303 ∧ t.witnessShare.toOption = some 931 ∧ minted (t, u) = 27923)
    (by decide +kernel)
  obtain ⟨hnames, hproducer, hgbc, hshare, hminted⟩ := of_decide_eq_true hround
  refine ⟨t, u, ht, hu, hnames, hproducer, hgbc, hshare, fun hkeeps => ?_⟩
  have hsupply := hkeeps.supply
  rw [hnames, List.map_singleton, List.sum_singleton, hminted] at hsupply
  exact absurd hsupply (by decide)

end Database

end Gamebank.Ledger
