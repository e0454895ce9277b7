import Gamebank.Lib.Rank
import Gamebank.Rewards.Inflation

/-!
# The schedule of a round

What `update_witness_schedule4` leaves behind: the names on the schedule are
those of the witnesses chosen, each once and each with a key, in an order that
the head block time decides; the places behind them are empty; the elected
ones have the most votes; and the weights add up to a sum that is not zero,
since nothing changes the weights of the genesis block.
-/

namespace Gamebank.Ledger

open Gamebank.Lib Gamebank.Protocol

namespace Database

variable {s t u : Database}

/-! ## Who is chosen -/

theorem selectMiners_enabled {limit : Nat} {voted queue chosen processed : List Witness}
    (h : ∀ w ∈ chosen, w.enabled = true) :
    ∀ w ∈ (selectMiners limit voted queue chosen processed).1, w.enabled = true := by
  induction queue generalizing chosen processed with
  | nil => exact h
  | cons v queue ih =>
      rw [selectMiners]
      split
      · exact h
      · split
        next hv =>
          refine ih fun w hw => ?_
          rcases List.mem_append.mp hw with hw | hw
          · exact h w hw
          · rw [List.mem_singleton.mp hw]
            exact (Bool.and_eq_true_iff.mp hv).2
        next => exact ih h

theorem selectRunning_enabled (others : List Nat) (queue : List Witness) (count : Nat) :
    ∀ w ∈ (selectRunning others queue count).1, w.enabled = true := by
  induction queue generalizing count with
  | nil => simp [selectRunning]
  | cons v queue ih =>
      rw [selectRunning]
      split
      · simp
      · split
        next hv =>
          intro w hw
          rcases List.mem_cons.mp hw with rfl | hw
          · exact (Bool.and_eq_true_iff.mp hv).1
          · exact ih _ w hw
        next => exact ih _

theorem selectVoted_enabled : ∀ w ∈ s.selectVoted, w.enabled = true :=
  fun _ hw => List.of_mem_filter (List.mem_of_mem_take hw)

/-- Only witnesses with a key are chosen. -/
theorem active_enabled (s : Database) : ∀ w ∈ s.selectWitnesses.active, w.enabled = true := by
  intro w hw
  rw [Selection.active, List.mem_append, List.mem_append] at hw
  rcases hw with (hw | hw) | hw
  · exact selectVoted_enabled w hw
  · exact selectMiners_enabled (by simp) w hw
  · exact selectRunning_enabled _ _ _ w hw

theorem Witness.byVoteName_total (a b : Witness) : a.byVoteName b ∨ b.byVoteName a := by
  unfold Witness.byVoteName
  rcases lt_trichotomy a.votes b.votes with h | h | h
  · exact Or.inr (Or.inl h)
  · rcases String.le_total a.owner b.owner with hle | hle
    · exact Or.inl (Or.inr ⟨h, hle⟩)
    · exact Or.inr (Or.inr ⟨h.symm, hle⟩)
  · exact Or.inl (Or.inl h)

theorem Witness.byVoteName_trans {a b c : Witness} (hab : a.byVoteName b) (hbc : b.byVoteName c) :
    a.byVoteName c := by
  unfold Witness.byVoteName at hab hbc ⊢
  rcases hab with hab | ⟨hab, hab'⟩ <;> rcases hbc with hbc | ⟨hbc, hbc'⟩
  · exact Or.inl (hbc.trans hab)
  · exact Or.inl (hbc ▸ hab)
  · exact Or.inl (hab ▸ hbc)
  · exact Or.inr ⟨hab.trans hbc, String.le_trans hab' hbc'⟩

theorem candidates_pairwise (s : Database) : s.candidates.Pairwise Witness.byVoteName := by
  have : Std.Total Witness.byVoteName := ⟨Witness.byVoteName_total⟩
  have : IsTrans Witness Witness.byVoteName := ⟨fun _ _ _ => Witness.byVoteName_trans⟩
  exact (List.pairwise_insertionSort Witness.byVoteName s.witnesses.rows).filter _

/-- The elected witnesses `elected` are the ones with the most votes, of those
with a key. -/
structure HighestVoted (s : Database) (elected : List Witness) : Prop where
  length : elected.length = min s.schedule.maxVotedWitnesses s.enabledCount
  enabled : ∀ w ∈ elected, w ∈ s.witnesses.rows ∧ w.enabled = true
  first : ∀ w ∈ elected, ∀ v ∈ s.witnesses.rows, v.enabled = true → v ∉ elected → w.byVoteName v

theorem selectVoted_highestVoted (s : Database) : HighestVoted s s.selectVoted := by
  have hvoted : s.selectVoted = s.candidates.take s.schedule.maxVotedWitnesses := rfl
  constructor
  · rw [hvoted, List.length_take, candidates_length]
  · intro w hw
    have hmem := s.candidates_perm.mem_iff.mp (List.mem_of_mem_take hw)
    exact ⟨List.mem_of_mem_filter hmem, List.of_mem_filter hmem⟩
  · intro w hw v hv henabled hnot
    have hcandidate : v ∈ s.candidates :=
      s.candidates_perm.mem_iff.mpr (List.mem_filter.mpr ⟨hv, henabled⟩)
    exact rel_of_mem_take s.candidates_pairwise hw hcandidate hnot

/-! ## The weights -/

/-- The weights of the genesis block. -/
structure Weighted (s : Database) : Prop where
  top19 : s.schedule.top19Weight = 1
  timeshare : s.schedule.timeshareWeight = 5
  miner : s.schedule.minerWeight = 1

theorem Weighted.of_standing (h : Weighted s) (ht : t.schedule.standing = s.schedule.standing) :
    Weighted t where
  top19 := (congrArg WitnessSchedule.top19Weight ht).trans h.top19
  timeshare := (congrArg WitnessSchedule.timeshareWeight ht).trans h.timeshare
  miner := (congrArg WitnessSchedule.minerWeight ht).trans h.miner

theorem SameMarks.weighted (h : SameMarks s t) (hs : Weighted s) : Weighted t :=
  ⟨h.top19.trans hs.top19, h.timeshare.trans hs.timeshare, h.miner.trans hs.miner⟩

theorem Weighted.updateWitnessSchedule4 (h : Weighted s) :
    Returns s.updateWitnessSchedule4 Weighted := by
  unfold Database.updateWitnessSchedule4
  refine .bind (advanceVirtualTime_marks _ _) fun r hr => .ensure fun _ => ?_
  refine .bind_any fun scheduled => (updateMedianWitnessProps_marks _).mono fun t ⟨ht, _⟩ => ?_
  have hmarked : Weighted (s.markSelection s.selectWitnesses) := by
    refine h.of_standing ?_
    rw [(markSelection_sameClocks s s.selectWitnesses).schedule]
  have hr := hr.weighted hmarked
  exact ht.weighted ⟨hr.top19, hr.timeshare, hr.miner⟩

theorem Weighted.perform (h : Weighted s) (hs : Ready s) (c : Call) :
    Returns (s.perform c) Weighted := by
  by_cases hc : c = .updateWitnessSchedule
  · subst hc
    show Returns s.updateWitnessSchedule Weighted
    unfold Database.updateWitnessSchedule
    exact .ite (fun _ => h.updateWitnessSchedule4) fun _ => .ok h
  · exact ((votes_paced _).perform (.start hs.votes) hc).mono fun t ht => h.of_standing ht.schedule

theorem Reachable.weighted {C : Database → Call → Prop} (h : Reachable C s) : Weighted s :=
  h.invariant (fun _ => ⟨rfl, rfl, rfl⟩) (fun _ t c hr hs _ ht => hs.perform hr.ready c t ht)
    fun _ _ hs hst => hs.of_standing hst.schedule

theorem Reachable.indexed {C : Database → Call → Prop} (h : Reachable C s) : Indexed s where
  ids := by
    rw [h.ready.numbered]
    exact List.nodup_range
  owners := h.tallied.owners

/-! ## The schedule -/

/-- Behind the names on the schedule the places are empty. -/
def RestEmpty (s : Database) : Prop :=
  ∀ n ∈ s.schedule.currentShuffledWitnesses.toList.drop s.schedule.numScheduledWitnesses, n = ""

theorem installSchedule_restEmpty {c : Selection} (hpos : 0 < c.active.length)
    (hle : c.active.length ≤ 21) (now : Int) (version : Nat) :
    RestEmpty (s.installSchedule c now version) := by
  have hnum : max (c.active.length % 256) 1 = c.active.length := by omega
  have hshuffled := (shuffleFrom_perm s.headBlockTime c.active.length 0
    (Vector.ofFn fun i : Fin 21 => (c.active.map Witness.owner).getD i.val "") hle (by omega)).2
  intro n hn
  change n ∈ (Vector.toList (shuffleFrom s.headBlockTime (max (c.active.length % 256) 1)
    (max (c.active.length % 256) 1) 0 _)).drop (max (c.active.length % 256) 1) at hn
  rw [hnum, hshuffled] at hn
  obtain ⟨i, hi, rfl⟩ := List.mem_iff_getElem.mp hn
  rw [List.getElem_drop, Vector.getElem_toList, Vector.getElem_ofFn, List.getD_eq_getElem?_getD,
    List.getElem?_eq_none (by simp), Option.getD_none]

theorem updateMedianWitnessProps_restEmpty (h : RestEmpty s) :
    Returns s.updateMedianWitnessProps RestEmpty := by
  unfold updateMedianWitnessProps
  exact .bind_any fun _ => .bind_any fun _ => .bind_any fun _ => .bind_any fun _ =>
    .bind_any fun _ => .pure h

theorem Indexed.restEmpty (h : Indexed s) (ht : s.updateWitnessSchedule4 = .ok t) :
    RestEmpty t := by
  have hp := h.produced ht
  unfold updateWitnessSchedule4 at ht
  obtain ⟨⟨u, now⟩, -, ht⟩ := bind_eq_ok.mp ht
  obtain ⟨-, ht⟩ := ensure_bind_eq_ok.mp ht
  obtain ⟨scheduled, -, ht⟩ := bind_eq_ok.mp ht
  exact updateMedianWitnessProps_restEmpty (installSchedule_restEmpty hp.pos hp.le now _) t ht

/-- The witnesses are found under their names as before, with their keys. -/
theorem SameWitnesses.getWitness (h : SameWitnesses s t)
    (howners : (s.witnesses.rows.map Witness.owner).Nodup) {w : Witness}
    (hw : w ∈ s.witnesses.rows) :
    ∃ w', t.getWitness w.owner = .ok w' ∧ w'.signingKey = w.signingKey := by
  have hidentity : identity w ∈ t.witnesses.rows.map identity := by
    rw [h.witnesses]
    exact List.mem_map_of_mem hw
  obtain ⟨w', hw', heq⟩ := List.mem_map.mp hidentity
  obtain ⟨-, howner, -, hkey⟩ : w'.id = w.id ∧ w'.owner = w.owner ∧ w'.votes = w.votes ∧
      w'.signingKey = w.signingKey := by
    simpa [identity] using heq
  rw [← h.owners_eq] at howners
  refine ⟨w', ?_, hkey⟩
  rw [← howner]
  exact require_eq_ok.mpr ((@find?_key_eq_some _ _ _ Witness.owner _ _ _ howners).mpr ⟨hw', rfl⟩)

/-- The schedule of `t` is well formed, and made from the witnesses of `s`. -/
structure WellScheduled (s t : Database) : Prop where
  distinct : t.scheduledNames.Nodup
  enabled : ∀ n ∈ t.scheduledNames, ∃ w, t.getWitness n = .ok w ∧ w.enabled = true
  /-- Whatever the time, those selected from `s` are shuffled. -/
  selected : ∀ (time : Nat) (u : Database), (s.atTime time).updateWitnessSchedule4 = .ok u →
    u.scheduledNames.Perm (s.selectWitnesses.active.map Witness.owner)
  rest : RestEmpty t
  elected : HighestVoted s s.selectWitnesses.voted
  normalization : t.roundWeights.sum = t.schedule.witnessPayNormalizationFactor
  nonzero : t.schedule.witnessPayNormalizationFactor ≠ 0

/-- **A round that succeeds leaves a well-formed schedule.** -/
theorem Reachable.wellScheduled (h : Reachable anyCall s) (ht : s.updateWitnessSchedule4 = .ok t) :
    WellScheduled s t := by
  have hs := h.indexed
  have hp := hs.produced ht
  obtain ⟨hrows, hnodup⟩ := hs.active_nodup
  constructor
  · exact hp.names.nodup_iff.mpr hnodup
  · intro n hn
    obtain ⟨w, hw, rfl⟩ := List.mem_map.mp (hp.names.mem_iff.mp hn)
    obtain ⟨w', hfound, hkey⟩ :=
      SameWitnesses.getWitness (updateWitnessSchedule4_same s t ht) hs.owners (hrows w hw)
    refine ⟨w', hfound, ?_⟩
    rw [Witness.enabled, hkey]
    exact active_enabled s w hw
  · intro time u hu
    have htime : Indexed (s.atTime time) := ⟨hs.ids, hs.owners⟩
    exact (htime.produced hu).names
  · exact hs.restEmpty ht
  · exact selectVoted_highestVoted s
  · exact hs.sum_roundWeights ht
  · have hweights := h.weighted.updateWitnessSchedule4 t ht
    have hpos := hp.pos
    rw [Selection.active, List.length_append, List.length_append] at hpos
    rw [hp.normalization, hweights.top19, hweights.miner, hweights.timeshare]
    omega

/-- The first witness is the schedule of the genesis block. -/
theorem wellScheduled_first : ∃ t, (genesis 1000).updateWitnessSchedule4 = .ok t ∧
    WellScheduled (genesis 1000) t := by
  obtain ⟨t, ht, -⟩ := exists_of_any (x := (genesis 1000).updateWitnessSchedule4)
    (P := fun _ => true) (by decide +kernel)
  exact ⟨t, ht, Reachable.wellScheduled (.genesis 1000) ht⟩

end Database

end Gamebank.Ledger
