import Gamebank.Ledger.Calls

/-!
# Hardforks

The versions of the hardforks that a binary knows stand in two arrays, with
the times of their votes. `hardfork_property_object` counts those applied, and
holds the version and time that enough of the scheduled witnesses last voted
for. At the end of each block the known hardforks below that version are
applied, once its time has come; a version above all known ones stops the node.

`HardforkState` records the votes last counted and, for each hardfork that a
block applied, what it was applied for; nothing reads either.
-/

namespace Gamebank.Ledger

open Gamebank.Lib

/-- `_hardfork_versions` and `_hardfork_times`. Entry 0 is the genesis version. -/
structure HardforkTable where
  versions : List Nat
  times : List Nat
  lengths : times.length = versions.length
  increasing : versions.Pairwise (· < ·)
  nonempty : versions ≠ []

namespace HardforkTable

/-- `GAMEBANK_NUM_HARDFORKS`. -/
def numHardforks (c : HardforkTable) : Nat := c.versions.length - 1

def version (c : HardforkTable) (hardfork : Nat) : Nat := c.versions.getD hardfork 0

def time (c : HardforkTable) (hardfork : Nat) : Nat := c.times.getD hardfork 0

/-- The test network knows hardfork 0_1, the live network only the genesis
version; a `hardfork_version` has its minor number in the second byte. -/
def test (genesisTime : Nat) : HardforkTable where
  versions := [0, 65536]
  times := [genesisTime, 1597970800]
  lengths := rfl
  increasing := by simp
  nonempty := by simp

end HardforkTable

/-- `hardfork_property_object`, whole. -/
structure HardforkObject extends HardforkProperties where
  processedHardforks : List Nat
  lastHardfork : Nat
deriving DecidableEq

/-- What a hardfork was applied for: the version and time voted for, the votes
counted, and the time of the head. -/
structure AppliedHardfork where
  hardfork : Nat
  nextHardfork : Nat
  nextHardforkTime : Nat
  votes : List (Nat × Nat)
  headBlockTime : Nat
deriving DecidableEq

structure HardforkState (World : Type) where
  hardforks : HardforkObject
  world : World
  votes : List (Nat × Nat)
  applied : List AppliedHardfork

variable {World : Type}

namespace HardforkState

/-- `init_genesis`: the genesis version counts as processed. -/
def genesis (c : HardforkTable) (world : World) : HardforkState World where
  hardforks := ⟨⟨c.version 0, 0, 0⟩, [c.time 0], 0⟩
  world := world
  votes := []
  applied := []

/-- `apply_hardfork`; `patch` is what the hardfork itself does. -/
def applyHardfork (c : HardforkTable) (patch : Nat → World → Except String World) (hardfork : Nat)
    (s : HardforkState World) : Except String (HardforkState World) := do
  let world ← patch hardfork s.world
  ensure (hardfork = s.hardforks.lastHardfork + 1) "Hardfork being applied out of order"
  ensure (s.hardforks.processedHardforks.length = hardfork) "Hardfork being applied out of order"
  let processed := s.hardforks.processedHardforks ++ [c.time hardfork]
  ensure (processed.getD hardfork 0 = c.time hardfork) "Hardfork processing failed sanity check..."
  return { s with
    world := world
    hardforks :=
      { s.hardforks with
        processedHardforks := processed
        lastHardfork := hardfork
        currentHardforkVersion := c.version hardfork } }

/-- The loop of `set_hardfork` over `count` hardforks from `i` on. -/
def setHardforkFrom (c : HardforkTable) (patch : Nat → World → Except String World)
    (headBlockTime : Nat) : Nat → Nat → HardforkState World → Except String (HardforkState World)
  | 0, _, s => .ok s
  | count + 1, i, s => do
      let s := { s with
        hardforks :=
          { s.hardforks with nextHardfork := c.version i, nextHardforkTime := headBlockTime } }
      let s ← s.applyHardfork c patch i
      s.setHardforkFrom c patch headBlockTime count (i + 1)

/-- `set_hardfork`, with `apply_now`. -/
def setHardfork (c : HardforkTable) (patch : Nat → World → Except String World)
    (headBlockTime hardfork : Nat) (s : HardforkState World) :
    Except String (HardforkState World) :=
  s.setHardforkFrom c patch headBlockTime
    (min hardfork c.numHardforks - s.hardforks.lastHardfork) (s.hardforks.lastHardfork + 1)

/-- The hardfork that is due: a known one below the version voted for, or the
first unknown one. -/
def due (c : HardforkTable) (headBlockTime : Nat) (s : HardforkState World) : Option Nat :=
  if c.version s.hardforks.lastHardfork < s.hardforks.nextHardfork ∧
      s.hardforks.nextHardforkTime ≤ headBlockTime then
    some (s.hardforks.lastHardfork + 1)
  else none

/-- A turn of the loop of `process_hardforks`. -/
def processHardfork (c : HardforkTable) (patch : Nat → World → Except String World)
    (headBlockTime hardfork : Nat) (s : HardforkState World) :
    Except String (HardforkState World) := do
  ensure (s.hardforks.lastHardfork < c.numHardforks) "unknown hardfork"
  let s' ← s.applyHardfork c patch hardfork
  return { s' with
    applied := s'.applied ++ [⟨hardfork, s.hardforks.nextHardfork, s.hardforks.nextHardforkTime,
      s.votes, headBlockTime⟩] }

/-- `process_hardforks`. -/
def processHardforks (c : HardforkTable) (patch : Nat → World → Except String World)
    (headBlockTime : Nat) (s : HardforkState World) : Except String (HardforkState World) :=
  drain (due c headBlockTime) (processHardfork c patch headBlockTime) (c.numHardforks + 1) s

/-- The votes of the scheduled witnesses are counted. -/
def tally (required : Nat) (votes : List (Nat × Nat)) (s : HardforkState World) :
    HardforkState World :=
  { s with
    votes := votes
    hardforks :=
      match Database.hardforkVote required votes with
      | some (version, time) =>
          { s.hardforks with nextHardfork := version, nextHardforkTime := time }
      | none => { s.hardforks with nextHardfork := s.hardforks.currentHardforkVersion } }

end HardforkState

/-- A block as far as hardforks are concerned. `routines` is all else it does;
`votes` are those of the scheduled witnesses, on a block that makes a schedule. -/
structure HardforkBlock (World : Type) where
  headBlockTime : Nat
  routines : World → World
  votes : Option (List (Nat × Nat))

namespace HardforkState

/-- What a block does. -/
def afterBlock (c : HardforkTable) (patch : Nat → World → Except String World) (required : Nat)
    (b : HardforkBlock World) (s : HardforkState World) : Except String (HardforkState World) :=
  let s := { s with world := b.routines s.world }
  let s := match b.votes with
    | some votes => s.tally required votes
    | none => s
  s.processHardforks c patch b.headBlockTime

/-- The blocks one after the other; one that throws is undone. -/
def run (c : HardforkTable) (patch : Nat → World → Except String World) (required : Nat)
    (blocks : List (HardforkBlock World)) (s : HardforkState World) : HardforkState World :=
  blocks.foldl (fun s b => attempt s (s.afterBlock c patch required b)) s

end HardforkState

/-! ## What is applied, and why -/

/-- Enough votes were counted for a version above the hardfork's predecessor,
and the time voted for had come. -/
structure AppliedHardfork.Backed (c : HardforkTable) (required : Nat) (a : AppliedHardfork) :
    Prop where
  quorum : required ≤ Database.countOf (a.nextHardfork, a.nextHardforkTime) a.votes
  above : c.version (a.hardfork - 1) < a.nextHardfork
  time : a.nextHardforkTime ≤ a.headBlockTime

namespace HardforkState

variable {c : HardforkTable} {patch : Nat → World → Except String World} {required : Nat}
  {first : Nat} {s s' : HardforkState World}

/-- The hardforks up to the last one have been processed, in their order. -/
structure InOrder (c : HardforkTable) (s : HardforkState World) : Prop where
  last : s.hardforks.lastHardfork ≤ c.numHardforks
  processed : s.hardforks.processedHardforks = c.times.take (s.hardforks.lastHardfork + 1)
  current : s.hardforks.currentHardforkVersion = c.version s.hardforks.lastHardfork

/-- Blocks applied the hardforks after `first`, each with a quorum; a version
above the current one is that of the last votes. -/
structure Reachable (c : HardforkTable) (required first : Nat) (s : HardforkState World) : Prop
    extends InOrder c s where
  start : first ≤ s.hardforks.lastHardfork
  applied : s.applied.map AppliedHardfork.hardfork =
    List.range' (first + 1) (s.hardforks.lastHardfork - first)
  backed : ∀ a ∈ s.applied, a.Backed c required
  voted : s.hardforks.currentHardforkVersion < s.hardforks.nextHardfork →
    required ≤ Database.countOf (s.hardforks.nextHardfork, s.hardforks.nextHardforkTime) s.votes

theorem take_times (c : HardforkTable) {n : Nat} (hn : n ≤ c.numHardforks) :
    (c.times.take (n + 1)).length = n + 1 := by
  have hpos := List.length_pos_iff.mpr c.nonempty
  rw [List.length_take, c.lengths]
  unfold HardforkTable.numHardforks at hn
  omega

theorem InOrder.length (h : InOrder c s) :
    s.hardforks.processedHardforks.length = s.hardforks.lastHardfork + 1 := by
  rw [h.processed, take_times c h.last]

theorem genesis_inOrder (c : HardforkTable) (world : World) : InOrder c (genesis c world) := by
  refine ⟨Nat.zero_le _, ?_, rfl⟩
  have hpos : 0 < c.times.length := by
    rw [c.lengths]
    exact List.length_pos_iff.mpr c.nonempty
  obtain ⟨t, rest, htimes⟩ := List.exists_cons_of_length_pos hpos
  show [c.times.getD 0 0] = c.times.take 1
  rw [htimes]
  rfl

/-- A known hardfork is the next one, and only the object and the world change. -/
theorem applyHardfork_returns {hardfork : Nat} (h : InOrder c s)
    (hknown : s.hardforks.lastHardfork < c.numHardforks) :
    Returns (s.applyHardfork c patch hardfork) fun s' => InOrder c s' ∧
      hardfork = s.hardforks.lastHardfork + 1 ∧ s'.hardforks.lastHardfork = hardfork ∧
        s'.hardforks.nextHardfork = s.hardforks.nextHardfork ∧
          s'.hardforks.nextHardforkTime = s.hardforks.nextHardforkTime ∧
            s'.votes = s.votes ∧ s'.applied = s.applied := by
  unfold applyHardfork
  refine Returns.bind_any fun world => ?_
  refine Returns.ensure fun hnext => Returns.ensure fun _ => Returns.ensure fun _ => ?_
  obtain rfl := of_decide_eq_true hnext
  have hlt : s.hardforks.lastHardfork + 1 < c.times.length := by
    have hpos := List.length_pos_iff.mpr c.nonempty
    rw [c.lengths]
    unfold HardforkTable.numHardforks at hknown
    omega
  refine Returns.pure ⟨⟨hknown, ?_, rfl⟩, rfl, rfl, rfl, rfl, rfl, rfl⟩
  show s.hardforks.processedHardforks ++ [c.times.getD (s.hardforks.lastHardfork + 1) 0] =
    c.times.take (s.hardforks.lastHardfork + 1 + 1)
  rw [h.processed, List.take_succ_eq_append_getElem hlt, List.getD_eq_getElem?_getD,
    List.getElem?_eq_getElem hlt]
  rfl

theorem setHardforkFrom_returns {headBlockTime count i : Nat} (h : InOrder c s)
    (hi : i = s.hardforks.lastHardfork + 1)
    (hcount : s.hardforks.lastHardfork + count ≤ c.numHardforks)
    (hnext : s.hardforks.nextHardfork ≤ s.hardforks.currentHardforkVersion) :
    Returns (s.setHardforkFrom c patch headBlockTime count i) fun s' => InOrder c s' ∧
      s'.applied = s.applied ∧ s'.hardforks.nextHardfork ≤ s'.hardforks.currentHardforkVersion := by
  induction count generalizing i s with
  | zero => exact Returns.ok ⟨h, rfl, hnext⟩
  | succ count ih =>
      unfold setHardforkFrom
      refine Returns.bind (applyHardfork_returns ⟨h.last, h.processed, h.current⟩
        (Nat.lt_of_lt_of_le (Nat.lt_add_of_pos_right (Nat.succ_pos count)) hcount)) ?_
      rintro t ⟨ht, -, hlast, hversion, -, -, happlied⟩
      have htlast : t.hardforks.lastHardfork = s.hardforks.lastHardfork + 1 := hlast.trans hi
      have htnext : t.hardforks.nextHardfork ≤ t.hardforks.currentHardforkVersion := by
        rw [hversion, ht.current, hlast]
      refine (ih ht (by rw [hlast]) (by omega) htnext).mono ?_
      rintro s' ⟨hs', hs'applied, hs'next⟩
      exact ⟨hs', hs'applied.trans happlied, hs'next⟩

/-- The state that `set_hardfork` leaves of the genesis state. -/
theorem setHardfork_reachable {world : World} {headBlockTime hardfork : Nat}
    (h : (genesis c world).setHardfork c patch headBlockTime hardfork = .ok s) :
    Reachable c required s.hardforks.lastHardfork s := by
  have hgenesis := genesis_inOrder c world
  obtain ⟨hs, happlied, hnext⟩ := setHardforkFrom_returns hgenesis rfl (by
    show 0 + (min hardfork c.numHardforks - 0) ≤ c.numHardforks
    omega) (Nat.zero_le _) s h
  refine ⟨hs, Nat.le_refl _, ?_, ?_, fun hlt => absurd hlt (Nat.not_lt.mpr hnext)⟩
  · rw [happlied, Nat.sub_self]
    rfl
  · rw [happlied]
    intro a ha
    cases ha

/-! ## Blocks -/

theorem Reachable.tally (h : Reachable c required first s) (votes : List (Nat × Nat)) :
    Reachable c required first (s.tally required votes) := by
  unfold HardforkState.tally
  cases hvote : Database.hardforkVote required votes with
  | none =>
      exact ⟨⟨h.last, h.processed, h.current⟩, h.start, h.applied, h.backed,
        fun hlt => absurd hlt (Nat.lt_irrefl _)⟩
  | some vote =>
      have hquorum := List.find?_some hvote
      exact ⟨⟨h.last, h.processed, h.current⟩, h.start, h.applied, h.backed,
        fun _ => of_decide_eq_true hquorum⟩

theorem due_eq_some {headBlockTime hardfork : Nat} (h : due c headBlockTime s = some hardfork) :
    hardfork = s.hardforks.lastHardfork + 1 ∧
      c.version s.hardforks.lastHardfork < s.hardforks.nextHardfork ∧
        s.hardforks.nextHardforkTime ≤ headBlockTime := by
  unfold due at h
  split at h
  · rename_i hdue
    exact ⟨(Option.some.inj h).symm, hdue⟩
  · cases h

/-- A turn of the loop applies the next hardfork. -/
theorem Reachable.processHardfork (h : Reachable c required first s) {headBlockTime hardfork : Nat}
    (hdue : due c headBlockTime s = some hardfork) :
    Returns (s.processHardfork c patch headBlockTime hardfork) fun s' =>
      Reachable c required first s' ∧ s'.hardforks.lastHardfork = s.hardforks.lastHardfork + 1 := by
  obtain ⟨rfl, habove, htime⟩ := due_eq_some hdue
  unfold HardforkState.processHardfork
  refine Returns.ensure fun hknown => ?_
  refine Returns.bind (applyHardfork_returns h.toInOrder (of_decide_eq_true hknown)) ?_
  rintro t ⟨ht, -, hlast, hnext, hnextTime, hvotes, happlied⟩
  have hquorum := h.voted (by rw [h.current]; exact habove)
  refine Returns.pure ⟨⟨⟨ht.last, ht.processed, ht.current⟩, ?_, ?_, ?_, fun _ => ?_⟩, hlast⟩
  · show first ≤ t.hardforks.lastHardfork
    have := h.start
    omega
  · show (t.applied ++ [_]).map AppliedHardfork.hardfork =
      List.range' (first + 1) (t.hardforks.lastHardfork - first)
    have hstart := h.start
    rw [List.map_append, happlied, h.applied, hlast,
      show s.hardforks.lastHardfork + 1 - first = s.hardforks.lastHardfork - first + 1 by omega,
      List.range'_concat]
    congr 2
    simp only [List.map_cons, List.map_nil, List.cons.injEq, and_true]
    omega
  · intro a ha
    rcases List.mem_append.mp ha with hold | hnew
    · exact h.backed a (happlied ▸ hold)
    · rw [List.mem_singleton.mp hnew]
      exact ⟨hquorum, habove, htime⟩
  · show required ≤ Database.countOf (t.hardforks.nextHardfork, t.hardforks.nextHardforkTime)
      t.votes
    rw [hnext, hnextTime, hvotes]
    exact hquorum

/-- Every turn is about a known hardfork, the next one. -/
theorem processHardfork_next (c : HardforkTable) (patch : Nat → World → Except String World)
    (headBlockTime hardfork : Nat) (s : HardforkState World) :
    Returns (s.processHardfork c patch headBlockTime hardfork) fun s' =>
      s.hardforks.lastHardfork < c.numHardforks ∧
        s'.hardforks.lastHardfork = s.hardforks.lastHardfork + 1 := by
  unfold HardforkState.processHardfork
  refine Returns.ensure fun hknown => ?_
  refine Returns.bind (Q := fun t => t.hardforks.lastHardfork = s.hardforks.lastHardfork + 1) ?_
    fun t ht => Returns.pure ⟨of_decide_eq_true hknown, ht⟩
  unfold applyHardfork
  refine Returns.bind_any fun world => ?_
  exact Returns.ensure fun hnext => Returns.ensure fun _ => Returns.ensure fun _ =>
    Returns.pure (of_decide_eq_true hnext)

/-- The loop ends because nothing is due any more. -/
theorem processHardforks_exhausts (c : HardforkTable) (patch : Nat → World → Except String World)
    (headBlockTime : Nat) (s : HardforkState World) :
    Returns (s.processHardforks c patch headBlockTime) fun s' => due c headBlockTime s' = none := by
  refine @drain_exhausts _ _ _ _ (fun s => c.numHardforks - s.hardforks.lastHardfork) ?_ _ _
    (Nat.lt_succ_of_le (Nat.sub_le _ _))
  intro s hardfork _
  refine (processHardfork_next c patch headBlockTime hardfork s).mono ?_
  rintro s' ⟨hknown, hlast⟩
  omega

theorem Reachable.processHardforks (h : Reachable c required first s) (headBlockTime : Nat) :
    Returns (s.processHardforks c patch headBlockTime) fun s' =>
      Reachable c required first s' ∧ s.hardforks.lastHardfork ≤ s'.hardforks.lastHardfork := by
  refine Returns.drain (P := fun t => Reachable c required first t ∧
    s.hardforks.lastHardfork ≤ t.hardforks.lastHardfork) ⟨h, Nat.le_refl _⟩ ?_
  rintro t hardfork ⟨ht, hle⟩ hdue
  refine (ht.processHardfork hdue).mono ?_
  rintro t' ⟨ht', hlast⟩
  exact ⟨ht', by omega⟩

/-- The state in which `process_hardforks` finds the objects. -/
def counted (required : Nat) (b : HardforkBlock World) (s : HardforkState World) :
    HardforkState World :=
  match b.votes with
  | some votes => tally required votes { s with world := b.routines s.world }
  | none => { s with world := b.routines s.world }

theorem Reachable.counted (h : Reachable c required first s) (b : HardforkBlock World) :
    Reachable c required first (s.counted required b) ∧
      (s.counted required b).hardforks.lastHardfork = s.hardforks.lastHardfork := by
  have hworld : Reachable c required first { s with world := b.routines s.world } :=
    ⟨⟨h.last, h.processed, h.current⟩, h.start, h.applied, h.backed, h.voted⟩
  unfold HardforkState.counted
  cases b.votes with
  | none => exact ⟨hworld, rfl⟩
  | some votes =>
      refine ⟨hworld.tally votes, ?_⟩
      simp only [HardforkState.tally]
      split <;> rfl

theorem afterBlock_eq (c : HardforkTable) (patch : Nat → World → Except String World)
    (required : Nat) (b : HardforkBlock World) (s : HardforkState World) :
    s.afterBlock c patch required b =
      (s.counted required b).processHardforks c patch b.headBlockTime := by
  unfold afterBlock HardforkState.counted
  cases b.votes <;> rfl

theorem Reachable.afterBlock (h : Reachable c required first s) (b : HardforkBlock World) :
    Returns (s.afterBlock c patch required b) fun s' => Reachable c required first s' ∧
      s.hardforks.lastHardfork ≤ s'.hardforks.lastHardfork ∧
        due c b.headBlockTime s' = none := by
  obtain ⟨hcounted, hlast⟩ := h.counted b
  rw [afterBlock_eq]
  intro s' hs'
  obtain ⟨hreach, hle⟩ := hcounted.processHardforks b.headBlockTime s' hs'
  exact ⟨hreach, hlast ▸ hle, processHardforks_exhausts c patch b.headBlockTime _ s' hs'⟩

theorem Reachable.run (h : Reachable c required first s) (blocks : List (HardforkBlock World)) :
    Reachable c required first (s.run c patch required blocks) := by
  induction blocks generalizing s with
  | nil => exact h
  | cons b blocks ih =>
      refine ih ?_
      show Reachable c required first (attempt s (s.afterBlock c patch required b))
      cases hafter : s.afterBlock c patch required b with
      | error e => exact h
      | ok s' => exact (h.afterBlock b s' hafter).1

/-- **Hardforks in order, once, behind a quorum.** In every run of blocks after
the hardforks of genesis: the hardforks processed are the known ones up to the
last, in their order; those that blocks applied follow the ones of genesis
without a gap, each with enough votes for a version above its predecessor; and
a block that goes through takes none back and leaves none due. -/
theorem hardforks_in_order (c : HardforkTable) (patch : Nat → World → Except String World)
    (required : Nat) (world : World) (headBlockTime hardfork : Nat)
    (hstart : (genesis c world).setHardfork c patch headBlockTime hardfork = .ok s)
    (blocks : List (HardforkBlock World)) :
    (s.run c patch required blocks).hardforks.processedHardforks =
        c.times.take ((s.run c patch required blocks).hardforks.lastHardfork + 1) ∧
      (s.run c patch required blocks).applied.map AppliedHardfork.hardfork =
        List.range' (s.hardforks.lastHardfork + 1)
          ((s.run c patch required blocks).hardforks.lastHardfork - s.hardforks.lastHardfork) ∧
      (∀ a ∈ (s.run c patch required blocks).applied, a.Backed c required) ∧
      ∀ b s', (s.run c patch required blocks).afterBlock c patch required b = .ok s' →
        (s.run c patch required blocks).hardforks.processedHardforks <+:
            s'.hardforks.processedHardforks ∧
          ¬(c.version s'.hardforks.lastHardfork < s'.hardforks.nextHardfork ∧
            s'.hardforks.nextHardforkTime ≤ b.headBlockTime) := by
  have hrun : Reachable c required s.hardforks.lastHardfork (s.run c patch required blocks) :=
    (setHardfork_reachable hstart).run blocks
  refine ⟨hrun.processed, hrun.applied, hrun.backed, fun b s' hafter => ?_⟩
  obtain ⟨hreach, hle, hdue⟩ := hrun.afterBlock b s' hafter
  constructor
  · rw [hrun.processed, hreach.processed]
    exact List.take_prefix_take_left (Nat.succ_le_succ hle)
  · intro hpending
    unfold due at hdue
    rw [if_pos hpending] at hdue
    cases hdue

end HardforkState

/-! ## Hardfork 0_1 -/

namespace Database

/-- `GAMEBANK_CREATE_ACCOUNT_WITH_GBC_MODIFIER`. -/
def createAccountWithGbcModifier : Int := 30

/-- A fee after the hardfork. -/
def raisedFee (fee : Int) : Except String Int := do
  ensure (fitsInt64 (fee * createAccountWithGbcModifier)) "overflow"
  return fee * createAccountWithGbcModifier

/-- A scheduled witness raises its fee; an empty place of the schedule is
passed over. -/
def raiseWitnessFee (s : Database) (name : AccountName) : Except String Database := do
  if name = "" then return s
  else
    let w ← s.getWitness name
    let fee ← raisedFee w.props.accountCreationFee
    return s.modifyWitness name fun w =>
      { w with props := { w.props with accountCreationFee := fee } }

/-- What `apply_hardfork` does for `GAMEBANK_HARDFORK_0_1`. -/
def applyHardfork01 (s : Database) : Except String Database := do
  let s := { s with props := { s.props with delegationReturnPeriod := 864000 } }
  let s ← s.schedule.currentShuffledWitnesses.toList.foldlM raiseWitnessFee s
  let fee ← raisedFee s.schedule.medianProps.accountCreationFee
  return { s with
    hardfork01 := true
    schedule :=
      { s.schedule with
        medianProps := { s.schedule.medianProps with accountCreationFee := fee } } }

/-- The switch of `apply_hardfork`. -/
def hardforkPatch (hardfork : Nat) (s : Database) : Except String Database :=
  if hardfork = 1 then s.applyHardfork01 else .ok s

end Database

/-! ### The test network -/

/-- A schedule in which 17 of 21 witnesses vote for version 0.1 at its time,
and the block at which the time has come. -/
def votedHardfork : List (HardforkBlock Database) :=
  [⟨1597970000, id, some (List.replicate 17 (65536, 1597970800) ++ List.replicate 4 (0, 0))⟩,
    ⟨1597970803, id, none⟩]

theorem votedHardfork_applied :
    ((HardforkState.genesis (.test genesisTime) (Database.genesis 1000)).run (.test genesisTime)
        Database.hardforkPatch 17 votedHardfork).hardforks.lastHardfork = 1 ∧
      ∀ a ∈ ((HardforkState.genesis (.test genesisTime) (Database.genesis 1000)).run
        (.test genesisTime) Database.hardforkPatch 17 votedHardfork).applied,
        a.Backed (.test genesisTime) 17 := by
  refine ⟨by decide +kernel, ?_⟩
  exact (HardforkState.hardforks_in_order (.test genesisTime) Database.hardforkPatch 17
    (Database.genesis 1000) genesisTime 0 rfl votedHardfork).2.2.1

end Gamebank.Ledger
