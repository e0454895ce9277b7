import Gamebank.Chain.ForkFrames
import Gamebank.Chain.Revision

/-!
# What a failed confirmation leaves behind

`confirm_block` runs outside any undo session: it writes the witness's
confirmation, then the irreversible number, then commits undo states and
appends to the logs, and only on the way checks that the fork database has
the blocks to log. An exception leaves whatever was written before it. The
sibling path, `_push_block`, runs the same routine inside a session.
-/

namespace Gamebank.Chain

open Gamebank.Lib

universe u v w

variable {Name : Type u} {Tx : Type v} {Rest : Type w}

namespace Node

/-- In `r` the objects with their undo states and the two logs are those of `n`. -/
structure Untouched (n r : Node Name Tx Rest) : Prop where
  db : r.db = n.db
  blockLog : r.blockLog = n.blockLog
  contractLog : r.contractLog = n.contractLog

theorem Untouched.refl (n : Node Name Tx Rest) : n.Untouched n := ⟨rfl, rfl, rfl⟩

/-! ## The logs -/

/-- The entries `more` have the next positions of the contract log, one after
the other. The first entry of an empty log may have any number. -/
def Continues (log : List SignedContract) : List SignedContract → Prop
  | [] => True
  | c :: more =>
      (∀ first ∈ log.head?, c.blockNum = first.blockNum + log.length) ∧ Continues (log ++ [c]) more

/-- The entries that wait for the `count` blocks from `num` on. -/
def waitingContracts (waiting : List (Nat × SignedContract)) (num count : Nat) :
    List SignedContract :=
  (List.range' num count).filterMap fun k => (waiting.find? fun e => e.1 = k).map Prod.snd

/-- The blocks up to `lib` that the log does not have yet are on the main
branch of the fork database, and their contract entries fit the contract log. -/
structure Loggable (n : Node Name Tx Rest) (lib : Nat) : Prop where
  blocks : ∀ k, n.logHeadNum < k → k ≤ lib → (n.forkDb.fetchBlockOnMainBranchByNumber k).isSome
  contracts : Continues n.contractLog
    (waitingContracts n.contractBlock (n.logHeadNum + 1) (lib - n.logHeadNum))

theorem waitingContracts_succ (waiting : List (Nat × SignedContract)) (num count : Nat) :
    waitingContracts waiting num (count + 1) =
      ((waiting.find? fun e => e.1 = num).map Prod.snd).toList ++
        waitingContracts waiting (num + 1) count := by
  rw [waitingContracts, List.range'_succ, List.filterMap_cons]
  cases waiting.find? fun e => e.1 = num <;> rfl

/-- An entry that is taken out leaves those of later blocks. -/
theorem waitingContracts_filter (waiting : List (Nat × SignedContract)) {num first : Nat}
    (h : num < first) (count : Nat) :
    waitingContracts (waiting.filter fun e => e.1 ≠ num) first count =
      waitingContracts waiting first count := by
  refine List.filterMap_congr fun k hk => ?_
  have hne : k ≠ num := by
    have := List.mem_range'_1.mp hk
    omega
  rw [List.find?_filter]
  congr 2
  funext e
  by_cases he : e.1 = k
  · simp [he, hne]
  · simp [he]

theorem contractFits_iff (n : Node Name Tx Rest) (c : SignedContract) :
    n.contractFits c = true ↔
      ∀ first ∈ n.contractLog.head?, c.blockNum = first.blockNum + n.contractLog.length := by
  unfold contractFits
  cases n.contractLog.head? <;> simp

/-- Appending to the logs succeeds exactly when the next blocks are on the
main branch and their contract entries fit. -/
theorem appendToLog_isOk_iff (count : Nat) {n : Node Name Tx Rest} (h : n.forkDb.Sound) :
    (n.appendToLog count).isOk = true ↔
      (∀ k, n.logHeadNum < k → k ≤ n.logHeadNum + count →
        (n.forkDb.fetchBlockOnMainBranchByNumber k).isSome) ∧
      Continues n.contractLog (waitingContracts n.contractBlock (n.logHeadNum + 1) count) := by
  induction count generalizing n with
  | zero =>
      simp only [appendToLog, Result.isOk, waitingContracts, List.range'_zero, List.filterMap_nil,
        Continues, and_true, true_iff]
      omega
  | succ count ih =>
      -- the blocks after the next one
      have hsplit : (∀ k, n.logHeadNum < k → k ≤ n.logHeadNum + (count + 1) →
          (n.forkDb.fetchBlockOnMainBranchByNumber k).isSome) ↔
          (n.forkDb.fetchBlockOnMainBranchByNumber (n.logHeadNum + 1)).isSome ∧
          ∀ k, n.logHeadNum + 1 < k → k ≤ n.logHeadNum + 1 + count →
            (n.forkDb.fetchBlockOnMainBranchByNumber k).isSome := by
        constructor
        · intro hall
          exact ⟨hall _ (by omega) (by omega), fun k h1 h2 => hall k (by omega) (by omega)⟩
        · rintro ⟨hnext, hrest⟩ k h1 h2
          by_cases hk : k = n.logHeadNum + 1
          · exact hk ▸ hnext
          · exact hrest k (by omega) (by omega)
      rw [hsplit, waitingContracts_succ, appendToLog]
      cases hitem : n.forkDb.fetchBlockOnMainBranchByNumber (n.logHeadNum + 1) with
      | none => simp [Result.isOk]
      | some item =>
          have hnum : item.num = n.logHeadNum + 1 :=
            ForkDatabase.fetchBlockOnMainBranchByNumber_num h hitem
          have hhead : ∀ waiting log, ({ n with
              blockLog := n.blockLog ++ [item.data]
              contractBlock := waiting
              contractLog := log } : Node Name Tx Rest).logHeadNum = n.logHeadNum + 1 := by
            intro waiting log
            rw [← hnum]
            simp [logHeadNum, ForkItem.num]
          simp only [Option.isSome_some, true_and, appendContract, hnum]
          cases hfind : n.contractBlock.find? fun e => e.1 = n.logHeadNum + 1 with
          | none =>
              simp only [Result.andThen_ok, Option.map_none, Option.toList_none, List.nil_append]
              rw [ih (n := { n with blockLog := n.blockLog ++ [item.data] }) h,
                hhead n.contractBlock n.contractLog]
          | some entry =>
              simp only [Option.map_some, Option.toList_some, List.singleton_append, Continues]
              have hfits : ({ n with blockLog := n.blockLog ++ [item.data] } :
                  Node Name Tx Rest).contractFits entry.2 = n.contractFits entry.2 := rfl
              rw [hfits, ← contractFits_iff]
              by_cases hc : n.contractFits entry.2 = true
              · rw [if_pos hc, Result.andThen_ok, ih (by exact h), hhead,
                  waitingContracts_filter _ (by omega)]
                simp [hc]
              · rw [if_neg hc]
                simp [hc, Result.isOk]

/-- The rest of `update_last_irreversible_block` succeeds exactly when the
blocks up to the irreversible one can be logged. -/
theorem settleIrreversible_isOk_iff {n : Node Name Tx Rest} (h : n.forkDb.Sound) :
    n.settleIrreversible.isOk = true ↔ n.Loggable n.objects.lastIrreversibleBlockNum := by
  unfold settleIrreversible
  simp only
  generalize hm : ({ n with
      db := n.db.commit n.objects.lastIrreversibleBlockNum
      committed := max n.committed (min n.objects.lastIrreversibleBlockNum n.headBlockNum) } :
    Node Name Tx Rest) = m
  have hsound : m.forkDb.Sound := hm ▸ h
  have hhead : m.logHeadNum = n.logHeadNum := hm ▸ rfl
  have hsame : ∀ (r : Outcome Name Tx Rest) (k : Node Name Tx Rest → Node Name Tx Rest),
      (r.andThen fun m => .ok (k m)).isOk = r.isOk := by
    intro r k
    cases r <;> rfl
  rw [hsame, appendToLog_isOk_iff _ hsound, hhead]
  have hrange : ∀ k, n.logHeadNum < k →
      (k ≤ n.logHeadNum + (n.objects.lastIrreversibleBlockNum - n.logHeadNum) ↔
        k ≤ n.objects.lastIrreversibleBlockNum) := by
    omega
  constructor
  · rintro ⟨hblocks, hcontracts⟩
    subst hm
    exact ⟨fun k h1 h2 => hblocks k h1 ((hrange k h1).mpr h2), hcontracts⟩
  · intro hl
    subst hm
    exact ⟨fun k h1 h2 => hl.blocks k h1 ((hrange k h1).mp h2), hl.contracts⟩

/-! ## Confirmations -/

variable [DecidableEq Name]

/-- The witness's object already says what the confirmation writes. -/
def Repeats (n : Node Name Tx Rest) (b : SignedBlock Name Tx) : Prop :=
  n.objects.lastConfirmedBlockNum b.witness = b.blockNum ∧
    n.objects.lastAslot b.witness = n.objects.currentAslot + n.objects.getSlotAtTime b.timestamp

theorem recordConfirmation_eq_iff (n : Node Name Tx Rest) (b : SignedBlock Name Tx) :
    n.objects.recordConfirmation b = n.objects ↔ n.Repeats b := by
  constructor
  · intro h
    have hnum := congrFun (congrArg Objects.lastConfirmedBlockNum h) b.witness
    have hslot := congrFun (congrArg Objects.lastAslot h) b.witness
    simp only [Objects.recordConfirmation, if_pos] at hnum hslot
    exact ⟨hnum.symm, hslot.symm⟩
  · rintro ⟨hnum, hslot⟩
    have h1 : (n.objects.recordConfirmation b).lastAslot = n.objects.lastAslot := by
      funext name
      by_cases hname : name = b.witness
      · simp [Objects.recordConfirmation, hname, hslot]
      · simp [Objects.recordConfirmation, hname]
    have h2 : (n.objects.recordConfirmation b).lastConfirmedBlockNum =
        n.objects.lastConfirmedBlockNum := by
      funext name
      by_cases hname : name = b.witness
      · simp [Objects.recordConfirmation, hname, hnum]
      · simp [Objects.recordConfirmation, hname]
    calc n.objects.recordConfirmation b
        = { n.objects with
            lastAslot := (n.objects.recordConfirmation b).lastAslot
            lastConfirmedBlockNum := (n.objects.recordConfirmation b).lastConfirmedBlockNum } := rfl
      _ = n.objects := by rw [h1, h2]

/-- What an exception of a recorded confirmation finds already written: the
confirmation repeats the witness's last one, and with `lib` irreversible the
number is not new, no undo state is committed and the first block to log is
missing. -/
structure RepeatsOnly (n : Node Name Tx Rest) (b : SignedBlock Name Tx) (lib : Nat) : Prop where
  repeats : n.Repeats b
  irreversible : lib = n.objects.lastIrreversibleBlockNum
  commit : ∀ e ∈ n.db.stack.getLast?, (lib : Int) < e.1
  log : n.logHeadNum < lib → n.forkDb.fetchBlockOnMainBranchByNumber (n.logHeadNum + 1) = none

/-- The header is refused or older than the witness's last confirmation; or
the blocks that become irreversible can all be logged; or the confirmation
only repeats what is written already. -/
inductive ConfirmsCleanly (ev : Evaluators Name Tx Rest) (n : Node Name Tx Rest)
    (b : SignedBlock Name Tx) : Prop where
  | refused (h : n.objects.validateBlockHeader ev b ≠ .ok ())
  | stale (h : b.blockNum < n.objects.lastConfirmedBlockNum b.witness)
  | logged (lib : Nat) (h : (n.objects.recordConfirmation b).newLastIrreversible ev = .ok lib)
      (hlog : n.Loggable lib)
  | undecided (e : ChainException)
      (h : (n.objects.recordConfirmation b).newLastIrreversible ev = .error e) (hr : n.Repeats b)
  | repeated (lib : Nat) (h : (n.objects.recordConfirmation b).newLastIrreversible ev = .ok lib)
      (hr : n.RepeatsOnly b lib)

/-- An exception while the confirmed number `lib` is settled leaves nothing
new exactly when the confirmation only repeats. -/
theorem settled_untouched_iff {n r : Node Name Tx Rest} {b : SignedBlock Name Tx} {lib : Nat}
    (hs : Settled (n.setObjects { n.objects.recordConfirmation b with
      lastIrreversibleBlockNum := lib }) r) : n.Untouched r ↔ n.RepeatsOnly b lib := by
  have hlog : r.blockLog = n.blockLog ↔ (n.logHeadNum < lib →
      n.forkDb.fetchBlockOnMainBranchByNumber (n.logHeadNum + 1) = none) := hs.unlogged
  have hcontract : r.blockLog = n.blockLog → r.contractLog = n.contractLog := hs.contractLog
  have hobjects : ({ n.objects.recordConfirmation b with lastIrreversibleBlockNum := lib } :
      Objects Name Rest) = n.objects ↔
      n.Repeats b ∧ lib = n.objects.lastIrreversibleBlockNum := by
    constructor
    · intro h
      have hlib : lib = n.objects.lastIrreversibleBlockNum :=
        congrArg Objects.lastIrreversibleBlockNum h
      subst hlib
      exact ⟨(recordConfirmation_eq_iff n b).mp h, rfl⟩
    · rintro ⟨hr, rfl⟩
      exact (recordConfirmation_eq_iff n b).mpr hr
  have hdb : r.db = n.db ↔ (n.Repeats b ∧ lib = n.objects.lastIrreversibleBlockNum) ∧
      ∀ e ∈ n.db.stack.getLast?, (lib : Int) < e.1 := by
    rw [hs.db, ← hobjects]
    exact n.db.commit_set_eq_iff _ lib
  constructor
  · intro h
    obtain ⟨⟨hr, hlib⟩, hcommit⟩ := hdb.mp h.db
    exact ⟨hr, hlib, hcommit, hlog.mp h.blockLog⟩
  · intro h
    have hblocks := hlog.mpr h.log
    exact ⟨hdb.mpr ⟨⟨h.repeats, h.irreversible⟩, h.commit⟩, hblocks, hcontract hblocks⟩

/-- **A confirmation that throws leaves the objects, the undo states and the
logs alone** exactly when it is refused or stale, when everything it makes
irreversible can be logged (then it does not throw), or when it only repeats
what is written already. -/
theorem confirmBlock_untouched_iff (ev : Evaluators Name Tx Rest) {n : Node Name Tx Rest}
    (hsound : n.forkDb.Sound) (b : SignedBlock Name Tx) :
    (∀ e r, n.confirmBlock ev b = .error e r → n.Untouched r) ↔ ConfirmsCleanly ev n b := by
  unfold confirmBlock
  cases hval : n.objects.validateBlockHeader ev b with
  | error e =>
      refine ⟨fun _ => .refused (by simp [hval]), fun _ e' r h => ?_⟩
      obtain ⟨-, rfl⟩ := Result.error.inj h
      exact Untouched.refl n
  | ok _ =>
      simp only
      by_cases hstale : b.blockNum < n.objects.lastConfirmedBlockNum b.witness
      · rw [if_pos hstale]
        exact ⟨fun _ => .stale hstale, fun _ e r h => by simp at h⟩
      rw [if_neg hstale, updateLastIrreversibleBlock]
      simp only [show (n.setObjects (n.objects.recordConfirmation b)).objects =
        n.objects.recordConfirmation b from rfl]
      cases hlib : (n.objects.recordConfirmation b).newLastIrreversible ev with
      | error e =>
          -- the confirmation has been recorded by the time this throws
          have hsame : n.Untouched (n.setObjects (n.objects.recordConfirmation b)) ↔
              n.Repeats b := by
            rw [← recordConfirmation_eq_iff]
            refine ⟨fun h => congrArg SnapshotStack.cur h.db, fun h => ⟨?_, rfl, rfl⟩⟩
            exact (congrArg n.db.set h).trans n.db.set_cur_self
          constructor
          · intro h
            exact .undecided e hlib (hsame.mp (h e _ rfl))
          · intro h e' r heq
            obtain ⟨-, rfl⟩ := Result.error.inj heq
            refine hsame.mpr ?_
            cases h with
            | refused h => exact absurd hval h
            | stale h => exact absurd h hstale
            | logged lib h => simp [hlib] at h
            | undecided e h hr => exact hr
            | repeated lib h => simp [hlib] at h
      | ok lib =>
          simp only
          have hsettled := settleIrreversible_settled ((n.setObjects
            (n.objects.recordConfirmation b)).setObjects
              { n.objects.recordConfirmation b with lastIrreversibleBlockNum := lib })
          have hok := settleIrreversible_isOk_iff (n := (n.setObjects
            (n.objects.recordConfirmation b)).setObjects
              { n.objects.recordConfirmation b with lastIrreversibleBlockNum := lib }) hsound
          have hloggable : ((n.setObjects (n.objects.recordConfirmation b)).setObjects
              { n.objects.recordConfirmation b with lastIrreversibleBlockNum := lib }).Loggable
                lib → n.Loggable lib := fun h => ⟨h.blocks, h.contracts⟩
          generalize ((n.setObjects (n.objects.recordConfirmation b)).setObjects
            { n.objects.recordConfirmation b with
              lastIrreversibleBlockNum := lib }).settleIrreversible = res at hsettled hok
          cases res with
          | ok r =>
              exact ⟨fun _ => .logged lib hlib (hloggable (hok.mp rfl)), fun _ e r h =>
                by simp at h⟩
          | error e r =>
              constructor
              · intro h
                exact .repeated lib hlib ((settled_untouched_iff hsettled).mp (h e r rfl))
              · intro h e' r' heq
                obtain ⟨-, rfl⟩ := Result.error.inj heq
                refine (settled_untouched_iff hsettled).mpr ?_
                cases h with
                | refused h => exact absurd hval h
                | stale h => exact absurd h hstale
                | logged lib' h hl =>
                    rw [hlib] at h
                    obtain rfl := Except.ok.inj h
                    exact absurd (hok.mpr ⟨hl.blocks, hl.contracts⟩) (by simp [Result.isOk])
                | undecided e h hr => simp [hlib] at h
                | repeated lib' h hr =>
                    rw [hlib] at h
                    obtain rfl := Except.ok.inj h
                    exact hr

end Node

/-! ### One scheduled witness -/

/-- The only witness confirms block 864001, which has not arrived. The
exception that the fork database does not have the block comes after the
witness's confirmation and the irreversible number are written. -/
theorem failed_confirmation_writes :
    (soloNode.confirmBlock soloWitness (soloBlock 864001 1 2 [])).isOk = false ∧
    (soloNode.confirmBlock soloWitness
      (soloBlock 864001 1 2 [])).state.objects.lastIrreversibleBlockNum = 864001 ∧
    (soloNode.confirmBlock soloWitness
      (soloBlock 864001 1 2 [])).state.objects.lastConfirmedBlockNum 0 = 864001 ∧
    ¬∀ e r, soloNode.confirmBlock soloWitness (soloBlock 864001 1 2 []) = .error e r →
      soloNode.Untouched r := by
  have hthrows : (soloNode.confirmBlock soloWitness (soloBlock 864001 1 2 [])).isOk = false := by
    decide +kernel
  have hlib : (soloNode.confirmBlock soloWitness
      (soloBlock 864001 1 2 [])).state.objects.lastIrreversibleBlockNum = 864001 := by
    decide +kernel
  refine ⟨hthrows, hlib, by decide +kernel, fun h => ?_⟩
  obtain ⟨e, he⟩ := Result.exists_eq_error hthrows
  have hsame := congrArg (fun db => db.cur.lastIrreversibleBlockNum) (h e _ he).db
  have hold : soloNode.objects.lastIrreversibleBlockNum = 864000 := rfl
  have : (864001 : Nat) = 864000 := hlib.symm.trans (hsame.trans hold)
  omega

/-- A confirmation of another block than the next one is refused without a trace. -/
theorem refused_confirmation_untouched :
    (soloNode.confirmBlock soloWitness (soloBlock 864002 1 2 [])).isOk = false ∧
    ∀ e r, soloNode.confirmBlock soloWitness (soloBlock 864002 1 2 []) = .error e r →
      soloNode.Untouched r :=
  ⟨by decide +kernel, (Node.confirmBlock_untouched_iff soloWitness
    (ForkDatabase.startBlock_sound _) _).mpr (.refused (by decide +kernel))⟩

end Gamebank.Chain
