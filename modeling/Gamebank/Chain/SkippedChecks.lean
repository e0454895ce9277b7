import Gamebank.Chain.Deduplication
import Gamebank.Chain.Replay

/-!
# Blocks applied with some checks skipped

`apply_block` takes a mask of `validation_steps`; below a checkpoint and while
reindexing most checks are left out. A check that passes changes nothing, with
one exception: a transaction gets its object in the deduplication table only
where the check against the table is made. So what goes through with all
checks goes through with any of them skipped, and leaves the same objects, but
for a thinner table (`afterBlockWith_of_afterBlock`).

The comment in `database.hpp` says that `skip_tapos_check` skips the check of
the expiration as well; it does not.
-/

namespace Gamebank.Chain

open Gamebank.Lib

universe u v w

/-- The `validation_steps` that `apply_block` and what it calls read. -/
structure SkipFlags where
  witnessSignature : Bool
  transactionSignatures : Bool
  transactionDupeCheck : Bool
  taposCheck : Bool
  authorityCheck : Bool
  merkleCheck : Bool
  undoHistoryCheck : Bool
  witnessScheduleCheck : Bool
  validate : Bool
  blockLog : Bool
deriving DecidableEq

namespace SkipFlags

/-- `skip_nothing`. -/
def nothing : SkipFlags :=
  ⟨false, false, false, false, false, false, false, false, false, false⟩

/-- The flags of `reindex`. -/
def reindexing : SkipFlags :=
  { nothing with
    witnessSignature := true
    transactionSignatures := true
    transactionDupeCheck := true
    taposCheck := true
    merkleCheck := true
    witnessScheduleCheck := true
    authorityCheck := true
    validate := true
    blockLog := true }

/-- The flags of `apply_block` up to the last checkpoint. -/
def checkpointed : SkipFlags :=
  { nothing with
    witnessSignature := true
    transactionSignatures := true
    transactionDupeCheck := true
    taposCheck := true
    authorityCheck := true
    undoHistoryCheck := true
    witnessScheduleCheck := true
    validate := true }

end SkipFlags

variable {Name : Type u} {Tx : Type v} {Inner : Type w}

/-! ## The checks -/

namespace Handlers

/-- The merkle check comes last before the header is validated. -/
def withMerkle (h : Handlers Name Tx Inner)
    (checkMerkle : SignedBlock Name Tx → Except ChainException Unit) : Handlers Name Tx Inner :=
  { h with
    prepare := fun o b =>
      match h.prepare o b with
      | (r, some e) => (r, some e)
      | (r, none) =>
          match checkMerkle b with
          | .error e => (r, some e)
          | .ok () => (r, none) }

/-- `prepare`, with the flags. -/
def prepareWith (skip : SkipFlags) (h : Handlers Name Tx Inner)
    (checkMerkle : SignedBlock Name Tx → Except ChainException Unit)
    (o : Objects Name (Guarded Name Tx Inner)) (b : SignedBlock Name Tx) :
    Guarded Name Tx Inner × Option ChainException :=
  match h.prepare o.inner b with
  | (r, some e) => (o.rest.setInner r, some e)
  | (r, none) =>
      if skip.merkleCheck then (o.rest.setInner r, none)
      else
        match checkMerkle b with
        | .error e => (o.rest.setInner r, some e)
        | .ok () => (o.rest.setInner r, none)

/-- `checkExpiration`, with the flags. -/
def checkExpirationWith (skip : SkipFlags) (h : Handlers Name Tx Inner)
    (o : Objects Name (Guarded Name Tx Inner)) (tx : Tx) : Except ChainException Unit :=
  if ¬0 < o.headBlockNumber then .ok ()
  else if ¬skip.taposCheck ∧
      h.refBlockPrefix tx ≠ h.summaryPrefix o.rest.inner (h.refBlockNum tx) then
    .error (.assertion "trx.ref_block_prefix == tapos_block_summary.block_id._hash[1]")
  else if ¬h.expiration tx ≤ o.time + maxTimeUntilExpiration then
    .error (.assertion "trx.expiration <= now + fc::seconds(GAMEBANK_MAX_TIME_UNTIL_EXPIRATION)")
  else if ¬o.time < h.expiration tx then .error (.assertion "now < trx.expiration")
  else if ¬o.time ≤ h.expiration tx then .error (.assertion "now <= trx.expiration")
  else .ok ()

/-- `checkTransaction`, with the flags. -/
def checkTransactionWith (skip : SkipFlags) (h : Handlers Name Tx Inner)
    (o : Objects Name (Guarded Name Tx Inner)) (tx : Tx) : Except ChainException Unit :=
  match if skip.validate then .ok () else h.validate tx with
  | .error e => .error e
  | .ok () =>
      if ¬skip.transactionDupeCheck ∧ o.rest.isKnownTransaction (h.trxId tx) then
        .error (.assertion "Duplicate transaction check failed")
      else
        match if skip.transactionSignatures || skip.authorityCheck then .ok ()
          else h.verifyAuthority o.inner tx with
        | .error e => .error e
        | .ok () => h.checkExpirationWith skip o tx

/-- `_apply_transaction`, with the flags. -/
def applyTransactionWith (skip : SkipFlags) (h : Handlers Name Tx Inner)
    (o : Objects Name (Guarded Name Tx Inner)) (tx : Tx) :
    Guarded Name Tx Inner × Option ChainException :=
  match h.checkTransactionWith skip o tx with
  | .error e => (o.rest, some e)
  | .ok () =>
      let recorded :=
        if skip.transactionDupeCheck then o.rest else o.rest.record ⟨h.trxId tx, h.expiration tx⟩
      let (r, e) := h.applyOperations o.inner tx
      (recorded.setInner r, e)

/-- The loop over the transactions of a block, with the flags. -/
def applyTransactionsWith (skip : SkipFlags) (h : Handlers Name Tx Inner) :
    List Tx → Objects Name (Guarded Name Tx Inner) → Guarded Name Tx Inner × Option ChainException
  | [], o => (o.rest, none)
  | tx :: txs, o =>
      match h.applyTransactionWith skip o tx with
      | (r, some e) => (r, some e)
      | (r, none) => applyTransactionsWith skip h txs (o.setRest r)

/-- `execute`, with the flags. -/
def executeWith (skip : SkipFlags) (h : Handlers Name Tx Inner)
    (o : Objects Name (Guarded Name Tx Inner)) (b : SignedBlock Name Tx) :
    Guarded Name Tx Inner × Option ChainException :=
  match h.examine o.inner b with
  | (r, some e) => (o.rest.setInner r, some e)
  | (r, none) => h.applyTransactionsWith skip b.transactions (o.setRest (o.rest.setInner r))

/-- The node's routines, with the flags. -/
def evaluatorsWith (skip : SkipFlags) (h : Handlers Name Tx Inner)
    (checkMerkle : SignedBlock Name Tx → Except ChainException Unit) :
    Evaluators Name Tx (Guarded Name Tx Inner) :=
  { h.evaluators with
    prepare := h.prepareWith skip checkMerkle
    execute := h.executeWith skip
    applyTransaction := h.applyTransactionWith skip }

end Handlers

namespace Objects

variable {Rest : Type w} [DecidableEq Name]

/-- `validate_block_header`, with the flags. -/
def validateBlockHeaderWith (skip : SkipFlags) (ev : Evaluators Name Tx Rest)
    (o : Objects Name Rest) (b : SignedBlock Name Tx) : Except ChainException Unit :=
  if o.headBlockId ≠ b.previous then
    .error (.assertion "head_block_id() == next_block.previous")
  else if ¬o.time < b.timestamp then
    .error (.assertion "head_block_time() < next_block.timestamp")
  else if ¬ev.hasWitness o.rest b.witness then .error (.assertion "unknown key")
  else if ¬skip.witnessSignature ∧ ev.signee b ≠ ev.signingKey o.rest b.witness then
    .error (.assertion "next_block.validate_signee( witness.signing_key )")
  else if ¬skip.witnessScheduleCheck ∧ ¬0 < o.getSlotAtTime b.timestamp then
    .error (.assertion "slot_num > 0")
  else if ¬skip.witnessScheduleCheck ∧
      o.getScheduledWitness ev (o.getSlotAtTime b.timestamp) ≠ some b.witness then
    .error (.assertion "Witness produced block at wrong time")
  else .ok ()

/-- `applyHeader`, with the flags. -/
def applyHeaderWith (skip : SkipFlags) (ev : Evaluators Name Tx Rest) (o : Objects Name Rest)
    (b : SignedBlock Name Tx) : Objects Name Rest × Option ChainException :=
  match ev.prepare o b with
  | (r, some e) => (o.setRest r, some e)
  | (r, none) =>
      let o := o.setRest r
      match o.validateBlockHeaderWith skip ev b with
      | .error e => (o, some e)
      | .ok () =>
          match ev.execute o b with
          | (r, some e) => (o.setRest r, some e)
          | (r, none) =>
              let o := o.setRest r
              match ev.recordMissed o b with
              | (r, some e) => (o.setRest r, some e)
              | (r, none) =>
                  let o := (o.setRest r).advanceHead b
                  if skip.undoHistoryCheck ∨
                      sub32 o.headBlockNumber o.lastIrreversibleBlockNum < maxUndoHistory then
                    (o.updateSigningWitness b, none)
                  else
                    (o, some (.undoDatabase undoHistoryMessage))

/-- What `apply_block` with the flags makes of the objects, when it goes through. -/
def afterBlockWith (skip : SkipFlags) (ev : Evaluators Name Tx Rest) (o : Objects Name Rest)
    (b : SignedBlock Name Tx) : Except ChainException (Objects Name Rest) :=
  match o.applyHeaderWith skip ev b with
  | (_, some e) => .error e
  | (o, none) =>
      match o.newLastIrreversible ev with
      | .error e => .error e
      | .ok lib =>
          let o := { o with lastIrreversibleBlockNum := lib }
          match ev.finish o b with
          | (_, some e) => .error e
          | (r, none) => .ok (o.setRest r)

/-- Without flags the header is checked as ever. -/
theorem applyHeaderWith_nothing (ev : Evaluators Name Tx Rest) (o : Objects Name Rest)
    (b : SignedBlock Name Tx) : o.applyHeaderWith .nothing ev b = o.applyHeader ev b := by
  have hvalid : ∀ p : Objects Name Rest,
      p.validateBlockHeaderWith .nothing ev b = p.validateBlockHeader ev b := by
    intro p
    simp [validateBlockHeaderWith, validateBlockHeader, SkipFlags.nothing]
  have hundo : SkipFlags.nothing.undoHistoryCheck = false := rfl
  unfold applyHeaderWith
  simp only [hvalid, hundo, Bool.false_eq_true, false_or]
  rfl

/-! ## The stages of a block -/

/-- The state in which `update_last_irreversible_block` finds the objects. -/
def headed (o : Objects Name Rest) (b : SignedBlock Name Tx) : Objects Name Rest :=
  (o.advanceHead b).updateSigningWitness b

theorem headed_setRest (o : Objects Name Rest) (b : SignedBlock Name Tx) (r : Rest) :
    (o.setRest r).headed b = (o.headed b).setRest r := by
  unfold headed updateSigningWitness
  show (if b.blockNum < o.lastConfirmedBlockNum b.witness then _ else _) =
    Objects.setRest (if b.blockNum < o.lastConfirmedBlockNum b.witness then _ else _) r
  split <;> rfl

/-- What the routines of a block leave, one after the other: `r₀` before the
header is checked, `r₁` after the transactions, `r₂` when the head moves, `r₃`
at the end. -/
structure Stages (ev : Evaluators Name Tx Rest) (o : Objects Name Rest) (b : SignedBlock Name Tx)
    (r₀ r₁ r₂ r₃ : Rest) (lib : Nat) : Prop where
  prepare : ev.prepare o b = (r₀, none)
  execute : ev.execute (o.setRest r₀) b = (r₁, none)
  recordMissed : ev.recordMissed (o.setRest r₁) b = (r₂, none)
  irreversible : ((o.setRest r₂).headed b).newLastIrreversible ev = .ok lib
  finish : ev.finish { (o.setRest r₂).headed b with lastIrreversibleBlockNum := lib } b = (r₃, none)

/-- The history that may be undone is not too long. -/
def Undoable (o : Objects Name Rest) (b : SignedBlock Name Tx) : Prop :=
  sub32 b.blockNum o.lastIrreversibleBlockNum < maxUndoHistory

/-- The objects at the end. -/
def finished (o : Objects Name Rest) (b : SignedBlock Name Tx) (r₂ r₃ : Rest) (lib : Nat) :
    Objects Name Rest :=
  ({ (o.setRest r₂).headed b with lastIrreversibleBlockNum := lib } : Objects Name Rest).setRest r₃

/-- A header that goes through has gone through every part. -/
theorem parts_of_applyHeader {ev : Evaluators Name Tx Rest} {o p : Objects Name Rest}
    {b : SignedBlock Name Tx} (h : o.applyHeader ev b = (p, none)) :
    ∃ r₀ r₁ r₂, ev.prepare o b = (r₀, none) ∧ (o.setRest r₀).validateBlockHeader ev b = .ok () ∧
      ev.execute (o.setRest r₀) b = (r₁, none) ∧ ev.recordMissed (o.setRest r₁) b = (r₂, none) ∧
        o.Undoable b ∧ p = (o.setRest r₂).headed b := by
  unfold applyHeader at h
  rcases hprepare : ev.prepare o b with ⟨r₀, _ | e⟩
  · simp only [hprepare] at h
    cases hvalid : (o.setRest r₀).validateBlockHeader ev b with
    | error e => simp [hvalid] at h
    | ok =>
        simp only [hvalid] at h
        rcases hexecute : ev.execute (o.setRest r₀) b with ⟨r₁, _ | e⟩
        · simp only [hexecute] at h
          rcases hmissed : ev.recordMissed (o.setRest r₁) b with ⟨r₂, _ | e⟩
          · rw [show ev.recordMissed ((o.setRest r₀).setRest r₁) b = (r₂, none) from hmissed] at h
            simp only at h
            split at h
            · rename_i hundo
              exact ⟨r₀, r₁, r₂, rfl, hvalid, hexecute, hmissed, hundo, (Prod.mk.inj h).1.symm⟩
            · cases (Prod.mk.inj h).2
          · rw [show ev.recordMissed ((o.setRest r₀).setRest r₁) b = (r₂, some e) from hmissed] at h
            cases h
        · simp [hexecute] at h
  · simp [hprepare] at h

theorem stages_of_afterBlock {ev : Evaluators Name Tx Rest} {o o' : Objects Name Rest}
    {b : SignedBlock Name Tx} (h : o.afterBlock ev b = .ok o') :
    ∃ r₀ r₁ r₂ r₃ lib, Stages ev o b r₀ r₁ r₂ r₃ lib ∧
      (o.setRest r₀).validateBlockHeader ev b = .ok () ∧ o.Undoable b ∧
        o' = o.finished b r₂ r₃ lib := by
  unfold afterBlock at h
  rcases hheader : o.applyHeader ev b with ⟨p, _ | e⟩
  · simp only [hheader] at h
    obtain ⟨r₀, r₁, r₂, hprepare, hvalid, hexecute, hmissed, hundo, rfl⟩ :=
      parts_of_applyHeader hheader
    cases hlib : ((o.setRest r₂).headed b).newLastIrreversible ev with
    | error e => simp [hlib] at h
    | ok lib =>
        simp only [hlib] at h
        rcases hfinish : ev.finish
          { (o.setRest r₂).headed b with lastIrreversibleBlockNum := lib } b with ⟨r₃, _ | e⟩
        · simp only [hfinish, Except.ok.injEq] at h
          exact ⟨r₀, r₁, r₂, r₃, lib, ⟨hprepare, hexecute, hmissed, hlib, hfinish⟩, hvalid, hundo,
            h.symm⟩
        · simp [hfinish] at h
  · simp [hheader] at h

theorem Stages.afterBlockWith {skip : SkipFlags} {ev : Evaluators Name Tx Rest}
    {o : Objects Name Rest} {b : SignedBlock Name Tx} {r₀ r₁ r₂ r₃ : Rest} {lib : Nat}
    (hstages : Stages ev o b r₀ r₁ r₂ r₃ lib)
    (hvalid : (o.setRest r₀).validateBlockHeaderWith skip ev b = .ok ())
    (hundo : skip.undoHistoryCheck ∨ o.Undoable b) :
    o.afterBlockWith skip ev b = .ok (o.finished b r₂ r₃ lib) := by
  have hheader : o.applyHeaderWith skip ev b = ((o.setRest r₂).headed b, none) := by
    unfold applyHeaderWith
    simp only [hstages.prepare, hvalid, hstages.execute]
    rw [show ((o.setRest r₀).setRest r₁) = o.setRest r₁ from rfl]
    simp only [hstages.recordMissed]
    exact if_pos hundo
  unfold Objects.afterBlockWith
  simp only [hheader, hstages.irreversible, hstages.finish]
  rfl

end Objects

/-! ## A thinner table -/

/-- Some of the objects, in the order of their expirations. -/
structure Thins (l table : List TransactionObject) : Prop where
  subset : l ⊆ table
  sorted : l.Pairwise fun s t => s.expiration ≤ t.expiration

/-- The same objects with another table. -/
def Guarded.withTable (g : Guarded Name Tx Inner) (l : List TransactionObject) :
    Guarded Name Tx Inner :=
  { g with transactions := l }

def Objects.withTable (o : Objects Name (Guarded Name Tx Inner)) (l : List TransactionObject) :
    Objects Name (Guarded Name Tx Inner) :=
  o.setRest (o.rest.withTable l)

theorem pairwise_record {l : List TransactionObject} (t : TransactionObject)
    (h : l.Pairwise fun s t => s.expiration ≤ t.expiration) :
    (l.orderedInsert (fun a b => a.expiration < b.expiration) t).Pairwise
      fun s t => s.expiration ≤ t.expiration := by
  induction l with
  | nil => exact List.pairwise_singleton _ _
  | cons s l ih =>
      obtain ⟨hs, hl⟩ := List.pairwise_cons.mp h
      rw [List.orderedInsert_cons]
      by_cases hlt : t.expiration < s.expiration
      · rw [if_pos hlt]
        refine List.pairwise_cons.mpr ⟨fun u hu => ?_, h⟩
        rcases List.mem_cons.mp hu with rfl | hu
        · exact hlt.le
        · exact hlt.le.trans (hs u hu)
      · rw [if_neg hlt]
        refine List.pairwise_cons.mpr ⟨fun u hu => ?_, ih hl⟩
        rcases (List.mem_orderedInsert _).mp hu with rfl | hu
        · exact Nat.not_lt.mp hlt
        · exact hs u hu

namespace Thins

variable {g r : Guarded Name Tx Inner} {l : List TransactionObject}

theorem record (h : Thins l g.transactions) (t : TransactionObject) :
    Thins ((g.withTable l).record t).transactions (g.record t).transactions where
  subset := by
    intro s hs
    rcases Guarded.mem_record.mp hs with rfl | hs
    · exact Guarded.mem_record.mpr (Or.inl rfl)
    · exact Guarded.mem_record.mpr (Or.inr (h.subset hs))
  sorted := pairwise_record t h.sorted

theorem dropWhile_expired (h : l.Pairwise fun s t => s.expiration ≤ t.expiration) (now : Nat) :
    ∀ s ∈ l.dropWhile (fun t => t.expiration < now), now ≤ s.expiration := by
  induction l with
  | nil => simp
  | cons t l ih =>
      obtain ⟨ht, hl⟩ := List.pairwise_cons.mp h
      by_cases hlt : t.expiration < now
      · rw [List.dropWhile_cons_of_pos (by simpa using hlt)]
        exact ih hl
      · rw [List.dropWhile_cons_of_neg (by simpa using hlt)]
        intro s hs
        rcases List.mem_cons.mp hs with rfl | hs
        · exact Nat.not_lt.mp hlt
        · exact (Nat.not_lt.mp hlt).trans (ht s hs)

/-- What has not expired stays in both. -/
theorem clearExpired (h : Thins l g.transactions) (now : Nat) :
    Thins ((g.withTable l).clearExpiredTransactions now).transactions
      (g.clearExpiredTransactions now).transactions where
  subset := by
    intro s hs
    have hlive : now ≤ s.expiration := dropWhile_expired h.sorted now s hs
    have hmem : s ∈ l := (List.dropWhile_suffix _).subset hs
    rcases Guarded.mem_clearExpiredTransactions now (h.subset hmem) with hkept | hexpired
    · exact hkept
    · exact absurd hlive (Nat.not_le.mpr hexpired)
  sorted := h.sorted.sublist (List.dropWhile_suffix _).sublist

theorem unknown (h : Thins l g.transactions) {id : Nat}
    (hunknown : g.isKnownTransaction id = false) :
    (g.withTable l).isKnownTransaction id = false := by
  rw [Guarded.isKnownTransaction, List.any_eq_false] at hunknown ⊢
  exact fun t ht => hunknown t (h.subset ht)

end Thins

/-! ## Transactions -/

namespace Handlers

variable {h : Handlers Name Tx Inner} {o : Objects Name (Guarded Name Tx Inner)} {tx : Tx}
  {l : List TransactionObject}

theorem checkExpirationWith_eq_ok (skip : SkipFlags) (hok : h.checkExpiration o tx = .ok ()) :
    h.checkExpirationWith skip (o.withTable l) tx = .ok () := by
  unfold checkExpiration at hok
  unfold checkExpirationWith
  show (if ¬0 < o.headBlockNumber then _ else _) = _
  by_cases hhead : ¬0 < o.headBlockNumber
  · rw [if_pos hhead]
  · rw [if_neg hhead] at hok ⊢
    split at hok
    · cases hok
    · rename_i hfresh
      rw [if_neg fun hskip => hfresh hskip.2]
      exact hok

/-- A transaction accepted has passed every check. -/
theorem checks_of_checkTransaction (hok : h.checkTransaction o tx = .ok ()) :
    h.validate tx = .ok () ∧ o.rest.isKnownTransaction (h.trxId tx) = false ∧
      h.verifyAuthority o.inner tx = .ok () ∧ h.checkExpiration o tx = .ok () := by
  have hunknown := (checkTransaction_eq_ok hok).1
  unfold checkTransaction at hok
  cases hvalid : h.validate tx with
  | error e => simp [hvalid] at hok
  | ok =>
      cases hauth : h.verifyAuthority o.inner tx with
      | error e => simp [hvalid, hunknown, hauth] at hok
      | ok =>
          simp only [hvalid, hunknown, hauth, Bool.false_eq_true, if_false] at hok
          exact ⟨rfl, hunknown, rfl, hok⟩

/-- Fewer checks on a thinner table pass. -/
theorem checkTransactionWith_eq_ok (skip : SkipFlags) (hl : Thins l o.rest.transactions)
    (hok : h.checkTransaction o tx = .ok ()) :
    h.checkTransactionWith skip (o.withTable l) tx = .ok () := by
  obtain ⟨hvalid, hunknown, hauth, hexpiration⟩ := checks_of_checkTransaction hok
  have hthin : (o.withTable l).rest.isKnownTransaction (h.trxId tx) = false := hl.unknown hunknown
  have hauth' : h.verifyAuthority (o.withTable l).inner tx = .ok () := hauth
  unfold checkTransactionWith
  simp only [hvalid, hthin, hauth', ite_self, Bool.false_eq_true, and_false, if_false]
  exact checkExpirationWith_eq_ok skip hexpiration

theorem applyTransactionWith_of_applyTransaction (skip : SkipFlags)
    (hl : Thins l o.rest.transactions) {r : Guarded Name Tx Inner}
    (hok : h.applyTransaction o tx = (r, none)) :
    ∃ l', h.applyTransactionWith skip (o.withTable l) tx = (r.withTable l', none) ∧
      Thins l' r.transactions ∧ (skip.transactionDupeCheck → l' = l) := by
  have hcheck := (applyTransaction_eq_ok hok).1
  unfold applyTransaction at hok
  simp only [hcheck, Prod.mk.injEq] at hok
  obtain ⟨rfl, hnone⟩ := hok
  have hwith : h.applyTransactionWith skip (o.withTable l) tx =
      ((if skip.transactionDupeCheck then (o.withTable l).rest
        else (o.withTable l).rest.record ⟨h.trxId tx, h.expiration tx⟩).setInner
          (h.applyOperations o.inner tx).1, none) := by
    unfold applyTransactionWith
    simp only [checkTransactionWith_eq_ok skip hl hcheck]
    exact Prod.ext rfl hnone
  rw [hwith]
  by_cases hskip : skip.transactionDupeCheck = true
  · rw [if_pos hskip]
    refine ⟨l, rfl, ⟨fun s hs => ?_, hl.sorted⟩, fun _ => rfl⟩
    exact Guarded.mem_record.mpr (Or.inr (hl.subset hs))
  · rw [if_neg hskip]
    exact ⟨_, rfl, hl.record _, fun htrue => absurd htrue hskip⟩

theorem applyTransactionsWith_of_applyTransactions (skip : SkipFlags) {txs : List Tx}
    (hl : Thins l o.rest.transactions) {r : Guarded Name Tx Inner}
    (hok : h.applyTransactions txs o = (r, none)) :
    ∃ l', h.applyTransactionsWith skip txs (o.withTable l) = (r.withTable l', none) ∧
      Thins l' r.transactions ∧ (skip.transactionDupeCheck → l' = l) := by
  induction txs generalizing o l with
  | nil =>
      obtain ⟨rfl, -⟩ := Prod.mk.inj hok
      exact ⟨l, rfl, hl, fun _ => rfl⟩
  | cons tx txs ih =>
      unfold applyTransactions at hok
      cases happly : h.applyTransaction o tx with
      | mk r' e =>
          rw [happly] at hok
          cases e with
          | some e => cases hok
          | none =>
              obtain ⟨l₁, hone, hl₁, hsame₁⟩ :=
                applyTransactionWith_of_applyTransaction skip hl happly
              obtain ⟨l', hrest, hl', hsame⟩ := ih (o := o.setRest r') (l := l₁) hl₁ hok
              refine ⟨l', ?_, hl', fun hskip => (hsame hskip).trans (hsame₁ hskip)⟩
              unfold applyTransactionsWith
              simp only [hone]
              exact hrest

/-! ## Blocks -/

/-- The merkle check does not concern the transactions. -/
theorem applyTransactions_withMerkle (h : Handlers Name Tx Inner)
    (checkMerkle : SignedBlock Name Tx → Except ChainException Unit) (txs : List Tx)
    (o : Objects Name (Guarded Name Tx Inner)) :
    (h.withMerkle checkMerkle).applyTransactions txs o = h.applyTransactions txs o := by
  induction txs generalizing o with
  | nil => rfl
  | cons tx txs ih =>
      unfold applyTransactions
      rw [show (h.withMerkle checkMerkle).applyTransaction o tx = h.applyTransaction o tx from rfl]
      simp only [ih]

theorem execute_withMerkle (h : Handlers Name Tx Inner)
    (checkMerkle : SignedBlock Name Tx → Except ChainException Unit)
    (o : Objects Name (Guarded Name Tx Inner)) (b : SignedBlock Name Tx) :
    (h.withMerkle checkMerkle).evaluators.execute o b = h.execute o b := by
  show (h.withMerkle checkMerkle).execute o b = h.execute o b
  unfold execute
  simp only [applyTransactions_withMerkle]
  rfl

variable {checkMerkle : SignedBlock Name Tx → Except ChainException Unit} {b : SignedBlock Name Tx}
  {r₀ r₁ r₂ r₃ : Guarded Name Tx Inner} {lib : Nat}

theorem prepareWith_of_prepare (skip : SkipFlags) (l : List TransactionObject)
    (hok : (h.withMerkle checkMerkle).evaluators.prepare o b = (r₀, none)) :
    h.prepareWith skip checkMerkle (o.withTable l) b = (r₀.withTable l, none) ∧
      r₀.transactions = o.rest.transactions := by
  have hprepare : (h.withMerkle checkMerkle).prepare o.inner b = (r₀.inner, none) ∧
      r₀ = o.rest.setInner r₀.inner := by
    obtain ⟨rfl, hnone⟩ := Prod.mk.inj hok
    exact ⟨Prod.ext rfl hnone, rfl⟩
  refine ⟨?_, by rw [hprepare.2]; rfl⟩
  have hmerkle := hprepare.1
  unfold withMerkle at hmerkle
  unfold prepareWith
  rw [show (o.withTable l).inner = o.inner from rfl, hprepare.2]
  rcases hstart : h.prepare o.inner b with ⟨i, _ | e⟩
  · simp only [hstart] at hmerkle
    cases hcheck : checkMerkle b with
    | error e => simp [hcheck] at hmerkle
    | ok =>
        simp only [hcheck, Prod.mk.injEq, and_true] at hmerkle
        rw [hmerkle]
        simp only [ite_self]
        rfl
  · simp [hstart] at hmerkle

theorem executeWith_of_execute (skip : SkipFlags) (hl : Thins l o.rest.transactions)
    (hok : h.execute o b = (r₁, none)) :
    ∃ l', h.executeWith skip (o.withTable l) b = (r₁.withTable l', none) ∧
      Thins l' r₁.transactions ∧ (skip.transactionDupeCheck → l' = l) := by
  unfold execute at hok
  unfold executeWith
  rw [show (o.withTable l).inner = o.inner from rfl]
  cases hexamine : h.examine o.inner b with
  | mk i e =>
      rw [hexamine] at hok
      cases e with
      | some e => cases hok
      | none =>
          simp only
          exact applyTransactionsWith_of_applyTransactions skip
            (o := o.setRest (o.rest.setInner i)) hl hok

theorem missBlocks_withTable (l : List TransactionObject) (hok : h.missBlocks o b = (r₂, none)) :
    h.missBlocks (o.withTable l) b = (r₂.withTable l, none) ∧
      r₂.transactions = o.rest.transactions := by
  unfold missBlocks at hok ⊢
  rw [show (o.withTable l).inner = o.inner from rfl]
  cases hrecord : h.recordMissed o.inner b with
  | mk i e =>
      rw [hrecord] at hok
      cases e with
      | some e => cases hok
      | none =>
          obtain ⟨rfl, -⟩ := Prod.mk.inj hok
          exact ⟨rfl, rfl⟩

theorem finishBlock_withTable (hl : Thins l o.rest.transactions)
    (hok : h.finishBlock o b = (r₃, none)) :
    ∃ l', h.finishBlock (o.withTable l) b = (r₃.withTable l', none) ∧ Thins l' r₃.transactions ∧
      (l = [] → l' = []) := by
  obtain ⟨rfl, hnone⟩ := Prod.mk.inj hok
  refine ⟨_, Prod.ext rfl hnone, hl.clearExpired o.time, ?_⟩
  rintro rfl
  rfl

variable [DecidableEq Name]

theorem validateBlockHeaderWith_eq_ok (skip : SkipFlags) (l : List TransactionObject)
    (hok : o.validateBlockHeader (h.withMerkle checkMerkle).evaluators b = .ok ()) :
    (o.withTable l).validateBlockHeaderWith skip (h.evaluatorsWith skip checkMerkle) b =
      .ok () := by
  unfold Objects.validateBlockHeader at hok
  unfold Objects.validateBlockHeaderWith
  split at hok
  · cases hok
  · rename_i hprev
    refine (if_neg hprev).trans ?_
    split at hok
    · cases hok
    · rename_i htime
      refine (if_neg htime).trans ?_
      split at hok
      · cases hok
      · rename_i hwitness
        refine (if_neg hwitness).trans ?_
        split at hok
        · cases hok
        · rename_i hsignee
          refine (if_neg fun hskip => hsignee hskip.2).trans ?_
          split at hok
          · cases hok
          · rename_i hslot
            refine (if_neg fun hskip => hslot hskip.2).trans ?_
            split at hok
            · cases hok
            · rename_i hscheduled
              exact if_neg fun hskip => hscheduled hskip.2

/-- **Skipped checks change nothing but the table.** A block that goes through
with all checks goes through with any of them skipped, on the same objects with
a thinner table, and leaves the same objects with a thinner table. -/
theorem afterBlockWith_of_afterBlock (skip : SkipFlags) {o' : Objects Name (Guarded Name Tx Inner)}
    (hl : Thins l o.rest.transactions)
    (hok : o.afterBlock (h.withMerkle checkMerkle).evaluators b = .ok o') :
    ∃ l', (o.withTable l).afterBlockWith skip (h.evaluatorsWith skip checkMerkle) b =
        .ok (o'.withTable l') ∧
      Thins l' o'.rest.transactions ∧ (skip.transactionDupeCheck → l = [] → l' = []) := by
  obtain ⟨r₀, r₁, r₂, r₃, lib, hstages, hvalid, hundo, rfl⟩ := Objects.stages_of_afterBlock hok
  obtain ⟨hprepare, htable₀⟩ := prepareWith_of_prepare skip l hstages.prepare
  have hl₀ : Thins l (o.setRest r₀).rest.transactions := htable₀.symm ▸ hl
  have hblock : h.execute (o.setRest r₀) b = (r₁, none) :=
    (execute_withMerkle h checkMerkle (o.setRest r₀) b).symm.trans hstages.execute
  obtain ⟨l₁, hexecute, hl₁, hsame⟩ := executeWith_of_execute skip hl₀ hblock
  obtain ⟨hmissed, htable₂⟩ :=
    missBlocks_withTable (h := h) (o := o.setRest r₁) l₁ hstages.recordMissed
  have hl₂ : Thins l₁ r₂.transactions := htable₂.symm ▸ hl₁
  have hthin : Thins l₁ ({ (o.setRest r₂).headed b with lastIrreversibleBlockNum := lib } :
      Objects Name (Guarded Name Tx Inner)).rest.transactions := by
    rw [Objects.headed_setRest]
    exact hl₂
  obtain ⟨l₃, hfinish, hl₃, hempty⟩ := finishBlock_withTable (h := h) hthin hstages.finish
  have hend : ((o.withTable l).setRest (r₂.withTable l₁)).headed b =
      ((o.setRest r₂).headed b).withTable l₁ := by
    rw [Objects.headed_setRest o b r₂]
    exact Objects.headed_setRest o b (r₂.withTable l₁)
  have hwith : Objects.Stages (h.evaluatorsWith skip checkMerkle) (o.withTable l) b
      (r₀.withTable l) (r₁.withTable l₁) (r₂.withTable l₁) (r₃.withTable l₃) lib := by
    refine ⟨hprepare, hexecute, hmissed, ?_, ?_⟩
    · rw [hend]
      exact hstages.irreversible
    · rw [hend]
      exact hfinish
  refine ⟨l₃, ?_, hl₃, fun hskip hnone => hempty ((hsame hskip).trans hnone)⟩
  have hafter := @Objects.Stages.afterBlockWith _ _ _ _ skip _ _ _ _ _ _ _ _ hwith
    (validateBlockHeaderWith_eq_ok skip l hvalid) (Or.inr hundo)
  rw [hafter, Objects.finished, hend]
  rfl

end Handlers

end Gamebank.Chain
