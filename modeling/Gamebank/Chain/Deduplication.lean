import Gamebank.Chain.Routines
import Gamebank.Chain.Transactions

/-!
# No transaction twice

A transaction of the chain has its object in the table, or it expired before
the time of the head. Then one with the same id is refused: as a duplicate,
or, having the same expiration, as expired. `Guards` is this invariant; it
holds in every state of the undo stack, since a snapshot holds the table as
it was with the chain as it was.

Two transactions with the same id and different expirations would be a
collision of SHA-256; nothing is assumed of the digest until the end.
-/

namespace Gamebank.Chain

open Gamebank.Lib

universe u v w

variable {Name : Type u} {Tx : Type v} {Inner : Type w}
variable {h : Handlers Name Tx Inner} {o o' : Objects Name (Guarded Name Tx Inner)} {tx u : Tx}

/-! ## The table -/

namespace Handlers

/-- The object of a transaction. -/
def entry (h : Handlers Name Tx Inner) (tx : Tx) : TransactionObject :=
  ⟨h.trxId tx, h.expiration tx⟩

end Handlers

namespace Guarded

variable {g : Guarded Name Tx Inner} {s t : TransactionObject}

theorem isKnownTransaction_of_mem (ht : t ∈ g.transactions) :
    g.isKnownTransaction t.trxId = true :=
  List.any_eq_true.mpr ⟨t, ht, by simp⟩

theorem mem_record : s ∈ (g.record t).transactions ↔ s = t ∨ s ∈ g.transactions :=
  List.mem_orderedInsert _

/-- Only objects that have expired leave the table. -/
theorem mem_clearExpiredTransactions (now : Nat) (ht : t ∈ g.transactions) :
    t ∈ (g.clearExpiredTransactions now).transactions ∨ t.expiration < now := by
  have hsplit := List.takeWhile_append_dropWhile
    (p := fun t : TransactionObject => decide (t.expiration < now)) (l := g.transactions)
  rw [← hsplit, List.mem_append] at ht
  rcases ht with ht | ht
  · have hexpired := List.mem_takeWhile_imp ht
    exact Or.inr (of_decide_eq_true hexpired)
  · exact Or.inl ht

end Guarded

/-! ## One transaction -/

namespace Handlers

/-- The transaction is in the table, or has expired. -/
def Recorded (h : Handlers Name Tx Inner) (o : Objects Name (Guarded Name Tx Inner)) (tx : Tx) :
    Prop :=
  h.entry tx ∈ o.rest.transactions ∨ 0 < o.headBlockNumber ∧ h.expiration tx < o.time

/-- The transactions do not have the same id, unless their digests collide. -/
def Differ (h : Handlers Name Tx Inner) (u tx : Tx) : Prop :=
  h.trxId u = h.trxId tx → h.expiration u ≠ h.expiration tx

theorem time_lt_of_checkExpiration (hok : h.checkExpiration o tx = .ok ())
    (hhead : 0 < o.headBlockNumber) : o.time < h.expiration tx := by
  unfold checkExpiration at hok
  rw [if_neg (not_not.mpr hhead)] at hok
  split at hok
  · cases hok
  · split at hok
    · cases hok
    · by_cases hlive : o.time < h.expiration tx
      · exact hlive
      · rw [if_pos hlive] at hok
        cases hok

/-- What passes the checks is not in the table and has not expired. -/
theorem checkTransaction_eq_ok (hok : h.checkTransaction o tx = .ok ()) :
    o.rest.isKnownTransaction (h.trxId tx) = false ∧
      (0 < o.headBlockNumber → o.time < h.expiration tx) := by
  unfold checkTransaction at hok
  cases hvalid : h.validate tx with
  | error e => simp [hvalid] at hok
  | ok =>
      by_cases hknown : o.rest.isKnownTransaction (h.trxId tx) = true
      · simp [hvalid, hknown] at hok
      · refine ⟨by simpa using hknown, fun hhead => ?_⟩
        cases hauth : h.verifyAuthority o.inner tx with
        | error e => simp [hvalid, hknown, hauth] at hok
        | ok =>
            simp only [hvalid, hknown, hauth] at hok
            exact time_lt_of_checkExpiration hok hhead

/-- **What `_apply_transaction` can do**: refuse and change nothing, or
record the transaction and go on to its operations. -/
theorem applyTransaction_cases (h : Handlers Name Tx Inner)
    (o : Objects Name (Guarded Name Tx Inner)) (tx : Tx) :
    (∃ e, h.applyTransaction o tx = (o.rest, some e)) ∨
    (h.checkTransaction o tx = .ok () ∧
      ∃ r e, h.applyTransaction o tx = ((o.rest.record (h.entry tx)).setInner r, e)) := by
  unfold applyTransaction
  cases hcheck : h.checkTransaction o tx with
  | error e => exact Or.inl ⟨e, rfl⟩
  | ok => exact Or.inr ⟨rfl, _, _, rfl⟩

/-- A transaction accepted differs from every one recorded. -/
theorem Recorded.differ (hu : h.Recorded o u) (hok : h.checkTransaction o tx = .ok ()) :
    h.Differ u tx := by
  obtain ⟨hunknown, hlive⟩ := checkTransaction_eq_ok hok
  intro hid hexpiration
  rcases hu with hmem | ⟨hhead, hexpired⟩
  · have hknown : o.rest.isKnownTransaction (h.trxId u) = true :=
      Guarded.isKnownTransaction_of_mem hmem
    rw [hid, hunknown] at hknown
    cases hknown
  · have := hlive hhead
    omega

/-! ## The transactions of a block -/

/-- `r` has the objects of `g` and its blocks. -/
structure Grows (g r : Guarded Name Tx Inner) : Prop where
  transactions : g.transactions ⊆ r.transactions
  blocks : r.blocks = g.blocks

namespace Grows

variable {g r q : Guarded Name Tx Inner}

theorem inner (g : Guarded Name Tx Inner) (i : Inner) : Grows g (g.setInner i) :=
  ⟨fun _ ht => ht, rfl⟩

theorem trans (hgr : Grows g r) (hrq : Grows r q) : Grows g q :=
  ⟨fun _ ht => hrq.transactions (hgr.transactions ht), hrq.blocks.trans hgr.blocks⟩

theorem recorded (hgrows : Grows o.rest r) (hu : h.Recorded o u) : h.Recorded (o.setRest r) u := by
  rcases hu with hmem | hexpired
  · exact Or.inl (hgrows.transactions hmem)
  · exact Or.inr hexpired

theorem unknown (hgrows : Grows g r) {id : Nat} (hunknown : r.isKnownTransaction id = false) :
    g.isKnownTransaction id = false := by
  rw [Guarded.isKnownTransaction, List.any_eq_false] at hunknown ⊢
  exact fun t ht => hunknown t (hgrows.transactions ht)

end Grows

theorem applyTransaction_grows (h : Handlers Name Tx Inner)
    (o : Objects Name (Guarded Name Tx Inner)) (tx : Tx) :
    Grows o.rest (h.applyTransaction o tx).1 := by
  rcases applyTransaction_cases h o tx with ⟨e, heq⟩ | ⟨-, r, e, heq⟩
  · rw [heq]
    exact ⟨fun _ ht => ht, rfl⟩
  · rw [heq]
    exact ⟨fun _ ht => Guarded.mem_record.mpr (Or.inr ht), rfl⟩

/-- A transaction applied passed the checks and is in the table. -/
theorem applyTransaction_eq_ok {r : Guarded Name Tx Inner}
    (hok : h.applyTransaction o tx = (r, none)) :
    h.checkTransaction o tx = .ok () ∧ h.entry tx ∈ r.transactions := by
  rcases applyTransaction_cases h o tx with ⟨e, heq⟩ | ⟨hcheck, i, e, heq⟩
  · rw [hok] at heq
    cases heq
  · rw [hok] at heq
    refine ⟨hcheck, ?_⟩
    rw [(Prod.mk.inj heq).1]
    exact Guarded.mem_record.mpr (Or.inl rfl)

theorem applyTransactions_grows (h : Handlers Name Tx Inner) (txs : List Tx)
    (o : Objects Name (Guarded Name Tx Inner)) : Grows o.rest (h.applyTransactions txs o).1 := by
  induction txs generalizing o with
  | nil => exact ⟨fun _ ht => ht, rfl⟩
  | cons tx txs ih =>
      have hone := applyTransaction_grows h o tx
      unfold applyTransactions
      cases happly : h.applyTransaction o tx with
      | mk r e =>
          rw [happly] at hone
          cases e with
          | some e => exact hone
          | none => exact hone.trans (ih (o.setRest r))

/-- What holds of the transactions of a block once all are applied. -/
structure AllApplied (h : Handlers Name Tx Inner) (o : Objects Name (Guarded Name Tx Inner))
    (r : Guarded Name Tx Inner) (txs : List Tx) : Prop where
  recorded : ∀ tx ∈ txs, h.entry tx ∈ r.transactions
  unknown : ∀ tx ∈ txs, o.rest.isKnownTransaction (h.trxId tx) = false
  nodup : (txs.map h.trxId).Nodup
  before : ∀ u, h.Recorded o u → ∀ tx ∈ txs, h.Differ u tx

theorem applyTransactions_eq_ok {txs : List Tx} {r : Guarded Name Tx Inner}
    (hok : h.applyTransactions txs o = (r, none)) : h.AllApplied o r txs := by
  induction txs generalizing o with
  | nil => exact ⟨by simp, by simp, List.nodup_nil, by simp⟩
  | cons tx txs ih =>
      unfold applyTransactions at hok
      cases happly : h.applyTransaction o tx with
      | mk r' e =>
          rw [happly] at hok
          cases e with
          | some e => cases hok
          | none =>
              obtain ⟨hcheck, hentry⟩ := applyTransaction_eq_ok happly
              have hgrows := applyTransaction_grows h o tx
              rw [happly] at hgrows
              have hok' : h.applyTransactions txs (o.setRest r') = (r, none) := hok
              have hrest := ih hok'
              have hkept := applyTransactions_grows h txs (o.setRest r')
              rw [hok'] at hkept
              -- The first is in the table when the others come, and stays there.
              have hapart : h.trxId tx ∉ txs.map h.trxId := by
                intro hid
                obtain ⟨tx', htx', hid'⟩ := List.mem_map.mp hid
                have hknown : r'.isKnownTransaction (h.trxId tx) = true :=
                  Guarded.isKnownTransaction_of_mem hentry
                have hunknown : r'.isKnownTransaction (h.trxId tx') = false :=
                  hrest.unknown tx' htx'
                rw [hid', hknown] at hunknown
                cases hunknown
              refine ⟨?_, ?_, ?_, fun u hu => ?_⟩
              · exact List.forall_mem_cons.mpr ⟨hkept.transactions hentry, hrest.recorded⟩
              · refine List.forall_mem_cons.mpr ⟨(checkTransaction_eq_ok hcheck).1, fun u hu => ?_⟩
                exact hgrows.unknown (hrest.unknown u hu)
              · exact List.nodup_cons.mpr ⟨hapart, hrest.nodup⟩
              · exact List.forall_mem_cons.mpr
                  ⟨hu.differ hcheck, hrest.before u (hgrows.recorded hu)⟩

/-! ## The chain -/

/-- The transactions of the chain differ and are recorded. -/
structure Guards (h : Handlers Name Tx Inner) (o : Objects Name (Guarded Name Tx Inner)) :
    Prop where
  genesis : o.headBlockNumber = 0 → o.rest.blocks = []
  applied : o.applied = (o.rest.blocks.map SignedBlock.id).reverse
  differ : o.rest.positions.Pairwise h.Differ
  recorded : ∀ tx ∈ o.rest.positions, h.Recorded o tx

theorem Grows.positions {g r : Guarded Name Tx Inner} (hgrows : Grows g r) :
    r.positions = g.positions := by
  rw [Guarded.positions, hgrows.blocks]
  rfl

theorem Guards.grows {r : Guarded Name Tx Inner} (hg : h.Guards o) (hgrows : Grows o.rest r) :
    h.Guards (o.setRest r) where
  genesis hnum := hgrows.blocks.trans (hg.genesis hnum)
  applied := hgrows.blocks ▸ hg.applied
  differ := hgrows.positions ▸ hg.differ
  recorded tx htx := hgrows.recorded (hg.recorded tx (hgrows.positions ▸ htx))

/-- What neither the head nor `rest` shows is not part of the invariant. -/
theorem Guards.congr (hg : h.Guards o) (hrest : o'.rest = o.rest)
    (happlied : o'.applied = o.applied)
    (hnum : o'.headBlockNumber = o.headBlockNumber) (htime : o'.time = o.time) : h.Guards o' where
  genesis h0 := hrest ▸ hg.genesis (hnum ▸ h0)
  applied := by rw [happlied, hrest, hg.applied]
  differ := hrest ▸ hg.differ
  recorded tx htx := by
    have hrec := hg.recorded tx (hrest ▸ htx)
    unfold Recorded at hrec ⊢
    rwa [hrest, hnum, htime]

/-- The head moves to a block whose transactions are all applied. -/
theorem Guards.advance {b : SignedBlock Name Tx} {g : Guarded Name Tx Inner} (hg : h.Guards o)
    (hgrows : Grows o.rest g) (hall : h.AllApplied o g b.transactions)
    (htime : o.time < b.timestamp) (i : Inner) :
    h.Guards ((o.setRest { g.setInner i with blocks := g.blocks ++ [b] }).advanceHead b) := by
  have hpositions : Guarded.positions { g.setInner i with blocks := g.blocks ++ [b] } =
      o.rest.positions ++ b.transactions := by
    rw [Guarded.positions, hgrows.blocks, List.flatMap_append, List.flatMap_singleton]
    rfl
  refine ⟨fun hnum => absurd hnum (Nat.succ_ne_zero _), ?_, ?_, fun tx htx => ?_⟩
  · show b.id :: o.applied = ((g.blocks ++ [b]).map SignedBlock.id).reverse
    rw [hgrows.blocks, List.map_append, List.reverse_append, ← hg.applied]
    rfl
  · show (Guarded.positions { g.setInner i with blocks := g.blocks ++ [b] }).Pairwise h.Differ
    rw [hpositions, List.pairwise_append]
    refine ⟨hg.differ, ?_, fun u hu tx htx => hall.before u (hg.recorded u hu) tx htx⟩
    exact (List.pairwise_map.mp hall.nodup).imp fun hne hid => absurd hid hne
  · have htx' : tx ∈ o.rest.positions ++ b.transactions := hpositions ▸ htx
    rcases List.mem_append.mp htx' with hold | hnew
    · rcases hg.recorded tx hold with hmem | ⟨-, hexpired⟩
      · exact Or.inl (hgrows.transactions hmem)
      · exact Or.inr ⟨Nat.succ_pos _, Nat.lt_trans hexpired htime⟩
    · exact Or.inl (hall.recorded tx hnew)

/-- Only expired objects leave the table at the end of a block. -/
theorem Guards.clear (hg : h.Guards o) :
    h.Guards (o.setRest (o.rest.clearExpiredTransactions o.time)) where
  genesis := hg.genesis
  applied := hg.applied
  differ := hg.differ
  recorded tx htx := by
    have hhead : 0 < o.headBlockNumber := by
      refine Nat.pos_of_ne_zero fun hnum => ?_
      have hblocks := hg.genesis hnum
      change tx ∈ o.rest.blocks.flatMap SignedBlock.transactions at htx
      simp [hblocks] at htx
    rcases hg.recorded tx htx with hmem | hexpired
    · rcases Guarded.mem_clearExpiredTransactions o.time hmem with hmem | hexpired
      · exact Or.inl hmem
      · exact Or.inr ⟨hhead, hexpired⟩
    · exact Or.inr hexpired

variable [DecidableEq Name]

/-- A block that goes through its header adds its transactions, one that
throws adds none. -/
theorem Guards.applyHeader (hg : h.Guards o) (b : SignedBlock Name Tx) :
    h.Guards (o.applyHeader h.evaluators b).1 := by
  -- After the transactions: `p` is the state before them.
  refine Objects.applyHeader_keeps (P := h.Guards) (M := fun q => ∃ p, h.Guards p ∧
    q = p.setRest q.rest ∧ Grows p.rest q.rest ∧ h.AllApplied p q.rest b.transactions ∧
    p.time < b.timestamp) ?_ ?_ ?_ ?_
  · exact hg.grows (Grows.inner o.rest _)
  · intro p r e hp hvalid hexec
    have htime := Objects.time_of_validateBlockHeader hvalid
    change h.execute p b = (r, e) at hexec
    unfold execute at hexec
    cases hexamine : h.examine p.inner b with
    | mk i f =>
        rw [hexamine] at hexec
        have hp' := hp.grows (Grows.inner p.rest i)
        cases f with
        | some f =>
            obtain ⟨rfl, rfl⟩ := Prod.mk.inj hexec
            exact ⟨hp', fun hnone => by cases hnone⟩
        | none =>
            have hloop : h.applyTransactions b.transactions (p.setRest (p.rest.setInner i)) =
              (r, e) := hexec
            have hgrows := applyTransactions_grows h b.transactions (p.setRest (p.rest.setInner i))
            rw [hloop] at hgrows
            refine ⟨hp'.grows hgrows, ?_⟩
            rintro rfl
            exact ⟨_, hp', rfl, hgrows, applyTransactions_eq_ok hloop, htime⟩
  · rintro q r e hq ⟨p, hp, heq, hgrows, hall, htime⟩ hmissed
    change h.missBlocks q b = (r, e) at hmissed
    unfold missBlocks at hmissed
    cases hrecord : h.recordMissed q.inner b with
    | mk i f =>
        rw [hrecord] at hmissed
        cases f with
        | some f =>
            obtain ⟨rfl, rfl⟩ := Prod.mk.inj hmissed
            exact ⟨fun hnone => by (cases hnone), fun _ => hq.grows (Grows.inner q.rest i)⟩
        | none =>
            obtain ⟨rfl, rfl⟩ := Prod.mk.inj hmissed
            refine ⟨fun _ => ?_, fun hsome => absurd rfl hsome⟩
            rw [heq]
            exact hp.advance hgrows hall htime i
  · intro p hp
    unfold Objects.updateSigningWitness
    split
    · exact hp
    · exact hp.congr rfl rfl rfl rfl

omit [DecidableEq Name] in
theorem Guards.finishBlock (hg : h.Guards o) (b : SignedBlock Name Tx) :
    h.Guards (o.setRest (h.finishBlock o b).1) :=
  have hsummary := hg.grows (Grows.inner o.rest (h.createBlockSummary o.inner b))
  hsummary.clear.grows (Grows.inner _ _)

theorem guards_kept (h : Handlers Name Tx Inner) : KeptByRoutines h.evaluators h.Guards where
  transaction o tx hg := hg.grows (applyTransaction_grows h o tx)
  header _ b hg := hg.applyHeader b
  confirmation _ _ hg := hg.congr rfl rfl rfl rfl
  irreversible _ _ hg := hg.congr rfl rfl rfl rfl
  finish _ b hg := hg.finishBlock b

/-- Transactions with the same id have the same expiration: the digest covers it. -/
def NoCollision (h : Handlers Name Tx Inner) (txs : List Tx) : Prop :=
  ∀ t ∈ txs, ∀ u ∈ txs, h.trxId t = h.trxId u → h.expiration t = h.expiration u

omit [DecidableEq Name] in
theorem NoCollision.nodup {txs : List Tx} (hdigest : h.NoCollision txs)
    (hdiffer : txs.Pairwise h.Differ) : (txs.map h.trxId).Nodup := by
  rw [List.Nodup, List.pairwise_map]
  refine hdiffer.imp_of_mem ?_
  intro t u ht hu htu hid
  exact htu hid (hdigest t ht u hu hid)

omit [DecidableEq Name] in
/-- An opened node has applied no block yet. -/
theorem guards_opened {n : Node Name Tx (Guarded Name Tx Inner)} (hopen : n.Opened)
    (hstart : n.objects.rest.blocks = []) : n.db.AllStates h.Guards := by
  have hnone : n.objects.rest.positions = [] := by
    rw [Guarded.positions, hstart]
    rfl
  refine ⟨⟨fun _ => hstart, ?_, ?_, ?_⟩, ?_⟩
  · show n.objects.applied = (n.objects.rest.blocks.map SignedBlock.id).reverse
    rw [hopen.applied, hstart]
    rfl
  · exact hnone ▸ List.Pairwise.nil
  · intro tx htx
    change tx ∈ n.objects.rest.positions at htx
    simp [hnone] at htx
  · rw [hopen.stack]
    simp

/-- **No transaction twice.** After any calls, with any fork switches, no two
positions of the blocks applied hold transactions with the same id. -/
theorem transactions_once (h : Handlers Name Tx Inner) (n : Node Name Tx (Guarded Name Tx Inner))
    (hopen : n.Opened) (hstart : n.objects.rest.blocks = []) (steps : List (Step Name Tx))
    (hdigest : h.NoCollision (n.run h.evaluators steps).objects.rest.positions) :
    (n.run h.evaluators steps).objects.applied =
        ((n.run h.evaluators steps).objects.rest.blocks.map SignedBlock.id).reverse ∧
      ((n.run h.evaluators steps).objects.rest.positions.map h.trxId).Nodup := by
  have hg := ((guards_kept h).run steps (guards_opened hopen hstart)).1
  exact ⟨hg.applied, hdigest.nodup hg.differ⟩

end Handlers

/-! ### One witness -/

/-- A single witness; a transaction is its id with its expiration. -/
def soloHandlers : Handlers Nat (Nat × Nat) Unit where
  trxId := Prod.fst
  expiration := Prod.snd
  refBlockNum _ := 0
  refBlockPrefix _ := 0
  packSize _ := 100
  validate _ := .ok ()
  verifyAuthority _ _ := .ok ()
  summaryPrefix _ _ := 0
  applyOperations _ _ := ((), none)
  hasWitness _ w := w = 0
  signingKey _ _ := 7
  signee _ := 7
  scheduledWitnesses _ := [0]
  prepare _ _ := ((), none)
  examine _ _ := ((), none)
  recordMissed _ _ := ((), none)
  createBlockSummary _ _ := ()
  finish _ _ := ((), none)
  blockSize _ := 100
  maximumBlockSize _ := 65536
  headerHash _ _ _ _ _ := 9

def guardedBlock (num prev hash : Nat) (txs : List (Nat × Nat)) : SignedBlock Nat (Nat × Nat) :=
  { previous := ⟨num - 1, prev⟩, timestamp := 3 * num, witness := 0, transactions := txs,
    hash := hash }

/-- A node opened at block 5, with nothing applied and an empty table. -/
def guardedNode : Node Nat (Nat × Nat) (Guarded Nat (Nat × Nat) Unit) where
  db :=
    { cur :=
        { headBlockNumber := 5, headBlockId := ⟨5, 1⟩, time := 15, currentAslot := 5,
          lastIrreversibleBlockNum := 5, lastConfirmedBlockNum := fun _ => 5,
          lastAslot := fun _ => 5, applied := [], rest := ⟨[], [], ()⟩ }
      stack := []
      revision := 5 }
  forkDb := ForkDatabase.empty.startBlock (guardedBlock 5 0 1 [])
  blockLog := [guardedBlock 5 0 1 []]
  pendingTxSession := none
  pendingTx := []
  poppedTx := []
  committed := 5

/-- A transaction, then two blocks that repeat it: while it is in the table,
and after it left. -/
def repeats : List (Step Nat (Nat × Nat)) :=
  [.pushBlock (guardedBlock 6 1 2 [(1, 18), (2, 60)]), .pushBlock (guardedBlock 7 2 3 [(1, 18)]),
    .pushBlock (guardedBlock 7 2 4 []), .pushBlock (guardedBlock 8 4 5 [(1, 18)]),
    .pushBlock (guardedBlock 8 4 6 [(3, 60)])]

theorem repeats_refused :
    (guardedNode.run soloHandlers.evaluators repeats).objects.rest.positions =
        [(1, 18), (2, 60), (3, 60)] ∧
      ((guardedNode.run soloHandlers.evaluators repeats).objects.rest.positions.map
        soloHandlers.trxId).Nodup := by
  have hpositions : (guardedNode.run soloHandlers.evaluators repeats).objects.rest.positions =
      [(1, 18), (2, 60), (3, 60)] := by
    decide +kernel
  have hdigest : soloHandlers.NoCollision
      (guardedNode.run soloHandlers.evaluators repeats).objects.rest.positions := by
    rw [hpositions]
    intro t ht u hu hid
    revert t u
    decide
  exact ⟨hpositions, (Handlers.transactions_once soloHandlers guardedNode
    ⟨rfl, rfl, rfl, rfl, rfl, rfl, rfl, rfl⟩ rfl repeats hdigest).2⟩

end Gamebank.Chain
