import Gamebank.Chain.Deduplication

/-!
# Transactions as proof of stake

A `block_summary_object` for each remainder modulo 65536 holds the id of a
block. `_apply_block` writes that of the block it has applied, and
`_apply_transaction` refuses a transaction whose `ref_block_prefix` is not the
second word of the id it finds under `ref_block_num`.

The summaries lie behind the undo stack like every object, so after any fork
switch they hold ids of the present branch only: a transaction of the chain
names one of the ancestors of its block (`transactions_name_ancestor`). The
summaries are created with the id of no block; a transaction with the prefix
of that id passes where nothing has been written yet.
-/

namespace Gamebank.Chain

open Gamebank.Lib

universe u v w

variable {Name : Type u} {Tx : Type v} {Inner : Type w}

/-- `block_summary_index` beside what the other routines work on. -/
structure Summarized (Inner : Type w) where
  /-- `block_id` of the `block_summary_object` with this id. -/
  summaries : Nat → BlockId
  inner : Inner

namespace Summarized

/-- What a routine leaves that does not see the summaries. -/
def keep (s : Summarized Inner) (r : Inner × Option ChainException) :
    Summarized Inner × Option ChainException :=
  ({ s with inner := r.1 }, r.2)

/-- `create_block_summary`. -/
def createBlockSummary (s : Summarized Inner) (b : SignedBlock Name Tx) : Summarized Inner :=
  { s with summaries := fun k => if k = b.blockNum % 65536 then b.id else s.summaries k }

end Summarized

/-- The objects as routines see them that do not see the summaries. -/
def Objects.unsummarized (o : Objects Name (Summarized Inner)) : Objects Name Inner :=
  { o with rest := o.rest.inner }

namespace Handlers

/-- The routines with the summaries that the source keeps. `prefixOf` is
`_hash[1]` of a block id; `ref_block_num` has 16 bits. -/
def summarized (h : Handlers Name Tx Inner) (prefixOf : BlockId → Nat) :
    Handlers Name Tx (Summarized Inner) where
  trxId := h.trxId
  expiration := h.expiration
  refBlockNum := h.refBlockNum
  refBlockPrefix := h.refBlockPrefix
  packSize := h.packSize
  validate := h.validate
  verifyAuthority o := h.verifyAuthority o.unsummarized
  summaryPrefix s refBlockNum := prefixOf (s.summaries refBlockNum)
  applyOperations o tx := o.rest.keep (h.applyOperations o.unsummarized tx)
  hasWitness s := h.hasWitness s.inner
  signingKey s := h.signingKey s.inner
  signee := h.signee
  scheduledWitnesses s := h.scheduledWitnesses s.inner
  prepare o b := o.rest.keep (h.prepare o.unsummarized b)
  examine o b := o.rest.keep (h.examine o.unsummarized b)
  recordMissed o b := o.rest.keep (h.recordMissed o.unsummarized b)
  createBlockSummary o b := o.rest.createBlockSummary b
  finish o b := o.rest.keep (h.finish o.unsummarized b)
  blockSize := h.blockSize
  maximumBlockSize s := h.maximumBlockSize s.inner
  headerHash o := h.headerHash o.unsummarized

/-! ## The invariant -/

variable {h : Handlers Name Tx Inner} {prefixOf : BlockId → Nat} {before ids : List BlockId}
variable {o o' : Objects Name (Guarded Name Tx (Summarized Inner))} {tx : Tx}

/-- The transaction names one of these blocks, or the id of none. -/
def Names (h : Handlers Name Tx Inner) (prefixOf : BlockId → Nat) (ids : List BlockId) (tx : Tx) :
    Prop :=
  (∃ id ∈ ids, id.num % 65536 = h.refBlockNum tx ∧ prefixOf id = h.refBlockPrefix tx) ∨
    prefixOf BlockId.zero = h.refBlockPrefix tx

/-- The ids of the chain, oldest first; `before` are those that the node was
opened with. -/
def chainIds (before : List BlockId) (o : Objects Name (Guarded Name Tx (Summarized Inner))) :
    List BlockId :=
  before ++ o.rest.blocks.map SignedBlock.id

/-- Every summary holds an id of the chain or was never written. -/
def SummariesOf (ids : List BlockId) (s : Summarized Inner) : Prop :=
  ∀ k, s.summaries k = BlockId.zero ∨ s.summaries k ∈ ids ∧ (s.summaries k).num % 65536 = k

/-- Every transaction of the blocks names an ancestor of its block. On the
first block of the chain nothing is checked. -/
def AllName (h : Handlers Name Tx Inner) (prefixOf : BlockId → Nat) (before : List BlockId)
    (blocks : List (SignedBlock Name Tx)) : Prop :=
  ∀ pre b post, blocks = pre ++ b :: post → before ++ pre.map SignedBlock.id ≠ [] →
    ∀ tx ∈ b.transactions, h.Names prefixOf (before ++ pre.map SignedBlock.id) tx

structure Remembers (h : Handlers Name Tx Inner) (prefixOf : BlockId → Nat)
    (before : List BlockId) (o : Objects Name (Guarded Name Tx (Summarized Inner))) : Prop where
  genesis : o.headBlockNumber = 0 → chainIds before o = []
  applied : o.applied = (o.rest.blocks.map SignedBlock.id).reverse
  summaries : SummariesOf (chainIds before o) o.rest.inner
  names : h.AllName prefixOf before o.rest.blocks

/-! ## The summaries -/

theorem SummariesOf.mono {ids' : List BlockId} {s : Summarized Inner} (hs : SummariesOf ids s)
    (hsub : ids ⊆ ids') : SummariesOf ids' s := by
  intro k
  rcases hs k with hzero | ⟨hmem, hnum⟩
  · exact Or.inl hzero
  · exact Or.inr ⟨hsub hmem, hnum⟩

theorem SummariesOf.keep {s : Summarized Inner} (hs : SummariesOf ids s)
    (r : Inner × Option ChainException) : SummariesOf ids (s.keep r).1 := hs

/-- The id written is one of the chain. -/
theorem SummariesOf.createBlockSummary {s : Summarized Inner} (hs : SummariesOf ids s)
    {b : SignedBlock Name Tx} (hb : b.id ∈ ids) : SummariesOf ids (s.createBlockSummary b) := by
  intro k
  unfold Summarized.createBlockSummary
  simp only
  by_cases hk : k = b.blockNum % 65536
  · rw [if_pos hk]
    exact Or.inr ⟨hb, hk.symm⟩
  · rw [if_neg hk]
    exact hs k

/-- What is found under the number of a transaction is a block that it names. -/
theorem SummariesOf.names {s : Summarized Inner} (hs : SummariesOf ids s)
    (hnamed : h.refBlockPrefix tx = prefixOf (s.summaries (h.refBlockNum tx))) :
    h.Names prefixOf ids tx := by
  rcases hs (h.refBlockNum tx) with hzero | ⟨hmem, hnum⟩
  · exact Or.inr (by rw [hnamed, hzero])
  · exact Or.inl ⟨_, hmem, hnum, hnamed.symm⟩

/-! ## Transactions -/

theorem prefix_of_checkTransaction
    (hok : (h.summarized prefixOf).checkTransaction o tx = .ok ()) (hhead : 0 < o.headBlockNumber) :
    h.refBlockPrefix tx = prefixOf (o.rest.inner.summaries (h.refBlockNum tx)) := by
  have hcheck : (h.summarized prefixOf).checkExpiration o tx = .ok () := by
    unfold checkTransaction at hok
    split at hok
    · cases hok
    · split at hok
      · cases hok
      · split at hok
        · cases hok
        · exact hok
  unfold checkExpiration at hcheck
  rw [if_neg (not_not.mpr hhead)] at hcheck
  split at hcheck
  · cases hcheck
  · rename_i hnamed
    exact not_not.mp hnamed

/-- `r` has the blocks of `g` and its summaries. -/
structure SameSummaries (g r : Guarded Name Tx (Summarized Inner)) : Prop where
  blocks : r.blocks = g.blocks
  summaries : r.inner.summaries = g.inner.summaries

theorem SameSummaries.trans {g r q : Guarded Name Tx (Summarized Inner)}
    (hgr : SameSummaries g r) (hrq : SameSummaries r q) : SameSummaries g q :=
  ⟨hrq.blocks.trans hgr.blocks, hrq.summaries.trans hgr.summaries⟩

theorem applyTransaction_same (h : Handlers Name Tx Inner) (prefixOf : BlockId → Nat)
    (o : Objects Name (Guarded Name Tx (Summarized Inner))) (tx : Tx) :
    SameSummaries o.rest ((h.summarized prefixOf).applyTransaction o tx).1 := by
  unfold applyTransaction
  cases (h.summarized prefixOf).checkTransaction o tx with
  | error e => exact ⟨rfl, rfl⟩
  | ok => exact ⟨rfl, rfl⟩

theorem applyTransactions_same (h : Handlers Name Tx Inner) (prefixOf : BlockId → Nat)
    (txs : List Tx) (o : Objects Name (Guarded Name Tx (Summarized Inner))) :
    SameSummaries o.rest ((h.summarized prefixOf).applyTransactions txs o).1 := by
  induction txs generalizing o with
  | nil => exact ⟨rfl, rfl⟩
  | cons tx txs ih =>
      have hone := applyTransaction_same h prefixOf o tx
      unfold applyTransactions
      cases happly : (h.summarized prefixOf).applyTransaction o tx with
      | mk r e =>
          rw [happly] at hone
          cases e with
          | some e => exact hone
          | none => exact hone.trans (ih (o.setRest r))

/-- Transactions that are all applied name blocks that the summaries hold. -/
theorem names_of_applyTransactions {txs : List Tx} {r : Guarded Name Tx (Summarized Inner)}
    (hok : (h.summarized prefixOf).applyTransactions txs o = (r, none))
    (hhead : 0 < o.headBlockNumber) (hs : SummariesOf ids o.rest.inner) :
    ∀ tx ∈ txs, h.Names prefixOf ids tx := by
  induction txs generalizing o with
  | nil => simp
  | cons tx txs ih =>
      unfold applyTransactions at hok
      cases happly : (h.summarized prefixOf).applyTransaction o tx with
      | mk r' e =>
          rw [happly] at hok
          cases e with
          | some e => cases hok
          | none =>
              have hcheck := (applyTransaction_eq_ok happly).1
              have hsame := applyTransaction_same h prefixOf o tx
              rw [happly] at hsame
              have hs' : SummariesOf ids (o.setRest r').rest.inner := by
                intro k
                have hk := hs k
                rwa [← hsame.summaries] at hk
              refine List.forall_mem_cons.mpr ⟨?_, ih hok hhead hs'⟩
              exact hs.names (prefix_of_checkTransaction hcheck hhead)

/-! ## Blocks -/

theorem AllName.append {blocks : List (SignedBlock Name Tx)} {b : SignedBlock Name Tx}
    (hall : h.AllName prefixOf before blocks)
    (hb : before ++ blocks.map SignedBlock.id ≠ [] →
      ∀ tx ∈ b.transactions, h.Names prefixOf (before ++ blocks.map SignedBlock.id) tx) :
    h.AllName prefixOf before (blocks ++ [b]) := by
  intro pre c post hsplit hne
  rcases List.eq_nil_or_concat post with rfl | ⟨post', last, rfl⟩
  · obtain ⟨hpre, hc⟩ := List.append_inj' hsplit rfl
    obtain rfl : b = c := by simpa using hc
    subst hpre
    exact hb hne
  · rw [List.concat_eq_append, ← List.cons_append, ← List.append_assoc] at hsplit
    exact hall pre c post' (List.append_inj' hsplit rfl).1 hne

namespace Remembers

theorem same {r : Guarded Name Tx (Summarized Inner)} (hg : h.Remembers prefixOf before o)
    (hsame : SameSummaries o.rest r) : h.Remembers prefixOf before (o.setRest r) := by
  have hids : chainIds before (o.setRest r) = chainIds before o := by
    show before ++ r.blocks.map SignedBlock.id = before ++ o.rest.blocks.map SignedBlock.id
    rw [hsame.blocks]
  refine ⟨fun hnum => hids.trans (hg.genesis hnum), ?_, ?_, ?_⟩
  · show o.applied = (r.blocks.map SignedBlock.id).reverse
    rw [hsame.blocks]
    exact hg.applied
  · intro k
    have hk := hg.summaries k
    rw [← hids, ← hsame.summaries] at hk
    exact hk
  · show h.AllName prefixOf before r.blocks
    rw [hsame.blocks]
    exact hg.names

/-- The head moves to a block whose transactions name its ancestors. -/
theorem advance {b : SignedBlock Name Tx} {g : Guarded Name Tx (Summarized Inner)}
    (hg : h.Remembers prefixOf before o) (hsame : SameSummaries o.rest g)
    (hnames : 0 < o.headBlockNumber →
      ∀ tx ∈ b.transactions, h.Names prefixOf (chainIds before o) tx) (i : Summarized Inner)
    (hi : i.summaries = g.inner.summaries) :
    h.Remembers prefixOf before
      ((o.setRest { g.setInner i with blocks := g.blocks ++ [b] }).advanceHead b) := by
  refine ⟨fun hnum => absurd hnum (Nat.succ_ne_zero _), ?_, ?_, ?_⟩
  · show b.id :: o.applied = ((g.blocks ++ [b]).map SignedBlock.id).reverse
    rw [hsame.blocks, List.map_append, List.reverse_append, ← hg.applied]
    rfl
  · have hids : chainIds before o ⊆ before ++ (g.blocks ++ [b]).map SignedBlock.id := by
      rw [hsame.blocks, List.map_append, ← List.append_assoc]
      exact List.subset_append_left _ _
    intro k
    have hk := hg.summaries.mono hids k
    rw [← hsame.summaries, ← hi] at hk
    exact hk
  · show h.AllName prefixOf before (g.blocks ++ [b])
    rw [hsame.blocks]
    refine hg.names.append fun hne => hnames (Nat.pos_of_ne_zero fun hnum => ?_)
    exact hne (hg.genesis hnum)

variable [DecidableEq Name]

theorem applyHeader (hg : h.Remembers prefixOf before o) (b : SignedBlock Name Tx) :
    h.Remembers prefixOf before (o.applyHeader (h.summarized prefixOf).evaluators b).1 := by
  -- After the transactions: `p` is the state before them.
  refine Objects.applyHeader_keeps (P := h.Remembers prefixOf before)
    (M := fun q => ∃ p, h.Remembers prefixOf before p ∧ q = p.setRest q.rest ∧
      SameSummaries p.rest q.rest ∧ (0 < p.headBlockNumber →
        ∀ tx ∈ b.transactions, h.Names prefixOf (chainIds before p) tx)) ?_ ?_ ?_ ?_
  · exact hg.same ⟨rfl, rfl⟩
  · intro p r e hp _ hexec
    change (h.summarized prefixOf).execute p b = (r, e) at hexec
    unfold execute at hexec
    cases hexamine : (h.summarized prefixOf).examine p.inner b with
    | mk i f =>
        rw [hexamine] at hexec
        have hi : i.summaries = p.rest.inner.summaries := by
          have hkeep : i = (Summarized.keep p.rest.inner _).1 := (congrArg Prod.fst hexamine).symm
          rw [hkeep]
          rfl
        have hp' := hp.same (r := p.rest.setInner i) ⟨rfl, hi⟩
        cases f with
        | some f =>
            obtain ⟨rfl, rfl⟩ := Prod.mk.inj hexec
            exact ⟨hp', fun hnone => by cases hnone⟩
        | none =>
            have hloop : (h.summarized prefixOf).applyTransactions b.transactions
              (p.setRest (p.rest.setInner i)) = (r, e) := hexec
            have hsame := applyTransactions_same h prefixOf b.transactions
              (p.setRest (p.rest.setInner i))
            rw [hloop] at hsame
            refine ⟨hp'.same hsame, ?_⟩
            rintro rfl
            exact ⟨_, hp', rfl, hsame,
              fun hhead => names_of_applyTransactions hloop hhead hp'.summaries⟩
  · rintro q r e hq ⟨p, hp, heq, hsame, hnames⟩ hmissed
    change (h.summarized prefixOf).missBlocks q b = (r, e) at hmissed
    unfold missBlocks at hmissed
    cases hrecord : (h.summarized prefixOf).recordMissed q.inner b with
    | mk i f =>
        rw [hrecord] at hmissed
        have hi : i.summaries = q.rest.inner.summaries := by
          have hkeep : i = (Summarized.keep q.rest.inner _).1 := (congrArg Prod.fst hrecord).symm
          rw [hkeep]
          rfl
        cases f with
        | some f =>
            obtain ⟨rfl, rfl⟩ := Prod.mk.inj hmissed
            exact ⟨fun hnone => by (cases hnone), fun _ => hq.same ⟨rfl, hi⟩⟩
        | none =>
            obtain ⟨rfl, rfl⟩ := Prod.mk.inj hmissed
            refine ⟨fun _ => ?_, fun hsome => absurd rfl hsome⟩
            rw [heq]
            exact hp.advance hsame hnames i hi
  · intro p hp
    unfold Objects.updateSigningWitness
    split
    · exact hp
    · exact ⟨hp.genesis, hp.applied, hp.summaries, hp.names⟩

omit [DecidableEq Name] in
/-- The summary of the head takes its id. -/
theorem finishBlock (hg : h.Remembers prefixOf before o) {b : SignedBlock Name Tx}
    (hlast : o.applied.head? = some b.id) :
    h.Remembers prefixOf before (o.setRest ((h.summarized prefixOf).finishBlock o b).1) := by
  have hmem : b.id ∈ chainIds before o := by
    have happlied : b.id ∈ o.applied := List.mem_of_mem_head? hlast
    rw [hg.applied, List.mem_reverse] at happlied
    exact List.mem_append_right _ happlied
  exact ⟨hg.genesis, hg.applied, hg.summaries.createBlockSummary hmem, hg.names⟩

end Remembers

variable [DecidableEq Name]

theorem remembers_kept (h : Handlers Name Tx Inner) (prefixOf : BlockId → Nat)
    (before : List BlockId) :
    KeptByBlocks (h.summarized prefixOf).evaluators (h.Remembers prefixOf before) where
  transaction o tx hg := hg.same (applyTransaction_same h prefixOf o tx)
  header _ b hg := hg.applyHeader b
  confirmation _ _ hg _ := ⟨hg.genesis, hg.applied, hg.summaries, hg.names⟩
  irreversible _ _ hg := ⟨hg.genesis, hg.applied, hg.summaries, hg.names⟩
  finish _ _ hg hlast := hg.finishBlock hlast

/-- **A transaction of the chain names an ancestor of its block**, after any
calls and fork switches; without an ancestor nothing is checked. -/
theorem transactions_name_ancestor (h : Handlers Name Tx Inner) (prefixOf : BlockId → Nat)
    (before : List BlockId) (n : Node Name Tx (Guarded Name Tx (Summarized Inner)))
    (hopen : n.Opened) (hstart : n.objects.rest.blocks = [])
    (hbefore : n.headBlockNum = 0 → before = [])
    (hsummaries : SummariesOf before n.objects.rest.inner) (steps : List (Step Name Tx)) :
    (n.run (h.summarized prefixOf).evaluators steps).objects.applied =
        ((n.run (h.summarized prefixOf).evaluators steps).objects.rest.blocks.map
          SignedBlock.id).reverse ∧
      ∀ pre b post, (n.run (h.summarized prefixOf).evaluators steps).objects.rest.blocks =
          pre ++ b :: post →
        before ++ pre.map SignedBlock.id ≠ [] →
          ∀ tx ∈ b.transactions, h.Names prefixOf (before ++ pre.map SignedBlock.id) tx := by
  have hids : chainIds before n.objects = before := by
    rw [chainIds, hstart]
    exact List.append_nil before
  have hopened : h.Remembers prefixOf before n.objects := by
    refine ⟨fun hnum => hids.trans (hbefore hnum), ?_, hids.symm ▸ hsummaries, ?_⟩
    · rw [hopen.applied, hstart]
      rfl
    · intro pre b post hsplit
      rw [hstart] at hsplit
      simp at hsplit
  have hall : n.db.AllStates (h.Remembers prefixOf before) := by
    refine ⟨hopened, ?_⟩
    rw [hopen.stack]
    simp
  have hrun := ((remembers_kept h prefixOf before).run steps hall).1
  exact ⟨hrun.applied, hrun.names⟩

end Handlers

/-! ### Two branches -/

/-- The id of a transaction is the block number it names, times 100, with the
prefix. -/
def namingHandlers : Handlers Nat (Nat × Nat) Unit :=
  { soloHandlers with
    refBlockNum := fun tx => tx.1 / 100
    refBlockPrefix := fun tx => tx.1 % 100 }

/-- The node opened at block 5, which one summary holds. -/
def summarizedNode : Node Nat (Nat × Nat) (Guarded Nat (Nat × Nat) (Summarized Unit)) where
  db :=
    { cur :=
        { headBlockNumber := 5, headBlockId := ⟨5, 1⟩, time := 15, currentAslot := 5,
          lastIrreversibleBlockNum := 5, lastConfirmedBlockNum := fun _ => 5,
          lastAslot := fun _ => 5, applied := [],
          rest := ⟨[], [], ⟨fun k => if k = 5 then ⟨5, 1⟩ else BlockId.zero, ()⟩⟩ }
      stack := []
      revision := 5 }
  forkDb := ForkDatabase.empty.startBlock (guardedBlock 5 0 1 [])
  blockLog := [guardedBlock 5 0 1 []]
  pendingTxSession := none
  pendingTx := []
  poppedTx := []
  committed := 5

/-- Two blocks on block 5; the second branch grows by a block that names its
own block 6, after one was refused that names the other. -/
def branches : List (Step Nat (Nat × Nat)) :=
  [.pushBlock (guardedBlock 6 1 2 [(501, 60)]), .pushBlock (guardedBlock 6 1 3 []),
    .pushBlock (guardedBlock 7 3 4 [(602, 60)]), .pushBlock (guardedBlock 7 3 5 [(603, 60)])]

theorem branches_name_ancestor :
    (summarizedNode.run (namingHandlers.summarized BlockId.hash).evaluators branches
        ).objects.applied = [⟨7, 5⟩, ⟨6, 3⟩] ∧
      ∀ pre b post, (summarizedNode.run (namingHandlers.summarized BlockId.hash).evaluators
          branches).objects.rest.blocks = pre ++ b :: post →
        [⟨5, 1⟩] ++ pre.map SignedBlock.id ≠ [] →
          ∀ tx ∈ b.transactions,
            namingHandlers.Names BlockId.hash ([⟨5, 1⟩] ++ pre.map SignedBlock.id) tx := by
  have hsummaries : Handlers.SummariesOf [⟨5, 1⟩] summarizedNode.objects.rest.inner := by
    intro k
    by_cases hk : k = 5
    · subst hk
      exact Or.inr (by decide)
    · exact Or.inl (if_neg hk)
  have happlied : (summarizedNode.run (namingHandlers.summarized BlockId.hash).evaluators
      branches).objects.applied = [⟨7, 5⟩, ⟨6, 3⟩] := by
    decide +kernel
  exact ⟨happlied, (Handlers.transactions_name_ancestor namingHandlers BlockId.hash [⟨5, 1⟩]
    summarizedNode ⟨rfl, rfl, rfl, rfl, rfl, rfl, rfl, rfl⟩ rfl (by decide) hsummaries
    branches).2⟩

end Gamebank.Chain
