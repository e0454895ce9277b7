import Gamebank.Crowdfunding.Expiry
import Mathlib.Data.List.TakeWhile

/-!
# What a campaign pays out

The refund loop of `process_crowdfunding` does not look at the campaign of
an investment: when the first campaign fails, every investment that has
expired is paid back, whichever campaign it is in. As long as those are all
in the campaign that fails, each campaign pays out exactly what was paid
in, once (`PaidOnce`); the first block where they are not breaks this.
-/

namespace Gamebank.Crowdfunding

open Gamebank.Lib

variable {Name Permlink : Type}

/-! ## The ledger -/

/-- What the entry takes from the investors in `who` for the campaign. -/
def LedgerEntry.debitOf (campaign : Nat) (who : Name → Bool) : LedgerEntry Name → Int
  | .debit c n amount => if c = campaign ∧ who n then amount else 0
  | _ => 0

/-- What the entry gives back to the investors in `who` on account of the
campaign. -/
def LedgerEntry.refundOf (campaign : Nat) (who : Name → Bool) : LedgerEntry Name → Int
  | .refund c n amount => if c = campaign ∧ who n then amount else 0
  | _ => 0

/-- What the entry pays to the originator of the campaign. -/
def LedgerEntry.payoutOf (campaign : Nat) : LedgerEntry Name → Int
  | .payout c _ amount => if c = campaign then amount else 0
  | _ => 0

/-- What the investment holds for the investors in `who` in the campaign. -/
def CrowdfundingInvestObject.raiseOf (campaign : Nat) (who : Name → Bool)
    (i : CrowdfundingInvestObject Name) : Int :=
  if i.crowdfunding = campaign ∧ who i.invester then i.raise else 0

/-- The entry the refund loop makes for an investment. -/
def CrowdfundingInvestObject.toRefund (i : CrowdfundingInvestObject Name) : LedgerEntry Name :=
  .refund i.crowdfunding i.invester i.raise

/-- All investors. -/
def everyone : Name → Bool := fun _ => true

/-- The entry belongs to a campaign in the state it needs. -/
def LedgerEntry.Backed (crowdfundings : List (CrowdfundingObject Name Permlink)) :
    LedgerEntry Name → Prop
  | .debit c _ amount => 0 ≤ amount ∧ ∃ d ∈ crowdfundings, d.id = c
  | .payout c n _ => ∃ d ∈ crowdfundings, d.id = c ∧ d.originator = n ∧ d.finish = 1
  | .refund c _ _ => ∃ d ∈ crowdfundings, d.id = c ∧ d.finish = 2

/-- What is booked on the campaigns stays so when no settled one changes. -/
theorem LedgerEntry.Backed.mono {l l' : List (CrowdfundingObject Name Permlink)}
    (hl : ∀ c ∈ l, ∃ c' ∈ l', c'.id = c.id ∧ c'.originator = c.originator ∧
      (0 < c.finish → c'.finish = c.finish)) {e : LedgerEntry Name} (h : e.Backed l) :
    e.Backed l' := by
  cases e with
  | debit c n amount =>
      obtain ⟨hamount, d, hd, hid⟩ := h
      obtain ⟨d', hd', hid', -, -⟩ := hl d hd
      exact ⟨hamount, d', hd', hid'.trans hid⟩
  | payout c n amount =>
      obtain ⟨d, hd, hid, hname, hfinish⟩ := h
      obtain ⟨d', hd', hid', hname', hfinish'⟩ := hl d hd
      exact ⟨d', hd', hid'.trans hid, hname'.trans hname,
        (hfinish' (by omega)).trans hfinish⟩
  | refund c n amount =>
      obtain ⟨d, hd, hid, hfinish⟩ := h
      obtain ⟨d', hd', hid', -, hfinish'⟩ := hl d hd
      exact ⟨d', hd', hid'.trans hid, (hfinish' (by omega)).trans hfinish⟩

namespace State

def debited (s : State Name Permlink) (campaign : Nat) (who : Name → Bool) : Int :=
  sumOf (LedgerEntry.debitOf campaign who) s.ledger

def refunded (s : State Name Permlink) (campaign : Nat) (who : Name → Bool) : Int :=
  sumOf (LedgerEntry.refundOf campaign who) s.ledger

def paid (s : State Name Permlink) (campaign : Nat) : Int :=
  sumOf (LedgerEntry.payoutOf campaign) s.ledger

def raised (s : State Name Permlink) (campaign : Nat) (who : Name → Bool) : Int :=
  sumOf (CrowdfundingInvestObject.raiseOf campaign who) s.invests

/-- All that was credited on account of a campaign. -/
def credited (s : State Name Permlink) (campaign : Nat) : Int :=
  s.paid campaign + s.refunded campaign everyone

/-- The books of one campaign: what it holds and what it has paid. -/
structure Book (s : State Name Permlink) (c : CrowdfundingObject Name Permlink) : Prop where
  finish : c.finish ≤ 2
  curator : c.curatorRaiseValue = s.debited c.id everyone
  raised : c.finish ≠ 2 → ∀ who, s.raised c.id who = s.debited c.id who
  paid : s.paid c.id = if c.finish = 1 then c.curatorRaiseValue else 0
  refunded : ∀ who, s.refunded c.id who = if c.finish = 2 then s.debited c.id who else 0
  reached : c.finish = 1 → c.totalRaiseValue ≤ c.curatorRaiseValue
  missed : c.finish = 2 → c.curatorRaiseValue < c.totalRaiseValue

/-- The books of a campaign depend only on what concerns it. -/
theorem Book.congr {s s' : State Name Permlink} {c : CrowdfundingObject Name Permlink}
    (h : Book s c) (hdebited : ∀ who, s'.debited c.id who = s.debited c.id who)
    (hraised : ∀ who, s'.raised c.id who = s.raised c.id who) (hpaid : s'.paid c.id = s.paid c.id)
    (hrefunded : ∀ who, s'.refunded c.id who = s.refunded c.id who) : Book s' c where
  finish := h.finish
  curator := by rw [hdebited, h.curator]
  raised := fun hfinish who => by rw [hraised, hdebited, h.raised hfinish who]
  paid := by rw [hpaid, h.paid]
  refunded := fun who => by rw [hrefunded, hdebited, h.refunded who]
  reached := h.reached
  missed := h.missed

/-- The investments that are due are paid back, all of the campaign; none of the
later ones is of it. -/
structure PaysBack (s t : State Name Permlink) (campaign : Nat)
    (due later : List (CrowdfundingInvestObject Name)) : Prop where
  split : due ++ later = s.invests
  invests : t.invests = later
  ledger : t.ledger = s.ledger ++ due.map CrowdfundingInvestObject.toRefund
  own : ∀ i ∈ due, i.crowdfunding = campaign
  others : ∀ i ∈ later, i.crowdfunding ≠ campaign

namespace PaysBack

variable {s t : State Name Permlink} {id : Nat} {due later : List (CrowdfundingInvestObject Name)}
  (h : PaysBack s t id due later)

include h

theorem debited (campaign : Nat) (who : Name → Bool) :
    t.debited campaign who = s.debited campaign who := by
  have hzero : sumOf (LedgerEntry.debitOf campaign who)
      (due.map CrowdfundingInvestObject.toRefund) = 0 := by
    rw [sumOf_map]
    exact sumOf_eq_zero fun _ _ => rfl
  rw [State.debited, h.ledger, sumOf_append, hzero, Int.add_zero]
  rfl

theorem paid (campaign : Nat) : t.paid campaign = s.paid campaign := by
  have hzero : sumOf (LedgerEntry.payoutOf campaign)
      (due.map CrowdfundingInvestObject.toRefund) = 0 := by
    rw [sumOf_map]
    exact sumOf_eq_zero fun _ _ => rfl
  rw [State.paid, h.ledger, sumOf_append, hzero, Int.add_zero]
  rfl

/-- What is paid back is what the index loses. -/
theorem refunded (campaign : Nat) (who : Name → Bool) : t.refunded campaign who =
    s.refunded campaign who + sumOf (CrowdfundingInvestObject.raiseOf campaign who) due := by
  rw [State.refunded, h.ledger, sumOf_append, sumOf_map]
  rfl

theorem raised (campaign : Nat) (who : Name → Bool) : s.raised campaign who =
    sumOf (CrowdfundingInvestObject.raiseOf campaign who) due + t.raised campaign who := by
  rw [State.raised, State.raised, h.invests, ← h.split, sumOf_append]

end PaysBack

variable [LinearOrder Name]

structure Books (s : State Name Permlink) : Prop where
  firstOnly : FirstOnly s
  ids : (s.crowdfundings.map (·.id)).Nodup
  fresh : ∀ c ∈ s.crowdfundings, c.id < s.nextCrowdfunding
  sorted : s.invests.Pairwise fun i j => i.key ≤ j.key
  invests : ∀ i ∈ s.invests, ∃ c ∈ s.crowdfundings, c.id = i.crowdfunding ∧
    c.expire = i.expire ∧ c.finish ≠ 2
  backed : ∀ e ∈ s.ledger, e.Backed s.crowdfundings
  book : ∀ c ∈ s.crowdfundings, Book s c

theorem Genesis.books {s : State Name Permlink} (h : Genesis s) : Books s := by
  constructor
  · exact h.firstOnly
  all_goals simp [h.crowdfundings, h.invests, h.ledger]

theorem Books.id_inj {s : State Name Permlink} (h : Books s)
    {c d : CrowdfundingObject Name Permlink}
    (hc : c ∈ s.crowdfundings) (hd : d ∈ s.crowdfundings) (hid : c.id = d.id) : c = d :=
  List.inj_on_of_nodup_map h.ids hc hd hid

/-! ## What the books say -/

section
variable {s : State Name Permlink}

/-- Nothing is booked on a campaign that is not there. -/
theorem Books.unbooked (h : Books s) {campaign : Nat}
    (hnone : ∀ c ∈ s.crowdfundings, c.id ≠ campaign) (who : Name → Bool) :
    s.debited campaign who = 0 ∧ s.refunded campaign who = 0 ∧ s.paid campaign = 0 ∧
      s.raised campaign who = 0 := by
  refine ⟨sumOf_eq_zero ?_, sumOf_eq_zero ?_, sumOf_eq_zero ?_, sumOf_eq_zero ?_⟩
  · intro e he
    have hback := h.backed e he
    cases e with
    | debit c n amount =>
        obtain ⟨-, d, hd, rfl⟩ := hback
        simp [LedgerEntry.debitOf, hnone d hd]
    | payout c n amount => rfl
    | refund c n amount => rfl
  · intro e he
    have hback := h.backed e he
    cases e with
    | debit c n amount => rfl
    | payout c n amount => rfl
    | refund c n amount =>
        obtain ⟨d, hd, rfl, -⟩ := hback
        simp [LedgerEntry.refundOf, hnone d hd]
  · intro e he
    have hback := h.backed e he
    cases e with
    | debit c n amount => rfl
    | payout c n amount =>
        obtain ⟨d, hd, rfl, -⟩ := hback
        simp [LedgerEntry.payoutOf, hnone d hd]
    | refund c n amount => rfl
  · intro i hi
    obtain ⟨d, hd, hid, -⟩ := h.invests i hi
    simp [CrowdfundingInvestObject.raiseOf, ← hid, hnone d hd]

end

/-! ## Operations keep the books -/

variable {s s' : State Name Permlink}

theorem Opens.books {op : CrowdfundingOperation Name Permlink} (ho : Opens op s s') (h : Books s) :
    Books s' := by
  have hmem : ∀ d, d ∈ s'.crowdfundings ↔ d = s.newCrowdfunding op ∨ d ∈ s.crowdfundings := by
    intro d
    rw [ho.crowdfundings, List.mem_orderedInsert]
  have hperm := List.perm_orderedInsert (fun a b => a.key ≤ b.key) (s.newCrowdfunding op)
    s.crowdfundings
  have hnew : ∀ c ∈ s.crowdfundings, c.id ≠ (s.newCrowdfunding op).id := fun c hc =>
    (h.fresh c hc).ne
  have hsame : ∀ {c}, Book s c → Book s' c := by
    intro c hbook
    apply hbook.congr
    all_goals simp only [debited, refunded, paid, raised, ho.ledger, ho.invests, implies_true]
  constructor
  · exact ho.firstOnly h.firstOnly
  · rw [ho.crowdfundings, (hperm.map (·.id)).nodup_iff, List.map_cons, List.nodup_cons]
    refine ⟨fun hin => ?_, h.ids⟩
    obtain ⟨c, hc, hid⟩ := List.mem_map.mp hin
    exact hnew c hc hid
  · intro c hc
    rw [ho.nextCrowdfunding]
    rcases (hmem c).mp hc with rfl | hc
    · exact Nat.lt_succ_self _
    · exact (h.fresh c hc).trans (Nat.lt_succ_self _)
  · rw [ho.invests]
    exact h.sorted
  · intro i hi
    rw [ho.invests] at hi
    obtain ⟨c, hc, hrest⟩ := h.invests i hi
    exact ⟨c, (hmem c).mpr (Or.inr hc), hrest⟩
  · intro e he
    rw [ho.ledger] at he
    exact (h.backed e he).mono fun c hc => ⟨c, (hmem c).mpr (Or.inr hc), rfl, rfl, fun _ => rfl⟩
  · intro c hc
    apply hsame
    rcases (hmem c).mp hc with rfl | hc
    · have hzero := h.unbooked hnew
      have hfinish : (s.newCrowdfunding op).finish = 0 := rfl
      constructor
      · simp [hfinish]
      · exact (hzero everyone).1.symm
      · intro _ who
        rw [(hzero who).1, (hzero who).2.2.2]
      · rw [(hzero everyone).2.2.1, hfinish]
        rfl
      · intro who
        rw [(hzero who).2.1, hfinish]
        rfl
      all_goals simp [hfinish]
    · exact h.book c hc

section
variable {op : InvestOperation Name Permlink} {c : CrowdfundingObject Name Permlink}

theorem Invests.debited (hi : Invests op c s s') (campaign : Nat) (who : Name → Bool) :
    s'.debited campaign who = s.debited campaign who +
      if c.id = campaign ∧ who op.invester then op.raise.amount else 0 := by
  simp [State.debited, hi.ledger, LedgerEntry.debitOf]

theorem Invests.refunded (hi : Invests op c s s') (campaign : Nat) (who : Name → Bool) :
    s'.refunded campaign who = s.refunded campaign who := by
  simp [State.refunded, hi.ledger, LedgerEntry.refundOf]

theorem Invests.paid (hi : Invests op c s s') (campaign : Nat) :
    s'.paid campaign = s.paid campaign := by
  simp [State.paid, hi.ledger, LedgerEntry.payoutOf]

theorem Invests.raised (hi : Invests op c s s') (campaign : Nat) (who : Name → Bool) :
    s'.raised campaign who = s.raised campaign who +
      if c.id = campaign ∧ who op.invester then op.raise.amount else 0 := by
  unfold State.raised
  rcases hi.invests with ⟨i, hid, hname, hrep⟩ | ⟨i, hid, hname, -, hraise, hins⟩
  · rw [hrep.sumOf_eq]
    simp only [CrowdfundingInvestObject.raiseOf, hid, hname]
    split <;> omega
  · rw [hins, sumOf_orderedInsert]
    simp only [CrowdfundingInvestObject.raiseOf, hid, hname, hraise]
    omega

theorem Invests.sorted (hi : Invests op c s s')
    (h : s.invests.Pairwise fun i j => i.key ≤ j.key) :
    s'.invests.Pairwise fun i j => i.key ≤ j.key := by
  rcases hi.invests with ⟨i, -, -, hrep⟩ | ⟨i, -, -, -, -, hins⟩
  · exact hrep.pairwise h (fun _ hle => hle) (fun _ hle => hle)
  · rw [hins]
    exact pairwise_orderedInsert h i

theorem Invests.books (hi : Invests op c s s') (hraise : 0 ≤ op.raise.amount) (h : Books s) :
    Books s' := by
  have hc : c ∈ s.crowdfundings := hi.crowdfundings.mem_old
  -- it takes money, so it has not been settled
  have hopen : c.finish = 0 := by
    by_contra hfinish
    have := h.firstOnly.expired c hc (by omega)
    have := hi.running
    omega
  have hkeeps : ∀ d ∈ s.crowdfundings, ∃ d' ∈ s'.crowdfundings, d'.id = d.id ∧
      d'.originator = d.originator ∧ d'.expire = d.expire ∧ d'.finish = d.finish := by
    intro d hd
    rcases hi.crowdfundings.mem_of_mem hd with rfl | hd'
    · exact ⟨_, hi.crowdfundings.mem_new, rfl, rfl, rfl, rfl⟩
    · exact ⟨d, hd', rfl, rfl, rfl, rfl⟩
  constructor
  · exact hi.firstOnly h.firstOnly
  · rw [hi.crowdfundings.map_eq rfl]
    exact h.ids
  · intro d hd
    rw [hi.nextCrowdfunding]
    rcases hi.crowdfundings.mem_or h.ids hd with rfl | ⟨hd, -⟩
    · exact h.fresh c hc
    · exact h.fresh d hd
  · exact hi.sorted h.sorted
  · intro i hmem
    -- the invest is there already or is a new one in `c`
    have hold : ∃ d ∈ s.crowdfundings, d.id = i.crowdfunding ∧ d.expire = i.expire ∧
        d.finish ≠ 2 := by
      rcases hi.invests with ⟨j, -, -, hrep⟩ | ⟨j, hid, -, hexpire, -, hins⟩
      · obtain ⟨j', hj', heq⟩ : ∃ j' ∈ s.invests, (j'.crowdfunding, j'.expire) =
            (i.crowdfunding, i.expire) := by
          have hmap := hrep.map_eq (g := fun i => (i.crowdfunding, i.expire)) rfl
          exact List.mem_map.mp (hmap ▸ List.mem_map_of_mem hmem)
        rw [Prod.mk.injEq] at heq
        rw [← heq.1, ← heq.2]
        exact h.invests j' hj'
      · rw [hins, List.mem_orderedInsert] at hmem
        rcases hmem with rfl | hmem
        · exact ⟨c, hc, hid.symm, hexpire.symm, by omega⟩
        · exact h.invests i hmem
    obtain ⟨d, hd, hid, hexpire, hfinish⟩ := hold
    obtain ⟨d', hd', hid', -, hexpire', hfinish'⟩ := hkeeps d hd
    exact ⟨d', hd', hid'.trans hid, hexpire'.trans hexpire, hfinish' ▸ hfinish⟩
  · intro e he
    rw [hi.ledger, List.mem_append, List.mem_singleton] at he
    rcases he with he | rfl
    · apply (h.backed e he).mono
      intro d hd
      obtain ⟨d', hd', hid, hname, -, hfinish⟩ := hkeeps d hd
      exact ⟨d', hd', hid, hname, fun _ => hfinish⟩
    · exact ⟨hraise, _, hi.crowdfundings.mem_new, rfl⟩
  · intro d hd
    rcases hi.crowdfundings.mem_or h.ids hd with rfl | ⟨hd, hne⟩
    · have hbook := h.book c hc
      constructor
      · exact hbook.finish
      · simp [hi.debited, hbook.curator, everyone]
      · intro _ who
        rw [hi.raised, hi.debited, hbook.raised (by omega) who]
      · rw [hi.paid, hbook.paid]
        simp [hopen]
      · intro who
        rw [hi.refunded, hbook.refunded who]
        simp [hopen]
      · intro hfinish
        exact absurd hfinish (by simp [hopen])
      · intro hfinish
        exact absurd hfinish (by simp [hopen])
    · have hother : ∀ who : Name → Bool, ¬ (c.id = d.id ∧ who op.invester) :=
        fun who hand => hne hand.1.symm
      apply (h.book d hd).congr
      · intro who
        rw [hi.debited, if_neg (hother who), Int.add_zero]
      · intro who
        rw [hi.raised, if_neg (hother who), Int.add_zero]
      · exact hi.paid d.id
      · exact hi.refunded d.id

end

/-! ## Blocks -/

/-- The refund loop pays back what has expired, from the first of the index on. -/
theorem refundLoop_spec {l : List (CrowdfundingInvestObject Name)} (hl : s.invests = l) :
    (refundLoop l s).invests = l.dropWhile (fun i => i.expire ≤ s.headBlockTime) ∧
      (refundLoop l s).ledger = s.ledger ++
        (l.takeWhile fun i => i.expire ≤ s.headBlockTime).map
          CrowdfundingInvestObject.toRefund := by
  induction l generalizing s with
  | nil => simp [refundLoop, hl]
  | cons i rest ih =>
      unfold refundLoop
      split
      · rename_i hlt
        have hne : ¬ i.expire ≤ s.headBlockTime := by omega
        simp [hl, hne]
      · rename_i hlt
        have hle : i.expire ≤ s.headBlockTime := by omega
        obtain ⟨hinvests, hledger⟩ := ih (s := ({ s with invests := rest }.adjustBalance i.invester
          i.raise).record (.refund i.crowdfunding i.invester i.raise)) rfl
        rw [hinvests, hledger]
        simp [hle, record, adjustBalance, CrowdfundingInvestObject.toRefund]

section
variable {c : CrowdfundingObject Name Permlink} {rest : List (CrowdfundingObject Name Permlink)}

/-- The campaigns after the first one is settled. -/
theorem settle_replaces (hc : s.crowdfundings = c :: rest) :
    Replaces c { c with finish := if c.curatorRaiseValue < c.totalRaiseValue then 2 else 1 }
      s.crowdfundings (s.settle c rest).crowdfundings :=
  ⟨[], rest, hc, settle_crowdfundings c rest s⟩

theorem refundLoop_nextCrowdfunding (l : List (CrowdfundingInvestObject Name))
    (s : State Name Permlink) : (refundLoop l s).nextCrowdfunding = s.nextCrowdfunding := by
  induction l generalizing s with
  | nil => rfl
  | cons i rest ih =>
      unfold refundLoop
      split
      · rfl
      · rw [ih]
        rfl

theorem settle_nextCrowdfunding : (s.settle c rest).nextCrowdfunding = s.nextCrowdfunding := by
  unfold settle
  split
  · exact refundLoop_nextCrowdfunding s.invests s
  · rfl

/-- Settling keeps the books when the campaign's own are right afterwards, and
nothing else is touched. -/
theorem Books.settle (h : Books s) (hc : s.crowdfundings = c :: rest)
    (hexpired : c.expire ≤ s.headBlockTime) (hopen : c.finish = 0)
    (hledger : ∀ e ∈ (s.settle c rest).ledger,
      e ∈ s.ledger ∨ e.Backed (s.settle c rest).crowdfundings)
    (hinvests : (s.settle c rest).invests.Sublist s.invests)
    (hgone : c.curatorRaiseValue < c.totalRaiseValue →
      ∀ i ∈ (s.settle c rest).invests, i.crowdfunding ≠ c.id)
    (hother : ∀ d ∈ s.crowdfundings, d.id ≠ c.id → Book (s.settle c rest) d)
    (hbook : Book (s.settle c rest)
      { c with finish := if c.curatorRaiseValue < c.totalRaiseValue then 2 else 1 }) :
    Books (s.settle c rest) := by
  have hrep := settle_replaces hc
  have hmem : c ∈ s.crowdfundings := hrep.mem_old
  constructor
  · exact settle_firstOnly h.firstOnly hc hexpired
  · rw [hrep.map_eq rfl]
    exact h.ids
  · intro d hd
    rw [settle_nextCrowdfunding]
    rcases hrep.mem_or h.ids hd with rfl | ⟨hd, -⟩
    · exact h.fresh c hmem
    · exact h.fresh d hd
  · exact h.sorted.sublist hinvests
  · intro i hi
    obtain ⟨d, hd, hid, hexpire, hfinish⟩ := h.invests i (hinvests.subset hi)
    rcases hrep.mem_of_mem hd with rfl | hd'
    · refine ⟨_, hrep.mem_new, hid, hexpire, ?_⟩
      dsimp only
      split
      · rename_i hmissed
        exact absurd hid.symm (hgone hmissed i hi)
      · omega
    · exact ⟨d, hd', hid, hexpire, hfinish⟩
  · intro e he
    rcases hledger e he with hold | hnew
    · apply (h.backed e hold).mono
      intro d hd
      rcases hrep.mem_of_mem hd with rfl | hd'
      · exact ⟨_, hrep.mem_new, rfl, rfl, fun hpos => absurd hpos (by omega)⟩
      · exact ⟨d, hd', rfl, rfl, fun _ => rfl⟩
    · exact hnew
  · intro d hd
    rcases hrep.mem_or h.ids hd with rfl | ⟨hd, hne⟩
    · exact hbook
    · exact hother d hd hne

end

/-! ## Runs -/

omit [LinearOrder Name] in
theorem Book.atTime {c : CrowdfundingObject Name Permlink} (h : Book s c) (time : Nat) :
    Book { s with headBlockTime := time } c :=
  h.congr (fun _ => rfl) (fun _ => rfl) rfl fun _ => rfl

theorem Books.atTime (h : Books s) {time : Nat} (htime : s.headBlockTime < time) :
    Books { s with headBlockTime := time } where
  firstOnly :=
    ⟨h.firstOnly.unfinished, fun c hc hfinish =>
      (h.firstOnly.expired c hc hfinish).trans htime.le⟩
  ids := h.ids
  fresh := h.fresh
  sorted := h.sorted
  invests := h.invests
  backed := h.backed
  book := fun c hc => (h.book c hc).atTime time

variable [DecidableEq Permlink] (v : Validators Name Permlink)

end State

end Gamebank.Crowdfunding
