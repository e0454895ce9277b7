import Gamebank.Crowdfunding.Settlement

/-!
# When an investment is recorded

`invest_evaluator` looks an investment up by campaign and investor, and
creates it under a second unique key, its end and the investor. **An
investment that passes its checks is recorded if and only if** the account
has one in this campaign already, or has none in another campaign that ends
at the same second.

Unlike the books of `Settlement`, what is used here holds in every run: the
investments of different campaigns get mixed up only once the campaigns have
expired.
-/

namespace Gamebank.Crowdfunding

open Gamebank.Lib

variable {Name Permlink : Type}

/-- The key of `by_crowdfunding_invester`. -/
def CrowdfundingInvestObject.place (i : CrowdfundingInvestObject Name) : Nat × Name :=
  (i.crowdfunding, i.invester)

namespace State

variable [LinearOrder Name]

/-- The investments of `n` in the campaign. -/
def investsOf (s : State Name Permlink) (campaign : Nat) (n : Name) :
    List (CrowdfundingInvestObject Name) :=
  s.invests.filter fun i => i.place = (campaign, n)

/-- The entries of `by_crowdfunding_invester` differ. -/
def Places (s : State Name Permlink) : Prop :=
  (s.invests.map CrowdfundingInvestObject.place).Nodup

/-- Until it expires, a campaign has the investments made in it. -/
structure Tracked (s : State Name Permlink) : Prop where
  ids : (s.crowdfundings.map (·.id)).Nodup
  fresh : ∀ c ∈ s.crowdfundings, c.id < s.nextCrowdfunding
  invests : ∀ i ∈ s.invests, ∃ c ∈ s.crowdfundings, c.id = i.crowdfunding ∧ c.expire = i.expire
  unopened : ∀ campaign, s.nextCrowdfunding ≤ campaign → ∀ who, s.debited campaign who = 0
  raised : ∀ c ∈ s.crowdfundings, s.headBlockTime < c.expire →
    ∀ who, s.raised c.id who = s.debited c.id who

omit [LinearOrder Name] in
theorem Genesis.places {s : State Name Permlink} (h : Genesis s) : Places s := by
  simp [Places, h.invests]

omit [LinearOrder Name] in
theorem Genesis.tracked {s : State Name Permlink} (h : Genesis s) : Tracked s := by
  constructor
  all_goals simp [h.crowdfundings, h.invests, h.ledger, debited]

omit [LinearOrder Name] in
theorem Tracked.id_inj {s : State Name Permlink} (h : Tracked s)
    {c d : CrowdfundingObject Name Permlink} (hc : c ∈ s.crowdfundings) (hd : d ∈ s.crowdfundings)
    (hid : c.id = d.id) : c = d :=
  List.inj_on_of_nodup_map h.ids hc hd hid

/-! ## One investment for each place -/

section

variable {s s' : State Name Permlink}

omit [LinearOrder Name] in
theorem Places.sublist (h : Places s) (hsub : s'.invests.Sublist s.invests) : Places s' :=
  List.Nodup.sublist (hsub.map _) h

theorem refundLoop_sublist (s : State Name Permlink) :
    (refundLoop s.invests s).invests.Sublist s.invests := by
  rw [(refundLoop_spec rfl).1]
  exact List.dropWhile_sublist _

theorem processCrowdfunding_sublist (s : State Name Permlink) :
    s.processCrowdfunding.invests.Sublist s.invests := by
  rcases processCrowdfunding_cases s with ⟨heq, -⟩ | ⟨c, rest, -, -, -, heq⟩
  · rw [heq]
  · rw [heq]
    unfold settle
    split
    · exact refundLoop_sublist s
    · exact List.Sublist.refl _

variable [DecidableEq Permlink]

omit [DecidableEq Permlink] in
/-- The object is looked up under its place before it is created. -/
theorem places_of_recordInvest {c : CrowdfundingObject Name Permlink}
    {op : InvestOperation Name Permlink} (h : s.recordInvest c op = .ok s') (hs : Places s) :
    Places s' := by
  unfold recordInvest at h
  simp only at h
  split at h
  · rename_i i hfound
    simp only [pure, Except.pure, Except.ok.injEq] at h
    subst h
    unfold Places
    have hmap := (replaces_modifyFirst hfound fun i : CrowdfundingInvestObject Name =>
      { i with raise := i.raise + op.raise.amount, lastUpdate := s.headBlockTime }).map_eq
        (g := CrowdfundingInvestObject.place) rfl
    exact hmap ▸ hs
  · rename_i hnone
    simp only [ensure_bind_eq_ok] at h
    obtain ⟨-, h⟩ := h
    simp only [pure, Except.pure, Except.ok.injEq] at h
    subst h
    unfold Places
    dsimp only
    rw [((List.perm_orderedInsert _ _ _).map _).nodup_iff, List.map_cons, List.nodup_cons]
    refine ⟨fun hin => ?_, hs⟩
    obtain ⟨i, hi, hplace⟩ := List.mem_map.mp hin
    have hne := List.find?_eq_none.mp hnone i hi
    rw [CrowdfundingInvestObject.place, CrowdfundingInvestObject.place, Prod.mk.injEq] at hplace
    simp [hplace] at hne

theorem places_of_applyInvest {op : InvestOperation Name Permlink} (h : s.applyInvest op = .ok s')
    (hs : Places s) : Places s' := by
  unfold applyInvest at h
  split at h
  · simp at h
  · simp only [ensure_bind_eq_ok] at h
    obtain ⟨-, -, -, -, h⟩ := h
    exact places_of_recordInvest h hs

variable (v : Validators Name Permlink)

theorem step_places (h : Places s) (st : Step Name Permlink) : Places (s.step v st) := by
  cases st with
  | crowdfunding op =>
      rcases step_cases v s (.crowdfunding op) with heq | ⟨op', -, ho⟩ | ⟨op', c, hop, -⟩ |
        ⟨time, hop, -⟩
      · rw [heq]
        exact h
      · exact h.sublist (ho.invests ▸ List.Sublist.refl _)
      · cases hop
      · cases hop
  | invest op =>
      simp only [step]
      cases hv : op.validate v with
      | error e => exact h
      | ok _ =>
          cases hs : s.applyInvest op with
          | error e => simpa [bind, Except.bind, hs, attempt] using h
          | ok s' => simpa [bind, Except.bind, hs, attempt] using places_of_applyInvest hs h
  | block time =>
      simp only [step]
      split
      · exact h.sublist (processCrowdfunding_sublist { s with headBlockTime := time })
      · exact h

end

/-! ## What an unexpired campaign holds -/

section

variable {s s' : State Name Permlink}

theorem Opens.tracked {op : CrowdfundingOperation Name Permlink} (ho : Opens op s s')
    (h : Tracked s) : Tracked s' := by
  have hmem : ∀ d, d ∈ s'.crowdfundings ↔ d = s.newCrowdfunding op ∨ d ∈ s.crowdfundings := by
    intro d
    rw [ho.crowdfundings, List.mem_orderedInsert]
  have hnew : ∀ c ∈ s.crowdfundings, c.id ≠ (s.newCrowdfunding op).id := fun c hc =>
    (h.fresh c hc).ne
  have hdebited : ∀ campaign who, s'.debited campaign who = s.debited campaign who := by
    intro campaign who
    rw [debited, debited, ho.ledger]
  have hraised : ∀ campaign who, s'.raised campaign who = s.raised campaign who := by
    intro campaign who
    rw [raised, raised, ho.invests]
  constructor
  · rw [ho.crowdfundings, ((List.perm_orderedInsert _ _ _).map _).nodup_iff, List.map_cons,
      List.nodup_cons]
    refine ⟨fun hin => ?_, h.ids⟩
    obtain ⟨c, hc, hid⟩ := List.mem_map.mp hin
    exact hnew c hc hid
  · intro c hc
    rw [ho.nextCrowdfunding]
    rcases (hmem c).mp hc with rfl | hc
    · exact Nat.lt_succ_self _
    · exact (h.fresh c hc).trans (Nat.lt_succ_self _)
  · intro i hi
    rw [ho.invests] at hi
    obtain ⟨c, hc, hid, hexpire⟩ := h.invests i hi
    exact ⟨c, (hmem c).mpr (Or.inr hc), hid, hexpire⟩
  · intro campaign hle who
    rw [ho.nextCrowdfunding] at hle
    rw [hdebited]
    exact h.unopened campaign (by omega) who
  · intro c hc hrunning who
    rw [hdebited, hraised]
    rw [ho.headBlockTime] at hrunning
    rcases (hmem c).mp hc with rfl | hc
    · -- Nothing has been paid in and nothing is held under an id not yet given.
      have hnone : s.raised (s.newCrowdfunding op).id who = 0 := by
        apply sumOf_eq_zero
        intro i hi
        obtain ⟨d, hd, hid, -⟩ := h.invests i hi
        rw [CrowdfundingInvestObject.raiseOf, if_neg]
        exact fun hand => hnew d hd (hid.trans hand.1)
      exact hnone.trans (h.unopened _ le_rfl who).symm
    · exact h.raised c hc hrunning who

theorem Invests.tracked {op : InvestOperation Name Permlink} {c : CrowdfundingObject Name Permlink}
    (hi : Invests op c s s') (h : Tracked s) : Tracked s' := by
  have hc : c ∈ s.crowdfundings := hi.crowdfundings.mem_old
  have hkeeps : ∀ d ∈ s.crowdfundings, ∃ d' ∈ s'.crowdfundings, d'.id = d.id ∧
      d'.expire = d.expire := by
    intro d hd
    rcases hi.crowdfundings.mem_of_mem hd with rfl | hd'
    · exact ⟨_, hi.crowdfundings.mem_new, rfl, rfl⟩
    · exact ⟨d, hd', rfl, rfl⟩
  have hback : ∀ d ∈ s'.crowdfundings, ∃ d₀ ∈ s.crowdfundings, d₀.id = d.id ∧
      d₀.expire = d.expire := by
    intro d hd
    rcases hi.crowdfundings.symm.mem_of_mem hd with rfl | hd'
    · exact ⟨c, hc, rfl, rfl⟩
    · exact ⟨d, hd', rfl, rfl⟩
  constructor
  · rw [hi.crowdfundings.map_eq rfl]
    exact h.ids
  · intro d hd
    rw [hi.nextCrowdfunding]
    obtain ⟨d₀, hd₀, hid, -⟩ := hback d hd
    exact hid ▸ h.fresh d₀ hd₀
  · intro i hmem
    have hold : ∃ d ∈ s.crowdfundings, d.id = i.crowdfunding ∧ d.expire = i.expire := by
      rcases hi.invests with ⟨j, -, -, hrep⟩ | ⟨j, hid, -, hexpire, -, hins⟩
      · have hmap := hrep.map_eq (g := fun i => (i.crowdfunding, i.expire)) rfl
        obtain ⟨j', hj', heq⟩ := List.mem_map.mp (hmap ▸ List.mem_map_of_mem hmem)
        rw [Prod.mk.injEq] at heq
        rw [← heq.1, ← heq.2]
        exact h.invests j' hj'
      · rw [hins, List.mem_orderedInsert] at hmem
        rcases hmem with rfl | hmem
        · exact ⟨c, hc, hid.symm, hexpire.symm⟩
        · exact h.invests i hmem
    obtain ⟨d, hd, hid, hexpire⟩ := hold
    obtain ⟨d', hd', hid', hexpire'⟩ := hkeeps d hd
    exact ⟨d', hd', hid'.trans hid, hexpire'.trans hexpire⟩
  · intro campaign hle who
    rw [hi.nextCrowdfunding] at hle
    have hne : ¬ (c.id = campaign ∧ who op.invester) := by
      have := h.fresh c hc
      omega
    rw [hi.debited, if_neg hne, h.unopened campaign hle who, Int.add_zero]
  · intro d hd hrunning who
    rw [hi.headBlockTime] at hrunning
    obtain ⟨d₀, hd₀, hid, hexpire⟩ := hback d hd
    have hold := h.raised d₀ hd₀ (hexpire ▸ hrunning) who
    rw [hi.raised, hi.debited, ← hid, hold]

/-- What the refund loop takes has expired. -/
theorem refundLoop_raised (h : Tracked s) {c : CrowdfundingObject Name Permlink}
    (hc : c ∈ s.crowdfundings) (hrunning : s.headBlockTime < c.expire) (who : Name → Bool) :
    (refundLoop s.invests s).raised c.id who = s.raised c.id who := by
  obtain ⟨hdrop, -⟩ := refundLoop_spec (rfl : s.invests = s.invests)
  have hsplit := List.takeWhile_append_dropWhile (p := fun i => decide (i.expire ≤ s.headBlockTime))
    (l := s.invests)
  have hzero : sumOf (CrowdfundingInvestObject.raiseOf c.id who)
      (s.invests.takeWhile fun i => i.expire ≤ s.headBlockTime) = 0 := by
    apply sumOf_eq_zero
    intro i hi
    have hle : i.expire ≤ s.headBlockTime := by simpa using List.mem_takeWhile_imp hi
    obtain ⟨d, hd, hid, hexpire⟩ := h.invests i ((List.takeWhile_sublist _).subset hi)
    rw [CrowdfundingInvestObject.raiseOf, if_neg]
    rintro ⟨hin, -⟩
    rw [h.id_inj hd hc (hid.trans hin)] at hexpire
    omega
  calc (refundLoop s.invests s).raised c.id who
      = sumOf (CrowdfundingInvestObject.raiseOf c.id who)
          (s.invests.dropWhile fun i => i.expire ≤ s.headBlockTime) := by rw [raised, hdrop]
    _ = s.raised c.id who := by
        rw [raised]
        nth_rewrite 2 [← hsplit]
        rw [sumOf_append, hzero, Int.zero_add]

variable {c : CrowdfundingObject Name Permlink} {rest : List (CrowdfundingObject Name Permlink)}

/-- Settling debits nobody. -/
theorem settle_debited (campaign : Nat) (who : Name → Bool) :
    (s.settle c rest).debited campaign who = s.debited campaign who := by
  unfold settle
  split
  · have hzero : sumOf (LedgerEntry.debitOf campaign who)
        ((s.invests.takeWhile fun i => i.expire ≤ s.headBlockTime).map
          CrowdfundingInvestObject.toRefund) = 0 := by
      rw [sumOf_map]
      exact sumOf_eq_zero fun _ _ => rfl
    rw [debited, (refundLoop_spec (rfl : s.invests = s.invests)).2, sumOf_append, hzero,
      Int.add_zero]
    rfl
  · simp [debited, record, adjustBalance, LedgerEntry.debitOf]

theorem settle_raised (h : Tracked s) {d : CrowdfundingObject Name Permlink}
    (hd : d ∈ s.crowdfundings) (hrunning : s.headBlockTime < d.expire) (who : Name → Bool) :
    (s.settle c rest).raised d.id who = s.raised d.id who := by
  unfold settle
  split
  · exact refundLoop_raised h hd hrunning who
  · rfl

theorem settle_sublist : (s.settle c rest).invests.Sublist s.invests := by
  unfold settle
  split
  · exact refundLoop_sublist s
  · exact List.Sublist.refl _

theorem settle_tracked (h : Tracked s) (hc : s.crowdfundings = c :: rest) :
    Tracked (s.settle c rest) := by
  have hrep := settle_replaces hc
  have hmap := hrep.map_eq (g := fun d => (d.id, d.expire)) rfl
  have hback : ∀ d ∈ (s.settle c rest).crowdfundings, ∃ d₀ ∈ s.crowdfundings, d₀.id = d.id ∧
      d₀.expire = d.expire := by
    intro d hd
    obtain ⟨d₀, hd₀, heq⟩ := List.mem_map.mp (hmap ▸ List.mem_map_of_mem hd)
    exact ⟨d₀, hd₀, (Prod.mk.inj heq).1, (Prod.mk.inj heq).2⟩
  constructor
  · rw [hrep.map_eq rfl]
    exact h.ids
  · intro d hd
    rw [settle_nextCrowdfunding]
    obtain ⟨d₀, hd₀, hid, -⟩ := hback d hd
    exact hid ▸ h.fresh d₀ hd₀
  · intro i hi
    obtain ⟨d, hd, hid, hexpire⟩ := h.invests i (settle_sublist.subset hi)
    obtain ⟨d', hd', heq⟩ := List.mem_map.mp (hmap.symm ▸ List.mem_map_of_mem hd)
    exact ⟨d', hd', (Prod.mk.inj heq).1.trans hid, (Prod.mk.inj heq).2.trans hexpire⟩
  · intro campaign hle who
    rw [settle_nextCrowdfunding] at hle
    rw [settle_debited]
    exact h.unopened campaign hle who
  · intro d hd hrunning who
    rw [settle_headBlockTime] at hrunning
    obtain ⟨d₀, hd₀, hid, hexpire⟩ := hback d hd
    have hrunning₀ : s.headBlockTime < d₀.expire := hexpire ▸ hrunning
    rw [settle_debited, ← hid, settle_raised h hd₀ hrunning₀ who, h.raised d₀ hd₀ hrunning₀ who]

end

section

variable {s : State Name Permlink} [DecidableEq Permlink] (v : Validators Name Permlink)

theorem step_tracked (h : Tracked s) (st : Step Name Permlink) : Tracked (s.step v st) := by
  rcases step_cases v s st with heq | ⟨op, -, ho⟩ | ⟨op, c, -, -, hi⟩ | ⟨time, -, htime, heq⟩
  · rw [heq]
    exact h
  · exact ho.tracked h
  · exact hi.tracked h
  · rw [heq]
    have ht : Tracked { s with headBlockTime := time } :=
      ⟨h.ids, h.fresh, h.invests, h.unopened,
        fun c hc hrunning => h.raised c hc (htime.trans hrunning)⟩
    rcases processCrowdfunding_cases { s with headBlockTime := time } with
      ⟨hsame, -⟩ | ⟨c, rest, hc, -, -, hsettle⟩
    · rw [hsame]
      exact ht
    · rw [hsettle]
      exact settle_tracked ht hc

end

/-! ## Reachable states -/

/-- The states reached from before the first campaign. Other operations create
accounts and change balances. -/
inductive Reached [DecidableEq Permlink] (v : Validators Name Permlink) :
    State Name Permlink → Prop where
  | genesis {s} (h : Genesis s) : Reached v s
  | step {s} (h : Reached v s) (st : Step Name Permlink) : Reached v (s.step v st)
  | elsewhere {s} (h : Reached v s) (hasAccount : Name → Bool) (balance : Name → Int) :
      Reached v { s with hasAccount := hasAccount, balance := balance }

section

variable [DecidableEq Permlink] {v : Validators Name Permlink} {s : State Name Permlink}

theorem Reached.places (h : Reached v s) : Places s := by
  induction h with
  | genesis hs => exact hs.places
  | step _ st ih => exact step_places v ih st
  | elsewhere _ hasAccount balance ih => exact ih

theorem Reached.tracked (h : Reached v s) : Tracked s := by
  induction h with
  | genesis hs => exact hs.tracked
  | step _ st ih => exact step_tracked v ih st
  | elsewhere _ hasAccount balance ih =>
      exact ⟨ih.ids, ih.fresh, ih.invests, ih.unopened, ih.raised⟩

theorem Reached.run (h : Reached v s) (steps : List (Step Name Permlink)) :
    Reached v (s.run v steps) := by
  induction steps generalizing s with
  | nil => exact h
  | cons st rest ih => exact ih (h.step st)

end

/-! ## One investment -/

section

variable {s s' : State Name Permlink} [DecidableEq Permlink] {op : InvestOperation Name Permlink}
  {c : CrowdfundingObject Name Permlink}

/-- The operation goes through, and the investor has one investment in the
campaign: all that the account has invested in it. -/
def Records (s : State Name Permlink) (op : InvestOperation Name Permlink)
    (c : CrowdfundingObject Name Permlink) : Prop :=
  ∃ s', s.applyInvest op = .ok s' ∧ ∃ i, s'.investsOf c.id op.invester = [i] ∧
    i.raise = s'.debited c.id (· = op.invester)

/-- What `invest_evaluator` checks about the campaign `c`. -/
structure Passes (s : State Name Permlink) (op : InvestOperation Name Permlink)
    (c : CrowdfundingObject Name Permlink) : Prop where
  found : s.findCrowdfunding op.originator op.permlink = some c
  account : s.hasAccount op.invester
  running : s.headBlockTime < c.expire
  funds : op.raise.amount ≤ s.balance op.invester
  goal : c.curatorRaiseValue + op.raise.amount ≤ c.totalRaiseValue

/-- The account has an investment in the campaign, or none that ends with it. -/
def Unclaimed (s : State Name Permlink) (n : Name) (c : CrowdfundingObject Name Permlink) : Prop :=
  s.investsOf c.id n ≠ [] ∨ ∀ i ∈ s.invests, i.invester = n → i.expire ≠ c.expire

omit [DecidableEq Permlink] in
theorem investsOf_ne_nil {n : Name} {campaign : Nat} : s.investsOf campaign n ≠ [] ↔
    (s.invests.find? fun i => i.crowdfunding = campaign ∧ i.invester = n) ≠ none := by
  simp [investsOf, CrowdfundingInvestObject.place, List.filter_eq_nil_iff, List.find?_eq_none]

omit [DecidableEq Permlink] in
/-- The object is modified if there is one, else created unless the key of
`by_expire_invester` is taken. -/
theorem recordInvest_ok_iff : (∃ s', s.recordInvest c op = .ok s') ↔ s.Unclaimed op.invester c := by
  unfold recordInvest Unclaimed
  rw [investsOf_ne_nil]
  dsimp only
  split
  · rename_i i hfound
    have hown : (s.invests.find? fun i => i.crowdfunding = c.id ∧ i.invester = op.invester) ≠
        none := hfound ▸ Option.some_ne_none i
    exact ⟨fun _ => Or.inl hown, fun _ => ⟨_, rfl⟩⟩
  · rename_i hnone
    simp only [hnone, ne_eq, not_true_eq_false, false_or, ensure_bind_eq_ok]
    constructor
    · rintro ⟨s', hkey, -⟩ i hi hname hexpire
      simp only [Bool.not_eq_true', List.any_eq_false, decide_eq_true_eq] at hkey
      exact hkey i hi (by rw [CrowdfundingInvestObject.key, hexpire, hname]; rfl)
    · intro hnone
      refine ⟨_, ?_, rfl⟩
      simp only [Bool.not_eq_true', List.any_eq_false, decide_eq_true_eq]
      intro i hi hkey
      have hkey' := Prod.mk.inj (toLex.injective hkey)
      exact hnone i hi hkey'.2 hkey'.1

/-- Past its checks the evaluator depends on the investments alone. -/
theorem applyInvest_ok_iff (h : s.Passes op c) :
    (∃ s', s.applyInvest op = .ok s') ↔ s.Unclaimed op.invester c := by
  unfold applyInvest
  simp only [h.found, ensure_bind_eq_ok, h.account, decide_eq_true h.running,
    decide_eq_true h.funds, decide_eq_true h.goal, true_and]
  exact recordInvest_ok_iff

omit [DecidableEq Permlink] in
theorem investsOf_eq_singleton (hs : Places s) {i : CrowdfundingInvestObject Name}
    (hi : i ∈ s.invests) : s.investsOf i.crowdfunding i.invester = [i] :=
  filter_eq_singleton_of_nodup hs hi

omit [DecidableEq Permlink] in
theorem raised_eq_of_mem (hs : Places s) {i : CrowdfundingInvestObject Name}
    (hi : i ∈ s.invests) : s.raised i.crowdfunding (· = i.invester) = i.raise := by
  rw [raised, sumOf_eq_single hs hi]
  · simp [CrowdfundingInvestObject.raiseOf]
  · intro j hj hne
    rw [CrowdfundingInvestObject.raiseOf, if_neg]
    simpa [CrowdfundingInvestObject.place] using hne

omit [DecidableEq Permlink] in
theorem Invests.exists_own (hi : Invests op c s s') :
    ∃ i ∈ s'.invests, i.crowdfunding = c.id ∧ i.invester = op.invester := by
  rcases hi.invests with ⟨i, hid, hname, hrep⟩ | ⟨i, hid, hname, -, -, hins⟩
  · exact ⟨_, hrep.mem_new, hid, hname⟩
  · exact ⟨i, hins ▸ (List.mem_orderedInsert _).mpr (Or.inl rfl), hid, hname⟩

/-- **An investment that passes its checks is recorded if and only if** the
account has one in the campaign, or none in a campaign that ends with it. -/
theorem Reached.records_iff {v : Validators Name Permlink} (hs : Reached v s)
    (h : s.Passes op c) : s.Records op c ↔ s.Unclaimed op.invester c := by
  rw [← applyInvest_ok_iff h]
  constructor
  · rintro ⟨s', hs', -⟩
    exact ⟨s', hs'⟩
  · rintro ⟨s', hs'⟩
    obtain ⟨d, hd, hi⟩ := invests_of_applyInvest hs'
    rw [h.found, Option.some.injEq] at hd
    subst hd
    obtain ⟨i, hmem, hid, hname⟩ := hi.exists_own
    have hplaces' := places_of_applyInvest hs' hs.places
    refine ⟨s', hs', i, ?_, ?_⟩
    · rw [← hid, ← hname]
      exact investsOf_eq_singleton hplaces' hmem
    · have hrunning : s'.headBlockTime < c.expire := hi.headBlockTime ▸ hi.running
      calc i.raise = s'.raised i.crowdfunding (· = i.invester) :=
        (raised_eq_of_mem hplaces' hmem).symm
        _ = s'.raised c.id (· = op.invester) := by rw [hid, hname]
        _ = s'.debited c.id (· = op.invester) :=
            (hi.tracked hs.tracked).raised _ hi.crowdfundings.mem_new hrunning _

/-- Two campaigns opened at the same time; `dave` has invested in the one of `alice`. -/
def daveInvested : State String String :=
  opening.run accepting [campaign "alice" "first" 500, campaign "bobby" "second" 500,
    investment "dave" "alice" "first" 100]

theorem daveInvested_reached : Reached accepting daveInvested :=
  (Reached.genesis opening_genesis).run _

/-- `dave` adds to the investment he has. -/
theorem dave_adds : Reached accepting daveInvested ∧ ∃ c, daveInvested.Records
    { invester := "dave", originator := "alice", permlink := "first", raise := ⟨50, .gbc⟩ } c :=
  ⟨daveInvested_reached,
    { id := 0, originator := "alice", permlink := "first", created := 100, expire := 259300,
      lastRaise := 100, totalRaiseValue := 500, curatorRaiseValue := 100, finish := 0 },
    (daveInvested_reached.records_iff
      ⟨by decide, by decide, by decide, by decide, by decide⟩).mpr (Or.inl (by decide))⟩

/-- `dave` cannot invest in the campaign of `bobby`. -/
theorem dave_refused : Reached accepting daveInvested ∧ ∃ c,
    daveInvested.Passes
      { invester := "dave", originator := "bobby", permlink := "second", raise := ⟨50, .gbc⟩ } c ∧
    ¬ daveInvested.Records
      { invester := "dave", originator := "bobby", permlink := "second", raise := ⟨50, .gbc⟩ }
        c := by
  refine ⟨daveInvested_reached,
    { id := 1, originator := "bobby", permlink := "second", created := 100, expire := 259300,
      lastRaise := 0, totalRaiseValue := 500, curatorRaiseValue := 0, finish := 0 },
    ⟨by decide, by decide, by decide, by decide, by decide⟩, ?_⟩
  rintro ⟨s', hs', -⟩
  have hthrows : (daveInvested.applyInvest
      { invester := "dave", originator := "bobby", permlink := "second",
        raise := ⟨50, .gbc⟩ }).toOption.isNone = true := by decide
  rw [hs'] at hthrows
  cases hthrows

end

end State

end Gamebank.Crowdfunding
