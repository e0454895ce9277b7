import Gamebank.Stake.PowerDown
import Gamebank.Stake.Totals

/-!
# Functions of the ledger that return

The assertions that stand between a withdrawal and its end, and what they
need: votes that are carried to witnesses which can take them, amounts in
range, a fund that can pay for the shares that are converted. There is one
lemma for each function, of the form `Completes`.
-/

namespace Gamebank.Ledger

open Gamebank.Lib Gamebank.Protocol

/-- An account that has all its shares to itself. -/
def Account.undelegated (a : Account) : Account := { a with delegatedVestingShares := 0 }

namespace Database

variable {s t u : Database} {b : Page} {name : AccountName} {a a' : Account} {d : Int}

/-! ## Votes that can be carried -/

theorem adjustWitnessVote_completes {w : Witness} {owner : AccountName}
    (hw : s.getWitness owner = .ok w) (hnonneg : 0 ≤ w.votes + d)
    (hle : w.votes + d ≤ s.props.totalVestingShares)
    (hmax : s.props.totalVestingShares < 9223372036854775808) :
    Completes (s.adjustWitnessVote owner d) fun t =>
      EditedWitness s t owner w (w.moveVotes s.schedule.currentVirtualTime d) := by
  unfold Database.adjustWitnessVote
  refine .bind (.of_eq hw rfl) fun w' hw' => ?_
  subst hw'
  have hfits : fitsInt64 (w.votes + d) = true := decide_eq_true (by omega)
  refine .ensure hfits
    (.ensure (decide_eq_true hle) (.ensure (decide_eq_true (by omega)) (.pure ?_)))
  exact editedWitness_modifyWitness hw _

/-- The witness can take the votes. -/
def Takes (s : Database) (d : Int) (owner : AccountName) : Prop :=
  ∃ w, s.getWitness owner = .ok w ∧ 0 ≤ w.votes + d ∧ w.votes + d ≤ s.props.totalVestingShares

theorem EditedWitness.takes {w w' : Witness} {owner owner' : AccountName}
    (he : EditedWitness s t owner w w') (howner : w'.owner = w.owner)
    (howners : (s.witnesses.rows.map Witness.owner).Nodup) (hne : owner' ≠ owner)
    (h : s.Takes d owner') : t.Takes d owner' := by
  obtain ⟨c, hc, hnonneg, hle⟩ := h
  have hprops : t.props = s.props := by rw [he.rest]
  refine ⟨c, ?_, hnonneg, hprops ▸ hle⟩
  have hfind := he.replaces.find?_key howner howners owner'
  rw [if_neg ((getWitness_mem he.found).2 ▸ hne)] at hfind
  exact require_eq_ok.mpr (hfind.trans (require_eq_ok.mp hc))

/-- The loop over the votes of an account: no witness is met twice. -/
theorem foldVotes_completes {votes : List WitnessVote} (hnodup : votes.Nodup)
    (haccount : ∀ v ∈ votes, v.account = name)
    (howners : (s.witnesses.rows.map Witness.owner).Nodup)
    (hmax : s.props.totalVestingShares < 9223372036854775808)
    (htakes : ∀ v ∈ votes, s.Takes d v.witness) :
    Completes (votes.foldlM (fun s v => s.adjustWitnessVote v.witness d) s) fun _ => True := by
  induction votes generalizing s with
  | nil => exact .pure trivial
  | cons v rest ih =>
      rw [List.nodup_cons] at hnodup
      rw [List.foldlM_cons]
      obtain ⟨w, hw, hnonneg, hle⟩ := htakes v List.mem_cons_self
      refine .bind (adjustWitnessVote_completes hw hnonneg hle hmax) fun t he => ?_
      have howner : (w.moveVotes s.schedule.currentVirtualTime d).owner = w.owner := rfl
      have hprops : t.props = s.props := by rw [he.rest]
      have howners' : t.witnesses.rows.map Witness.owner = s.witnesses.rows.map Witness.owner :=
        he.replaces.map_eq howner
      refine ih hnodup.2 (fun c hc => haccount c (List.mem_cons_of_mem v hc)) (howners' ▸ howners)
        (hprops ▸ hmax) fun c hc => ?_
      refine he.takes howner howners (fun heq => hnodup.1 ?_) (htakes c (List.mem_cons_of_mem v hc))
      have hsame : c = v := by
        cases c
        cases v
        simp only [WitnessVote.mk.injEq]
        exact ⟨heq, (haccount _ (List.mem_cons_of_mem _ hc)).trans
          (haccount _ List.mem_cons_self).symm⟩
      exact hsame ▸ hc

theorem adjustWitnessVotes_completes (h : Books b s)
    (hmax : s.props.totalVestingShares < 9223372036854775808)
    (hvotes : ∀ w ∈ s.witnesses.rows, ⟨w.owner, name⟩ ∈ b.ballots →
      0 ≤ w.votes + d ∧ w.votes + d ≤ s.props.totalVestingShares) :
    Completes (s.adjustWitnessVotes name d) fun _ => True := by
  unfold Database.adjustWitnessVotes
  have haccount : ∀ v ∈ s.witnessVotes.filter fun v => v.account = name, v.account = name := by
    intro v hv
    simpa using (List.mem_filter.mp hv).2
  rw [h.ballots] at haccount ⊢
  refine foldVotes_completes (h.nodup.filter _) haccount h.owners hmax fun v hv => ?_
  obtain ⟨hmem, -⟩ := List.mem_filter.mp hv
  obtain ⟨w, hw, howner⟩ := List.mem_map.mp (h.candidate v hmem)
  refine ⟨w, ?_, hvotes w hw ?_⟩
  · rw [← howner]
    exact require_eq_ok.mpr (find?_eq_some_of_nodup h.owners hw)
  · rw [howner, ← haccount v hv]
    exact hmem

theorem modifyAccount_completes (ha : s.getAccount name = .ok a) {f : Account → Account}
    (hfits : (f a).fits = true) :
    Completes (s.modifyAccount name f) fun t => Edited s t name a (f a) := by
  have hspec := modifyAccount_spec s name f
  have hreturns : Completes (s.modifyAccount name f) fun _ => True := by
    unfold Database.modifyAccount
    refine .bind (.of_eq ha rfl) fun a' ha' => ?_
    subst ha'
    exact .ensure hfits (.pure trivial)
  refine (hreturns.and hspec).mono fun t ht => ?_
  obtain ⟨-, c, he⟩ := ht
  exact he.found_eq ha ▸ he

theorem modifyProps_completes {f : GlobalProperties → GlobalProperties}
    (hfits : (f s.props).fits = true) :
    Completes (s.modifyProps f) fun t => t = { s with props := f s.props } := by
  unfold Database.modifyProps
  exact .ensure hfits (.pure rfl)

/-! ## Amounts in range -/

theorem fitsInt64_iff {n : Int} :
    fitsInt64 n = true ↔ -9223372036854775808 ≤ n ∧ n < 9223372036854775808 := by
  simp [fitsInt64]

theorem fits_proxied (h : a.fits = true) {votes : Vector Int 4}
    (hvotes : ∀ i : Fin 4, fitsInt64 (votes.get i) = true) :
    { a with proxiedVsfVotes := votes }.fits = true := by
  unfold Account.fits at h ⊢
  rw [Bool.and_eq_true] at h ⊢
  refine ⟨h.1, ?_⟩
  rw [Vector.all_eq_true]
  exact fun i hi => hvotes ⟨i, hi⟩

theorem fits_proxied_get (h : a.fits = true) (i : Fin 4) :
    fitsInt64 (a.proxiedVsfVotes.get i) = true := by
  unfold Account.fits at h
  rw [Bool.and_eq_true, Vector.all_eq_true] at h
  exact h.2 i.val i.isLt

/-! ## Up the chain of proxies -/

/-- The proxied votes with `d` more at one depth. -/
theorem addAt_get (votes : Fin 4 → Int) (depth : Nat) (d : Int) (i : Fin 4) :
    (Vector.ofFn fun i : Fin 4 => if i.val = depth then votes i + d else votes i).get i =
      votes i + if i.val = depth then d else 0 := by
  show (Vector.ofFn fun i : Fin 4 => if i.val = depth then votes i + d else votes i)[i.val] = _
  rw [Vector.getElem_ofFn]
  split
  · rfl
  · rw [add_zero]

theorem adjustProxied_completes {remaining : Nat} (hremaining : remaining ≤ 4) (h : Books b s)
    (hname : name ∈ s.accounts.rows.map Account.name)
    (hmax : s.props.totalVestingShares < 9223372036854775808)
    (hproxied : ∀ k < remaining, ∀ p ∈ s.accounts.rows, ancestor b.up (k + 1) name = some p.name →
      p.fits = true ∧ ∀ i : Fin 4, i.val = 4 - remaining + k →
        fitsInt64 (p.proxiedVsfVotes.get i + d) = true)
    (hvotes : ∀ k ≤ remaining, ∀ p, ancestor b.up k name = some p → ∀ w ∈ s.witnesses.rows,
      ⟨w.owner, p⟩ ∈ b.ballots → 0 ≤ w.votes + d ∧ w.votes + d ≤ s.props.totalVestingShares) :
    Completes (adjustProxied remaining s name d) fun _ => True := by
  have hroot := hvotes 0 (Nat.zero_le remaining) name rfl
  -- down the depths that are left; the books are those of the changed state
  induction remaining generalizing b s name with
  | zero =>
      unfold Database.adjustProxied
      refine .bind (getAccount_completes hname) fun a ha => ?_
      exact .ite (fun _ => .pure trivial) fun _ => adjustWitnessVotes_completes h hmax hroot
  | succ remaining ih =>
      unfold Database.adjustProxied
      refine .bind (getAccount_completes hname) fun a ha => ?_
      obtain ⟨hmem, rfl⟩ := getAccount_mem ha
      refine .ite (fun hproxy => ?_) fun _ => adjustWitnessVotes_completes h hmax hroot
      have hup : b.up a.name = some a.proxy := by rw [h.up_eq hmem, if_neg hproxy]
      obtain ⟨q, hq, -⟩ := getAccount_completes (s := s) (h.proxyExists a.name a.proxy hup)
      obtain ⟨hqmem, hqname⟩ := getAccount_mem hq
      have hdepth : maxProxyRecursionDepth - (remaining + 1) = 3 - remaining := by
        unfold maxProxyRecursionDepth
        omega
      dsimp only
      rw [hdepth]
      obtain ⟨hqfits, hqvotes⟩ := hproxied 0 (Nat.succ_pos remaining) q hqmem
        (by rw [ancestor_succ_of_some hup, ancestor_zero, hqname])
      have hfits : { q with
          proxiedVsfVotes := Vector.ofFn fun i : Fin 4 =>
            if i.val = 3 - remaining then q.proxiedVsfVotes[i] + d else q.proxiedVsfVotes[i] }.fits
          = true := by
        apply fits_proxied hqfits
        intro i
        rw [addAt_get]
        split
        next hi => exact hqvotes i (by omega)
        next =>
          rw [add_zero]
          exact fits_proxied_get hqfits i
      refine .bind (modifyAccount_completes hq hfits) fun t he => ?_
      have ht := h.editProxied he rfl rfl rfl rfl rfl rfl
        (e := fun i => if i = 3 - remaining then d else 0) fun i =>
          addAt_get q.proxiedVsfVotes.get (3 - remaining) d i
      have hnames : t.accounts.rows.map Account.name = s.accounts.rows.map Account.name :=
        he.replaces.map_eq rfl
      have hprops : t.props = s.props := by rw [he.rest]
      have hwitnesses : t.witnesses = s.witnesses := by rw [he.rest]
      have hlater : ∀ k ≤ remaining, ∀ p, ancestor b.up k a.proxy = some p →
          ∀ w ∈ t.witnesses.rows, ⟨w.owner, p⟩ ∈ b.ballots →
            0 ≤ w.votes + d ∧ w.votes + d ≤ t.props.totalVestingShares := by
        intro k hk p hp w hw hballot
        rw [hwitnesses] at hw
        rw [hprops]
        exact hvotes (k + 1) (by omega) p (by rw [ancestor_succ_of_some hup, hp]) w hw hballot
      refine ih (by omega) ht ?_ (hprops ▸ hmax) (fun k hk p hp habove => ?_) hlater
        (hlater 0 (Nat.zero_le remaining) a.proxy rfl)
      · rw [hnames]
        exact h.proxyExists a.name a.proxy hup
      · -- what lies further up has not been changed yet
        rcases he.replaces.mem_or h.names hp with rfl | ⟨hp, -⟩
        · exact absurd (hqname ▸ habove) (h.acyclic a.proxy k)
        · obtain ⟨hpfits, hpvotes⟩ := hproxied (k + 1) (by omega) p hp
            (by rw [ancestor_succ_of_some hup]; exact habove)
          exact ⟨hpfits, fun i hi => hpvotes i (by omega)⟩

/-- **When an account has got `d` more shares**, its votes can be carried to the
witnesses if they can take them. -/
theorem Tallied.adjust_completes (h : Tallied s) (he : Edited s t name a a')
    (hname : a'.name = a.name)
    (hproxy : a'.proxy = a.proxy) (hvoted : a'.witnessesVotedFor = a.witnessesVotedFor)
    (hsame : a'.proxiedVsfVotes = a.proxiedVsfVotes) (hrate : 0 ≤ a'.vestingWithdrawRate)
    (hwithdraw : 0 ≤ a'.toWithdraw) (hshares : a'.vestingShares = a.vestingShares + d)
    (hu : u = { t with props := u.props })
    (hmax : u.props.totalVestingShares < 9223372036854775808)
    (hfits : s.accounts.All fun c => c.fits = true)
    (hproxied : ∀ p ∈ s.accounts.rows, ∀ i : Fin 4,
      ancestor (proxyOf s.accounts.rows) (i.val + 1) name = some p.name →
      fitsInt64 (p.proxiedVsfVotes.get i + d) = true)
    (hvotes : ∀ owner, s.supports name owner →
      0 ≤ s.supportOf owner + d ∧ s.supportOf owner + d ≤ u.props.totalVestingShares) :
    Completes (u.adjustProxiedWitnessVotes name d) fun _ => True := by
  have ht := Books.editShares h he hname hproxy hvoted hsame hrate hwithdraw hshares
  have hbooks := ht.same (t := u) (by rw [hu]) (by rw [hu]) (by rw [hu]) (by rw [hu])
  have haccounts : u.accounts = t.accounts := by rw [hu]
  have hnames : t.accounts.rows.map Account.name = s.accounts.rows.map Account.name :=
    he.replaces.map_eq hname
  have hwitnesses : u.witnesses = s.witnesses := by rw [hu, he.rest]
  have hup : s.page.up = proxyOf s.accounts.rows := rfl
  unfold Database.adjustProxiedWitnessVotes maxProxyRecursionDepth
  refine adjustProxied_completes le_rfl hbooks ?_ hmax (fun k hk p hp habove => ?_)
    fun k hk p hp w hw hballot => ?_
  · rw [haccounts, hnames, ← he.name_eq]
    exact List.mem_map_of_mem he.mem
  · rw [haccounts] at hp
    rcases he.replaces.mem_or (Books.names h) hp with rfl | ⟨hp, -⟩
    · refine ⟨he.fits, fun i hi => ?_⟩
      rw [hsame]
      apply hproxied a he.mem
      have hik : i.val = k := by omega
      rw [hik, ← hname]
      exact habove
    · refine ⟨hfits p hp, fun i hi => hproxied p hp i ?_⟩
      have hik : i.val = k := by omega
      rw [hik]
      exact habove
  · rw [hwitnesses] at hw
    have hmem := Books.voterExists h _ hballot
    have hsupports : s.supports name w.owner :=
      ⟨p, hmem, hballot, k, List.mem_range.mpr (by omega), hp⟩
    rw [h.votes_eq hw]
    exact hvotes w.owner hsupports

/-! ## What an account withdraws -/

/-- What an account withdraws this week: the rate, or what is left. -/
def weekOf (a : Account) : Int := min (a.toWithdraw - a.withdrawn) a.vestingWithdrawRate

theorem weeklyWithdrawal_eq (ha : Covered a) (hmax : a.toWithdraw < 9223372036854775808) :
    weeklyWithdrawal a = .ok (weekOf a) := by
  have hdelegated := ha.delegated
  have hwithdrawn := ha.withdrawn
  have hleaving := ha.leaving
  have hcovered := ha.covered
  have hsub : checkedSub a.toWithdraw a.withdrawn = .ok (a.toWithdraw - a.withdrawn) := by
    unfold checkedSub
    rw [ensure_bind_eq_ok]
    exact ⟨fitsInt64_iff.mpr (by omega), rfl⟩
  unfold weeklyWithdrawal weekOf
  rw [bind_eq_ok]
  refine ⟨_, hsub, ?_⟩
  split
  next hlast =>
    rw [ensure_bind_eq_ok, pure_eq_ok, ha.tmod_eq hlast]
    exact ⟨decide_eq_true (by omega), by omega⟩
  next hmore =>
    rw [pure_eq_ok]
    omega

/-- An account that may be withdrawing: its shares, delegated or not, cover
what is left. -/
def Leaving (a : Account) : Prop := 0 ≤ a.delegatedVestingShares ∧ Covered a.undelegated

theorem Leaving.week_nonneg (ha : Leaving a) : 0 ≤ weekOf a := by
  have hleaving := ha.2.leaving
  have hrate := ha.2.rate
  dsimp only [Account.undelegated] at hleaving hrate
  unfold weekOf
  omega

theorem Leaving.week_le (ha : Leaving a) :
    weekOf a ≤ a.vestingShares ∧ a.withdrawn + weekOf a ≤ a.toWithdraw := by
  have hcovered := ha.2.covered
  dsimp only [Account.undelegated] at hcovered
  unfold weekOf
  omega

theorem leaving_kept :
    Kept (fun _ x => 0 ≤ x) (fun a x => 0 ≤ x ∧ x ≤ a.delegatedVestingShares) Leaving where
  congr := by
    intro a a' hpower ha
    have hdelegated := congrArg Account.delegatedVestingShares hpower
    have hless : a'.undelegated.power = a.undelegated.power := congrArg Account.undelegated hpower
    exact ⟨ha.1.trans hdelegated.ge, covered_kept.congr hless ha.2⟩
  create := fun name amount => ⟨le_rfl, covered_kept.create name amount⟩
  gain := fun {a} _ hx ha => ⟨ha.1, covered_kept.gain (a := a.undelegated) hx ha.2⟩
  receive := fun {a} x ha => ⟨ha.1, covered_kept.receive (a := a.undelegated) x ha.2⟩
  delegate := fun _ hx _ ha => ⟨add_nonneg ha.1 hx, ha.2⟩
  lend := fun _ hx ha => ⟨add_nonneg ha.1 hx, ha.2⟩
  back := fun hx ha => ⟨sub_nonneg.mpr hx.2, ha.2⟩
  withdraw := by
    intro a rate shares next hnull hrate hshares hle ha
    have hdelegated := ha.1
    have hall : shares ≤ a.undelegated.vestingShares - a.undelegated.delegatedVestingShares := by
      dsimp only [Account.undelegated]
      omega
    exact ⟨ha.1, covered_kept.withdraw (a := a.undelegated) next hnull hrate hshares hall ha.2⟩
  week := by
    intro a c toWithdraw hweek hgrown ha hc
    have hgrown' : a.undelegated.GrownTo c.undelegated :=
      ⟨congrArg Account.undelegated hgrown.1, hgrown.2⟩
    exact ⟨hc.1, hc.2.withdrawWeek (weeklyWithdrawal_of_covered ha.2 toWithdraw hweek) hgrown'⟩
  burn := fun {a} hnull ha => ⟨ha.1, covered_kept.burn (a := a.undelegated) hnull ha.2⟩

/-! ## Shares converted to GBC -/

/-- The fund is there to pay for the shares. -/
structure Funded (p : GlobalProperties) : Prop where
  nonneg : 0 ≤ p.totalVestingShares
  shares : p.totalVestingShares < 9223372036854775808
  positive : 0 < p.totalVestingShares → 0 < p.totalVestingFundGbc
  fund : p.totalVestingFundGbc < 9223372036854775808

/-- What `x` shares are worth: not more than the fund, and all of it only if
they are all shares. -/
structure Worth (p : GlobalProperties) (x converted : Int) : Prop where
  nonneg : 0 ≤ converted
  none : p.totalVestingShares = 0 → converted = 0
  atMost : 0 < p.totalVestingShares → converted ≤ p.totalVestingFundGbc
  less : x < p.totalVestingShares → converted < p.totalVestingFundGbc

theorem convert_completes {p : GlobalProperties} (hp : Funded p) {x : Int} (hx : 0 ≤ x)
    (hle : x ≤ p.totalVestingShares) :
    Completes p.getVestingSharePrice fun price =>
      Completes ((Asset.gbs x).times price) fun converted => Worth p x converted.amount := by
  have hshares := hp.shares
  have hfund := hp.fund
  unfold GlobalProperties.getVestingSharePrice
  by_cases hzero : p.totalVestingShares = 0
  · -- there are no shares to convert
    have hnone : x = 0 := by omega
    rw [if_pos (Or.inr hzero), hnone]
    refine .of_eq rfl (.of_eq rfl ?_)
    exact ⟨le_rfl, fun _ => rfl, fun hpos => by omega, fun hlt => by omega⟩
  · have htotal : 0 < p.totalVestingShares := lt_of_le_of_ne hp.nonneg (Ne.symm hzero)
    have hpos := hp.positive htotal
    rw [if_neg (by omega)]
    have hprice : Price.make (.gbs p.totalVestingShares) (.gbc p.totalVestingFundGbc) =
        .ok ⟨.gbs p.totalVestingShares, .gbc p.totalVestingFundGbc⟩ := by
      unfold Price.make Price.validate
      simp [Asset.gbs, Asset.gbc, htotal, hpos, Lib.ensure]
      rfl
    refine .of_eq hprice ?_
    have hmul : x * p.totalVestingFundGbc ≤ p.totalVestingShares * p.totalVestingFundGbc :=
      mul_le_mul_of_nonneg_right hle hpos.le
    have hprod : p.totalVestingShares * p.totalVestingFundGbc ≤
        9223372036854775808 * 9223372036854775808 :=
      mul_le_mul hshares.le hfund.le hpos.le (by decide)
    have hscaled : scaled x p.totalVestingFundGbc p.totalVestingShares =
        x * p.totalVestingFundGbc / p.totalVestingShares := by
      unfold scaled
      rw [toUInt128_of_mem hx (by unfold maxUInt128; omega),
        toUInt128_of_mem hpos.le (by unfold maxUInt128; omega),
        toUInt128_of_mem htotal.le (by unfold maxUInt128; omega),
        toUInt128_of_mem (mul_nonneg hx hpos.le) (by unfold maxUInt128; omega)]
    have hnonneg : 0 ≤ x * p.totalVestingFundGbc / p.totalVestingShares :=
      Int.ediv_nonneg (mul_nonneg hx hpos.le) htotal.le
    have hatMost : x * p.totalVestingFundGbc / p.totalVestingShares ≤ p.totalVestingFundGbc := by
      apply Int.ediv_le_of_le_mul htotal
      rwa [mul_comm p.totalVestingFundGbc]
    have hless : x < p.totalVestingShares →
        x * p.totalVestingFundGbc / p.totalVestingShares < p.totalVestingFundGbc := by
      intro hlt
      apply Int.ediv_lt_of_lt_mul htotal
      rw [mul_comm p.totalVestingFundGbc]
      exact mul_lt_mul_of_pos_right hlt hpos
    show Completes ((Asset.gbs x).scale (.gbc p.totalVestingFundGbc) (.gbs p.totalVestingShares)) _
    unfold Asset.scale
    refine .ensure (decide_eq_true htotal) (.ensure ?_ (.pure ?_))
    · apply decide_eq_true
      show scaled x p.totalVestingFundGbc p.totalVestingShares < _
      rw [hscaled]
      omega
    · show Worth p x (toInt64 (scaled x p.totalVestingFundGbc p.totalVestingShares))
      have hword : toInt64 (x * p.totalVestingFundGbc / p.totalVestingShares) =
          x * p.totalVestingFundGbc / p.totalVestingShares := if_pos (by omega)
      rw [hscaled, hword]
      exact ⟨hnonneg, fun h => absurd h hzero, fun _ => hatMost, hless⟩

/-- The fund after the shares have been converted. -/
theorem Funded.convert {p : GlobalProperties} (hp : Funded p) {x converted : Int} (hx : 0 ≤ x)
    (hle : x ≤ p.totalVestingShares) (hworth : Worth p x converted) :
    Funded { p with
      totalVestingFundGbc := p.totalVestingFundGbc - converted
      totalVestingShares := p.totalVestingShares - x } := by
  have h1 := hp.shares
  have h2 := hp.fund
  have h3 := hworth.nonneg
  exact
    { nonneg := by dsimp only; omega
      shares := by dsimp only; omega
      positive := by
        dsimp only
        intro hpos
        have := hworth.less (by omega)
        omega
      fund := by dsimp only; omega }

theorem fits_props {p : GlobalProperties} (h : p.fits = true) {fund shares : Int}
    (hfund : fitsInt64 fund = true) (hshares : fitsInt64 shares = true) :
    { p with totalVestingFundGbc := fund, totalVestingShares := shares }.fits = true := by
  simp only [GlobalProperties.fits, List.all_cons, List.all_nil, Bool.and_true, Bool.and_eq_true]
    at h ⊢
  tauto

theorem fits_totals {p : GlobalProperties} (h : p.fits = true) :
    fitsInt64 p.totalVestingFundGbc = true ∧ fitsInt64 p.totalVestingShares = true := by
  simp only [GlobalProperties.fits, List.all_cons, List.all_nil, Bool.and_true, Bool.and_eq_true]
    at h
  tauto

theorem fits_power (h : a.fits = true) {shares balance withdrawn rate : Int} {next : Nat}
    (hshares : fitsInt64 shares = true) (hbalance : fitsInt64 balance = true)
    (hwithdrawn : fitsInt64 withdrawn = true) (hrate : fitsInt64 rate = true) :
    { a with
      vestingShares := shares, balance := balance, withdrawn := withdrawn
      vestingWithdrawRate := rate, nextVestingWithdrawal := next }.fits = true := by
  simp only [Account.fits, List.all_cons, List.all_nil, Bool.and_true, Bool.and_eq_true] at h ⊢
  tauto

theorem fits_amounts (h : a.fits = true) :
    fitsInt64 a.vestingShares = true ∧ fitsInt64 a.balance = true ∧ fitsInt64 a.withdrawn = true ∧
      fitsInt64 a.vestingWithdrawRate = true ∧ fitsInt64 a.toWithdraw = true := by
  simp only [Account.fits, List.all_cons, List.all_nil, Bool.and_true, Bool.and_eq_true] at h
  tauto

end Database

end Gamebank.Ledger
