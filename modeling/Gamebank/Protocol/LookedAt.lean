import Gamebank.Protocol.Approval

/-!
# Which keys a check looks at

A check of an authority goes through its keys and then its accounts, and stops
when the threshold is reached. `lookedAt` are the keys it comes across that
way if nothing is remembered and there are levels enough (`Within`): then the
answer is the plain one, and does not depend on the levels.

With fewer signatures a check stops later. So a check with some signatures has
looked at all that the check with more of them looks at, also where it skips an
account that it remembers: that one it has been through before (`Kept`).
-/

namespace Gamebank.Protocol

variable {Key : Type}

/-- The keys up to the one that reaches the threshold, and the total if none does. -/
def scanKeys (threshold : Nat) (signed : Key → Bool) :
    List (Key × UInt16) → Nat → List Key × Option Nat
  | [], total => ([], some total)
  | (k, weight) :: rest, total =>
      if signed k then
        if threshold ≤ total + weight.toNat then ([k], none)
        else
          (k :: (scanKeys threshold signed rest (total + weight.toNat)).1,
            (scanKeys threshold signed rest (total + weight.toNat)).2)
      else (k :: (scanKeys threshold signed rest total).1, (scanKeys threshold signed rest total).2)

/-- What is below the accounts up to the one that reaches the threshold. -/
def scanAccounts (threshold : Nat) (approved : String → Bool) (below : String → List Key) :
    List (String × UInt16) → Nat → List Key
  | [], _ => []
  | (a, weight) :: rest, total =>
      below a ++
        if approved a then
          if threshold ≤ total + weight.toNat then []
          else scanAccounts threshold approved below rest (total + weight.toNat)
        else scanAccounts threshold approved below rest total

/-- There is a signature that has been looked at. -/
def flagged (s : SignState Key) (k : Key) : Prop := (k, true) ∈ s.providedSignatures

namespace SignContext

/-- What a check with so many levels looks at below an account. -/
def below (looked : Authority Key → List Key) (c : SignContext Key) (a : String) : List Key :=
  if a = "temp" then [] else looked (c.getActive a)

/-- The keys and what is below the accounts. -/
def scan (signed : Key → Bool) (approved : String → Bool) (below : String → List Key)
    (auth : Authority Key) : List Key :=
  let keys := scanKeys auth.weightThreshold.toNat signed auth.keyAuths 0
  keys.1 ++
    match keys.2 with
    | none => []
    | some total =>
        scanAccounts auth.weightThreshold.toNat approved below auth.accountAuths total

/-- The keys that a check looks at. -/
def lookedAt (c : SignContext Key) (signed : Key → Bool) : Nat → Authority Key → List Key
  | 0, auth => scan signed (c.approvedFrom signed (· = "temp") 0) (fun _ => []) auth
  | left + 1, auth =>
      scan signed (c.approvedFrom signed (· = "temp") (left + 1))
        (below (c.lookedAt signed left) c) auth

/-- A check with so many levels goes no deeper than them. -/
def Within (c : SignContext Key) : Nat → Authority Key → Prop
  | 0, auth => ∀ item ∈ auth.accountAuths, item.1 = "temp"
  | left + 1, auth =>
      ∀ item ∈ auth.accountAuths, item.1 = "temp" ∨ c.Within left (c.getActive item.1)

variable {c : SignContext Key} {signed wide : Key → Bool} {auth : Authority Key} {n m : Nat}

/-! ## What the context is needed for -/

section

variable {c' : SignContext Key} (hget : c'.getActive = c.getActive)

include hget

theorem approvedFrom_congr (base : String → Bool) (n : Nat) (a : String) :
    c'.approvedFrom signed base n a = c.approvedFrom signed base n a := by
  induction n generalizing a with
  | zero => rfl
  | succ n ih =>
      have hsame : c'.approvedFrom signed base n = c.approvedFrom signed base n := funext ih
      rw [approvedFrom, approvedFrom, hsame, hget]

theorem lookedAt_congr (n : Nat) (auth : Authority Key) :
    c'.lookedAt signed n auth = c.lookedAt signed n auth := by
  have hsame : ∀ n, c'.approvedFrom signed (· = "temp") n = c.approvedFrom signed (· = "temp") n :=
    fun n => funext (approvedFrom_congr hget _ n)
  induction n generalizing auth with
  | zero => rw [lookedAt, lookedAt, hsame]
  | succ n ih =>
      have hbelow : below (c'.lookedAt signed n) c' = below (c.lookedAt signed n) c := by
        funext a
        rw [below, below, hget, ih]
      rw [lookedAt, lookedAt, hsame, hbelow]

theorem within_congr (n : Nat) (auth : Authority Key) : c'.Within n auth ↔ c.Within n auth := by
  induction n generalizing auth with
  | zero => exact Iff.rfl
  | succ n ih => simp only [Within, hget, ih]

end

/-! ## Levels -/

theorem Within.succ (h : c.Within n auth) : c.Within (n + 1) auth := by
  induction n generalizing auth with
  | zero => exact fun item hitem => Or.inl (h item hitem)
  | succ n ih => exact fun item hitem => (h item hitem).imp_right ih

theorem Within.mono (h : c.Within n auth) (hle : n ≤ m) : c.Within m auth := by
  induction hle with
  | refl => exact h
  | step _ ih => exact ih.succ

theorem weightWhere_congr {α : Type} {p q : α → Bool} {auths : List (α × UInt16)}
    (h : ∀ item ∈ auths, p item.1 = q item.1) : weightWhere p auths = weightWhere q auths := by
  refine Nat.le_antisymm (weightWhere_le fun item hitem _ hp => ?_)
    (weightWhere_le fun item hitem _ hq => ?_)
  · rw [← h item hitem]
    exact hp
  · rw [h item hitem]
    exact hq

/-- One level more makes no difference. -/
theorem Within.ok_succ (h : c.Within n auth) : c.ok signed (n + 1) auth = c.ok signed n auth := by
  induction n generalizing auth with
  | zero =>
      unfold ok Authority.reached Authority.weight
      congr 3
      refine weightWhere_congr fun item hitem => ?_
      rw [h item hitem, approvedFrom_base (by simp), approvedFrom_base (by simp)]
  | succ n ih =>
      unfold ok Authority.reached Authority.weight
      congr 3
      refine weightWhere_congr fun item hitem => ?_
      rcases h item hitem with htemp | hwithin
      · rw [htemp, approvedFrom_base (by simp), approvedFrom_base (by simp)]
      · exact congrArg (decide (item.1 = "temp") || ·) (ih hwithin)

theorem Within.ok_eq (h : c.Within n auth) (hle : n ≤ m) :
    c.ok signed m auth = c.ok signed n auth := by
  induction hle with
  | refl => rfl
  | step hle ih => rw [(h.mono hle).ok_succ, ih]

theorem scanAccounts_congr {threshold : Nat} {p q : String → Bool} {f g : String → List Key}
    {auths : List (String × UInt16)} (hp : ∀ item ∈ auths, p item.1 = q item.1)
    (hf : ∀ item ∈ auths, f item.1 = g item.1) (total : Nat) :
    scanAccounts threshold p f auths total = scanAccounts threshold q g auths total := by
  induction auths generalizing total with
  | nil => rfl
  | cons item rest ih =>
      have hrest := ih (fun i hi => hp i (List.mem_cons_of_mem _ hi))
        fun i hi => hf i (List.mem_cons_of_mem _ hi)
      rw [scanAccounts, scanAccounts, hp item List.mem_cons_self, hf item List.mem_cons_self,
        hrest, hrest]

theorem Within.approved_succ (h : c.Within n auth) :
    ∀ item ∈ auth.accountAuths, c.approvedFrom signed (· = "temp") (n + 1) item.1 =
      c.approvedFrom signed (· = "temp") n item.1 := by
  intro item hitem
  cases n with
  | zero => rw [h item hitem, approvedFrom_base (by simp), approvedFrom_base (by simp)]
  | succ n =>
      rcases h item hitem with htemp | hwithin
      · rw [htemp, approvedFrom_base (by simp), approvedFrom_base (by simp)]
      · exact congrArg (decide (item.1 = "temp") || ·) hwithin.ok_succ

theorem scan_congr {p q : String → Bool} {f g : String → List Key}
    (hp : ∀ item ∈ auth.accountAuths, p item.1 = q item.1)
    (hf : ∀ item ∈ auth.accountAuths, f item.1 = g item.1) :
    scan signed p f auth = scan signed q g auth := by
  unfold scan
  dsimp only
  split
  · rfl
  · rw [scanAccounts_congr hp hf]

theorem Within.lookedAt_succ (h : c.Within n auth) :
    c.lookedAt signed (n + 1) auth = c.lookedAt signed n auth := by
  induction n generalizing auth with
  | zero =>
      refine scan_congr h.approved_succ fun item hitem => ?_
      rw [below, if_pos (h item hitem)]
  | succ n ih =>
      refine scan_congr h.approved_succ fun item hitem => ?_
      rcases h item hitem with htemp | hwithin
      · rw [below, if_pos htemp, below, if_pos htemp]
      · rw [below, below, ih hwithin]

theorem Within.lookedAt_eq (h : c.Within n auth) (hle : n ≤ m) :
    c.lookedAt signed m auth = c.lookedAt signed n auth := by
  induction hle with
  | refl => rfl
  | step hle ih => rw [(h.mono hle).lookedAt_succ, ih]

/-- Levels that are enough give the same answer and look at the same keys. -/
theorem Within.agree (signed wide : Key → Bool) (hn : c.Within n auth) (hm : c.Within m auth) :
    c.ok signed n auth = c.ok signed m auth ∧ c.lookedAt wide n auth = c.lookedAt wide m auth := by
  rcases Nat.le_total n m with hle | hle
  · exact ⟨(hn.ok_eq hle).symm, (hn.lookedAt_eq hle).symm⟩
  · exact ⟨hm.ok_eq hle, hm.lookedAt_eq hle⟩

/-! ## More signatures -/

theorem ok_mono (hwide : ∀ k, signed k = true → wide k = true)
    (h : c.ok signed n auth = true) : c.ok wide n auth = true := by
  induction n generalizing auth with
  | zero =>
      unfold ok Authority.reached Authority.weight at *
      rw [decide_eq_true_eq] at *
      exact Nat.le_trans h (Nat.add_le_add_right (weightWhere_mono _ hwide) _)
  | succ n ih =>
      unfold ok Authority.reached Authority.weight at *
      rw [decide_eq_true_eq] at *
      have happroved : ∀ a, c.approvedFrom signed (· = "temp") (n + 1) a = true →
          c.approvedFrom wide (· = "temp") (n + 1) a = true := by
        intro a ha
        rcases Bool.or_eq_true_iff.mp ha with htemp | hok
        · exact approvedFrom_base htemp
        · exact Bool.or_eq_true_iff.mpr (Or.inr (ih hok))
      exact Nat.le_trans h
        (Nat.add_le_add (weightWhere_mono _ hwide) (weightWhere_mono _ happroved))

theorem approved_mono (hwide : ∀ k, signed k = true → wide k = true) {a : String}
    (h : c.approvedFrom signed (· = "temp") n a = true) :
    c.approvedFrom wide (· = "temp") n a = true := by
  cases n with
  | zero => exact h
  | succ n =>
      rcases Bool.or_eq_true_iff.mp h with htemp | hok
      · exact approvedFrom_base htemp
      · exact Bool.or_eq_true_iff.mpr (Or.inr (ok_mono hwide hok))

/-- With fewer signatures at least as many keys are looked at. -/
theorem scanKeys_mono (threshold : Nat) (hwide : ∀ k, signed k = true → wide k = true)
    (keys : List (Key × UInt16)) {total total' : Nat} (hle : total ≤ total') :
    (∀ k ∈ (scanKeys threshold wide keys total').1, k ∈ (scanKeys threshold signed keys total).1) ∧
      ∀ t', (scanKeys threshold wide keys total').2 = some t' →
        ∃ t, (scanKeys threshold signed keys total).2 = some t ∧ t ≤ t' := by
  induction keys generalizing total total' with
  | nil =>
      refine ⟨fun k hk => hk, fun t' ht => ⟨total, rfl, ?_⟩⟩
      rw [← Option.some.inj ht]
      exact hle
  | cons item rest ih =>
      obtain ⟨k, weight⟩ := item
      have hcons : ∀ {t t'}, t ≤ t' → (∀ j ∈ k :: (scanKeys threshold wide rest t').1,
          j ∈ k :: (scanKeys threshold signed rest t).1) := fun hle' j hj =>
        (List.mem_cons.mp hj).elim (fun heq => heq ▸ List.mem_cons_self)
          fun hj => List.mem_cons_of_mem k ((ih hle').1 j hj)
      rw [scanKeys, scanKeys]
      by_cases hk : signed k = true
      · rw [if_pos hk, if_pos (hwide k hk)]
        by_cases hreached' : threshold ≤ total' + weight.toNat
        · rw [if_pos hreached']
          refine ⟨fun j hj => ?_, fun t' ht => by cases ht⟩
          rw [List.mem_singleton.mp hj]
          split <;> exact List.mem_cons_self
        · have hnot : ¬threshold ≤ total + weight.toNat := by omega
          rw [if_neg hreached', if_neg hnot]
          exact ⟨hcons (by omega), (ih (by omega)).2⟩
      · rw [if_neg hk]
        by_cases hk' : wide k = true
        · rw [if_pos hk']
          by_cases hreached' : threshold ≤ total' + weight.toNat
          · rw [if_pos hreached']
            refine ⟨fun j hj => ?_, fun t' ht => by cases ht⟩
            rw [List.mem_singleton.mp hj]
            exact List.mem_cons_self
          · rw [if_neg hreached']
            exact ⟨hcons (by omega), (ih (by omega)).2⟩
        · rw [if_neg hk']
          exact ⟨hcons hle, (ih hle).2⟩

/-! ## The keys that are looked at are enough -/

variable {small : Key → Bool}

/-- The keys that are looked at have the weight. -/
theorem scanKeys_enough (threshold : Nat) (keys : List (Key × UInt16)) (total : Nat)
    (hsmall : ∀ k ∈ (scanKeys threshold signed keys total).1, signed k = true → small k = true) :
    ((scanKeys threshold signed keys total).2 = none →
      threshold ≤ total + weightWhere small keys) ∧
    ∀ t, (scanKeys threshold signed keys total).2 = some t →
      t = total + weightWhere signed keys ∧ t ≤ total + weightWhere small keys := by
  induction keys generalizing total with
  | nil =>
      constructor
      · intro h
        cases h
      · intro t ht
        cases ht
        exact ⟨rfl, Nat.le_refl _⟩
  | cons item rest ih =>
      obtain ⟨k, weight⟩ := item
      rw [scanKeys] at hsmall ⊢
      rw [weightWhere_cons, weightWhere_cons]
      by_cases hk : signed k = true
      · rw [if_pos hk] at hsmall ⊢
        by_cases hreached : threshold ≤ total + weight.toNat
        · rw [if_pos hreached] at hsmall ⊢
          have hk' := hsmall k List.mem_cons_self hk
          rw [if_pos hk']
          exact ⟨fun _ => by omega, fun t ht => by cases ht⟩
        · rw [if_neg hreached] at hsmall ⊢
          have hk' := hsmall k List.mem_cons_self hk
          rw [if_pos hk, if_pos hk']
          obtain ⟨hnone, hsome⟩ := ih (total + weight.toNat)
            fun j hj => hsmall j (List.mem_cons_of_mem k hj)
          refine ⟨fun h => ?_, fun t ht => ?_⟩
          · have hle := hnone h
            omega
          · obtain ⟨heq, hle⟩ := hsome t ht
            omega
      · rw [if_neg hk] at hsmall ⊢
        obtain ⟨hnone, hsome⟩ := ih total fun j hj => hsmall j (List.mem_cons_of_mem k hj)
        rw [if_neg hk]
        refine ⟨fun h => ?_, fun t ht => ?_⟩
        · have hle := hnone h
          omega
        · obtain ⟨heq, hle⟩ := hsome t ht
          omega

/-- The accounts that are looked at have the weight. -/
theorem scanAccounts_enough (threshold : Nat) {approved approved' : String → Bool}
    {below : String → List Key}
    (happroved : ∀ a, approved a = true → (∀ k ∈ below a, signed k = true → small k = true) →
      approved' a = true) (auths : List (String × UInt16)) {total total' : Nat}
    (hle : total ≤ total')
    (hsmall : ∀ k ∈ scanAccounts threshold approved below auths total,
      signed k = true → small k = true)
    (hreached : threshold ≤ total + weightWhere approved auths) :
    threshold ≤ total' + weightWhere approved' auths := by
  induction auths generalizing total total' with
  | nil => exact Nat.le_trans hreached (Nat.add_le_add_right hle _)
  | cons item rest ih =>
      obtain ⟨a, weight⟩ := item
      rw [scanAccounts] at hsmall
      rw [weightWhere_cons] at hreached ⊢
      by_cases ha : approved a = true
      · have ha' := happroved a ha fun k hk => hsmall k (List.mem_append_left _ hk)
        rw [if_pos ha] at hsmall hreached
        rw [if_pos ha']
        by_cases hstop : threshold ≤ total + weight.toNat
        · omega
        · rw [if_neg hstop] at hsmall
          have hle' : total + weight.toNat ≤ total' + weight.toNat := by omega
          have hrest := ih hle' (fun k hk => hsmall k (List.mem_append_right _ hk)) (by omega)
          omega
      · rw [if_neg ha] at hsmall hreached
        have hrest := ih hle (fun k hk => hsmall k (List.mem_append_right _ hk)) (by omega)
        omega

theorem reached_of_scan {approved approved' : String → Bool} {below : String → List Key}
    (happroved : ∀ a, approved a = true → (∀ k ∈ below a, signed k = true → small k = true) →
      approved' a = true)
    (hsmall : ∀ k ∈ scan signed approved below auth, signed k = true → small k = true)
    (h : auth.reached signed approved = true) : auth.reached small approved' = true := by
  unfold Authority.reached Authority.weight at h ⊢
  rw [decide_eq_true_eq] at h ⊢
  unfold scan at hsmall
  dsimp only at hsmall
  obtain ⟨hnone, hsome⟩ := scanKeys_enough auth.weightThreshold.toNat auth.keyAuths 0
    fun k hk => hsmall k (List.mem_append_left _ hk)
  cases hscan : (scanKeys auth.weightThreshold.toNat signed auth.keyAuths 0).2 with
  | none =>
      have hle := hnone hscan
      omega
  | some total =>
      obtain ⟨htotal, hle⟩ := hsome total hscan
      rw [hscan] at hsmall
      have haccounts := scanAccounts_enough auth.weightThreshold.toNat happroved auth.accountAuths
        (Nat.le_refl total) (fun k hk => hsmall k (List.mem_append_right _ hk)) (by omega)
      omega

/-- The keys that a check looks at are enough for it. -/
theorem ok_of_lookedAt
    (hsmall : ∀ k ∈ c.lookedAt signed n auth, signed k = true → small k = true)
    (h : c.ok signed n auth = true) : c.ok small n auth = true := by
  induction n generalizing auth with
  | zero => exact reached_of_scan (fun a ha _ => ha) hsmall h
  | succ n ih =>
      refine reached_of_scan (fun a ha hbelow => ?_) hsmall h
      rcases Bool.or_eq_true_iff.mp ha with htemp | hok
      · exact approvedFrom_base htemp
      · by_cases htemp : a = "temp"
        · exact approvedFrom_base (decide_eq_true htemp)
        · rw [below, if_neg htemp] at hbelow
          exact Bool.or_eq_true_iff.mpr (Or.inr (ih hbelow hok))

/-! ## What a check has looked at -/

variable [DecidableEq Key] {s t u : SignState Key} {low low' high high' : List Key}

theorem signedBy_flagged (k j : Key) :
    flagged (c.signedBy k s).2 j ↔ flagged s j ∨ (j = k ∧ c.signs s k = true) := by
  unfold signedBy signs flagged
  by_cases hk : k ∈ s.providedSignatures.map Prod.fst
  · rw [if_pos hk]
    obtain ⟨sig, hsig, rfl⟩ := List.mem_map.mp hk
    simp only [List.mem_map, hk, decide_true, Bool.true_or, and_true]
    constructor
    · rintro ⟨other, hother, heq⟩
      by_cases hfst : other.1 = sig.1
      · rw [if_pos hfst] at heq
        exact Or.inr (congrArg Prod.fst heq).symm
      · rw [if_neg hfst] at heq
        exact Or.inl (heq ▸ hother)
    · rintro (hj | rfl)
      · refine ⟨(j, true), hj, ?_⟩
        by_cases hfst : j = sig.1
        · rw [if_pos hfst, hfst]
        · rw [if_neg hfst]
      · exact ⟨sig, hsig, if_pos rfl⟩
  · rw [if_neg hk]
    by_cases hav : k ∈ c.availableKeys
    · rw [if_pos hav]
      simp [hav, or_comm]
    · rw [if_neg hav]
      simp [hk, hav]

/-- The loop over the keys looks at those up to the threshold. -/
theorem checkKeys_looks (threshold : UInt32) (keys : List (Key × UInt16)) (total : UInt32)
    (s : SignState Key) (hfits : total.toNat + weightWhere (c.signs s) keys < 4294967296) :
    (∀ j, flagged (c.checkKeys threshold keys total s).2 j ↔ flagged s j ∨
      (c.signs s j = true ∧ j ∈ (scanKeys threshold.toNat (c.signs s) keys total.toNat).1)) ∧
    (c.checkKeys threshold keys total s).1.map UInt32.toNat =
      (scanKeys threshold.toNat (c.signs s) keys total.toNat).2 := by
  induction keys generalizing total s with
  | nil => exact ⟨by simp [checkKeys, scanKeys], rfl⟩
  | cons item rest ih =>
      obtain ⟨k, weight⟩ := item
      obtain ⟨hsigned, hsigns, -⟩ := signedBy_spec (c := c) (s := s) k
      have hflagged := signedBy_flagged (c := c) (s := s) k
      rw [weightWhere_cons] at hfits
      rw [checkKeys, scanKeys]
      generalize c.signedBy k s = r at hsigned hsigns hflagged ⊢
      obtain ⟨b, s'⟩ := r
      dsimp only at hsigned hsigns hflagged
      rw [← hsigned] at hfits hflagged ⊢
      -- what is flagged after this key and a rest that looks at `l`
      have hcons : ∀ (P : Key → Prop) (l : List Key),
          (∀ j, P j ↔ flagged s' j ∨ (c.signs s j = true ∧ j ∈ l)) →
          ∀ j, P j ↔ flagged s j ∨ (c.signs s j = true ∧ j ∈ k :: l) := by
        intro P l hP j
        rw [hP, hflagged, List.mem_cons]
        constructor
        · rintro ((hj | ⟨rfl, hk⟩) | ⟨hj, hl⟩)
          · exact Or.inl hj
          · exact Or.inr ⟨hsigned ▸ hk, Or.inl rfl⟩
          · exact Or.inr ⟨hj, Or.inr hl⟩
        · rintro (hj | ⟨hj, rfl | hl⟩)
          · exact Or.inl (Or.inl hj)
          · exact Or.inl (Or.inr ⟨rfl, hsigned.trans hj⟩)
          · exact Or.inr ⟨hj, hl⟩
      cases b with
      | true =>
          simp only [if_true] at hfits ⊢
          have hadd := toNat_add_weight total weight (by omega)
          have hle : threshold ≤ total + weight.toUInt32 ↔
              threshold.toNat ≤ total.toNat + weight.toNat := by
            rw [UInt32.le_iff_toNat_le, hadd]
          by_cases hreached : threshold.toNat ≤ total.toNat + weight.toNat
          · rw [if_pos hreached, if_pos (hle.mpr hreached)]
            exact ⟨hcons _ [] (by simp), rfl⟩
          · rw [if_neg hreached, if_neg (mt hle.mp hreached)]
            have hrest := ih (total + weight.toUInt32) s' (by rw [hadd, hsigns]; omega)
            rw [hadd, hsigns] at hrest
            exact ⟨hcons _ _ hrest.1, hrest.2⟩
      | false =>
          simp only [Bool.false_eq_true, if_false, Nat.zero_add] at hfits ⊢
          have hrest := ih total s' (by rw [hsigns]; exact hfits)
          rw [hsigns] at hrest
          exact ⟨hcons _ _ hrest.1, hrest.2⟩

/-- There is one signature of a key. -/
def Distinct (s : SignState Key) : Prop := (s.providedSignatures.map Prod.fst).Nodup

theorem signedBy_distinct (k : Key) (h : Distinct s) : Distinct (c.signedBy k s).2 := by
  unfold signedBy
  by_cases hk : k ∈ s.providedSignatures.map Prod.fst
  · rw [if_pos hk]
    have hsame : (s.providedSignatures.map fun sig => if sig.1 = k then (k, true) else sig).map
        Prod.fst = s.providedSignatures.map Prod.fst := by
      rw [List.map_map]
      refine List.map_congr_left fun sig _ => ?_
      by_cases hsig : sig.1 = k
      · simp [hsig]
      · simp [hsig]
    unfold Distinct
    dsimp only
    rw [hsame]
    exact h
  · rw [if_neg hk]
    by_cases hav : k ∈ c.availableKeys
    · rw [if_pos hav]
      exact List.nodup_cons.mpr ⟨hk, h⟩
    · rw [if_neg hav]
      exact h

theorem checkKeys_distinct (threshold : UInt32) (keys : List (Key × UInt16)) (total : UInt32)
    (h : Distinct s) : Distinct (c.checkKeys threshold keys total s).2 := by
  induction keys generalizing total s with
  | nil => exact h
  | cons item rest ih =>
      obtain ⟨k, weight⟩ := item
      have hsigned := signedBy_distinct (c := c) k h
      rw [checkKeys]
      generalize c.signedBy k s = r at hsigned ⊢
      obtain ⟨b, s'⟩ := r
      cases b with
      | true =>
          dsimp only
          by_cases hreached : threshold ≤ total + weight.toUInt32
          · rw [if_pos hreached]
            exact hsigned
          · rw [if_neg hreached]
            exact ih _ hsigned
      | false => exact ih _ hsigned

/-- Accounts are remembered that are approved, and what is below them has been
looked at. -/
structure Kept (c : SignContext Key) (wide signed : Key → Bool) (s : SignState Key) : Prop where
  signs : c.signs s = signed
  distinct : Distinct s
  temp : remembered s "temp" = true
  known : ∀ a, remembered s a = true → a ≠ "temp" → ∃ n, c.Within n (c.getActive a) ∧
    c.ok signed n (c.getActive a) = true ∧
    ∀ k ∈ c.lookedAt wide n (c.getActive a), signed k = true → flagged s k

/-- From `s` to `t` the signed keys among `low` are looked at, and only keys of `high`. -/
structure Covers (c : SignContext Key) (wide signed : Key → Bool) (s t : SignState Key)
    (low high : List Key) : Prop where
  kept : c.Kept wide signed t
  grows : ∀ k, flagged s k → flagged t k
  low : ∀ k ∈ low, signed k = true → flagged t k
  high : ∀ k, flagged t k → flagged s k ∨ k ∈ high

theorem Covers.refl (h : c.Kept wide signed s) : c.Covers wide signed s s [] high :=
  ⟨h, fun _ hk => hk, by simp, fun _ hk => Or.inl hk⟩

theorem Covers.trans (h : c.Covers wide signed s t low high)
    (h' : c.Covers wide signed t u low' high') :
    c.Covers wide signed s u (low ++ low') (high ++ high') where
  kept := h'.kept
  grows k hk := h'.grows k (h.grows k hk)
  low k hk hsigned := by
    rcases List.mem_append.mp hk with hk | hk
    · exact h'.grows k (h.low k hk hsigned)
    · exact h'.low k hk hsigned
  high k hk := by
    rcases h'.high k hk with hk | hk
    · exact (h.high k hk).imp_right (List.mem_append_left _)
    · exact Or.inr (List.mem_append_right _ hk)

theorem Covers.mono (h : c.Covers wide signed s t low high) (hlow : ∀ k ∈ low', k ∈ low)
    (hhigh : ∀ k ∈ high, k ∈ high') : c.Covers wide signed s t low' high' where
  kept := h.kept
  grows := h.grows
  low k hk := h.low k (hlow k hk)
  high k hk := (h.high k hk).imp_right (hhigh k)

/-- The account has been approved. -/
theorem Covers.remember (h : c.Covers wide signed s t low high) {a : String}
    (hwithin : c.Within n (c.getActive a)) (hok : c.ok signed n (c.getActive a) = true)
    (hlow : ∀ k ∈ c.lookedAt wide n (c.getActive a), k ∈ low) :
    c.Covers wide signed s { t with approvedBy := a :: t.approvedBy } low high where
  kept :=
    { signs := h.kept.signs
      distinct := h.kept.distinct
      temp := by simpa [remembered] using Or.inr h.kept.temp
      known := fun b hb hne => by
        rcases List.mem_cons.mp (of_decide_eq_true hb) with rfl | hb
        · exact ⟨n, hwithin, hok, fun k hk hsigned => h.low k (hlow k hk) hsigned⟩
        · exact h.kept.known b (decide_eq_true hb) hne }
  grows := h.grows
  low := h.low
  high := h.high

/-- What the loop over the accounts does with one of them. -/
structure Handles (c : SignContext Key) (wide signed : Key → Bool)
    (check : Option (String → SignState Key → Bool × SignState Key)) (approved : String → Bool)
    (low high : String → List Key) (a : String) : Prop where
  /-- An account that is remembered is approved, and has been looked at. -/
  known : ∀ s, c.Kept wide signed s → a ∈ s.approvedBy →
    approved a = true ∧ ∀ k ∈ low a, signed k = true → flagged s k
  /-- Another account is checked. -/
  called : ∀ s, c.Kept wide signed s → a ∉ s.approvedBy → ∃ call, check = some call ∧
    (call a s).1 = approved a ∧ c.Covers wide signed s (call a s).2 (low a) (high a) ∧
    (approved a = true → c.Covers wide signed s
      { (call a s).2 with approvedBy := a :: (call a s).2.approvedBy } (low a) (high a))

/-- What the loop over the accounts answers, and what it has looked at: at least
what the scan with more signatures looks at, which may begin with a higher total. -/
def AccountsLook (c : SignContext Key) (wide signed : Key → Bool) (threshold : UInt32)
    (approved approvedWide : String → Bool) (lows highs : String → List Key)
    (auths : List (String × UInt16)) (total : UInt32) (total' : Nat) (s : SignState Key)
    (r : Bool × SignState Key) : Prop :=
  r.1 = decide (threshold.toNat ≤ total.toNat + weightWhere approved auths) ∧
    c.Covers wide signed s r.2 (scanAccounts threshold.toNat approvedWide lows auths total')
      (scanAccounts threshold.toNat approved highs auths total.toNat)

section Accounts

variable {threshold : UInt32} {check : Option (String → SignState Key → Bool × SignState Key)}
  {approved approvedWide : String → Bool} {lows highs : String → List Key} {a : String}
  {weight : UInt16} {rest : List (String × UInt16)} {total : UInt32} {total' : Nat}

/-- An account that counts, with the state `t` after it. -/
theorem accountsLook_counted (ha : approved a = true) (hwide : approvedWide a = true)
    (ht : c.Covers wide signed s t (lows a) (highs a)) (hle : total.toNat ≤ total')
    (hadd : (total + weight.toUInt32).toNat = total.toNat + weight.toNat)
    (hrest : (total + weight.toUInt32).toNat ≤ total' + weight.toNat →
      c.AccountsLook wide signed threshold approved approvedWide lows highs rest
        (total + weight.toUInt32) (total' + weight.toNat) t
        (checkAccounts threshold check rest (total + weight.toUInt32) t)) :
    c.AccountsLook wide signed threshold approved approvedWide lows highs
      ((a, weight) :: rest) total total' s
      (if threshold ≤ total + weight.toUInt32 then (true, t)
        else checkAccounts threshold check rest (total + weight.toUInt32) t) := by
  unfold AccountsLook at hrest ⊢
  rw [weightWhere_cons, if_pos ha, scanAccounts, scanAccounts, if_pos ha, if_pos hwide]
  have hreach : threshold ≤ total + weight.toUInt32 ↔
      threshold.toNat ≤ total.toNat + weight.toNat := by
    rw [UInt32.le_iff_toNat_le, hadd]
  by_cases hreached : threshold.toNat ≤ total.toNat + weight.toNat
  · have hreached' : threshold.toNat ≤ total' + weight.toNat := by omega
    rw [if_pos (hreach.mpr hreached), if_pos hreached, if_pos hreached', List.append_nil,
      List.append_nil]
    exact ⟨(decide_eq_true (by omega)).symm, ht⟩
  · obtain ⟨hanswer, hcovers⟩ := hrest (by omega)
    rw [hadd] at hanswer hcovers
    rw [if_neg (mt hreach.mp hreached), if_neg hreached]
    refine ⟨by rw [hanswer, Nat.add_assoc], (ht.trans hcovers).mono (fun k hk => ?_)
      fun k hk => hk⟩
    by_cases hreached' : threshold.toNat ≤ total' + weight.toNat
    · rw [if_pos hreached', List.append_nil] at hk
      exact List.mem_append_left _ hk
    · rwa [if_neg hreached'] at hk

/-- An account that does not count; with more signatures it may. -/
theorem accountsLook_passed (ha : ¬approved a = true)
    (ht : c.Covers wide signed s t (lows a) (highs a)) (hle : total.toNat ≤ total')
    (hrest : ∀ {higher : Nat}, total.toNat ≤ higher →
      c.AccountsLook wide signed threshold approved approvedWide lows highs rest total
        higher t (checkAccounts threshold check rest total t)) :
    c.AccountsLook wide signed threshold approved approvedWide lows highs
      ((a, weight) :: rest) total total' s (checkAccounts threshold check rest total t) := by
  unfold AccountsLook at hrest ⊢
  rw [weightWhere_cons, if_neg ha, Nat.zero_add, scanAccounts, scanAccounts, if_neg ha]
  by_cases hwide : approvedWide a = true
  · have hle' : total.toNat ≤ total' + weight.toNat := by omega
    obtain ⟨hanswer, hcovers⟩ := hrest hle'
    refine ⟨hanswer, (ht.trans hcovers).mono (fun k hk => ?_) fun k hk => hk⟩
    rw [if_pos hwide] at hk
    by_cases hreached' : threshold.toNat ≤ total' + weight.toNat
    · rw [if_pos hreached', List.append_nil] at hk
      exact List.mem_append_left _ hk
    · rwa [if_neg hreached'] at hk
  · obtain ⟨hanswer, hcovers⟩ := hrest hle
    rw [if_neg hwide]
    exact ⟨hanswer, ht.trans hcovers⟩

theorem checkAccounts_looks (threshold : UInt32)
    (hwide : ∀ a, approved a = true → approvedWide a = true) (auths : List (String × UInt16))
    (hauths : ∀ item ∈ auths, c.Handles wide signed check approved lows highs item.1)
    (hle : total.toNat ≤ total')
    (hfits : total.toNat + weightWhere (fun _ => true) auths < 4294967296)
    (hs : c.Kept wide signed s) :
    c.AccountsLook wide signed threshold approved approvedWide lows highs auths total
      total' s (checkAccounts threshold check auths total s) := by
  induction auths generalizing total total' s with
  | nil => exact ⟨decide_eq_decide.mpr UInt32.le_iff_toNat_le, .refl hs⟩
  | cons item rest ih =>
      obtain ⟨a, weight⟩ := item
      obtain ⟨⟨hknown, hcalled⟩, hrest⟩ := List.forall_mem_cons.mp hauths
      rw [weightWhere_cons, if_pos rfl] at hfits
      have hadd := toNat_add_weight total weight (by omega)
      have hcount : ∀ t, approved a = true →
          c.Covers wide signed s t (lows a) (highs a) → _ := fun t ha ht =>
        accountsLook_counted ha (hwide a ha) ht hle hadd fun hle' =>
          ih hrest hle' (by omega) ht.kept
      rw [checkAccounts.eq_def]
      dsimp only
      by_cases ha : a ∈ s.approvedBy
      · rw [if_pos ha]
        obtain ⟨happroved, hlow⟩ := hknown s hs ha
        exact hcount s happroved ⟨hs, fun _ hk => hk, hlow, fun _ hk => Or.inl hk⟩
      · rw [if_neg ha]
        obtain ⟨call, rfl, hanswer, hcovers, hremember⟩ := hcalled s hs ha
        dsimp only
        generalize call a s = r at hanswer hcovers hremember ⊢
        obtain ⟨b, t⟩ := r
        dsimp only at hanswer hcovers hremember
        cases b with
        | true => exact hcount _ hanswer.symm (hremember hanswer.symm)
        | false =>
            have hnot : ¬approved a = true := by simp [← hanswer]
            exact accountsLook_passed hnot hcovers hle fun hle' =>
              ih hrest hle' (by omega) hcovers.kept

end Accounts

/-- An account at the level of the recursion is not checked. -/
theorem handles_temp {check : Option (String → SignState Key → Bool × SignState Key)}
    {low high : String → List Key} (hlow : low "temp" = []) :
    c.Handles wide signed check (c.approvedFrom signed (· = "temp") n) low high "temp" where
  known s hs _ := ⟨approvedFrom_base (by simp), by simp [hlow]⟩
  called s hs hnot := absurd (of_decide_eq_true hs.temp) hnot

/-- An account that is checked with one level less. -/
theorem handles_call {call : String → SignState Key → Bool × SignState Key} {a : String}
    (hcall : ∀ s, c.Kept wide signed s → (call a s).1 = c.ok signed n (c.getActive a) ∧
      c.Covers wide signed s (call a s).2 (c.lookedAt wide n (c.getActive a))
        (c.lookedAt signed n (c.getActive a)))
    (hwithin : c.Within n (c.getActive a)) (hne : a ≠ "temp") :
    c.Handles wide signed (some call) (c.approvedFrom signed (· = "temp") (n + 1))
      (below (c.lookedAt wide n) c) (below (c.lookedAt signed n) c) a := by
  have happroved : c.approvedFrom signed (· = "temp") (n + 1) a =
      c.ok signed n (c.getActive a) := by
    show (decide (a = "temp") || c.ok signed n (c.getActive a)) = _
    rw [decide_eq_false hne, Bool.false_or]
  refine ⟨fun s hs ha => ?_, fun s hs ha => ?_⟩
  · obtain ⟨m, hm, hok, hlow⟩ := hs.known a (decide_eq_true ha) hne
    obtain ⟨hokEq, hlookedEq⟩ := hm.agree signed wide hwithin
    rw [happroved, below, if_neg hne, ← hokEq, ← hlookedEq]
    exact ⟨hok, hlow⟩
  · obtain ⟨hanswer, hcovers⟩ := hcall s hs
    rw [happroved, below, below, if_neg hne, if_neg hne]
    exact ⟨call, rfl, hanswer, hcovers, fun hok => hcovers.remember hwithin hok fun k hk => hk⟩

/-- The loop over the keys leaves the memory alone. -/
theorem Kept.of_keys (h : c.Kept wide signed s) (hsigns : c.signs t = c.signs s)
    (hdistinct : Distinct t) (happroved : t.approvedBy = s.approvedBy)
    (hgrows : ∀ k, flagged s k → flagged t k) : c.Kept wide signed t := by
  have hsame : ∀ a, remembered t a = remembered s a := fun a => by
    rw [remembered, remembered, happroved]
  refine ⟨hsigns.trans h.signs, hdistinct, (hsame _).trans h.temp, fun a ha hne => ?_⟩
  obtain ⟨n, hwithin, hok, hlow⟩ := h.known a ((hsame a).symm.trans ha) hne
  exact ⟨n, hwithin, hok, fun k hk hsigned => hgrows k (hlow k hk hsigned)⟩

/-- The two loops make up a call. -/
theorem looks_of_loops (hauth : auth.Fits) (hwide : ∀ k, signed k = true → wide k = true)
    {check : Option (String → SignState Key → Bool × SignState Key)} {low high : String → List Key}
    (haccounts : ∀ item ∈ auth.accountAuths, c.Handles wide signed check
      (c.approvedFrom signed (· = "temp") n) low high item.1) (hs : c.Kept wide signed s)
    {r : Bool × SignState Key}
    (hr : r = match c.checkKeys auth.weightThreshold auth.keyAuths 0 s with
      | (none, s) => (true, s)
      | (some total, s) => checkAccounts auth.weightThreshold check auth.accountAuths total s) :
    r.1 = c.ok signed n auth ∧ c.Covers wide signed s r.2
      (scan wide (c.approvedFrom wide (· = "temp") n) low auth)
      (scan signed (c.approvedFrom signed (· = "temp") n) high auth) := by
  subst hr
  unfold Authority.Fits Authority.weight at hauth
  have hzero : (0 : UInt32).toNat = 0 := rfl
  have hkeysFit : weightWhere (c.signs s) auth.keyAuths ≤
      weightWhere (fun _ => true) auth.keyAuths := weightWhere_le_all
  obtain ⟨hsigns, happroved, hstop, hgo⟩ := checkKeys_spec (c := c)
    auth.weightThreshold auth.keyAuths 0 s (by omega)
  obtain ⟨hflagged, hscan⟩ := checkKeys_looks (c := c)
    auth.weightThreshold auth.keyAuths 0 s (by omega)
  obtain ⟨hlooked, htotal⟩ := scanKeys_mono auth.weightThreshold.toNat hwide auth.keyAuths
    (Nat.le_refl 0)
  have hdistinct := checkKeys_distinct (c := c) auth.weightThreshold auth.keyAuths 0 hs.distinct
  rw [hs.signs] at hstop hgo hflagged hscan hkeysFit
  rw [hzero] at hflagged hscan
  rw [hzero, Nat.zero_add] at hstop
  simp only [hzero, Nat.zero_add] at hgo
  generalize hcheck : c.checkKeys auth.weightThreshold auth.keyAuths 0 s = r
  rw [hcheck] at hsigns happroved hstop hgo hflagged hscan hdistinct
  obtain ⟨result, t⟩ := r
  dsimp only at hsigns happroved hstop hgo hflagged hscan hdistinct ⊢
  have hgrows : ∀ k, flagged s k → flagged t k := fun k hk => (hflagged k).mpr (Or.inl hk)
  have ht := hs.of_keys hsigns hdistinct happroved hgrows
  have hkeys : c.Covers wide signed s t
      (scanKeys auth.weightThreshold.toNat wide auth.keyAuths 0).1
      (scanKeys auth.weightThreshold.toNat signed auth.keyAuths 0).1 :=
    ⟨ht, hgrows, fun k hk hsigned => (hflagged k).mpr (Or.inr ⟨hsigned, hlooked k hk⟩),
      fun k hk => ((hflagged k).mp hk).imp_right And.right⟩
  unfold scan
  dsimp only
  cases result with
  | none =>
      -- reached by the keys, and so with more signatures
      have hnone : (scanKeys auth.weightThreshold.toNat signed auth.keyAuths 0).2 = none :=
        hscan.symm
      have hnoneWide : (scanKeys auth.weightThreshold.toNat wide auth.keyAuths 0).2 = none := by
        refine Option.eq_none_iff_forall_ne_some.mpr fun t' ht' => ?_
        obtain ⟨t, ht, -⟩ := htotal t' ht'
        rw [hnone] at ht
        cases ht
      rw [hnone, hnoneWide]
      simp only [List.append_nil]
      refine ⟨(decide_eq_true ?_).symm, hkeys⟩
      have hreached := hstop rfl
      unfold Authority.weight
      omega
  | some total =>
      have hweight := hgo total rfl
      have hsome : (scanKeys auth.weightThreshold.toNat signed auth.keyAuths 0).2 =
          some total.toNat := hscan.symm
      have hloop := fun total' (hle : total.toNat ≤ total') =>
        checkAccounts_looks auth.weightThreshold (fun a => approved_mono hwide)
          auth.accountAuths haccounts hle (by omega) ht
      rw [hsome]
      dsimp only
      have hanswer := (hloop total.toNat (Nat.le_refl _)).1
      refine ⟨hanswer.trans ?_, ?_⟩
      · rw [hweight]
        rfl
      · cases hwideTotal : (scanKeys auth.weightThreshold.toNat wide auth.keyAuths 0).2 with
        | none =>
            have hcovers := hkeys.trans (hloop total.toNat (Nat.le_refl _)).2
            exact hcovers.mono (fun k hk => List.mem_append_left _ (by simpa using hk))
              fun k hk => hk
        | some total' =>
            obtain ⟨t'', ht'', hle⟩ := htotal total' hwideTotal
            rw [hsome, Option.some.injEq] at ht''
            exact hkeys.trans (hloop total' (ht'' ▸ hle)).2

/-- **A check has looked** at all that a check with more signatures looks at. -/
theorem checkAuthorityLeft_looks (hfits : ∀ a, (c.getActive a).Fits)
    (hwide : ∀ k, signed k = true → wide k = true) (left : Nat) {auth : Authority Key}
    (hauth : auth.Fits) (hwithin : c.Within left auth) (hs : c.Kept wide signed s) :
    (c.checkAuthorityLeft left auth s).1 = c.ok signed left auth ∧
      c.Covers wide signed s (c.checkAuthorityLeft left auth s).2 (c.lookedAt wide left auth)
        (c.lookedAt signed left auth) := by
  induction left generalizing auth s with
  | zero =>
      refine looks_of_loops hauth hwide (fun item hitem => ?_) hs
        (checkAuthorityLeft.eq_def c 0 auth s)
      rw [hwithin item hitem]
      exact handles_temp rfl
  | succ left ih =>
      refine looks_of_loops hauth hwide (fun item hitem => ?_) hs
        (checkAuthorityLeft.eq_def c (left + 1) auth s)
      by_cases htemp : item.1 = "temp"
      · rw [htemp]
        exact handles_temp (if_pos rfl)
      · have hbelow := (hwithin item hitem).resolve_left htemp
        exact handles_call (fun s hs => ih (hfits item.1) hbelow hs) hbelow htemp

end SignContext

end Gamebank.Protocol
