import Gamebank.Protocol.SignState

/-!
# What a signature check answers

An account is approved from a base if it is in the base, or its authority is
reached by the signed keys and by accounts that are approved with one level
less. The check counts at least the accounts that are approved, with the
levels that are left, from those remembered before the call (`complete`), and
only accounts that it remembers afterwards (`counted`); what it remembers is
approved at some level (`new`).
-/

namespace Gamebank.Protocol

variable {Key : Type}

namespace SignContext

variable {c : SignContext Key} {s : SignState Key} {auth : Authority Key}

/-! ## Levels of approval -/

/-- The accounts approved from a base with so many levels. -/
def approvedFrom (c : SignContext Key) (signed : Key → Bool) (base : String → Bool) :
    Nat → String → Bool
  | 0, a => base a
  | n + 1, a => base a || (c.getActive a).reached signed (c.approvedFrom signed base n)

/-- The plain meaning of an authority, with so many levels left. -/
def ok (c : SignContext Key) (signed : Key → Bool) (left : Nat) (auth : Authority Key) : Bool :=
  auth.reached signed (c.approvedFrom signed (· = "temp") left)

section Levels

variable {signed : Key → Bool} {base base' : String → Bool} {n m : Nat} {a : String}

theorem approvedFrom_base (h : base a = true) : c.approvedFrom signed base n a = true := by
  cases n with
  | zero => exact h
  | succ n => simp [approvedFrom, h]

theorem approvedFrom_succ (h : c.approvedFrom signed base n a = true) :
    c.approvedFrom signed base (n + 1) a = true := by
  induction n generalizing a with
  | zero => exact approvedFrom_base h
  | succ n ih =>
      rcases Bool.or_eq_true_iff.mp h with h | h
      · exact approvedFrom_base h
      · exact Bool.or_eq_true_iff.mpr (.inr (Authority.reached_mono (fun _ => ih) h))

theorem approvedFrom_le (hle : n ≤ m) (h : c.approvedFrom signed base n a = true) :
    c.approvedFrom signed base m a = true := by
  induction hle with
  | refl => exact h
  | step _ ih => exact approvedFrom_succ ih

theorem approvedFrom_mono (hbase : ∀ a, base a = true → base' a = true)
    (h : c.approvedFrom signed base n a = true) : c.approvedFrom signed base' n a = true := by
  induction n generalizing a with
  | zero => exact hbase a h
  | succ n ih =>
      rcases Bool.or_eq_true_iff.mp h with h | h
      · exact approvedFrom_base (hbase a h)
      · exact Bool.or_eq_true_iff.mpr (.inr (Authority.reached_mono (fun _ => ih) h))

/-- What is approved from approved accounts is approved, at a higher level. -/
theorem approvedFrom_trans (hbase : ∀ a, base' a = true → c.approvedFrom signed base m a = true)
    (h : c.approvedFrom signed base' n a = true) :
    c.approvedFrom signed base (m + n) a = true := by
  induction n generalizing a with
  | zero => exact hbase a h
  | succ n ih =>
      rcases Bool.or_eq_true_iff.mp h with h | h
      · exact approvedFrom_le (by omega) (hbase a h)
      · exact Bool.or_eq_true_iff.mpr (.inr (Authority.reached_mono (fun _ => ih) h))

/-- A level at which one step more approves no more accounts is the last. -/
theorem approvedFrom_stable (hstable : ∀ a, c.approvedFrom signed base (m + 1) a = true →
      c.approvedFrom signed base m a = true)
    (h : c.approvedFrom signed base n a = true) : c.approvedFrom signed base m a = true := by
  induction n generalizing a with
  | zero => exact approvedFrom_base h
  | succ n ih =>
      rcases Bool.or_eq_true_iff.mp h with h | h
      · exact approvedFrom_base h
      · exact hstable a (Bool.or_eq_true_iff.mpr (.inr (Authority.reached_mono (fun _ => ih) h)))

/-- Finitely many approved accounts are so at one level. -/
theorem exists_level (c : SignContext Key) (signed : Key → Bool) (base : String → Bool)
    (l : List String)
    (h : ∀ a ∈ l, ∃ n, c.approvedFrom signed base n a = true) :
    ∃ n, ∀ a ∈ l, c.approvedFrom signed base n a = true := by
  induction l with
  | nil => exact ⟨0, fun a ha => absurd ha List.not_mem_nil⟩
  | cons b l ih =>
      obtain ⟨n, hn⟩ := h b List.mem_cons_self
      obtain ⟨m, hm⟩ := ih fun a ha => h a (List.mem_cons_of_mem b ha)
      refine ⟨n + m, fun a ha => ?_⟩
      rcases List.mem_cons.mp ha with rfl | ha
      · exact approvedFrom_le (Nat.le_add_right n m) hn
      · exact approvedFrom_le (Nat.le_add_left m n) (hm a ha)

end Levels

variable [DecidableEq Key]

/-! ## Keys -/

/-- There is a signature for the key, or one can be made. -/
def signs (c : SignContext Key) (s : SignState Key) (k : Key) : Bool :=
  k ∈ s.providedSignatures.map Prod.fst || k ∈ c.availableKeys

theorem signedBy_spec (k : Key) :
    (c.signedBy k s).1 = c.signs s k ∧ c.signs (c.signedBy k s).2 = c.signs s ∧
      (c.signedBy k s).2.approvedBy = s.approvedBy := by
  unfold signedBy
  by_cases hk : k ∈ s.providedSignatures.map Prod.fst
  · rw [if_pos hk]
    have hmap : (s.providedSignatures.map fun sig => if sig.1 = k then (k, true) else sig).map
        Prod.fst = s.providedSignatures.map Prod.fst := by
      rw [List.map_map]
      refine List.map_congr_left fun sig _ => ?_
      show (if sig.1 = k then (k, true) else sig).1 = sig.1
      by_cases hsig : sig.1 = k
      · rw [if_pos hsig, hsig]
      · rw [if_neg hsig]
    refine ⟨by simp only [signs, hk, decide_true, Bool.true_or], ?_, rfl⟩
    unfold signs
    simp only [hmap]
  · rw [if_neg hk]
    by_cases hav : k ∈ c.availableKeys
    · rw [if_pos hav]
      refine ⟨by simp only [signs, hav, decide_true, Bool.or_true], ?_, rfl⟩
      funext k'
      unfold signs
      by_cases hk' : k' = k
      · subst hk'
        simp [hav]
      · simp [hk']
    · rw [if_neg hav]
      exact ⟨by simp only [signs, hk, hav, decide_false, Bool.or_false], rfl, rfl⟩

theorem toNat_add_weight (total : UInt32) (weight : UInt16)
    (h : total.toNat + weight.toNat < 4294967296) :
    (total + weight.toUInt32).toNat = total.toNat + weight.toNat := by
  rw [UInt32.toNat_add, UInt16.toNat_toUInt32]
  exact Nat.mod_eq_of_lt h

/-- The loop over the keys adds up the weights of those that are signed. -/
theorem checkKeys_spec (threshold : UInt32) (keys : List (Key × UInt16)) (total : UInt32)
    (s : SignState Key) (hfits : total.toNat + weightWhere (c.signs s) keys < 4294967296) :
    c.signs (c.checkKeys threshold keys total s).2 = c.signs s ∧
      (c.checkKeys threshold keys total s).2.approvedBy = s.approvedBy ∧
      ((c.checkKeys threshold keys total s).1 = none →
        threshold.toNat ≤ total.toNat + weightWhere (c.signs s) keys) ∧
      ∀ total', (c.checkKeys threshold keys total s).1 = some total' →
        total'.toNat = total.toNat + weightWhere (c.signs s) keys := by
  induction keys generalizing total s with
  | nil =>
      refine ⟨rfl, rfl, fun h => absurd h (by simp [checkKeys]), fun total' h => ?_⟩
      rw [← Option.some.inj h]
      rfl
  | cons item rest ih =>
      obtain ⟨k, weight⟩ := item
      obtain ⟨hsigned, hsigns, happroved⟩ := signedBy_spec (c := c) (s := s) k
      rw [weightWhere_cons] at hfits ⊢
      rw [checkKeys]
      rw [← hsigned] at hfits ⊢
      generalize c.signedBy k s = r at hsigned hsigns happroved hfits ⊢
      obtain ⟨b, s'⟩ := r
      dsimp only at hsigned hsigns happroved
      cases b with
      | true =>
          dsimp only at hfits ⊢
          rw [if_pos rfl] at hfits ⊢
          have hadd := toNat_add_weight total weight (by omega)
          by_cases hreached : threshold ≤ total + weight.toUInt32
          · rw [if_pos hreached]
            rw [UInt32.le_iff_toNat_le, hadd] at hreached
            exact ⟨hsigns, happroved, fun _ => by omega, fun _ h => absurd h (by simp)⟩
          · rw [if_neg hreached]
            have hrest := ih (total + weight.toUInt32) s'
              (by rw [hadd, hsigns]; omega)
            rw [hadd, hsigns, happroved] at hrest
            simpa only [Nat.add_assoc] using hrest
      | false =>
          dsimp only at hfits ⊢
          rw [if_neg (by decide), Nat.zero_add] at hfits ⊢
          have hrest := ih total s' (by rw [hsigns]; exact hfits)
          rwa [hsigns, happroved] at hrest

/-! ## Accounts -/

/-- The accounts approved so far. -/
def remembered (s : SignState Key) (a : String) : Bool := a ∈ s.approvedBy

/-- The accounts approved from those remembered in `s`. -/
def approvedAfter (c : SignContext Key) (s : SignState Key) : Nat → String → Bool :=
  c.approvedFrom (c.signs s) (remembered s)

/-- What a call does with the memory: it only grows, by approved accounts, and
not at all where the recursion goes no deeper. -/
structure Remembers (c : SignContext Key) (left : Nat) (s t : SignState Key) : Prop where
  signs : c.signs t = c.signs s
  grows : ∀ a, remembered s a = true → remembered t a = true
  new : ∀ a, remembered t a = true → ∃ n, c.approvedAfter s n a = true
  flat : left = 0 → t.approvedBy = s.approvedBy

theorem Remembers.refl (left : Nat) (s : SignState Key) : Remembers c left s s :=
  ⟨rfl, fun _ h => h, fun _ h => ⟨0, h⟩, fun _ => rfl⟩

theorem Remembers.of_keys {left : Nat} {t : SignState Key} (hsigns : c.signs t = c.signs s)
    (happroved : t.approvedBy = s.approvedBy) : Remembers c left s t := by
  have hsame : remembered t = remembered s := by
    unfold remembered
    rw [happroved]
  exact ⟨hsigns, fun a h => by rwa [hsame], fun a h => ⟨0, by rwa [hsame] at h⟩, fun _ => happroved⟩

/-- Where the memory has grown more is approved. -/
theorem Remembers.approvedAfter_mono {left n : Nat} {t : SignState Key} (h : Remembers c left s t)
    {a : String} (ha : c.approvedAfter s n a = true) : c.approvedAfter t n a = true := by
  unfold approvedAfter at *
  rw [h.signs]
  exact approvedFrom_mono h.grows ha

/-- What is approved after a call was approved before it, at some level. -/
theorem Remembers.approvedAfter_back {left n : Nat} {t : SignState Key} (h : Remembers c left s t)
    {a : String} (ha : c.approvedAfter t n a = true) : ∃ m, c.approvedAfter s m a = true := by
  obtain ⟨m, hm⟩ := exists_level c (c.signs s) (remembered s)
    t.approvedBy fun b hb => h.new b (by simpa [remembered] using hb)
  refine ⟨m + n, ?_⟩
  unfold approvedAfter at *
  rw [h.signs] at ha
  exact approvedFrom_trans (fun b hb => hm b (by simpa [remembered] using hb)) ha

theorem Remembers.trans {left : Nat} {t u : SignState Key} (h : Remembers c left s t)
    (h' : Remembers c left t u) : Remembers c left s u where
  signs := h'.signs.trans h.signs
  grows a ha := h'.grows a (h.grows a ha)
  new a ha := by
    obtain ⟨n, hn⟩ := h'.new a ha
    exact h.approvedAfter_back hn
  flat hleft := (h'.flat hleft).trans (h.flat hleft)

/-- What a call of `check_authority` answers, with so many levels left. -/
structure Answers (c : SignContext Key) (left : Nat) (auth : Authority Key) (s : SignState Key)
    (r : Bool × SignState Key) : Prop where
  remembers : Remembers c left s r.2
  counted : r.1 = true → auth.reached (c.signs s) (remembered r.2) = true
  complete : auth.reached (c.signs s) (c.approvedAfter s left) = true → r.1 = true

/-- What the loop over the accounts answers. -/
structure Counts (c : SignContext Key) (left : Nat) (threshold total : Nat)
    (auths : List (String × UInt16)) (s : SignState Key) (r : Bool × SignState Key) : Prop where
  remembers : Remembers c left s r.2
  counted : r.1 = true → threshold ≤ total + weightWhere (remembered r.2) auths
  complete : threshold ≤ total + weightWhere (c.approvedAfter s left) auths → r.1 = true

/-- The rest of the loop, when the account at hand is counted. -/
theorem Counts.count {left threshold total : Nat} {a : String} {weight : UInt16}
    {rest : List (String × UInt16)} {s t : SignState Key} {r : Bool × SignState Key}
    (hst : Remembers c left s t) (ha : remembered t a = true)
    (h : Counts c left threshold (total + weight.toNat) rest t r) :
    Counts c left threshold total ((a, weight) :: rest) s r where
  remembers := hst.trans h.remembers
  counted hr := by
    have := h.counted hr
    rw [weightWhere_cons, if_pos (h.remembers.grows a ha)]
    omega
  complete hreached := by
    refine h.complete ?_
    have hmono := weightWhere_mono rest
      fun b => hst.approvedAfter_mono (n := left) (a := b)
    rw [weightWhere_cons] at hreached
    have hle : (if c.approvedAfter s left a = true then weight.toNat else 0) ≤ weight.toNat := by
      split <;> omega
    omega

/-- The rest of the loop, when the account at hand is not approved. -/
theorem Counts.skip {left threshold total : Nat} {a : String} {weight : UInt16}
    {rest : List (String × UInt16)} {s t : SignState Key} {r : Bool × SignState Key}
    (hst : Remembers c left s t) (ha : c.approvedAfter s left a = false)
    (h : Counts c left threshold total rest t r) :
    Counts c left threshold total ((a, weight) :: rest) s r where
  remembers := hst.trans h.remembers
  counted hr := by
    have := h.counted hr
    rw [weightWhere_cons]
    omega
  complete hreached := by
    refine h.complete ?_
    have hmono := weightWhere_mono rest
      fun b => hst.approvedAfter_mono (n := left) (a := b)
    rw [weightWhere_cons, if_neg (by rw [ha]; decide)] at hreached
    omega

/-- The loop ends as soon as the threshold is reached. -/
theorem Counts.stop {left threshold total : Nat} {a : String} {weight : UInt16}
    {rest : List (String × UInt16)} {s t : SignState Key} (hst : Remembers c left s t)
    (ha : remembered t a = true) (hreached : threshold ≤ total + weight.toNat) :
    Counts c left threshold total ((a, weight) :: rest) s (true, t) where
  remembers := hst
  counted _ := by
    rw [weightWhere_cons, if_pos ha]
    omega
  complete _ := rfl

theorem checkAccounts_spec {left : Nat} (threshold : UInt32)
    {check : Option (String → SignState Key → Bool × SignState Key)}
    (hnone : check = none → left = 0)
    (hsome : ∀ call, check = some call → ∃ n, left = n + 1 ∧
      ∀ a s, Answers c n (c.getActive a) s (call a s))
    (auths : List (String × UInt16)) (total : UInt32) (s : SignState Key)
    (hfits : total.toNat + weightWhere (fun _ => true) auths < 4294967296) :
    Counts c left threshold.toNat total.toNat auths s
      (checkAccounts threshold check auths total s) := by
  induction auths generalizing total s with
  | nil =>
      refine ⟨.refl left s, fun h => ?_, fun h => ?_⟩
      · have h : threshold ≤ total := of_decide_eq_true h
        exact UInt32.le_iff_toNat_le.mp h
      · exact decide_eq_true (UInt32.le_iff_toNat_le.mpr h)
  | cons item rest ih =>
      obtain ⟨a, weight⟩ := item
      rw [weightWhere_cons, if_pos rfl] at hfits
      have hadd := toNat_add_weight total weight (by omega)
      -- an account counts whether it was remembered or is approved now
      have hcounted : ∀ {t : SignState Key}, Remembers c left s t → remembered t a = true →
          Counts c left threshold.toNat total.toNat ((a, weight) :: rest) s
            (if threshold ≤ total + weight.toUInt32 then (true, t)
              else checkAccounts threshold check rest (total + weight.toUInt32) t) := by
        intro t ht ha
        by_cases hreached : threshold ≤ total + weight.toUInt32
        · rw [if_pos hreached]
          rw [UInt32.le_iff_toNat_le, hadd] at hreached
          exact .stop ht ha hreached
        · rw [if_neg hreached]
          refine .count ht ha ?_
          rw [← hadd]
          exact ih _ _ (by rw [hadd]; omega)
      rw [checkAccounts.eq_def]
      dsimp only
      by_cases ha : a ∈ s.approvedBy
      · rw [if_pos ha]
        exact hcounted (.refl left s) (decide_eq_true ha)
      · rw [if_neg ha]
        have hnot : remembered s a = false := decide_eq_false ha
        cases hcheck : check with
        | none =>
            dsimp only
            rw [hcheck] at ih
            refine .skip (.refl left s) ?_ (ih _ _ (by omega))
            rw [hnone hcheck]
            exact hnot
        | some call =>
            obtain ⟨n, hleft, hanswers⟩ := hsome call hcheck
            have hcall := hanswers a s
            rw [hcheck] at ih hcounted
            dsimp only
            generalize call a s = r at hcall ⊢
            obtain ⟨b, t⟩ := r
            have hremembers : Remembers c left s t :=
              { hcall.remembers with flat := fun h0 => by omega }
            cases b with
            | true =>
                have hreached := hcall.counted rfl
                have happroved : ∃ m, c.approvedAfter s m a = true := by
                  have hlevel : c.approvedAfter t 1 a = true := by
                    unfold approvedAfter
                    rw [hcall.remembers.signs]
                    exact Bool.or_eq_true_iff.mpr (.inr hreached)
                  exact hremembers.approvedAfter_back hlevel
                refine hcounted (t := { t with approvedBy := a :: t.approvedBy }) ?_
                  (by simp [remembered])
                exact
                  { signs := hremembers.signs
                    grows := fun b hb => by
                      have := hremembers.grows b hb
                      simp only [remembered, decide_eq_true_eq] at this ⊢
                      exact List.mem_cons_of_mem a this
                    new := fun b hb => by
                      simp only [remembered, decide_eq_true_eq, List.mem_cons] at hb
                      rcases hb with rfl | hb
                      · exact happroved
                      · exact hremembers.new b (decide_eq_true hb)
                    flat := fun h0 => by omega }
            | false =>
                refine .skip hremembers ?_ (ih total t (by omega))
                rw [hleft]
                have hunreached :
                  (c.getActive a).reached (c.signs s) (c.approvedAfter s n) = false := by
                  by_contra hreached
                  have := hcall.complete (by simpa using hreached)
                  exact absurd this Bool.false_ne_true
                show (remembered s a || _) = false
                rw [hnot]
                exact hunreached

/-- The two loops make up a call. -/
theorem answers_of_loops {left : Nat} (hauth : auth.Fits)
    (check : Option (String → SignState Key → Bool × SignState Key))
    (hnone : check = none → left = 0)
    (hsome : ∀ call, check = some call → ∃ n, left = n + 1 ∧
      ∀ a s, Answers c n (c.getActive a) s (call a s)) (s : SignState Key) :
    Answers c left auth s (match c.checkKeys auth.weightThreshold auth.keyAuths 0 s with
      | (none, s) => (true, s)
      | (some total, s) => checkAccounts auth.weightThreshold check auth.accountAuths total s) := by
  unfold Authority.Fits Authority.weight at hauth
  have hkeys : weightWhere (c.signs s) auth.keyAuths ≤ weightWhere (fun _ => true) auth.keyAuths :=
    weightWhere_le_all
  have hzero : (0 : UInt32).toNat = 0 := rfl
  obtain ⟨hsigns, happroved, hstop, hgo⟩ := checkKeys_spec (c := c)
    auth.weightThreshold auth.keyAuths 0 s (by omega)
  rw [hzero, Nat.zero_add] at hstop
  generalize c.checkKeys auth.weightThreshold auth.keyAuths 0 s = r at hsigns happroved hstop hgo ⊢
  obtain ⟨total, t⟩ := r
  have ht : Remembers c left s t := .of_keys hsigns happroved
  cases total with
  | none =>
      refine ⟨ht, fun _ => decide_eq_true ?_, fun _ => rfl⟩
      have hreached := hstop rfl
      unfold Authority.weight
      omega
  | some total =>
      have htotal := hgo total rfl
      rw [hzero, Nat.zero_add] at htotal
      have hloop := checkAccounts_spec auth.weightThreshold hnone hsome
        auth.accountAuths total t (by omega)
      dsimp only
      refine ⟨ht.trans hloop.remembers, fun hr => decide_eq_true ?_, fun hreached => ?_⟩
      · have := hloop.counted hr
        unfold Authority.weight
        omega
      · have hreached : auth.weightThreshold.toNat ≤ _ := of_decide_eq_true hreached
        have hmono := weightWhere_mono auth.accountAuths
          fun b => ht.approvedAfter_mono (n := left) (a := b)
        unfold Authority.weight at hreached
        exact hloop.complete (by omega)

/-- **A call answers** as its authority is reached: by what is approved with
the levels that are left at least, and by what is remembered at most. -/
theorem checkAuthorityLeft_spec (hfits : ∀ a, (c.getActive a).Fits) (left : Nat)
    {auth : Authority Key} (hauth : auth.Fits) (s : SignState Key) :
    Answers c left auth s (c.checkAuthorityLeft left auth s) := by
  induction left generalizing auth s with
  | zero =>
      rw [checkAuthorityLeft.eq_def]
      exact answers_of_loops hauth none (fun _ => rfl) (fun call h => nomatch h) s
  | succ left ih =>
      rw [checkAuthorityLeft.eq_def]
      refine answers_of_loops hauth
        (some fun a s => c.checkAuthorityLeft left (c.getActive a) s) (fun h => nomatch h)
          (fun call hcall => ?_) s
      obtain rfl := Option.some.inj hcall
      exact ⟨left, rfl, fun a s => ih (hfits a) s⟩

end SignContext

end Gamebank.Protocol
