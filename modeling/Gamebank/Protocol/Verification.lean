import Gamebank.Protocol.Approval

/-!
# What the calls of a verification answer

Every call of `check_authority` that `verify_authority` makes answers yes if
the authority is reached with the levels of the recursion, and only if it is
reached with some number of levels. In between the answer depends on the calls
before it. It is the plain one for all sets of required accounts if and only
if no account is approved with one level more (`Settled`).
-/

namespace Gamebank.Protocol

open Authority (allOf fits_allOf reached_allOf)

variable {Key : Type} [DecidableEq Key]

namespace SignContext

/-- The plain answer of a call, with so many levels. -/
def answer (c : SignContext Key) (signed : Key → Bool) (levels : Nat) : Call Key → Bool
  | .authority auth => c.ok signed levels auth
  | .account id => id = "temp" || c.ok signed levels (c.getActive id)

/-- No account is approved with one level more than the recursion has. -/
def Settled (c : SignContext Key) (signed : Key → Bool) : Prop :=
  c.maxRecursion = 0 ∨ ∀ a, c.approvedFrom signed (· = "temp") (c.maxRecursion + 1) a = true →
    c.approvedFrom signed (· = "temp") c.maxRecursion a = true

/-- A call answers yes if it should, and not without reason. -/
structure Justified (c : SignContext Key) (signed : Key → Bool) (call : Call Key) (result : Bool) :
    Prop where
  complete : c.answer signed c.maxRecursion call = true → result = true
  sound : result = true → ∃ levels, c.answer signed levels call = true

/-- Every call gives the plain answer. -/
def Exact (c : SignContext Key) (signed : Key → Bool) (calls : List (Call Key × Bool)) : Prop :=
  ∀ x ∈ calls, x.2 = c.answer signed c.maxRecursion x.1

/-- The memory of a verification is justified, and so are the calls made. -/
structure Trusted (c : SignContext Key) (signed : Key → Bool) (v : Verification Key) : Prop where
  signs : c.signs v.state = signed
  temp : remembered v.state "temp" = true
  approved : ∀ a, remembered v.state a = true → ∃ n, c.approvedFrom signed (· = "temp") n a = true
  flat : c.maxRecursion = 0 → ∀ a, remembered v.state a = true → a = "temp"
  justified : ∀ x ∈ v.calls, c.Justified signed x.1 x.2
  exact : c.Settled signed → c.Exact signed v.calls

variable {c : SignContext Key} {signed : Key → Bool} {v : Verification Key}

/-- In a settled context what is remembered is approved with the levels of the
recursion. -/
theorem Trusted.within (h : c.Trusted signed v) (hsettled : c.Settled signed) {a : String}
    (ha : remembered v.state a = true) :
    c.approvedFrom signed (· = "temp") c.maxRecursion a = true := by
  rcases hsettled with hzero | hstable
  · exact approvedFrom_base (decide_eq_true (h.flat hzero a ha))
  · obtain ⟨n, hn⟩ := h.approved a ha
    exact approvedFrom_stable hstable hn

/-- What an authority reaches by remembered accounts it reaches with some number
of levels. -/
theorem Trusted.reached (h : c.Trusted signed v) {auth : Authority Key}
    (hr : auth.reached signed (remembered v.state) = true) :
    ∃ levels, c.ok signed levels auth = true := by
  obtain ⟨n, hn⟩ := exists_level c signed (· = "temp") v.state.approvedBy
    fun a ha => h.approved a (decide_eq_true ha)
  exact ⟨n, Authority.reached_mono (fun a ha => hn a (of_decide_eq_true ha)) hr⟩

/-- The next call keeps the memory justified. -/
theorem Trusted.after {auth : Authority Key} {r : Bool × SignState Key}
    {calls : List (Call Key × Bool)}
    (h : c.Trusted signed v) (hr : Answers c c.maxRecursion auth v.state r)
    (hjustified : ∀ x ∈ calls, c.Justified signed x.1 x.2)
    (hexact : c.Settled signed → c.Exact signed calls) : c.Trusted signed ⟨r.2, calls⟩ where
  signs := hr.remembers.signs.trans h.signs
  temp := hr.remembers.grows _ h.temp
  approved a ha := by
    obtain ⟨n, hn⟩ := hr.remembers.new a ha
    obtain ⟨m, hm⟩ := exists_level c signed (· = "temp") v.state.approvedBy
      fun a ha => h.approved a (decide_eq_true ha)
    unfold approvedAfter at hn
    rw [h.signs] at hn
    exact ⟨m + n, approvedFrom_trans (fun b hb => hm b (of_decide_eq_true hb)) hn⟩
  flat hzero a ha := by
    refine h.flat hzero a ?_
    unfold remembered at ha ⊢
    rwa [hr.remembers.flat hzero] at ha
  justified := hjustified
  exact := hexact

/-- The plain answer is given at least. -/
theorem Trusted.complete (h : c.Trusted signed v) {auth : Authority Key} {r : Bool × SignState Key}
    (hr : Answers c c.maxRecursion auth v.state r)
    (hok : c.ok signed c.maxRecursion auth = true) : r.1 = true := by
  refine hr.complete ?_
  rw [h.signs]
  refine Authority.reached_mono (fun a ha => ?_) hok
  unfold approvedAfter
  rw [h.signs]
  refine approvedFrom_mono (fun b hb => ?_) ha
  rw [of_decide_eq_true hb]
  exact h.temp

theorem Trusted.callAuthority (hfits : ∀ a, (c.getActive a).Fits) {auth : Authority Key}
    (hauth : auth.Fits) (h : c.Trusted signed v) :
    c.Trusted signed (Verification.callAuthority c auth v).2 := by
  have hr : Answers c c.maxRecursion auth v.state (c.checkAuthority auth v.state) :=
    checkAuthorityLeft_spec hfits _ hauth v.state
  have hafter := h.after hr h.justified h.exact
  have hcounted : (c.checkAuthority auth v.state).1 = true →
      auth.reached signed (remembered (c.checkAuthority auth v.state).2) = true := by
    rw [← h.signs]
    exact hr.counted
  refine h.after hr (fun x hx => ?_) fun hsettled x hx => ?_
  · rcases List.mem_append.mp hx with hx | hx
    · exact h.justified x hx
    · rw [List.mem_singleton.mp hx]
      exact ⟨h.complete hr, fun htrue => hafter.reached (hcounted htrue)⟩
  · rcases List.mem_append.mp hx with hx | hx
    · exact h.exact hsettled x hx
    · rw [List.mem_singleton.mp hx]
      refine Bool.eq_iff_iff.mpr ⟨fun htrue => ?_, h.complete hr⟩
      exact Authority.reached_mono (fun a ha => hafter.within hsettled ha) (hcounted htrue)

theorem Trusted.callAccount (hfits : ∀ a, (c.getActive a).Fits) (id : String)
    (h : c.Trusted signed v) : c.Trusted signed (Verification.callAccount c id v).2 := by
  by_cases hid : id ∈ v.state.approvedBy
  · -- an approved account answers yes, and nothing is remembered
    have hresult : c.checkAccount id v.state = (true, v.state) := if_pos hid
    unfold Verification.callAccount
    rw [hresult]
    have happroved : ∀ {n : Nat}, c.approvedFrom signed (· = "temp") (n + 1) id = true →
        c.answer signed n (.account id) = true := fun h => h
    refine { h with justified := fun x hx => ?_, exact := fun hsettled x hx => ?_ }
    · rcases List.mem_append.mp hx with hx | hx
      · exact h.justified x hx
      · rw [List.mem_singleton.mp hx]
        obtain ⟨n, hn⟩ := h.approved id (decide_eq_true hid)
        exact ⟨fun _ => rfl, fun _ => ⟨n, happroved (approvedFrom_succ hn)⟩⟩
    · rcases List.mem_append.mp hx with hx | hx
      · exact h.exact hsettled x hx
      · rw [List.mem_singleton.mp hx]
        exact (happroved (approvedFrom_succ (h.within hsettled (decide_eq_true hid)))).symm
  · have hresult : c.checkAccount id v.state = c.checkAuthority (c.getActive id) v.state :=
      if_neg hid
    have hnot : id ≠ "temp" := by
      rintro rfl
      exact hid (of_decide_eq_true h.temp)
    have hanswer : ∀ n, c.answer signed n (.account id) = c.ok signed n (c.getActive id) := by
      intro n
      show (decide (id = "temp") || _) = _
      rw [decide_eq_false hnot, Bool.false_or]
    have hcall := h.callAuthority hfits (hfits id)
    have hlast := hcall.justified (.authority (c.getActive id), (c.checkAuthority (c.getActive id)
      v.state).1) (List.mem_append_right _ (List.mem_singleton.mpr rfl))
    unfold Verification.callAccount
    rw [hresult]
    refine { hcall with justified := fun x hx => ?_, exact := fun hsettled x hx => ?_ }
    · rcases List.mem_append.mp hx with hx | hx
      · exact h.justified x hx
      · rw [List.mem_singleton.mp hx]
        refine ⟨fun hans => hlast.complete ?_, fun htrue => ?_⟩
        · exact (hanswer _).symm.trans hans
        · obtain ⟨n, hn⟩ := hlast.sound htrue
          exact ⟨n, (hanswer n).trans hn⟩
    · rcases List.mem_append.mp hx with hx | hx
      · exact h.exact hsettled x hx
      · rw [List.mem_singleton.mp hx]
        refine Eq.trans ?_ (hanswer _).symm
        exact hcall.exact hsettled _ (List.mem_append_right _ (List.mem_singleton.mpr rfl))

/-! ## Runs -/

/-- What holds of the calls of a trusted verification. -/
structure Answered (c : SignContext Key) (signed : Key → Bool) (calls : List (Call Key × Bool)) :
    Prop where
  justified : ∀ x ∈ calls, c.Justified signed x.1 x.2
  exact : c.Settled signed → c.Exact signed calls

theorem Trusted.answered (h : c.Trusted signed v) : c.Answered signed v.calls :=
    ⟨h.justified, h.exact⟩

section Rules

open Verification

theorem trusted_orElse {first second : Verification Key → Bool × Verification Key}
    (hfirst : ∀ v, c.Trusted signed v → c.Trusted signed (first v).2)
    (hsecond : ∀ v, c.Trusted signed v → c.Trusted signed (second v).2)
    (h : c.Trusted signed v) : c.Trusted signed (orElse first second v).2 := by
  have h1 := hfirst v h
  unfold Verification.orElse
  generalize first v = r at h1 ⊢
  obtain ⟨b, v'⟩ := r
  cases b with
  | true => exact h1
  | false => exact hsecond v' h1

theorem trusted_requireAll {α : Type} {check : α → Verification Key → Bool × Verification Key}
    {message : String} {l : List α}
    (hcheck : ∀ a ∈ l, ∀ v, c.Trusted signed v → c.Trusted signed (check a v).2)
    (h : c.Trusted signed v) : c.Trusted signed (requireAll check message l v).2 := by
  induction l generalizing v with
  | nil => exact h
  | cons a rest ih =>
      have h1 := hcheck a List.mem_cons_self v h
      rw [requireAll]
      generalize check a v = r at h1 ⊢
      obtain ⟨b, v'⟩ := r
      cases b with
      | true => exact ih (fun a ha => hcheck a (List.mem_cons_of_mem _ ha)) h1
      | false => exact h1

theorem answered_thenDo {r : Except String Unit × Verification Key}
    {next : Verification Key → Except String Unit × Verification Key} (h : c.Trusted signed r.2)
    (hnext : ∀ v, c.Trusted signed v → c.Answered signed (next v).2.calls) :
    c.Answered signed (thenDo r next).2.calls := by
  obtain ⟨result, v'⟩ := r
  cases result with
  | error e => exact h.answered
  | ok u => exact hnext v' h

end Rules

/-- The context of the one `sign_state` of a verification. -/
def ofRequired (getActive getPosting : String → Authority Key) (maxRecursion : Nat)
    (required : Required Key) : SignContext Key :=
  if required.posting ≠ [] then ⟨getPosting, [], maxRecursion⟩ else ⟨getActive, [], maxRecursion⟩

theorem trusted_start (getActive : String → Authority Key) (sigs : List Key) (maxRecursion : Nat) :
    (SignContext.mk getActive [] maxRecursion).Trusted (fun k => k ∈ sigs)
      ⟨{ SignState.make sigs with approvedBy := ["temp"] }, []⟩ where
  signs := by
    funext k
    simp [SignContext.signs, SignState.make]
  temp := rfl
  approved a ha := by
    refine ⟨0, ?_⟩
    have ha := of_decide_eq_true ha
    exact decide_eq_true (List.mem_singleton.mp ha)
  flat _ a ha := List.mem_singleton.mp (of_decide_eq_true ha)
  justified x hx := absurd hx List.not_mem_nil
  exact _ x hx := absurd hx List.not_mem_nil

/-- Every call of a verification is answered in its context. -/
theorem verifyAuthority_answered {getActive getOwner getPosting : String → Authority Key}
    (hactive : ∀ a, (getActive a).Fits) (howner : ∀ a, (getOwner a).Fits)
    (hposting : ∀ a, (getPosting a).Fits) (sigs : List Key) (maxRecursion : Nat)
    {required : Required Key} (hother : ∀ auth ∈ required.other, auth.Fits) :
    (ofRequired getActive getPosting maxRecursion required).Answered (fun k => k ∈ sigs)
      (verifyAuthority getActive getOwner getPosting sigs maxRecursion required [] []
      []).2.calls := by
  unfold verifyAuthority ofRequired
  by_cases hp : required.posting ≠ []
  · rw [if_pos hp, if_pos hp]
    have hstart := trusted_start getPosting sigs maxRecursion
    dsimp only
    by_cases hempty : required.active = [] ∧ required.owner = [] ∧ required.other.length = 0
    · rw [if_pos hempty]
      refine answered_thenDo (trusted_requireAll (fun id _ v hv => ?_) hstart) fun v hv => ?_
      · exact trusted_orElse (fun v hv => hv.callAccount hposting id)
          (fun v hv => trusted_orElse (fun v hv => hv.callAuthority hposting (hactive id))
            (fun v hv => hv.callAuthority hposting (howner id)) hv) hv
      · exact hv.answered
    · rw [if_neg hempty]
      exact hstart.answered
  · rw [if_neg hp, if_neg hp]
    have hstart := trusted_start getActive sigs maxRecursion
    dsimp only
    refine answered_thenDo (trusted_requireAll
      (fun auth hauth v hv => hv.callAuthority hactive (hother auth hauth)) hstart) fun v hv => ?_
    refine answered_thenDo (trusted_requireAll (fun id _ v hv => ?_) hv) fun v hv => ?_
    · exact trusted_orElse (fun v hv => hv.callAccount hactive id)
        (fun v hv => hv.callAuthority hactive (howner id)) hv
    refine answered_thenDo (trusted_requireAll (fun id _ v hv => ?_) hv) fun v hv => ?_
    · rw [if_neg List.not_mem_nil]
      exact hv.callAuthority hactive (howner id)
    · exact hv.answered

/-! ## Unsettled contexts -/

/-- The calls for two other authorities, both reached. -/
theorem verifyAuthority_calls_two {getActive getOwner getPosting : String → Authority Key}
    {sigs : List Key} {maxRecursion : Nat} {first second : Authority Key} {s1 s2 : SignState Key}
    (h1 : (SignContext.mk getActive [] maxRecursion).checkAuthority first
      { SignState.make sigs with approvedBy := ["temp"] } = (true, s1))
    (h2 : (SignContext.mk getActive [] maxRecursion).checkAuthority second s1 = (true, s2)) :
    (verifyAuthority getActive getOwner getPosting sigs maxRecursion
      ⟨[], [], [], [first, second]⟩ [] [] []).2.calls =
        [(.authority first, true), (.authority second, true)] := by
  let c : SignContext Key := ⟨getActive, [], maxRecursion⟩
  let start : Verification Key := ⟨{ SignState.make sigs with approvedBy := ["temp"] }, []⟩
  have hcall1 : Verification.callAuthority c first start =
      (true, ⟨s1, [(.authority first, true)]⟩) := by
    rw [Verification.callAuthority, h1]
    rfl
  have hcall2 : Verification.callAuthority c second ⟨s1, [(.authority first, true)]⟩ =
      (true, ⟨s2, [(.authority first, true), (.authority second, true)]⟩) := by
    rw [Verification.callAuthority, h2]
    rfl
  show (Verification.thenDo (Verification.requireAll (Verification.callAuthority c)
    "Missing Authority" [first, second] start) _).2.calls = _
  simp only [Verification.requireAll, hcall1, hcall2, Verification.thenDo,
    Verification.noUnusedSignatures]

/-- An account that counts in an authority because it was remembered from the
one before it. -/
theorem unsettled_not_exact {getActive : String → Authority Key} (hactive : ∀ a, (getActive a).Fits)
    (getOwner getPosting : String → Authority Key) (sigs : List Key) (maxRecursion : Nat)
    (hnot : ¬(SignContext.mk getActive [] maxRecursion).Settled fun k => k ∈ sigs) :
    ∃ required : Required Key, required.posting = [] ∧ (∀ auth ∈ required.other, auth.Fits) ∧
      ¬(SignContext.mk getActive [] maxRecursion).Exact (fun k => k ∈ sigs)
        (verifyAuthority getActive getOwner getPosting sigs maxRecursion required [] []
        []).2.calls := by
  let c : SignContext Key := ⟨getActive, [], maxRecursion⟩
  let signed : Key → Bool := fun k => k ∈ sigs
  unfold Settled at hnot
  push Not at hnot
  obtain ⟨hdeep, last, hlast, hunapproved⟩ := hnot
  dsimp only at hdeep hlast hunapproved
  obtain ⟨m, rfl⟩ : ∃ m, maxRecursion = m + 1 := ⟨maxRecursion - 1, by omega⟩
  let approved : String → Bool := c.approvedFrom signed (· = "temp") (m + 1)
  have hreached : (getActive last).reached signed approved = true := by
    rcases Bool.or_eq_true_iff.mp hlast with htemp | hreached
    · exact absurd (approvedFrom_base htemp) hunapproved
    · exact hreached
  let start : Verification Key := ⟨{ SignState.make sigs with approvedBy := ["temp"] }, []⟩
  have hstart : c.Trusted signed start := trusted_start getActive sigs (m + 1)
  -- the first authority has the accounts remembered that `last` needs
  have hneeded := Authority.length_backers_lt approved (hactive last)
  generalize hbackers : (getActive last).backers approved = needed at hneeded
  have hfirst := checkAuthorityLeft_spec (c := c) hactive (m + 1)
    (fits_allOf hneeded) start.state
  have hfirstTrue := hstart.complete hfirst <| by
    refine (reached_allOf hneeded).mpr fun a ha => ?_
    rw [← hbackers] at ha
    exact Authority.of_mem_backers ha
  obtain ⟨s1, hs1⟩ : ∃ s1, c.checkAuthority (allOf needed) start.state = (true, s1) :=
    ⟨_, Prod.ext hfirstTrue rfl⟩
  change Answers c (m + 1) (allOf needed) start.state
    (c.checkAuthority (allOf needed) start.state) at hfirst
  rw [hs1] at hfirst
  have hsigns : c.signs s1 = signed := hfirst.remembers.signs.trans hstart.signs
  have hremembered := (reached_allOf hneeded).mp (hfirst.counted rfl)
  -- the second one then counts `last`
  have hone : [last].length < 4294967296 := by
    rw [List.length_singleton]
    decide
  have hsecond := checkAuthorityLeft_spec (c := c) hactive (m + 1) (fits_allOf hone) s1
  have hsecondTrue := hsecond.complete <| by
    refine (reached_allOf hone).mpr fun a ha => ?_
    obtain rfl := List.mem_singleton.mp ha
    refine Bool.or_eq_true_iff.mpr (.inr ?_)
    rw [hsigns]
    refine Authority.reached_of_backers (fun name hname => ?_) hreached
    rw [hbackers] at hname
    exact approvedFrom_base (hremembered name hname)
  obtain ⟨s2, hs2⟩ : ∃ s2, c.checkAuthority (allOf [last]) s1 = (true, s2) :=
    ⟨_, Prod.ext hsecondTrue rfl⟩
  refine ⟨⟨[], [], [], [allOf needed, allOf [last]]⟩, rfl, ?_, fun hexact => ?_⟩
  · intro auth hauth
    simp only [List.mem_cons, List.not_mem_nil, or_false] at hauth
    rcases hauth with rfl | rfl
    · exact fits_allOf hneeded
    · exact fits_allOf hone
  · rw [verifyAuthority_calls_two hs1 hs2] at hexact
    have hanswer := hexact (.authority (allOf [last]), true) (by simp)
    have happroved := (reached_allOf hone).mp hanswer.symm last (List.mem_singleton.mpr rfl)
    exact hunapproved happroved

/-- **The answers of a verification.** A call answers yes if its authority is
reached with the levels of the recursion, and only if it is reached with some
number of levels. The calls on active authorities all give the plain answer, for
every set of required accounts, if and only if the context is settled. -/
theorem verify_authority_answers {getActive getOwner getPosting : String → Authority Key}
    (hactive : ∀ a, (getActive a).Fits) (howner : ∀ a, (getOwner a).Fits)
    (hposting : ∀ a, (getPosting a).Fits) (sigs : List Key) (maxRecursion : Nat) :
    (∀ required : Required Key, (∀ auth ∈ required.other, auth.Fits) →
      ∀ x ∈ (verifyAuthority getActive getOwner getPosting sigs maxRecursion required [] []
      []).2.calls,
        (ofRequired getActive getPosting maxRecursion required).Justified
          (fun k => k ∈ sigs) x.1 x.2) ∧
    (∀ required : Required Key, (∀ auth ∈ required.other, auth.Fits) →
      (ofRequired getActive getPosting maxRecursion required).Settled (fun k => k ∈ sigs) →
      (ofRequired getActive getPosting maxRecursion required).Exact (fun k => k ∈ sigs)
        (verifyAuthority getActive getOwner getPosting sigs maxRecursion required [] []
        []).2.calls) ∧
    ((∀ required : Required Key, required.posting = [] → (∀ auth ∈ required.other, auth.Fits) →
      (SignContext.mk getActive [] maxRecursion).Exact (fun k => k ∈ sigs)
        (verifyAuthority getActive getOwner getPosting sigs maxRecursion required [] []
        []).2.calls) →
      (SignContext.mk getActive [] maxRecursion).Settled fun k => k ∈ sigs) := by
  refine ⟨fun required hother => ?_, fun required hother => ?_, fun hexact => ?_⟩
  · exact (verifyAuthority_answered hactive howner hposting sigs maxRecursion hother).justified
  · exact (verifyAuthority_answered hactive howner hposting sigs maxRecursion hother).exact
  · by_contra hnot
    obtain ⟨required, hp, hother, hwrong⟩ :=
      unsettled_not_exact hactive getOwner getPosting sigs maxRecursion hnot
    exact hwrong (hexact required hp hother)

/-- Accounts with one key each: the plain answers. -/
theorem verify_authority_answers_single_keys :
    let get : String → Authority Nat := fun a => ⟨1, [], [(a.length, 1)]⟩
    let required : Required Nat := ⟨["alice"], [], [], [⟨2, [("alice", 1), ("bob", 1)], []⟩]⟩
    (ofRequired get get 2 required).Exact (fun k => k ∈ [5, 3])
        (verifyAuthority get get get [5, 3] 2 required [] [] []).2.calls ∧
      (verifyAuthority get get get [5, 3] 2 required [] [] []).2.calls.map Prod.snd =
        [true, true] := by
  intro get required
  have hfits : ∀ a, (get a).Fits := fun a => by
    show 1 + 0 + 0 < 4294967296
    decide
  have hother : ∀ auth ∈ required.other, auth.Fits := by
    intro auth hauth
    rw [List.mem_singleton.mp hauth]
    show 0 + (1 + (1 + 0)) < 4294967296
    decide
  refine ⟨(verify_authority_answers hfits hfits hfits [5, 3] 2).2.1 required hother ?_, ?_⟩
  · exact .inr fun a h => h
  · decide +kernel

/-! ## Memory and overflow -/

theorem checkKeys_append {threshold : UInt32} {front back : List (Key × UInt16)} {total : UInt32}
    {s : SignState Key} : c.checkKeys threshold (front ++ back) total s =
      match c.checkKeys threshold front total s with
      | (none, s) => (none, s)
      | (some total, s) => c.checkKeys threshold back total s := by
  induction front generalizing total s with
  | nil => rfl
  | cons item rest ih =>
      obtain ⟨k, weight⟩ := item
      rw [List.cons_append, checkKeys, checkKeys]
      generalize c.signedBy k s = r
      obtain ⟨b, s'⟩ := r
      cases b with
      | true =>
          dsimp only
          by_cases hreached : threshold ≤ total + weight.toUInt32
          · rw [if_pos hreached, if_pos hreached]
          · rw [if_neg hreached, if_neg hreached, ih]
      | false => exact ih

/-- A last key whose weight takes the total beyond 32 bits is of no use. -/
theorem checkAuthority_wraps {threshold : UInt32} {front : List (Key × UInt16)} {k : Key}
    {weight : UInt16} (s : SignState Key) (hk : c.signs s k = true)
    (hfront : weightWhere (c.signs s) front < threshold.toNat)
    (hwraps : (weightWhere (c.signs s) front + weight.toNat) % 4294967296 < threshold.toNat) :
    (c.checkAuthority ⟨threshold, [], front ++ [(k, weight)]⟩ s).1 = false := by
  have hbelow : weightWhere (c.signs s) front < 4294967296 :=
    Nat.lt_trans hfront threshold.toNat_lt
  have hzero : (0 : UInt32).toNat = 0 := rfl
  obtain ⟨hsigns, -, hstop, hgo⟩ := checkKeys_spec (c := c) threshold front 0 s
    (by omega)
  rw [hzero, Nat.zero_add] at hstop hgo
  unfold checkAuthority
  rw [checkAuthorityLeft.eq_def]
  dsimp only
  rw [checkKeys_append]
  generalize c.checkKeys threshold front 0 s = r at hsigns hstop hgo ⊢
  obtain ⟨total, t⟩ := r
  cases total with
  | none => exact absurd (hstop rfl) (by omega)
  | some total =>
      have htotal := hgo total rfl
      have hsum : (total + weight.toUInt32).toNat =
          (weightWhere (c.signs s) front + weight.toNat) % 4294967296 := by
        rw [UInt32.toNat_add, UInt16.toNat_toUInt32, htotal]
      have hnot : ¬threshold ≤ total + weight.toUInt32 := by
        rw [UInt32.le_iff_toNat_le, hsum]
        omega
      have hsigned := (signedBy_spec (c := c) (s := t) k).1
      rw [hsigns, hk] at hsigned
      dsimp only
      rw [checkKeys]
      generalize c.signedBy k t = r at hsigned ⊢
      obtain ⟨b, u⟩ := r
      obtain rfl : b = true := hsigned
      dsimp only
      rw [if_neg hnot, checkKeys]
      exact decide_eq_false hnot

/-- One authority that is not reached ends a verification. -/
theorem verifyAuthority_refused {getActive getOwner getPosting : String → Authority Key}
    {sigs : List Key} {maxRecursion : Nat} {auth : Authority Key}
    (h : ((SignContext.mk getActive [] maxRecursion).checkAuthority auth
      { SignState.make sigs with approvedBy := ["temp"] }).1 = false) :
    (verifyAuthority getActive getOwner getPosting sigs maxRecursion ⟨[], [], [], [auth]⟩ [] []
      []).2.calls =
      [(.authority auth, false)] := by
  let c : SignContext Key := ⟨getActive, [], maxRecursion⟩
  let start : SignState Key := { SignState.make sigs with approvedBy := ["temp"] }
  obtain ⟨s, hs⟩ : ∃ s, c.checkAuthority auth start = (false, s) := ⟨_, Prod.ext h rfl⟩
  have hcall : Verification.callAuthority c auth ⟨start, []⟩ =
      (false, ⟨s, [(.authority auth, false)]⟩) := by
    rw [Verification.callAuthority, hs]
    rfl
  show (Verification.thenDo (Verification.requireAll (Verification.callAuthority c)
    "Missing Authority" [auth] ⟨start, []⟩) _).2.calls = _
  simp only [Verification.requireAll, hcall, Verification.thenDo]

section Overflow

/-- Weights that add up to `2 ^ 32 - 2`. -/
def manyKeys : List (Nat × UInt16) := (0, 65534) :: (List.range' 1 65536).map fun k => (k, 65535)

theorem weightWhere_manyKeys {signed : Nat → Bool} (h : ∀ k < 65537, signed k = true) :
    weightWhere signed manyKeys = 4294967294 := by
  have hrest : ∀ k ∈ List.range' 1 65536, signed k = true := by
    intro k hk
    rw [List.mem_range'_1] at hk
    exact h k (by omega)
  rw [manyKeys, weightWhere_cons, if_pos (h 0 (by decide)), weightWhere_map hrest,
    List.length_range']
  rfl

/-- Keys that weigh `2 ^ 32 - 2` are refused with one key more, although that
reaches the threshold. -/
theorem refused_though_ok {sigs : List Nat} {front : List (Nat × UInt16)} {k : Nat}
    (hfront : weightWhere (fun k => k ∈ sigs) front = 4294967294) (hk : decide (k ∈ sigs) = true)
    (getActive : String → Authority Nat) (maxRecursion : Nat) :
    (verifyAuthority getActive getActive getActive sigs maxRecursion
        ⟨[], [], [], [⟨4294967295, [], front ++ [(k, 65535)]⟩]⟩ [] [] []).2.calls =
          [(.authority ⟨4294967295, [], front ++ [(k, 65535)]⟩, false)] ∧
      (SignContext.mk getActive [] maxRecursion).ok (fun k => k ∈ sigs) maxRecursion
        ⟨4294967295, [], front ++ [(k, 65535)]⟩ = true := by
  have hstart := (trusted_start getActive sigs maxRecursion).signs
  constructor
  · refine verifyAuthority_refused (checkAuthority_wraps _ ?_ ?_ ?_)
    · rw [hstart]
      exact hk
    · rw [hstart, hfront]
      decide
    · rw [hstart, hfront]
      decide
  · unfold ok Authority.reached Authority.weight
    rw [weightWhere_append, hfront, weightWhere_cons, if_pos hk]
    refine decide_eq_true ?_
    show 4294967295 ≤ 4294967294 + (65535 + 0) + 0
    omega

end Overflow

/-- An authority whose keys have all signed is refused, as the total of their
weights does not fit in 32 bits; and an account remembered from the first of two
authorities counts in the second one beyond the depth of the recursion. -/
theorem calls_differ :
    (∃ (sigs : List Nat) (getActive : String → Authority Nat) (auth : Authority Nat),
      (verifyAuthority getActive getActive getActive sigs 2 ⟨[], [], [], [auth]⟩ [] [] []).2.calls =
          [(.authority auth, false)] ∧
        (SignContext.mk getActive [] 2).ok (fun k => k ∈ sigs) 2 auth = true) ∧
    (∃ (sigs : List Nat) (getActive : String → Authority Nat) (first second : Authority Nat),
      (verifyAuthority getActive getActive getActive sigs 2 ⟨[], [], [], [first, second]⟩
          [] [] []).2.calls = [(.authority first, true), (.authority second, true)] ∧
        (verifyAuthority getActive getActive getActive sigs 2 ⟨[], [], [], [second]⟩ [] []
        []).2.calls =
          [(.authority second, false)] ∧
        (SignContext.mk getActive [] 2).ok (fun k => k ∈ sigs) 2 second = false) := by
  constructor
  · obtain ⟨sigs, hsigs⟩ : ∃ sigs : List Nat, ∀ k < 65538, decide (k ∈ sigs) = true :=
      ⟨List.range 65538, fun k hk => decide_eq_true (List.mem_range.mpr hk)⟩
    have hmany := weightWhere_manyKeys fun k hk => hsigs k (Nat.lt_trans hk (by decide))
    have hlast : decide (65537 ∈ sigs) = true := hsigs 65537 (by decide)
    generalize manyKeys = front at hmany
    exact ⟨sigs, fun _ => ⟨1, [], []⟩, ⟨4294967295, [], front ++ [(65537, 65535)]⟩,
      refused_though_ok hmany hlast (fun _ => ⟨1, [], []⟩) 2⟩
  · refine ⟨[1], fun a =>
      if a = "bob" then ⟨1, [], [(1, 1)]⟩
      else if a = "alice" then ⟨1, [("bob", 1)], []⟩
      else if a = "carol" then ⟨1, [("alice", 1)], []⟩ else ⟨1, [], []⟩,
      ⟨1, [("alice", 1)], []⟩, ⟨1, [("carol", 1)], []⟩, ?_⟩
    decide +kernel

end SignContext

end Gamebank.Protocol
