import Gamebank.Protocol.LookedAt
import Gamebank.Protocol.MinimalSignatures
import Gamebank.Protocol.Verification

/-!
# Candidates for signatures

What `get_required_signatures` finds, and when `verify_authority` accepts it.
A transaction makes demands: one call of `check_authority` that both functions
make, and the calls that `verify_authority` falls back to.

While the recursion limit is not met (`WithinLimit`), the candidates are the
available keys that the first calls look at (`found`), and a part of them is
accepted if and only if it meets every demand. So a minimal set is found if and
only if the keys found meet the demands.
-/

namespace Gamebank.Protocol

open Gamebank.Lib

variable {Key : Type}

namespace Verification

theorem thenDo_thenDo (r : Except String Unit × Verification Key)
    (next last : Verification Key → Except String Unit × Verification Key) :
    thenDo r (fun v => thenDo (next v) last) = thenDo (thenDo r next) last := by
  obtain ⟨result, v⟩ := r
  cases result with
  | ok u => rfl
  | error e => rfl

end Verification

namespace SignContext

/-- The keys that a call looks at. -/
def looks (c : SignContext Key) (signed : Key → Bool) : Call Key → List Key
  | .authority auth => c.lookedAt signed c.maxRecursion auth
  | .account id => below (c.lookedAt signed c.maxRecursion) c id

/-- A call does not meet the limit of the recursion. -/
def Shallow (c : SignContext Key) : Call Key → Prop
  | .authority auth => auth.Fits ∧ c.Within c.maxRecursion auth
  | .account id => id = "temp" ∨ c.Within c.maxRecursion (c.getActive id)

variable {c : SignContext Key} {wide signed : Key → Bool} {s : SignState Key} {call : Call Key}

theorem answer_mono (hwide : ∀ k, signed k = true → wide k = true) {n : Nat}
    (h : c.answer signed n call = true) : c.answer wide n call = true := by
  cases call with
  | authority auth => exact ok_mono hwide h
  | account id =>
      rcases Bool.or_eq_true_iff.mp h with htemp | hok
      · exact Bool.or_eq_true_iff.mpr (Or.inl htemp)
      · exact Bool.or_eq_true_iff.mpr (Or.inr (ok_mono hwide hok))

/-- The keys that a call looks at are enough for it. -/
theorem answer_of_looks {small : Key → Bool}
    (hsmall : ∀ k ∈ c.looks signed call, signed k = true → small k = true)
    (h : c.answer signed c.maxRecursion call = true) :
    c.answer small c.maxRecursion call = true := by
  cases call with
  | authority auth => exact ok_of_lookedAt hsmall h
  | account id =>
      rcases Bool.or_eq_true_iff.mp h with htemp | hok
      · exact Bool.or_eq_true_iff.mpr (Or.inl htemp)
      · by_cases htemp : id = "temp"
        · exact Bool.or_eq_true_iff.mpr (Or.inl (decide_eq_true htemp))
        · rw [looks, below, if_neg htemp] at hsmall
          exact Bool.or_eq_true_iff.mpr (Or.inr (ok_of_lookedAt hsmall hok))

theorem not_flagged_make {sigs : List Key} {k : Key} : ¬flagged (.make sigs) k := by
  simp [flagged, SignState.make]

variable [DecidableEq Key]

/-- The two forms of `check_authority`. -/
def check (c : SignContext Key) : Call Key → SignState Key → Bool × SignState Key
  | .authority auth => c.checkAuthority auth
  | .account id => c.checkAccount id

/-- A call gives the plain answer, and looks at the keys that it should. -/
theorem check_looks (hfits : ∀ a, (c.getActive a).Fits)
    (hwide : ∀ k, signed k = true → wide k = true) (hcall : c.Shallow call)
    (hs : c.Kept wide signed s) :
    (c.check call s).1 = c.answer signed c.maxRecursion call ∧
      c.Covers wide signed s (c.check call s).2 (c.looks wide call) (c.looks signed call) := by
  cases call with
  | authority auth => exact checkAuthorityLeft_looks hfits hwide c.maxRecursion hcall.1 hcall.2 hs
  | account id =>
      unfold check checkAccount answer looks below
      dsimp only
      by_cases htemp : id = "temp"
      · rw [htemp, if_pos (of_decide_eq_true hs.temp), if_pos rfl, if_pos rfl]
        exact ⟨by simp, .refl hs⟩
      · have hwithin := hcall.resolve_left htemp
        rw [if_neg htemp, if_neg htemp, decide_eq_false htemp, Bool.false_or]
        by_cases hid : id ∈ s.approvedBy
        · -- it has been approved before, perhaps with other levels
          obtain ⟨n, hn, hok, hlow⟩ := hs.known id (decide_eq_true hid) htemp
          obtain ⟨hokEq, hlookedEq⟩ := hn.agree signed wide hwithin
          rw [if_pos hid, ← hokEq, ← hlookedEq]
          exact ⟨hok.symm, hs, fun _ hk => hk, hlow, fun _ hk => Or.inl hk⟩
        · rw [if_neg hid]
          exact checkAuthorityLeft_looks hfits hwide c.maxRecursion (hfits id) hwithin hs

/-- A `sign_state` begins with nothing looked at. -/
theorem kept_make {c : SignContext Key} {sigs : List Key} (hnodup : sigs.Nodup)
    (hsigned : ∀ k, signed k = true ↔ k ∈ sigs ∨ k ∈ c.availableKeys) :
    c.Kept wide signed (.make sigs) where
  signs := by
    funext k
    rw [Bool.eq_iff_iff, hsigned]
    simp [signs, SignState.make]
  distinct := by
    unfold Distinct SignState.make
    simpa [List.map_map, Function.comp_def] using hnodup
  temp := rfl
  known a ha hne := absurd (List.mem_singleton.mp (of_decide_eq_true ha)) hne

/-! ## Calls one after the other -/

/-- Calls that are all made look at what each of them looks at. -/
theorem foldl_check_looks (hfits : ∀ a, (c.getActive a).Fits)
    (hwide : ∀ k, signed k = true → wide k = true) {calls : List (Call Key)}
    (hcalls : ∀ call ∈ calls, c.Shallow call) (hs : c.Kept wide signed s) :
    c.Covers wide signed s (calls.foldl (fun s call => (c.check call s).2) s)
      (calls.flatMap (c.looks wide)) (calls.flatMap (c.looks signed)) := by
  induction calls generalizing s with
  | nil => exact .refl hs
  | cons call calls ih =>
      obtain ⟨hcall, hcalls⟩ := List.forall_mem_cons.mp hcalls
      have hfirst := (check_looks hfits hwide hcall hs).2
      rw [List.foldl_cons, List.flatMap_cons, List.flatMap_cons]
      exact hfirst.trans (ih hcalls hfirst.kept)

/-- What a step of a verification does: its answer, and the keys it has looked at after it. -/
def Does (c : SignContext Key) (wide signed : Key → Bool)
    (step : Verification Key → Bool × Verification Key) (answer : Bool) (low : List Key) : Prop :=
  ∀ v, c.Kept wide signed v.state → (step v).1 = answer ∧ c.Kept wide signed (step v).2.state ∧
    (∀ k, flagged v.state k → flagged (step v).2.state k) ∧
    ∀ k ∈ low, signed k = true → flagged (step v).2.state k

section Steps

open Verification

variable {first second : Verification Key → Bool × Verification Key} {b b' : Bool}
  {low low' : List Key}

theorem does_callAuthority (hfits : ∀ a, (c.getActive a).Fits)
    (hwide : ∀ k, signed k = true → wide k = true) {auth : Authority Key}
    (hcall : c.Shallow (.authority auth)) :
    c.Does wide signed (callAuthority c auth) (c.answer signed c.maxRecursion (.authority auth))
      (c.looks wide (.authority auth)) := by
  intro v hv
  obtain ⟨hanswer, hcovers⟩ := check_looks hfits hwide hcall hv
  exact ⟨hanswer, hcovers.kept, hcovers.grows, hcovers.low⟩

theorem does_callAccount (hfits : ∀ a, (c.getActive a).Fits)
    (hwide : ∀ k, signed k = true → wide k = true) {id : String} (hcall : c.Shallow (.account id)) :
    c.Does wide signed (callAccount c id) (c.answer signed c.maxRecursion (.account id))
      (c.looks wide (.account id)) := by
  intro v hv
  obtain ⟨hanswer, hcovers⟩ := check_looks hfits hwide hcall hv
  exact ⟨hanswer, hcovers.kept, hcovers.grows, hcovers.low⟩

theorem does_orElse (hfirst : c.Does wide signed first b low)
    (hsecond : c.Does wide signed second b' low') :
    c.Does wide signed (orElse first second) (b || b') low := by
  intro v hv
  obtain ⟨hanswer, hkept, hgrows, hlow⟩ := hfirst v hv
  unfold orElse
  generalize first v = r at hanswer hkept hgrows hlow ⊢
  obtain ⟨result, v'⟩ := r
  subst hanswer
  cases result with
  | true => exact ⟨rfl, hkept, hgrows, hlow⟩
  | false =>
      obtain ⟨hanswer', hkept', hgrows', -⟩ := hsecond v' hkept
      exact ⟨hanswer', hkept', fun k hk => hgrows' k (hgrows k hk),
        fun k hk hsigned => hgrows' k (hlow k hk hsigned)⟩

/-- What assertions come to: they hold if `all` does, and then the keys `low` have
been looked at. -/
structure Outcome (c : SignContext Key) (wide signed : Key → Bool) (s : SignState Key)
    (r : Except String Unit × Verification Key) (all : Prop) (low : List Key) : Prop where
  ok : r.1 = .ok () ↔ all
  missing : r.1 = .ok () ∨ ∃ e ∈ missingAuthority, r.1 = .error e
  kept : r.1 = .ok () → c.Kept wide signed r.2.state
  grows : r.1 = .ok () → ∀ k, flagged s k → flagged r.2.state k
  low : r.1 = .ok () → ∀ k ∈ low, signed k = true → flagged r.2.state k

theorem outcome_requireAll {α : Type} {step : α → Verification Key → Bool × Verification Key}
    {answers : α → Bool} {low : α → List Key} {message : String} {l : List α}
    (hmessage : message ∈ missingAuthority)
    (hstep : ∀ a ∈ l, c.Does wide signed (step a) (answers a) (low a)) {v : Verification Key}
    (hv : c.Kept wide signed v.state) :
    c.Outcome wide signed v.state (requireAll step message l v) (∀ a ∈ l, answers a = true)
      (l.flatMap low) := by
  induction l generalizing v with
  | nil =>
      exact ⟨by simp [requireAll], Or.inl rfl, fun _ => hv, fun _ _ hk => hk, by simp⟩
  | cons a rest ih =>
      obtain ⟨hfirst, hrest⟩ := List.forall_mem_cons.mp hstep
      obtain ⟨hanswer, hkept, hgrows, hlow⟩ := hfirst v hv
      rw [requireAll, List.forall_mem_cons, ← hanswer, List.flatMap_cons]
      generalize step a v = r at hanswer hkept hgrows hlow ⊢
      obtain ⟨result, v'⟩ := r
      cases result with
      | false => exact ⟨by simp, Or.inr ⟨message, hmessage, rfl⟩, by simp, by simp, by simp⟩
      | true =>
          have hnext := ih hrest hkept
          refine ⟨by simpa using hnext.ok, hnext.missing, hnext.kept, fun h k hk => ?_,
            fun h k hk hsigned => ?_⟩
          · exact hnext.grows h k (hgrows k hk)
          · rcases List.mem_append.mp hk with hk | hk
            · exact hnext.grows h k (hlow k hk hsigned)
            · exact hnext.low h k hk hsigned

theorem outcome_thenDo {r : Except String Unit × Verification Key}
    {next : Verification Key → Except String Unit × Verification Key} {all all' : Prop}
    (hr : c.Outcome wide signed s r all low)
    (hnext : ∀ v, c.Kept wide signed v.state →
      c.Outcome wide signed v.state (next v) all' low') :
    c.Outcome wide signed s (thenDo r next) (all ∧ all') (low ++ low') := by
  obtain ⟨result, v⟩ := r
  cases result with
  | error e =>
      have hnot : ¬all := fun h => by simpa using hr.ok.mpr h
      exact ⟨by simp [thenDo, hnot], hr.missing, by simp [thenDo], by simp [thenDo],
        by simp [thenDo]⟩
  | ok u =>
      have hall : all := hr.ok.mp rfl
      have hthen := hnext v (hr.kept rfl)
      refine ⟨hthen.ok.trans (and_iff_right hall).symm, hthen.missing, hthen.kept, fun h k hk => ?_,
        fun h k hk hsigned => ?_⟩
      · exact hthen.grows h k (hr.grows rfl k hk)
      · rcases List.mem_append.mp hk with hk | hk
        · exact hthen.grows h k (hr.low rfl k hk hsigned)
        · exact hthen.low h k hk hsigned

/-- Where every signed key has been looked at, no signature is unused. -/
theorem Outcome.noUnused {r : Except String Unit × Verification Key} {all : Prop}
    (h : c.Outcome wide signed s r all low) (hlow : ∀ k, signed k = true → k ∈ low) :
    (thenDo r noUnusedSignatures).1 = r.1 := by
  obtain ⟨result, v⟩ := r
  cases result with
  | error e => rfl
  | ok u =>
      have hkept := h.kept rfl
      have hused : ∀ sig ∈ v.state.providedSignatures, sig.2 = true := by
        intro sig hsig
        have hsigned : signed sig.1 = true := by
          rw [← hkept.signs, SignContext.signs, decide_eq_true (List.mem_map_of_mem hsig)]
          rfl
        have hflagged : (sig.1, true) ∈ v.state.providedSignatures :=
          h.low rfl sig.1 (hlow sig.1 hsigned) hsigned
        -- there is one signature of the key
        exact congrArg Prod.snd (List.inj_on_of_nodup_map hkept.distinct hsig hflagged rfl)
      have hall : v.state.providedSignatures.filter (fun sig => sig.2) =
          v.state.providedSignatures := List.filter_eq_self.mpr hused
      simp [thenDo, noUnusedSignatures, SignState.removeUnusedSignatures, hall]

end Steps

end SignContext

/-! ## What a transaction demands -/

/-- A call that both functions make, and those that `verify_authority` falls back to. -/
structure Demand (Key : Type) where
  first : Call Key
  others : List (Call Key)

/-- One of the calls answers yes. -/
def SignContext.met (c : SignContext Key) (signed : Key → Bool) (d : Demand Key) : Bool :=
  c.answer signed c.maxRecursion d.first ||
    d.others.any fun call => c.answer signed c.maxRecursion call

namespace SigningInput

/-- The context of `verify_authority`. -/
def checking (x : SigningInput Key) : SignContext Key :=
  .ofRequired x.getActive x.getPosting x.maxRecursion x.required

/-- The context of `get_required_signatures`. -/
def collecting (x : SigningInput Key) : SignContext Key :=
  { x.checking with availableKeys := x.availableKeys }

def demands (x : SigningInput Key) : List (Demand Key) :=
  if x.required.posting ≠ [] then
    x.required.posting.map fun id =>
      ⟨.account id, [.authority (x.getActive id), .authority (x.getOwner id)]⟩
  else
    x.required.other.map (fun auth => ⟨.authority auth, []⟩) ++
      (x.required.active.map (fun id => ⟨.account id, [.authority (x.getOwner id)]⟩) ++
        x.required.owner.map fun id => ⟨.authority (x.getOwner id), []⟩)

/-- The available keys that the first calls look at. -/
def found [DecidableEq Key] (x : SigningInput Key) : List Key :=
  x.availableKeys.filter fun k =>
    k ∈ x.demands.flatMap fun d => x.checking.looks (fun k => k ∈ x.availableKeys) d.first

/-- The available keys satisfy the first call of a demand, or those found another one. -/
def Reached [DecidableEq Key] (x : SigningInput Key) (d : Demand Key) : Prop :=
  x.checking.answer (fun k => k ∈ x.availableKeys) x.checking.maxRecursion d.first = true ∨
    ∃ call ∈ d.others,
      x.checking.answer (fun k => k ∈ x.found) x.checking.maxRecursion call = true

/-- No call meets the limit of the recursion. -/
structure WithinLimit (x : SigningInput Key) : Prop where
  fits : ∀ a, (x.checking.getActive a).Fits
  shallow : ∀ d ∈ x.demands, ∀ call ∈ d.first :: d.others, x.checking.Shallow call

variable {x : SigningInput Key}

theorem collecting_getActive : x.collecting.getActive = x.checking.getActive := rfl

theorem looks_collecting (signed : Key → Bool) (call : Call Key) :
    x.collecting.looks signed call = x.checking.looks signed call := by
  have hlooked : ∀ n, x.collecting.lookedAt signed n = x.checking.lookedAt signed n :=
    fun n => funext fun auth => SignContext.lookedAt_congr collecting_getActive n auth
  have hlevels : x.collecting.maxRecursion = x.checking.maxRecursion := rfl
  cases call with
  | authority auth => rw [SignContext.looks, SignContext.looks, hlooked, hlevels]
  | account id =>
      rw [SignContext.looks, SignContext.looks, hlooked, hlevels, SignContext.below,
        SignContext.below, collecting_getActive]

theorem shallow_collecting (call : Call Key) :
    x.collecting.Shallow call ↔ x.checking.Shallow call := by
  cases call with
  | authority auth =>
      exact and_congr_right fun _ => SignContext.within_congr collecting_getActive _ auth
  | account id => exact or_congr_right (SignContext.within_congr collecting_getActive _ _)

variable [LinearOrder Key] {candidates keys : List Key}
  {calls : List (Call Key)} {k : Key}

/-! ## The keys found -/

theorem mem_provided_calls (h : x.WithinLimit) (hcalls : ∀ call ∈ calls, x.checking.Shallow call) :
    k ∈ x.provided (calls.foldl (fun s call => (x.collecting.check call s).2) (.make [])) ↔
      k ∈ x.availableKeys ∧ ∃ call ∈ calls,
        k ∈ x.checking.looks (fun k => k ∈ x.availableKeys) call := by
  have hkept : x.collecting.Kept (fun k => k ∈ x.availableKeys) (fun k => k ∈ x.availableKeys)
      (.make []) := SignContext.kept_make List.nodup_nil fun k => by simp [collecting]
  have hshallow : ∀ call ∈ calls, x.collecting.Shallow call :=
    fun call hcall => (shallow_collecting call).mpr (hcalls call hcall)
  have hfits : ∀ a, (x.collecting.getActive a).Fits := h.fits
  have hcovers := SignContext.foldl_check_looks hfits (fun k hk => hk) hshallow hkept
  have hmem : k ∈ calls.flatMap (x.collecting.looks fun k => k ∈ x.availableKeys) ↔
      ∃ call ∈ calls, k ∈ x.checking.looks (fun k => k ∈ x.availableKeys) call := by
    rw [List.mem_flatMap]
    simp only [looks_collecting]
  rw [mem_provided, ← hmem]
  refine and_congr_right fun hk => ⟨fun hflagged => ?_, fun hlooked => ?_⟩
  · exact (hcovers.high k hflagged).resolve_left SignContext.not_flagged_make
  · exact hcovers.low k hlooked (decide_eq_true hk)

theorem mem_found : k ∈ x.found ↔ k ∈ x.availableKeys ∧ ∃ call ∈ x.demands.map Demand.first,
    k ∈ x.checking.looks (fun k => k ∈ x.availableKeys) call := by
  simp [found]

theorem getRequiredSignatures_ok (hmixed : ¬x.Mixed) :
    ∃ candidates, x.getRequiredSignatures [] = .ok candidates := by
  unfold getRequiredSignatures
  by_cases hp : x.required.posting ≠ []
  · have hempty : x.required.active = [] ∧ x.required.owner = [] ∧
        x.required.other.length = 0 := by
      by_contra hne
      exact hmixed ⟨hp, hne⟩
    rw [if_pos hp]
    exact ⟨_, ensure_bind_eq_ok.mpr ⟨decide_eq_true hempty.2.1,
      ensure_bind_eq_ok.mpr ⟨decide_eq_true hempty.1, rfl⟩⟩⟩
  · rw [if_neg hp]
    exact ⟨_, rfl⟩

/-- The candidates are the keys found. -/
theorem mem_candidates (h : x.WithinLimit)
    (hcandidates : x.getRequiredSignatures [] = .ok candidates) :
    k ∈ candidates ↔ k ∈ x.found := by
  have hshallow : ∀ call ∈ x.demands.map Demand.first, x.checking.Shallow call := by
    intro call hcall
    obtain ⟨d, hd, rfl⟩ := List.mem_map.mp hcall
    exact h.shallow d hd d.first List.mem_cons_self
  unfold getRequiredSignatures at hcandidates
  rw [mem_found]
  by_cases hp : x.required.posting ≠ []
  · have hcontext : (⟨x.getPosting, x.availableKeys, x.maxRecursion⟩ : SignContext Key) =
        x.collecting := by simp [collecting, checking, SignContext.ofRequired, hp]
    have hfirsts : x.demands.map Demand.first = x.required.posting.map .account := by
      simp [demands, hp, Function.comp_def]
    rw [if_pos hp, hcontext] at hcandidates
    simp only [ensure_bind_eq_ok] at hcandidates
    obtain ⟨-, -, hcandidates⟩ := hcandidates
    cases hcandidates
    rw [← mem_provided_calls h hshallow, hfirsts, List.foldl_map]
    rfl
  · have hcontext : (⟨x.getActive, x.availableKeys, x.maxRecursion⟩ : SignContext Key) =
        x.collecting := by simp [collecting, checking, SignContext.ofRequired, hp]
    -- the calls are made in another order
    have hfirsts : ∀ call, call ∈ x.demands.map Demand.first ↔
        call ∈ x.required.other.map .authority ++
          (x.required.owner.map (fun id => .authority (x.getOwner id)) ++
            x.required.active.map .account) := by
      intro call
      simp only [demands, if_neg hp, List.map_append, List.map_map, List.mem_append,
        Function.comp_def]
      rw [or_comm (a := call ∈ x.required.active.map _)]
    rw [if_neg hp, hcontext] at hcandidates
    cases hcandidates
    simp only [hfirsts] at hshallow ⊢
    rw [← mem_provided_calls h hshallow, List.foldl_append, List.foldl_append, List.foldl_map,
      List.foldl_map, List.foldl_map]
    rfl

/-! ## Parts of the keys found -/

section Verifying

open Verification

variable {wide signed : Key → Bool}

/-- The assertions of a verification hold if every demand is met, and look at
what the first calls look at. -/
def Asserted (x : SigningInput Key) (wide signed : Key → Bool) (keys : List Key) : Prop :=
  ∃ r, x.verify keys = (thenDo r noUnusedSignatures).1 ∧
    x.checking.Outcome wide signed (.make keys) r (∀ d ∈ x.demands, x.checking.met signed d = true)
      ((x.demands.map Demand.first).flatMap (x.checking.looks wide))

theorem asserted_posting (h : x.WithinLimit) (hp : x.required.posting ≠ [])
    (hempty : x.required.active = [] ∧ x.required.owner = [] ∧ x.required.other.length = 0)
    (hwide : ∀ k, signed k = true → wide k = true)
    (hkept : x.checking.Kept wide signed (.make keys)) : x.Asserted wide signed keys := by
  have hcontext : x.checking = ⟨x.getPosting, [], x.maxRecursion⟩ := by
    simp [checking, SignContext.ofRequired, hp]
  have hdemands : x.demands = x.required.posting.map fun id =>
      ⟨.account id, [.authority (x.getActive id), .authority (x.getOwner id)]⟩ := if_pos hp
  have hmessage : "Missing Posting Authority" ∈ missingAuthority := by decide
  have hsteps := SignContext.outcome_requireAll (v := ⟨.make keys, []⟩) hmessage
    (l := x.required.posting) (fun id hid => by
      have hcalls := h.shallow _ (hdemands ▸ List.mem_map_of_mem hid)
      simp only [List.forall_mem_cons] at hcalls
      exact SignContext.does_orElse (SignContext.does_callAccount h.fits hwide hcalls.1)
        (SignContext.does_orElse (SignContext.does_callAuthority h.fits hwide hcalls.2.1)
          (SignContext.does_callAuthority h.fits hwide hcalls.2.2.1))) hkept
  refine ⟨_, ?_, by simpa [hdemands, SignContext.met, List.flatMap_map] using hsteps⟩
  unfold verify verifyAuthority
  rw [if_pos hp, hcontext]
  dsimp only
  rw [if_pos hempty]
  rfl

theorem asserted_active (h : x.WithinLimit) (hp : ¬x.required.posting ≠ [])
    (hwide : ∀ k, signed k = true → wide k = true)
    (hkept : x.checking.Kept wide signed (.make keys)) : x.Asserted wide signed keys := by
  have hcontext : x.checking = ⟨x.getActive, [], x.maxRecursion⟩ := by
    simp [checking, SignContext.ofRequired, hp]
  have hdemands : x.demands = x.required.other.map (fun auth => ⟨.authority auth, []⟩) ++
      (x.required.active.map (fun id => ⟨.account id, [.authority (x.getOwner id)]⟩) ++
        x.required.owner.map fun id => ⟨.authority (x.getOwner id), []⟩) := if_neg hp
  have hother : ∀ auth ∈ x.required.other, x.checking.Shallow (.authority auth) :=
    fun auth hauth => h.shallow ⟨.authority auth, []⟩ (by simp [hdemands, hauth]) _
      List.mem_cons_self
  have hactive : ∀ id ∈ x.required.active, x.checking.Shallow (.account id) ∧
      x.checking.Shallow (.authority (x.getOwner id)) := fun id hid => by
    have hcalls := h.shallow ⟨.account id, [.authority (x.getOwner id)]⟩ (by simp [hdemands, hid])
    exact ⟨hcalls _ (by simp), hcalls _ (by simp)⟩
  have howner : ∀ id ∈ x.required.owner, x.checking.Shallow (.authority (x.getOwner id)) :=
    fun id hid => h.shallow ⟨.authority (x.getOwner id), []⟩
      (hdemands ▸ List.mem_append_right _ (List.mem_append_right _ (List.mem_map_of_mem hid))) _
      List.mem_cons_self
  have hothers := SignContext.outcome_requireAll (v := ⟨.make keys, []⟩)
    (show "Missing Authority" ∈ missingAuthority by decide) (l := x.required.other)
    (fun auth hauth => SignContext.does_callAuthority h.fits hwide (hother auth hauth)) hkept
  have hactives := fun v hv => SignContext.outcome_requireAll (v := v)
    (show "Missing Active Authority" ∈ missingAuthority by decide) (l := x.required.active)
    (fun id hid => SignContext.does_orElse
      (SignContext.does_callAccount h.fits hwide (hactive id hid).1)
      (SignContext.does_callAuthority h.fits hwide (hactive id hid).2)) hv
  have howners := fun v hv => SignContext.outcome_requireAll (v := v)
    (show "Missing Owner Authority" ∈ missingAuthority by decide) (l := x.required.owner)
    (fun id hid => SignContext.does_callAuthority h.fits hwide (howner id hid)) hv
  have hall := SignContext.outcome_thenDo hothers fun v hv =>
    SignContext.outcome_thenDo (hactives v hv) howners
  refine ⟨_, ?_, by
    simpa [hdemands, SignContext.met, List.flatMap_map, or_imp, forall_and] using hall⟩
  unfold verify verifyAuthority
  rw [if_neg hp, hcontext]
  simp only [List.not_mem_nil, if_false, thenDo_thenDo]
  rfl

end Verifying

/-- A part of the keys found is accepted if and only if it meets every demand,
and no signature of it is unused. -/
theorem verify_found (h : x.WithinLimit) (hmixed : ¬x.Mixed) (hnodup : keys.Nodup)
    (hfound : ∀ k ∈ keys, k ∈ x.found) :
    (x.Accepts keys ↔ ∀ d ∈ x.demands, x.checking.met (fun k => k ∈ keys) d = true) ∧
      x.verify keys ≠ .error "Unnecessary signature(s) detected" := by
  have hwide : ∀ k, decide (k ∈ keys) = true → decide (k ∈ x.availableKeys) = true :=
    fun k hk => decide_eq_true (mem_found.mp (hfound k (of_decide_eq_true hk))).1
  have hkept : x.checking.Kept (fun k => k ∈ x.availableKeys) (fun k => k ∈ keys)
      (.make keys) := by
    have hnone : x.checking.availableKeys = [] := by
      unfold checking SignContext.ofRequired
      split <;> rfl
    exact SignContext.kept_make hnodup fun k => by simp [hnone]
  have hasserted : x.Asserted (fun k => k ∈ x.availableKeys) (fun k => k ∈ keys) keys := by
    by_cases hp : x.required.posting ≠ []
    · refine asserted_posting h hp ?_ hwide hkept
      by_contra hne
      exact hmixed ⟨hp, hne⟩
    · exact asserted_active h hp hwide hkept
  obtain ⟨r, hverify, hr⟩ := hasserted
  rw [hr.noUnused fun k hk => List.mem_flatMap.mpr
    (mem_found.mp (hfound k (of_decide_eq_true hk))).2] at hverify
  rw [Accepts, hverify]
  refine ⟨hr.ok, fun hunused => ?_⟩
  rcases hr.missing with hok | ⟨e, he, hmissing⟩
  · rw [hok] at hunused
    cases hunused
  · rw [hmissing, Except.error.injEq] at hunused
    rw [hunused] at he
    simp [missingAuthority] at he

/-- With more of the keys found, no less is accepted. -/
theorem accepts_mono (h : x.WithinLimit) (hmixed : ¬x.Mixed) {more : List Key}
    (hnodup : more.Nodup) (hfound : ∀ k ∈ more, k ∈ x.found) (hsub : keys.Sublist more)
    (haccepts : x.Accepts keys) : x.Accepts more := by
  have hmet := (verify_found h hmixed (hnodup.sublist hsub) fun k hk =>
    hfound k (hsub.subset hk)).1.mp haccepts
  have hwide : ∀ k, decide (k ∈ keys) = true → decide (k ∈ more) = true :=
    fun k hk => decide_eq_true (hsub.subset (of_decide_eq_true hk))
  refine (verify_found h hmixed hnodup hfound).1.mpr fun d hd => ?_
  rcases Bool.or_eq_true_iff.mp (hmet d hd) with hfirst | hother
  · exact Bool.or_eq_true_iff.mpr (Or.inl (SignContext.answer_mono hwide hfirst))
  · obtain ⟨call, hcall, hanswer⟩ := List.any_eq_true.mp hother
    exact Bool.or_eq_true_iff.mpr (Or.inr (List.any_eq_true.mpr
      ⟨call, hcall, SignContext.answer_mono hwide hanswer⟩))

/-- Accepted candidates lead to a minimal set. -/
theorem suits_of_accepts (h : x.WithinLimit)
    (hcandidates : x.getRequiredSignatures [] = .ok candidates) (haccepts : x.Accepts candidates) :
    x.Suits candidates := by
  have hmixed : ¬x.Mixed := fun hmixed => not_accepts_of_mixed hmixed haccepts
  have hnodup := nodup_candidates hcandidates
  have hfound : ∀ {keys : List Key}, keys.Sublist candidates → ∀ k ∈ keys, k ∈ x.found :=
    fun hsub k hk => (mem_candidates h hcandidates).mp (hsub.subset hk)
  have hrelevant : ∀ trial ∈ trials x.test candidates candidates,
      x.verify trial.2 ≠ .error "Unnecessary signature(s) detected" := fun trial htrial =>
    have hsub := trials_sublist trial htrial
    (verify_found h hmixed (hnodup.sublist hsub) (hfound hsub)).2
  obtain ⟨kept, hshrink⟩ := exists_shrink hmixed hrelevant
  refine ⟨Or.inl haccepts, hrelevant, fun k left hlast j hj _ => ?_⟩
  have hleft : kept = left := by
    rw [shrink_eq hshrink, hlast]
    rfl
  subst hleft
  have hrejected := rejected_of_mono hnodup (fun keys more hsub hmore hpasses =>
    passes_test.mpr (accepts_mono h hmixed (hnodup.sublist hmore) (hfound hmore) hsub
      (passes_test.mp hpasses))) hshrink ((shrink_sublist hshrink).subset hj) hj
  rw [← passes_test, hrejected]
  simp

/-- While the limit is not met, what counts is that the keys found meet the demands. -/
theorem minimizes_iff_found (h : x.WithinLimit) (hsignable : x.Signable) :
    x.Minimizes ↔ ∀ d ∈ x.demands, x.checking.met (fun k => k ∈ x.found) d = true := by
  have hmixed : ¬x.Mixed := by
    obtain ⟨keys, -, -, haccepts⟩ := hsignable
    exact fun hmixed => not_accepts_of_mixed hmixed haccepts
  have hmet : ∀ candidates, x.getRequiredSignatures [] = .ok candidates →
      (x.Accepts candidates ↔ ∀ d ∈ x.demands, x.checking.met (fun k => k ∈ x.found) d = true) := by
    intro candidates hcandidates
    have hverify := (verify_found h hmixed (nodup_candidates hcandidates) fun k hk =>
      (mem_candidates h hcandidates).mp hk).1
    simpa only [mem_candidates h hcandidates] using hverify
  constructor
  · intro hminimizes
    obtain ⟨candidates, hcandidates, hsuits⟩ := suits_of_minimizes hminimizes
    refine (hmet candidates hcandidates).mp ?_
    rcases hsuits.enough with haccepts | ⟨trial, htrial, haccepts⟩
    · exact haccepts
    · exact accepts_mono h hmixed (nodup_candidates hcandidates)
        (fun k hk => (mem_candidates h hcandidates).mp hk) (trials_sublist trial htrial) haccepts
  · intro hfound
    obtain ⟨candidates, hcandidates⟩ := getRequiredSignatures_ok hmixed
    exact minimizes_of_suits hcandidates
      (suits_of_accepts h hcandidates ((hmet candidates hcandidates).mpr hfound))

/-- The keys found meet a demand if the available ones do in its first call. -/
theorem met_found {d : Demand Key} (hd : d ∈ x.demands) :
    x.checking.met (fun k => k ∈ x.found) d = true ↔ x.Reached d := by
  unfold SignContext.met Reached
  rw [Bool.or_eq_true_iff, List.any_eq_true]
  refine or_congr_left ⟨fun hfirst => ?_, fun hfirst => ?_⟩
  · refine SignContext.answer_mono (fun k hk => ?_) hfirst
    exact decide_eq_true (mem_found.mp (of_decide_eq_true hk)).1
  · refine SignContext.answer_of_looks (fun k hlooked hk => ?_) hfirst
    exact decide_eq_true (mem_found.mpr ⟨of_decide_eq_true hk, d.first,
      List.mem_map_of_mem hd, hlooked⟩)

/-- **Minimal signatures.** While the limit of the recursion is not met, a minimal
accepted set is found if and only if the first call of every demand is satisfied
by the available keys, or another of its calls by the keys that the first calls
look at. Beyond the limit it is found if and only if the candidates lead to one. -/
theorem minimize_required_signatures (x : SigningInput Key) :
    (x.WithinLimit →
      ((x.Signable → x.Minimizes) ↔ (x.Signable → ∀ d ∈ x.demands, x.Reached d))) ∧
    ((x.Signable → x.Minimizes) ↔ (x.Signable → ∃ candidates,
      x.getRequiredSignatures [] = .ok candidates ∧ x.Suits candidates)) := by
  refine ⟨fun h => ?_, minimize_iff x⟩
  refine imp_congr_right fun hsignable => (minimizes_iff_found h hsignable).trans ?_
  exact forall₂_congr fun d hd => met_found hd

/-! ## Where the candidates fail -/

/-- A posting operation of an account of which the active key is at hand. -/
def activeKeyAtHand : SigningInput Nat where
  required := ⟨[], [], ["alice"], []⟩
  availableKeys := [2]
  getActive := fun _ => ⟨1, [], [(2, 1)]⟩
  getOwner := fun _ => ⟨1, [], [(3, 1)]⟩
  getPosting := fun _ => ⟨1, [], [(1, 1)]⟩
  maxRecursion := 2

/-- Three accounts of which `dave` depends on `xavier`, where the recursion stops.
What `alice` depends on decides whether `xavier` is remembered by then. -/
def beyondLimit (alice dave : Authority Nat) : SigningInput Nat where
  required := ⟨["alice", "dave", "frank"], [], [], []⟩
  availableKeys := [1, 2, 3]
  getActive := fun a =>
    if a = "alice" then alice
    else if a = "dave" then dave
    else if a = "bob" then ⟨1, [("ben", 1)], []⟩
    else if a = "ben" then ⟨1, [("xavier", 1)], []⟩
    else if a = "carol" then ⟨1, [], [(2, 1)]⟩
    else ⟨1, [], [(3, 1)]⟩
  getOwner := fun _ => ⟨1, [], [(9, 1)]⟩
  getPosting := fun _ => ⟨1, [], [(9, 1)]⟩
  maxRecursion := 2

/-- Without the first key the second one is not looked at. -/
def secondUnused : SigningInput Nat :=
  beyondLimit ⟨1, [("xavier", 1)], [(1, 1)]⟩ ⟨1, [("bob", 1), ("carol", 1)], []⟩

/-- Without the second key the first one is not needed. -/
def firstUnneeded : SigningInput Nat :=
  beyondLimit ⟨1, [("xavier", 1)], [(2, 1)]⟩ ⟨1, [("bob", 1)], [(1, 1)]⟩

theorem not_minimizes {x : SigningInput Nat} {keys : List Nat}
    (hkeys : x.minimizeRequiredSignatures [] = .ok keys)
    (h : ¬x.Accepts keys ∨ ∃ k ∈ keys, x.Accepts (keys.erase k)) : ¬x.Minimizes := by
  rintro ⟨keys', hkeys', -, -, haccepts, hneeded⟩
  rw [hkeys, Except.ok.injEq] at hkeys'
  subst hkeys'
  rcases h with hnot | ⟨k, hk, herase⟩
  · exact hnot haccepts
  · exact hneeded k hk herase

/-- A transaction that can be signed is left without a signature, one makes the
function throw, and one gets a key that is not needed. -/
theorem minimize_fails :
    (activeKeyAtHand.Signable ∧ activeKeyAtHand.minimizeRequiredSignatures [] = .ok [] ∧
      ¬activeKeyAtHand.Minimizes) ∧
    (secondUnused.Signable ∧ secondUnused.minimizeRequiredSignatures [] =
      .error "Unnecessary signature(s) detected" ∧ ¬secondUnused.Minimizes) ∧
    (firstUnneeded.Signable ∧ firstUnneeded.minimizeRequiredSignatures [] = .ok [1, 3] ∧
      ¬firstUnneeded.Minimizes) := by
  have hthrows : secondUnused.minimizeRequiredSignatures [] =
      .error "Unnecessary signature(s) detected" := by decide
  have hnone : activeKeyAtHand.minimizeRequiredSignatures [] = .ok [] := by rfl
  refine ⟨⟨⟨[2], by decide, by decide, by rfl⟩, hnone, ?_⟩,
    ⟨⟨[1, 2, 3], by decide, by decide, by rfl⟩, hthrows, ?_⟩,
    ⟨⟨[1, 2, 3], by decide, by decide, by rfl⟩, by rfl, ?_⟩⟩
  · have hempty : activeKeyAtHand.verify [] = .error "Missing Posting Authority" := by rfl
    exact not_minimizes hnone (Or.inl (by simp [Accepts, hempty]))
  · rintro ⟨keys, hkeys, -⟩
    rw [hthrows] at hkeys
    cases hkeys
  · exact not_minimizes (by rfl) (Or.inr ⟨1, List.mem_cons_self, by rfl⟩)

def postingKeyAtHand : SigningInput Nat := { activeKeyAtHand with availableKeys := [1, 2] }

/-- With the posting key at hand a minimal set is found. -/
theorem minimize_posting_key : postingKeyAtHand.Signable ∧ postingKeyAtHand.Minimizes := by
  have hsignable : postingKeyAtHand.Signable := ⟨[1], by decide, by decide, by rfl⟩
  have hshallow : ∀ auth : Authority Nat, auth.accountAuths = [] →
      postingKeyAtHand.checking.Within 2 auth :=
    fun auth hnone item hitem => by
      rw [hnone] at hitem
      cases hitem
  have hwithin : postingKeyAtHand.WithinLimit := by
    refine ⟨fun a => ?_, fun d hd call hcall => ?_⟩
    · show 0 + (1 + 0) < 4294967296
      decide
    · obtain rfl := List.mem_singleton.mp hd
      simp only [List.mem_cons, List.not_mem_nil, or_false] at hcall
      rcases hcall with rfl | rfl | rfl
      · exact Or.inr (hshallow _ rfl)
      · exact ⟨by show 0 + (1 + 0) < 4294967296; decide, hshallow _ rfl⟩
      · exact ⟨by show 0 + (1 + 0) < 4294967296; decide, hshallow _ rfl⟩
  refine ⟨hsignable, ((minimize_required_signatures postingKeyAtHand).1 hwithin).mpr
    (fun _ d hd => ?_) hsignable⟩
  obtain rfl := List.mem_singleton.mp hd
  exact Or.inl (by decide)

end SigningInput

end Gamebank.Protocol
