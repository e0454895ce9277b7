import Mathlib.Data.List.Sort
import Gamebank.Lib.Checked
import Gamebank.Lib.Shrink
import Gamebank.Protocol.SignState

/-!
# Minimal signatures

`get_required_signatures` and `minimize_required_signatures` of
`transaction.cpp`. The first collects candidates: the available keys that a
check of the required authorities comes across. The second leaves them out one
after the other, as long as `verify_authority` accepts the rest.

The candidates are found by other checks than those of `verify_authority`,
which falls back from the posting to the active and the owner authority of an
account, and from the active to the owner authority. A set of keys is a list
without duplicates, in the order of the keys.
-/

namespace Gamebank.Protocol

open Gamebank.Lib

variable {Key : Type}

/-- What the four exceptions say that `minimize_required_signatures` catches. -/
def missingAuthority : List String :=
  ["Missing Owner Authority", "Missing Active Authority", "Missing Posting Authority",
    "Missing Authority"]

/-! ## Verdicts -/

/-- What a verification may say of a set of signatures. -/
inductive Verdict (r : Except String Unit) : Prop
  | accepted (h : r = .ok ())
  | missing (e : String) (he : e ∈ missingAuthority) (h : r = .error e)
  | unused (h : r = .error "Unnecessary signature(s) detected")

namespace Verification

theorem requireAll_fst {α : Type} (check : α → Verification Key → Bool × Verification Key)
    (message : String) (l : List α) (v : Verification Key) :
    (requireAll check message l v).1 = .ok () ∨
      (requireAll check message l v).1 = .error message := by
  induction l generalizing v with
  | nil => exact Or.inl rfl
  | cons a rest ih =>
      rw [requireAll]
      split
      · exact ih _
      · exact Or.inr rfl

theorem verdict_requireAll {α : Type} {check : α → Verification Key → Bool × Verification Key}
    {message : String} (hmessage : message ∈ missingAuthority) {l : List α} {v : Verification Key}
    {next : Verification Key → Except String Unit × Verification Key}
    (hnext : ∀ v, Verdict (next v).1) :
    Verdict (thenDo (requireAll check message l v) next).1 := by
  have hfst := requireAll_fst check message l v
  generalize requireAll check message l v = r at hfst ⊢
  obtain ⟨result, w⟩ := r
  rcases hfst with rfl | rfl
  · exact hnext w
  · exact .missing message hmessage rfl

theorem verdict_noUnusedSignatures (v : Verification Key) :
    Verdict (noUnusedSignatures v).1 := by
  unfold noUnusedSignatures
  by_cases hremoved : v.state.removeUnusedSignatures.1 = true
  · exact .unused (by simp [hremoved])
  · exact .accepted (by simp [hremoved])

end Verification

/-! ## The two functions -/

variable [LinearOrder Key]

/-- `insert` of a sorted set. -/
def insertKey (k : Key) (keys : List Key) : List Key :=
  if k ∈ keys then keys else keys.orderedInsert (· ≤ ·) k

/-- What a transaction requires, and what the two functions are given besides. -/
structure SigningInput (Key : Type) where
  required : Required Key
  availableKeys : List Key
  getActive : String → Authority Key
  getOwner : String → Authority Key
  getPosting : String → Authority Key
  maxRecursion : Nat

namespace SigningInput

/-- The keys that are available, of those used. -/
def provided (x : SigningInput Key) (s : SignState Key) : List Key :=
  s.removeUnusedSignatures.2.providedSignatures.foldl (fun result sig =>
    if sig.1 ∈ x.availableKeys then insertKey sig.1 result else result) []

/-- `get_required_signatures` of a transaction that is signed by `signatureKeys`. -/
def getRequiredSignatures (x : SigningInput Key) (signatureKeys : List Key) :
    Except String (List Key) :=
  if x.required.posting ≠ [] then do
    let c : SignContext Key := ⟨x.getPosting, x.availableKeys, x.maxRecursion⟩
    ensure (x.required.owner = []) "!required_owner.size()"
    ensure (x.required.active = []) "!required_active.size()"
    let s : SignState Key := .make signatureKeys
    let s := x.required.posting.foldl (fun s id => (c.checkAccount id s).2) s
    return x.provided s
  else
    let c : SignContext Key := ⟨x.getActive, x.availableKeys, x.maxRecursion⟩
    let s : SignState Key := .make signatureKeys
    let s := x.required.other.foldl (fun s auth => (c.checkAuthority auth s).2) s
    let s := x.required.owner.foldl (fun s id => (c.checkAuthority (x.getOwner id) s).2) s
    let s := x.required.active.foldl (fun s id => (c.checkAccount id s).2) s
    .ok (x.provided s)

/-- `verify_authority` of the operations, with the signatures `sigs`. -/
def verify (x : SigningInput Key) (sigs : List Key) : Except String Unit :=
  (verifyAuthority x.getActive x.getOwner x.getPosting sigs x.maxRecursion x.required [] [] []).1

/-- `minimize_required_signatures`. -/
def minimizeRequiredSignatures (x : SigningInput Key) (signatureKeys : List Key) :
    Except String (List Key) := do
  let s ← x.getRequiredSignatures signatureKeys
  s.foldlM (fun result k =>
    match x.verify (result.erase k) with
    | .ok () => .ok (result.erase k)
    | .error e =>
        if e ∈ missingAuthority then .ok (insertKey k (result.erase k)) else .error e) s

/-- What the loop makes of a verification. -/
def test (x : SigningInput Key) (sigs : List Key) : Except String Bool :=
  match x.verify sigs with
  | .ok () => .ok true
  | .error e => if e ∈ missingAuthority then .ok false else .error e

/-- `verify_authority` accepts the signatures. -/
def Accepts (x : SigningInput Key) (sigs : List Key) : Prop := x.verify sigs = .ok ()

/-- Some of the available keys make `verify_authority` accept. -/
def Signable (x : SigningInput Key) : Prop :=
  ∃ keys : List Key, keys.Nodup ∧ (∀ k ∈ keys, k ∈ x.availableKeys) ∧ x.Accepts keys

/-- The keys found for a transaction without signatures are available and
accepted, and each of them is needed. -/
def Minimizes (x : SigningInput Key) : Prop :=
  ∃ keys : List Key, x.minimizeRequiredSignatures [] = .ok keys ∧ keys.Nodup ∧
    (∀ k ∈ keys, k ∈ x.availableKeys) ∧ x.Accepts keys ∧ ∀ k ∈ keys, ¬x.Accepts (keys.erase k)

/-- When the candidates lead to a minimal set. -/
structure Suits (x : SigningInput Key) (candidates : List Key) : Prop where
  /-- They are accepted, or a set is that is tried. -/
  enough : x.Accepts candidates ∨ ∃ trial ∈ trials x.test candidates candidates, x.Accepts trial.2
  /-- No set is tried with a signature that is not looked at. -/
  relevant : ∀ trial ∈ trials x.test candidates candidates,
    x.verify trial.2 ≠ .error "Unnecessary signature(s) detected"
  /-- After the last key that was left out, those kept before it are still needed. -/
  needed : ∀ k left, lastAccepted x.test candidates candidates = some (k, left) →
    ∀ j ∈ left, j < k → ¬x.Accepts (left.erase j)

variable {x : SigningInput Key} {sigs candidates keys : List Key} {k : Key}

/-! ## Sorted sets -/

theorem mem_insertKey {j : Key} : j ∈ insertKey k keys ↔ j = k ∨ j ∈ keys := by
  unfold insertKey
  by_cases hk : k ∈ keys
  · rw [if_pos hk]
    refine ⟨Or.inr, fun h => h.elim (fun heq => heq ▸ hk) id⟩
  · rw [if_neg hk, List.mem_orderedInsert]

theorem pairwise_insertKey (h : keys.Pairwise (· < ·)) : (insertKey k keys).Pairwise (· < ·) := by
  unfold insertKey
  by_cases hk : k ∈ keys
  · rw [if_pos hk]
    exact h
  · rw [if_neg hk]
    have hle : (keys.orderedInsert (· ≤ ·) k).Pairwise (· ≤ ·) :=
      (h.imp fun hab => hab.le).orderedInsert k keys
    have hnodup : (keys.orderedInsert (· ≤ ·) k).Nodup := by
      rw [(List.perm_orderedInsert (· ≤ ·) k keys).nodup_iff, List.nodup_cons]
      exact ⟨hk, h.imp fun hab => hab.ne⟩
    exact (hle.and hnodup).imp fun hab => lt_of_le_of_ne hab.1 hab.2

/-- A key that was left out is put back where it was. -/
theorem insertKey_erase (h : keys.Pairwise (· < ·)) (hk : k ∈ keys) :
    insertKey k (keys.erase k) = keys := by
  have hnodup : keys.Nodup := h.imp fun hab => hab.ne
  rw [insertKey, if_neg hnodup.not_mem_erase]
  exact List.orderedInsert_erase k keys hk (h.imp fun hab => hab.le)

/-- Keys are inserted into a set. -/
theorem foldl_insertKey (p : Key → Prop) [DecidablePred p] (l : List (Key × Bool))
    (h : keys.Pairwise (· < ·)) :
    (l.foldl (fun result sig => if p sig.1 then insertKey sig.1 result else result) keys).Pairwise
      (· < ·) ∧
    ∀ j, j ∈ l.foldl (fun result sig => if p sig.1 then insertKey sig.1 result else result) keys ↔
      j ∈ keys ∨ (p j ∧ j ∈ l.map Prod.fst) := by
  induction l generalizing keys with
  | nil => exact ⟨h, by simp⟩
  | cons sig l ih =>
      rw [List.foldl_cons]
      by_cases hp : p sig.1
      · rw [if_pos hp]
        obtain ⟨hsorted, hmem⟩ := ih (pairwise_insertKey (k := sig.1) h)
        refine ⟨hsorted, fun j => ?_⟩
        rw [hmem, mem_insertKey, List.map_cons, List.mem_cons]
        constructor
        · rintro ((rfl | hj) | hj)
          · exact Or.inr ⟨hp, Or.inl rfl⟩
          · exact Or.inl hj
          · exact Or.inr ⟨hj.1, Or.inr hj.2⟩
        · rintro (hj | ⟨hj, rfl | hmem⟩)
          · exact Or.inl (Or.inr hj)
          · exact Or.inl (Or.inl rfl)
          · exact Or.inr ⟨hj, hmem⟩
      · rw [if_neg hp]
        obtain ⟨hsorted, hmem⟩ := ih h
        refine ⟨hsorted, fun j => ?_⟩
        rw [hmem, List.map_cons, List.mem_cons]
        constructor
        · rintro (hj | hj)
          · exact Or.inl hj
          · exact Or.inr ⟨hj.1, Or.inr hj.2⟩
        · rintro (hj | ⟨hj, rfl | hmem⟩)
          · exact Or.inl hj
          · exact absurd hj hp
          · exact Or.inr ⟨hj, hmem⟩

theorem provided_pairwise (x : SigningInput Key) (s : SignState Key) :
    (x.provided s).Pairwise (· < ·) :=
  (foldl_insertKey (fun k => k ∈ x.availableKeys) _ List.Pairwise.nil).1

theorem mem_provided {s : SignState Key} : k ∈ x.provided s ↔
    k ∈ x.availableKeys ∧ (k, true) ∈ s.providedSignatures := by
  have hmem := (foldl_insertKey (fun k => k ∈ x.availableKeys)
    s.removeUnusedSignatures.2.providedSignatures List.Pairwise.nil).2 k
  refine hmem.trans ?_
  simp [SignState.removeUnusedSignatures]

/-- The candidates are a set of available keys. -/
theorem getRequiredSignatures_spec (x : SigningInput Key) (signatureKeys : List Key) :
    Returns (x.getRequiredSignatures signatureKeys) fun candidates =>
      candidates.Pairwise (· < ·) ∧ ∀ k ∈ candidates, k ∈ x.availableKeys := by
  have hprovided : ∀ s, (x.provided s).Pairwise (· < ·) ∧ ∀ k ∈ x.provided s,
      k ∈ x.availableKeys := fun s => ⟨provided_pairwise x s, fun k hk => (mem_provided.mp hk).1⟩
  unfold getRequiredSignatures
  refine .ite (fun _ => .ensure fun _ => .ensure fun _ => .pure (hprovided _)) fun _ => ?_
  exact .ok (hprovided _)

theorem nodup_candidates (h : x.getRequiredSignatures [] = .ok candidates) : candidates.Nodup :=
  (getRequiredSignatures_spec x [] candidates h).1.imp fun hab => hab.ne

/-! ## The loop -/

theorem passes_test : passes x.test sigs = true ↔ x.Accepts sigs := by
  rw [passes_eq_true, test, Accepts]
  cases x.verify sigs with
  | ok u => simp
  | error e => by_cases he : e ∈ missingAuthority <;> simp [he]

/-- The loop is a greedy pass. -/
theorem foldlM_eq_shrink {rest : List Key} (hkeys : keys.Pairwise (· < ·)) (hrest : rest.Nodup)
    (hsub : ∀ k ∈ rest, k ∈ keys) :
    rest.foldlM (fun result k =>
      match x.verify (result.erase k) with
      | .ok () => .ok (result.erase k)
      | .error e =>
          if e ∈ missingAuthority then .ok (insertKey k (result.erase k)) else .error e) keys =
      shrink x.test rest keys := by
  induction rest generalizing keys with
  | nil => rfl
  | cons k rest ih =>
      obtain ⟨hk, hrest⟩ := List.nodup_cons.mp hrest
      have hmem : k ∈ keys := hsub k List.mem_cons_self
      rw [List.foldlM_cons, shrink, test]
      cases hverify : x.verify (keys.erase k) with
      | ok u =>
          refine ih (hkeys.sublist List.erase_sublist) hrest fun j hj => ?_
          have hne : j ≠ k := fun heq => hk (heq ▸ hj)
          exact (List.mem_erase_of_ne hne).mpr (hsub j (List.mem_cons_of_mem k hj))
      | error e =>
          by_cases he : e ∈ missingAuthority
          · simp only [he, if_true]
            rw [insertKey_erase hkeys hmem]
            exact ih hkeys hrest fun j hj => hsub j (List.mem_cons_of_mem k hj)
          · simp only [he, if_false]
            rfl

/-- What the two functions do. -/
theorem minimizeRequiredSignatures_eq (x : SigningInput Key) (signatureKeys : List Key) :
    x.minimizeRequiredSignatures signatureKeys =
      x.getRequiredSignatures signatureKeys >>= fun s => shrink x.test s s := by
  unfold minimizeRequiredSignatures
  cases hs : x.getRequiredSignatures signatureKeys with
  | error e => rfl
  | ok s =>
      have hsorted := (getRequiredSignatures_spec x signatureKeys s hs).1
      exact foldlM_eq_shrink hsorted (hsorted.imp fun hab => hab.ne) fun k hk => hk

/-- Posting authority is required together with other authority. -/
def Mixed (x : SigningInput Key) : Prop :=
  x.required.posting ≠ [] ∧
    ¬(x.required.active = [] ∧ x.required.owner = [] ∧ x.required.other.length = 0)

theorem not_accepts_of_mixed (h : x.Mixed) : ¬x.Accepts sigs := by
  unfold Accepts verify verifyAuthority
  rw [if_pos h.1]
  dsimp only
  rw [if_neg h.2]
  simp

open Verification in
theorem verdict_verify (h : ¬x.Mixed) (sigs : List Key) : Verdict (x.verify sigs) := by
  unfold verify verifyAuthority
  by_cases hp : x.required.posting ≠ []
  · have hempty : x.required.active = [] ∧ x.required.owner = [] ∧
        x.required.other.length = 0 := by
      by_contra hne
      exact h ⟨hp, hne⟩
    rw [if_pos hp]
    dsimp only
    rw [if_pos hempty]
    exact verdict_requireAll (by decide) verdict_noUnusedSignatures
  · rw [if_neg hp]
    refine verdict_requireAll (by decide) fun v => ?_
    refine verdict_requireAll (by decide) fun v => ?_
    exact verdict_requireAll (by decide) verdict_noUnusedSignatures

/-- The loop throws only where a signature is not looked at. -/
theorem exists_shrink (hmixed : ¬x.Mixed)
    (hrelevant : ∀ trial ∈ trials x.test candidates candidates,
      x.verify trial.2 ≠ .error "Unnecessary signature(s) detected") :
    ∃ keys, shrink x.test candidates candidates = .ok keys := by
  refine shrink_returns.mpr fun trial htrial => ?_
  rw [test]
  rcases verdict_verify hmixed trial.2 with hok | ⟨e, he, hmissing⟩ | hunused
  · exact ⟨true, by rw [hok]⟩
  · exact ⟨false, by rw [hmissing]; simp [he]⟩
  · exact absurd hunused (hrelevant trial htrial)

/-! ## When the two functions do what they should -/

theorem suits_of_minimizes (h : x.Minimizes) :
    ∃ candidates, x.getRequiredSignatures [] = .ok candidates ∧ x.Suits candidates := by
  obtain ⟨keys, hkeys, -, -, haccepts, hneeded⟩ := h
  rw [minimizeRequiredSignatures_eq] at hkeys
  obtain ⟨candidates, hcandidates, hshrink⟩ := bind_eq_ok.mp hkeys
  refine ⟨candidates, hcandidates, ?_, ?_, ?_⟩
  · rcases (passes_shrink hshrink).mp (passes_test.mpr haccepts) with h | ⟨trial, htrial, h⟩
    · exact Or.inl (passes_test.mp h)
    · exact Or.inr ⟨trial, htrial, passes_test.mp h⟩
  · intro trial htrial hunused
    obtain ⟨accepted, htest⟩ := shrink_returns.mp ⟨keys, hshrink⟩ trial htrial
    rw [test, hunused] at htest
    simp [missingAuthority] at htest
  · intro k left hlast j hj _
    have hleft : keys = left := by
      rw [shrink_eq hshrink, hlast]
      rfl
    exact hleft ▸ hneeded j (hleft ▸ hj)

theorem minimizes_of_suits (hcandidates : x.getRequiredSignatures [] = .ok candidates)
    (h : x.Suits candidates) : x.Minimizes := by
  obtain ⟨hsorted, havailable⟩ := getRequiredSignatures_spec x [] candidates hcandidates
  have hnodup := nodup_candidates hcandidates
  have hmixed : ¬x.Mixed := by
    intro hmixed
    rcases h.enough with haccepts | ⟨trial, -, haccepts⟩
    · exact not_accepts_of_mixed hmixed haccepts
    · exact not_accepts_of_mixed hmixed haccepts
  obtain ⟨keys, hshrink⟩ := exists_shrink hmixed h.relevant
  have hsub := shrink_sublist hshrink
  refine ⟨keys, ?_, hnodup.sublist hsub, fun k hk => havailable k (hsub.subset hk), ?_, ?_⟩
  · rw [minimizeRequiredSignatures_eq, hcandidates]
    exact hshrink
  · refine passes_test.mp ((passes_shrink hshrink).mpr ?_)
    rcases h.enough with haccepts | ⟨trial, htrial, haccepts⟩
    · exact Or.inl (passes_test.mpr haccepts)
    · exact Or.inr ⟨trial, htrial, passes_test.mpr haccepts⟩
  · intro j hj
    have hmem : j ∈ candidates := hsub.subset hj
    cases hlast : lastAccepted x.test candidates candidates with
    | none =>
        have hall : keys = candidates := by
          rw [shrink_eq hshrink, hlast]
          rfl
        have hrejected := rejected_of_none hlast j hmem
        rw [hall, ← passes_test, hrejected]
        simp
    | some last =>
        obtain ⟨k, left⟩ := last
        have hleft : keys = left := by
          rw [shrink_eq hshrink, hlast]
          rfl
        subst hleft
        have hne : j ≠ k := fun heq =>
          notMem_trial hnodup _ (lastAccepted_mem hlast).1 (heq ▸ hj)
        rcases lt_or_gt_of_ne hne with hlt | hgt
        · exact h.needed k keys hlast j hj hlt
        · -- keys come in their order, so this one had its turn after `k`
          obtain ⟨before, after, hsplit, hafter⟩ := rejected_after hlast
          rw [hsplit] at hsorted hmem
          have hlater : j ∈ after := by
            rcases List.mem_append.mp hmem with hbefore | hrest
            · have hlt := (List.pairwise_append.mp hsorted).2.2 j hbefore k List.mem_cons_self
              exact absurd hlt hgt.not_gt
            · exact (List.mem_cons.mp hrest).resolve_left hne
          rw [← passes_test, hafter j hlater]
          simp

/-- **Minimal signatures.** A minimal accepted set is found if and only if the
candidates lead to one. -/
theorem minimize_iff (x : SigningInput Key) : (x.Signable → x.Minimizes) ↔
    (x.Signable → ∃ candidates, x.getRequiredSignatures [] = .ok candidates ∧
      x.Suits candidates) := by
  constructor
  · exact fun h hsignable => suits_of_minimizes (h hsignable)
  · intro h hsignable
    obtain ⟨candidates, hcandidates, hsuits⟩ := h hsignable
    exact minimizes_of_suits hcandidates hsuits

end SigningInput

end Gamebank.Protocol
