import Gamebank.Chainbase.Undo
import Gamebank.Lib.SnapshotStack

/-!
# Squash

`generic_index::squash` merges the record of the newest session into the
record below it. The merge composes records (`Tracks.merge`): if `u`
tracks the change from `S₀` to `S₁` and `u'` the change from `S₁` to
`S₂`, the merged record tracks the change from `S₀` to `S₂`. Hence
squashing any number of nested sessions and undoing once is the same as
undoing them one by one, as long as the longer replay of the merged record
fits too, and the index with its differences behaves as a stack of
snapshots.
-/

namespace Gamebank.Chainbase

open Gamebank.Lib

universe u

variable {V : Type u} {keys : List (UniqueKey V)}

/-! ## The three loops of the merge -/

namespace UndoState

theorem foldl_mergeOldValue (l : List (Nat × V)) (prev : UndoState V) :
    (l.foldl mergeOldValue prev).newIds = prev.newIds ∧
    (l.foldl mergeOldValue prev).removedValues = prev.removedValues ∧
    (l.foldl mergeOldValue prev).oldNextId = prev.oldNextId ∧
    (l.foldl mergeOldValue prev).revision = prev.revision ∧
    ∀ k, (l.foldl mergeOldValue prev).oldValues.find? k =
      (prev.oldValues.find? k).or
        (if prev.newIds.contains k = true then none else lookupEntry k l) := by
  induction l generalizing prev with
  | nil => simp [lookupEntry]
  | cons e rest ih =>
      obtain ⟨h1, h2, h3, h4, h5⟩ := ih (mergeOldValue prev e)
      obtain ⟨s1, s2, s3, s4, s5⟩ := prev.onModify_spec e.1 e.2
      rw [← mergeOldValue_eq] at s1 s2 s3 s4 s5
      refine ⟨h1.trans s1, h2.trans s2, h3.trans s3, h4.trans s4, fun k => ?_⟩
      rw [List.foldl_cons, h5 k, s5 k, s1, Option.or_assoc]
      congr 1
      by_cases hn : prev.newIds.contains k = true
      · simp [hn]
      · by_cases hk : e.1 = k <;> simp [hn, hk, lookupEntry]

theorem foldl_mergeNewId (l : List (Nat × Unit)) (prev : UndoState V) :
    (l.foldl mergeNewId prev).oldValues = prev.oldValues ∧
    (l.foldl mergeNewId prev).removedValues = prev.removedValues ∧
    (l.foldl mergeNewId prev).oldNextId = prev.oldNextId ∧
    (l.foldl mergeNewId prev).revision = prev.revision ∧
    ∀ k, (l.foldl mergeNewId prev).newIds.contains k = true ↔
      prev.newIds.contains k = true ∨ lookupEntry k l ≠ none := by
  induction l generalizing prev with
  | nil => simp [lookupEntry]
  | cons e rest ih =>
      obtain ⟨h1, h2, h3, h4, h5⟩ := ih (mergeNewId prev e)
      refine ⟨h1, h2, h3, h4, fun k => ?_⟩
      rw [List.foldl_cons, h5 k]
      simp only [mergeNewId, IdMap.contains_iff, IdMap.find?_insert, lookupEntry, eq_comm (a := k)]
      by_cases hk : e.1 = k <;> simp [hk]

/-- What the third loop does to one id. -/
theorem foldl_mergeRemovedValue {l : List (Nat × V)} (hs : Sorted l) (prev : UndoState V) :
    (l.foldl mergeRemovedValue prev).oldNextId = prev.oldNextId ∧
    (l.foldl mergeRemovedValue prev).revision = prev.revision ∧
    ∀ k,
      (l.foldl mergeRemovedValue prev).newIds.find? k =
        (if lookupEntry k l = none then prev.newIds.find? k else none) ∧
      (l.foldl mergeRemovedValue prev).oldValues.find? k =
        (if lookupEntry k l = none ∨ prev.newIds.contains k = true then prev.oldValues.find? k
          else none) ∧
      (l.foldl mergeRemovedValue prev).removedValues.find? k =
        (if prev.newIds.contains k = true then prev.removedValues.find? k
          else (prev.removedValues.find? k).or
            ((lookupEntry k l).map (prev.oldValues.find? k).getD)) := by
  induction l generalizing prev with
  | nil => simp [lookupEntry]
  | cons e rest ih =>
      obtain ⟨hlt, hrest⟩ := List.pairwise_cons.mp hs
      have hrestNone : lookupEntry e.1 rest = none := lookupEntry_of_lt hlt
      obtain ⟨h1, h2, h3⟩ := ih hrest (mergeRemovedValue prev e)
      obtain ⟨s1, s2, s3⟩ := prev.onRemove_spec e.1 e.2
      rw [← mergeRemovedValue_eq] at s1 s2 s3
      refine ⟨h1.trans s1, h2.trans s2, fun k => ?_⟩
      obtain ⟨hnew, hold, hrem⟩ := h3 k
      obtain ⟨snew, sold, srem⟩ := s3 k
      rw [List.foldl_cons, hnew, hold, hrem, snew, sold, srem]
      have hcon : (mergeRemovedValue prev e).newIds.contains k =
          if e.1 = k then false else prev.newIds.contains k := by
        unfold IdMap.contains
        rw [snew]
        split <;> rfl
      rw [hcon]
      by_cases hk : e.1 = k
      · subst hk
        by_cases hn : prev.newIds.contains e.1 = true <;> simp [lookupEntry, hrestNone, hn]
      · simp [lookupEntry, hk]

/-! ## The merged record, id by id -/

variable (u u' : UndoState V)

/-- One of the two records has the id as new. -/
def NewInEither (k : Nat) : Prop := u.newIds.contains k = true ∨ u'.newIds.contains k = true

instance (k : Nat) : Decidable (NewInEither u u' k) := inferInstanceAs (Decidable (_ ∨ _))

/-- The value of an id when the outer session was opened, as far as the records have it. -/
def firstValue (k : Nat) : Option V :=
  (u.oldValues.find? k).or (if u.newIds.contains k = true then none else u'.oldValues.find? k)

theorem merge_oldNextId : (u.merge u').oldNextId = u.oldNextId := by
  unfold merge
  rw [(foldl_mergeRemovedValue u'.removedValues.sorted _).1, (foldl_mergeNewId _ _).2.2.1,
    (foldl_mergeOldValue _ _).2.2.1]

theorem merge_revision : (u.merge u').revision = u.revision := by
  unfold merge
  rw [(foldl_mergeRemovedValue u'.removedValues.sorted _).2.1, (foldl_mergeNewId _ _).2.2.2.1,
    (foldl_mergeOldValue _ _).2.2.2.1]

theorem merge_find? (k : Nat) :
    ((u.merge u').newIds.contains k = true ↔
      u'.removedValues.find? k = none ∧ NewInEither u u' k) ∧
    (u.merge u').oldValues.find? k =
      (if u'.removedValues.find? k = none ∨ NewInEither u u' k then firstValue u u' k
        else none) ∧
    (u.merge u').removedValues.find? k =
      (if NewInEither u u' k then u.removedValues.find? k
        else (u.removedValues.find? k).or
          ((u'.removedValues.find? k).map (firstValue u u' k).getD)) := by
  obtain ⟨a1, a2, -, -, a5⟩ := foldl_mergeOldValue u'.oldValues.entries u
  generalize hu₁ : u'.oldValues.entries.foldl mergeOldValue u = u₁ at a1 a2 a5
  obtain ⟨b1, b2, -, -, b5⟩ := foldl_mergeNewId u'.newIds.entries u₁
  generalize hu₂ : u'.newIds.entries.foldl mergeNewId u₁ = u₂ at b1 b2 b5
  obtain ⟨-, -, c3⟩ := foldl_mergeRemovedValue u'.removedValues.sorted u₂
  have hnew : u₂.newIds.contains k = true ↔ NewInEither u u' k := by
    rw [b5 k, a1, NewInEither, IdMap.contains_iff (m := u'.newIds)]
    rfl
  have hold : u₂.oldValues.find? k = firstValue u u' k := by
    rw [b1]
    exact a5 k
  have hremoved : lookupEntry k u'.removedValues.entries = u'.removedValues.find? k := rfl
  obtain ⟨cnew, cold, cremoved⟩ := c3 k
  rw [hremoved] at cnew cold cremoved
  simp only [merge, hu₁, hu₂, cold, cremoved, hold, b2, a2, hnew]
  refine ⟨?_, trivial, trivial⟩
  rw [IdMap.contains_iff, cnew, ← hnew, IdMap.contains_iff]
  split
  next hnone => simp [hnone]
  next hsome => simp [hsome]

end UndoState

/-! ## Records compose -/

namespace Tracks

variable {S₀ S₁ S₂ : IdMap V} {n₀ n₁ n₂ k : Nat} {u u' : UndoState V} {v w : V}

/-- An id removed in the outer session is never taken again in the inner one. -/
theorem not_reborn (h : Tracks S₀ n₀ u S₁ n₁) (h' : Tracks S₁ n₁ u' S₂ n₂)
    (h0 : S₀.find? k = some v) (h1 : S₁.find? k = none) : S₂.find? k = none := by
  cases h2 : S₂.find? k with
  | none => rfl
  | some w =>
      have := h'.fresh k w h2 h1
      have := h.below_old k v h0
      have := h.next_le
      omega

theorem newInEither_iff (h : Tracks S₀ n₀ u S₁ n₁) (h' : Tracks S₁ n₁ u' S₂ n₂) :
    UndoState.NewInEither u u' k ↔
      (S₀.find? k = none ∧ S₁.find? k ≠ none) ∨ (S₁.find? k = none ∧ S₂.find? k ≠ none) := by
  rw [UndoState.NewInEither, h.newIds k, h'.newIds k]

/-- What the records have as the first value is the first value. -/
theorem firstValue_eq_some (h : Tracks S₀ n₀ u S₁ n₁) (h' : Tracks S₁ n₁ u' S₂ n₂)
    (hv : UndoState.firstValue u u' k = some v) : S₀.find? k = some v ∧ S₁.find? k ≠ none := by
  unfold UndoState.firstValue at hv
  cases ho : u.oldValues.find? k with
  | some y =>
      obtain rfl : y = v := by simpa [ho] using hv
      exact h.oldValue k y ho
  | none =>
      have hn : ¬u.newIds.contains k = true := by
        intro hn
        simp [ho, hn] at hv
      obtain ⟨h1, -⟩ := h'.oldValue k v (by simpa [ho, hn] using hv)
      have hne : S₁.find? k ≠ none := by simp [h1]
      refine ⟨?_, hne⟩
      cases h0 : S₀.find? k with
      | none => exact absurd ((h.newIds k).mpr ⟨h0, hne⟩) hn
      | some x => rw [← h1, h.untouched k x ho h0 hne]

/-- An object whose first value the records do not have has not changed. -/
theorem firstValue_eq_none (h : Tracks S₀ n₀ u S₁ n₁) (h' : Tracks S₁ n₁ u' S₂ n₂)
    (hv : UndoState.firstValue u u' k = none) (h0 : S₀.find? k = some v)
    (h1 : S₁.find? k ≠ none) :
    S₁.find? k = some v ∧ (S₂.find? k ≠ none → S₂.find? k = some v) := by
  obtain ⟨ho, hrest⟩ := Option.or_eq_none_iff.mp hv
  have hn : ¬u.newIds.contains k = true := by simp [h.newIds k, h0]
  have hsame := h.untouched k v ho h0 h1
  exact ⟨hsame, h'.untouched k v (by simpa [hn] using hrest) hsame⟩

theorem merge_removed (h : Tracks S₀ n₀ u S₁ n₁) (h' : Tracks S₁ n₁ u' S₂ n₂) :
    (u.merge u').removedValues.find? k = if S₂.find? k = none then S₀.find? k else none := by
  rw [(UndoState.merge_find? u u' k).2.2, h.removed k, h'.removed k]
  cases h2 : S₂.find? k with
  | some w =>
      cases h1 : S₁.find? k with
      | some x => simp
      | none =>
          cases h0 : S₀.find? k with
          | none => simp
          | some v => simp [h.not_reborn h' h0 h1] at h2
  | none =>
      -- gone in the end: removed in the outer session already, or in the inner one
      cases h1 : S₁.find? k with
      | none => simp
      | some x =>
          cases h0 : S₀.find? k with
          | none => simp [(h.newInEither_iff h').mpr (Or.inl ⟨h0, by simp [h1]⟩)]
          | some v =>
              have hn : ¬UndoState.NewInEither u u' k := by simp [h.newInEither_iff h', h0, h1]
              have hvalue : (UndoState.firstValue u u' k).getD x = v := by
                cases hf : UndoState.firstValue u u' k with
                | some y => simpa [h0] using (h.firstValue_eq_some h' hf).1.symm
                | none => simpa [h1] using (h.firstValue_eq_none h' hf h0 (by simp [h1])).1
              simp [hn, hvalue]

theorem merge_oldValue (h : Tracks S₀ n₀ u S₁ n₁) (h' : Tracks S₁ n₁ u' S₂ n₂)
    (hw : (u.merge u').oldValues.find? k = some w) : S₀.find? k = some w ∧ S₂.find? k ≠ none := by
  rw [(UndoState.merge_find? u u' k).2.1] at hw
  by_cases hc : u'.removedValues.find? k = none ∨ UndoState.NewInEither u u' k
  · rw [if_pos hc] at hw
    obtain ⟨h0, h1⟩ := h.firstValue_eq_some h' hw
    refine ⟨h0, fun h2 => ?_⟩
    rw [h'.removed k, h.newInEither_iff h'] at hc
    simp [h0, h1, h2] at hc
  · rw [if_neg hc] at hw
    cases hw

/-- **Merging composes records.** -/
theorem merge (h : Tracks S₀ n₀ u S₁ n₁) (h' : Tracks S₁ n₁ u' S₂ n₂) :
    Tracks S₀ n₀ (u.merge u') S₂ n₂ where
  oldNextId := (UndoState.merge_oldNextId u u').trans h.oldNextId
  next_le := Nat.le_trans h.next_le h'.next_le
  below_old := h.below_old
  below := h'.below
  fresh := by
    intro k w h2 h0
    cases h1 : S₁.find? k with
    | none => exact Nat.le_trans h.next_le (h'.fresh k w h2 h1)
    | some x => exact h.fresh k x h1 h0
  newIds := by
    intro k
    rw [(UndoState.merge_find? u u' k).1, h.newInEither_iff h', h'.removed k]
    cases h0 : S₀.find? k with
    | none => cases h1 : S₁.find? k <;> cases h2 : S₂.find? k <;> simp
    | some v =>
        cases h1 : S₁.find? k with
        | none => simp [h.not_reborn h' h0 h1]
        | some x => simp
  removed := fun k => h.merge_removed h'
  oldValue := fun k w hw => h.merge_oldValue h' hw
  untouched := by
    intro k v hk h0 h2
    have h1 : S₁.find? k ≠ none := fun h1 => h2 (h.not_reborn h' h0 h1)
    rw [(UndoState.merge_find? u u' k).2.1, h'.removed k, if_pos (Or.inl (if_neg h2))] at hk
    exact (h.firstValue_eq_none h' hk h0 h1).2 h2

end Tracks

/-! ## Nested sessions -/

namespace GenericIndex

@[simp] theorem squash_indices (idx : GenericIndex keys) : idx.squash.indices = idx.indices := by
  unfold squash
  split <;> rfl

@[simp] theorem squash_nextId (idx : GenericIndex keys) : idx.squash.nextId = idx.nextId := by
  unfold squash
  split <;> rfl

theorem squashN_indices (n : Nat) (idx : GenericIndex keys) :
    (squashN n idx).indices = idx.indices ∧ (squashN n idx).nextId = idx.nextId := by
  induction n generalizing idx with
  | zero => exact ⟨rfl, rfl⟩
  | succ n ih => simpa [squashN] using ih idx.squash

/-- Squashing the inner of two nested sessions leaves one session, opened
where the outer one was, with a right record. -/
theorem InSession.squash {base mid idx : GenericIndex keys} (h : InSession base mid)
    (h' : InSession mid idx) : InSession base idx.squash := by
  obtain ⟨u, hstack, hrev, hu, ht⟩ := h
  obtain ⟨u', hstack', hrev', -, ht'⟩ := h'
  refine ⟨u.merge u', ?_, ?_, (UndoState.merge_revision u u').trans hu, ?_⟩
  · simp [GenericIndex.squash, hstack', hstack]
  · simp only [GenericIndex.squash, hstack', hstack]
    omega
  · simpa [objects] using ht.merge ht'

/-- `n` sessions opened one inside the other on `base`, all with right records. -/
inductive Nested (base : GenericIndex keys) : GenericIndex keys → Nat → Prop where
  | one {idx : GenericIndex keys} (h : InSession base idx) : Nested base idx 1
  | inner {mid idx : GenericIndex keys} {n : Nat} (h : Nested base mid n)
      (h' : InSession mid idx) : Nested base idx (n + 1)

theorem Nested.pos {base idx : GenericIndex keys} {n : Nat} (h : Nested base idx n) : 0 < n := by
  cases h <;> omega

/-- Squashing `n` times turns `n + 1` nested sessions into one. -/
theorem Nested.squashN {base idx : GenericIndex keys} {n : Nat} (h : Nested base idx (n + 1)) :
    InSession base (squashN n idx) := by
  induction n generalizing idx with
  | zero =>
      cases h with
      | one h => exact h
      | inner h h' => exact absurd h.pos (by omega)
  | succ n ih =>
      cases h with
      | inner h h' =>
          refine ih ?_
          cases h with
          | one h => exact .one (h.squash h')
          | inner hm hmid => exact .inner hm (hmid.squash h')

theorem Effect.wellFormed {idx idx' : GenericIndex keys} (he : idx.Effect idx')
    (h : idx.WellFormed) : idx'.WellFormed := by
  have hnext : ∀ (i : GenericIndex keys) f, (i.onHead f).nextId = i.nextId ∧
      (i.onHead f).indices = i.indices := by
    intro i f
    unfold onHead
    split <;> exact ⟨rfl, rfl⟩
  cases he with
  | same => exact h
  | created v m hm =>
      intro k w hk
      simp only [objects, (hnext _ _).2, hm, IdMap.find?_insert] at hk
      rw [(hnext _ _).1]
      split at hk
      · subst k
        exact Nat.lt_succ_self _
      · exact Nat.lt_succ_of_lt (h k w hk)
  | modified id v w m hv hm =>
      intro k x hk
      simp only [objects, hm, IdMap.find?_insert] at hk
      show k < (idx.onHead _).nextId
      rw [(hnext _ _).1]
      split at hk
      · subst k
        exact h id v hv
      · exact h k x hk
  | removed id v hv =>
      intro k x hk
      simp only [objects, removeObject, MultiIndex.erase_rows, IdMap.find?_erase] at hk
      show k < (idx.onHead _).nextId
      rw [(hnext _ _).1]
      split at hk
      · simp at hk
      · exact h k x hk

theorem WellFormed.call {idx : GenericIndex keys} (h : idx.WellFormed) (c : Call V) :
    (idx.call c).WellFormed := by
  by_cases hc : idx.callFits c = true
  · exact (idx.call_effect hc).wellFormed h
  · obtain ⟨id, v, hv, hcall⟩ := idx.call_not_fits (by simpa using hc)
    -- The violating call removes an object, which leaves the other ids alone.
    rw [hcall]
    intro k w hk
    have := (Effect.removed id v hv).wellFormed h k w
    simp only [objects, removeObject, onHead] at this hk ⊢
    cases hs : idx.stack <;> simp_all

theorem WellFormed.runCalls {idx : GenericIndex keys} (h : idx.WellFormed)
    (calls : List (Call V)) : (idx.runCalls calls).WellFormed := by
  induction calls generalizing idx with
  | nil => exact h
  | cons c calls ih => exact ih (h.call c)

theorem WellFormed.nest {idx : GenericIndex keys} (h : idx.WellFormed)
    (sessions : List (List (Call V))) : (idx.nest sessions).WellFormed := by
  induction sessions generalizing idx with
  | nil => exact h
  | cons calls sessions ih =>
      refine ih (WellFormed.runCalls ?_ calls)
      exact h

theorem nest_concat (idx : GenericIndex keys) (sessions : List (List (Call V)))
    (calls : List (Call V)) :
    idx.nest (sessions ++ [calls]) = (idx.nest sessions).startUndoSession.runCalls calls := by
  simp [nest]

/-- Every session of the list can be undone on its own: no call of it
violates a unique key, and its replay fits. -/
def SessionsFit : GenericIndex keys → List (List (Call V)) → Prop
  | _, [] => True
  | idx, calls :: sessions =>
      (idx.startUndoSession.callsFit calls = true ∧
        ReplayFits keys idx.objects (idx.startUndoSession.runCalls calls).objects) ∧
      (idx.startUndoSession.runCalls calls).SessionsFit sessions

theorem sessionsFit_concat (idx : GenericIndex keys) (sessions : List (List (Call V)))
    (calls : List (Call V)) :
    idx.SessionsFit (sessions ++ [calls]) ↔
      idx.SessionsFit sessions ∧
        (idx.nest sessions).startUndoSession.callsFit calls = true ∧
        ReplayFits keys (idx.nest sessions).objects
          ((idx.nest sessions).startUndoSession.runCalls calls).objects := by
  induction sessions generalizing idx with
  | nil => simp [SessionsFit, nest]
  | cons s sessions ih =>
      simp only [List.cons_append, SessionsFit, ih]
      exact and_assoc.symm

/-- Undoing the nested sessions one by one completes exactly when each of
them can be undone on its own, and ends where the sessions were opened. -/
theorem undoN_nest_done_iff {idx : GenericIndex keys} (hwf : idx.WellFormed)
    (sessions : List (List (Call V))) (r : GenericIndex keys) :
    undoN sessions.length (idx.nest sessions) = .done r ↔
      r = idx ∧ idx.SessionsFit sessions := by
  induction sessions using List.reverseRecOn with
  | nil => simp [undoN, nest, SessionsFit, eq_comm]
  | append_singleton sessions calls ih =>
      rw [nest_concat, List.length_append, List.length_singleton, undoN, sessionsFit_concat]
      have hiff := undo_runCalls_done_iff (hwf.nest sessions) calls
      constructor
      · intro hd
        split at hd
        · rename_i idx' hu
          obtain ⟨rfl, hfit⟩ := (hiff idx').mp hu
          obtain ⟨hr, hrest⟩ := ih.mp hd
          exact ⟨hr, hrest, hfit⟩
        · simp at hd
        · simp at hd
      · rintro ⟨hr, hrest, hfit⟩
        rw [(hiff _).mpr ⟨rfl, hfit⟩]
        exact ih.mpr ⟨hr, hrest⟩

/-- Sessions that can be undone on their own leave right records. -/
theorem SessionsFit.nested {idx : GenericIndex keys} (hwf : idx.WellFormed)
    {sessions : List (List (Call V))} (h : idx.SessionsFit sessions) (hne : sessions ≠ []) :
    Nested idx (idx.nest sessions) sessions.length := by
  induction sessions using List.reverseRecOn with
  | nil => exact absurd rfl hne
  | append_singleton sessions calls ih =>
      obtain ⟨hrest, hc, -⟩ := (sessionsFit_concat idx sessions calls).mp h
      have hin := (inSession_start (hwf.nest sessions)).runCalls hc
      rw [nest_concat, List.length_append, List.length_singleton]
      cases sessions with
      | nil => exact .one hin
      | cons s ss => exact .inner (ih hrest (by simp)) hin

/-! ### Objects identified by their id alone -/

theorem callsFit_nil {V : Type u} (idx : GenericIndex ([] : List (UniqueKey V)))
    (calls : List (Call V)) : idx.callsFit calls = true := by
  induction calls generalizing idx with
  | nil => rfl
  | cons c calls ih =>
      simp only [callsFit, ih, Bool.and_true]
      cases c with
      | emplace c => rfl
      | remove id => rfl
      | modify id f =>
          simp only [callFits]
          split
          · rfl
          · exact fits_nil _ _ _

theorem replayFits_nil {V : Type u} (S₀ S₁ : IdMap V) : ReplayFits [] S₀ S₁ :=
  fun _ _ _ _ _ _ _ _ => rfl

theorem sessionsFit_nil {V : Type u} (idx : GenericIndex ([] : List (UniqueKey V)))
    (sessions : List (List (Call V))) : idx.SessionsFit sessions := by
  induction sessions generalizing idx with
  | nil => trivial
  | cons calls sessions ih => exact ⟨⟨callsFit_nil _ calls, replayFits_nil _ _⟩, ih _⟩

/-! ### Squashing and undoing once, or undoing one by one -/

/-- Undoing once after the squashes and undoing session by session both
complete, with the same objects, next id and revision. -/
def SquashTransparent (idx : GenericIndex keys) (calls : List (Call V))
    (sessions : List (List (Call V))) : Prop :=
  ∃ r r', (squashN sessions.length (idx.nest (calls :: sessions))).undo = .done r ∧
    undoN (sessions.length + 1) (idx.nest (calls :: sessions)) = .done r' ∧
    r.objects = r'.objects ∧ r.nextId = r'.nextId ∧ r.revision = r'.revision

/-- Where the sessions can be undone one by one, the squashed session can be
undone exactly when the replay over all of them at once fits. -/
theorem undo_squashN_done_iff {idx : GenericIndex keys} (hwf : idx.WellFormed)
    {calls : List (Call V)} {sessions : List (List (Call V))}
    (h : idx.SessionsFit (calls :: sessions)) (r : GenericIndex keys) :
    (squashN sessions.length (idx.nest (calls :: sessions))).undo = .done r ↔
      r = idx ∧ ReplayFits keys idx.objects (idx.nest (calls :: sessions)).objects := by
  -- the merged record is that of one session on `idx`
  have hin := (h.nested hwf (by simp)).squashN
  have hobjects : (squashN sessions.length (idx.nest (calls :: sessions))).objects =
      (idx.nest (calls :: sessions)).objects :=
    congrArg MultiIndex.rows (squashN_indices _ _).1
  rw [← hobjects]
  constructor
  · intro hd
    have hfit := hin.replayFits hd
    have hback := hin.undo_done hfit
    rw [hd, Outcome.done.injEq] at hback
    exact ⟨hback, hfit⟩
  · rintro ⟨rfl, hfit⟩
    exact hin.undo_done hfit

/-- **Exactly when squash is transparent**, at any depth of nesting, for
every set of unique keys and arbitrary calls in every session. The squashes
change no object and no next id. Undoing once then gives what undoing every
session in turn gives if and only if each session can be undone on its own
and the squashed one can: between the state the outer session was opened on
and the last one, no surviving object's old value takes a unique key that
an object with a larger id holds. Whichever way completes ends on the index
the outer session was opened on, and objects identified by their id alone
stop neither. -/
theorem undo_squashN_nest_iff (idx : GenericIndex keys) (hwf : idx.WellFormed)
    (calls : List (Call V)) (sessions : List (List (Call V))) :
    ((squashN sessions.length (idx.nest (calls :: sessions))).objects =
        (idx.nest (calls :: sessions)).objects ∧
      (squashN sessions.length (idx.nest (calls :: sessions))).nextId =
        (idx.nest (calls :: sessions)).nextId) ∧
    (idx.SquashTransparent calls sessions ↔
      idx.SessionsFit (calls :: sessions) ∧
        ReplayFits keys idx.objects (idx.nest (calls :: sessions)).objects) ∧
    (∀ r', undoN (sessions.length + 1) (idx.nest (calls :: sessions)) = .done r' →
      r' = idx ∧ ∀ r,
        ((squashN sessions.length (idx.nest (calls :: sessions))).undo = .done r ↔
          r = idx ∧ ReplayFits keys idx.objects (idx.nest (calls :: sessions)).objects)) ∧
    (keys = [] → idx.SquashTransparent calls sessions) := by
  have hunchanged := squashN_indices sessions.length (idx.nest (calls :: sessions))
  have honeByOne := undoN_nest_done_iff hwf (calls :: sessions)
  have htransparent : idx.SquashTransparent calls sessions ↔
      idx.SessionsFit (calls :: sessions) ∧
        ReplayFits keys idx.objects (idx.nest (calls :: sessions)).objects := by
    constructor
    · rintro ⟨r, r', hr, hr', -⟩
      have hfit := ((honeByOne r').mp hr').2
      exact ⟨hfit, ((undo_squashN_done_iff hwf hfit r).mp hr).2⟩
    · rintro ⟨hfit, hreplay⟩
      exact ⟨idx, idx, (undo_squashN_done_iff hwf hfit idx).mpr ⟨rfl, hreplay⟩,
        (honeByOne idx).mpr ⟨rfl, hfit⟩, rfl, rfl, rfl⟩
  refine ⟨⟨congrArg MultiIndex.rows hunchanged.1, hunchanged.2⟩, htransparent, ?_, ?_⟩
  · intro r' hr'
    obtain ⟨hback, hfit⟩ := (honeByOne r').mp hr'
    exact ⟨hback, undo_squashN_done_iff hwf hfit⟩
  · rintro rfl
    exact htransparent.mpr ⟨sessionsFit_nil _ _, replayFits_nil _ _⟩

/-- The outer session frees the key of object `0`, the inner one lets object
`1` take it. Every call fits, and undoing the sessions in turn gives the
start back; after the squash `undo` gives object `0` its old key while
object `1` still holds it, and throws with an object lost. -/
theorem squash_handOver_throws :
    twoObjects.WellFormed ∧
      twoObjects.startUndoSession.callsFit [.modify 0 fun _ => 3] = true ∧
      (twoObjects.nest [[.modify 0 fun _ => 3]]).startUndoSession.callsFit
        [.modify 1 fun _ => 1] = true ∧
      undoN 2 (twoObjects.nest [[.modify 0 fun _ => 3], [.modify 1 fun _ => 1]]) =
        .done twoObjects ∧
      (∃ r, (squashN 1 (twoObjects.nest [[.modify 0 fun _ => 3], [.modify 1 fun _ => 1]])).undo =
        .threw r ∧ r.objects.find? 0 = none) ∧
      ¬twoObjects.SquashTransparent [.modify 0 fun _ => 3] [[.modify 1 fun _ => 1]] := by
  refine ⟨twoObjects_wellFormed, by decide, by decide, by decide, ⟨_, rfl, by decide⟩, ?_⟩
  rintro ⟨r, r', hr, -⟩
  have hthrew : ∀ r, (squashN 1 (twoObjects.nest
      [[.modify 0 fun _ => 3], [.modify 1 fun _ => 1]])).undo ≠ .done r := by
    intro r h
    cases h
  exact hthrew r hr

/-- An outer session changes object `0`; the inner one changes it again,
removes object `1` and creates another object in its place. -/
theorem undo_squashN_nest_replaced :
    twoObjects.WellFormed ∧
      twoObjects.SquashTransparent [.modify 0 fun _ => 3]
        [[.modify 0 fun _ => 4, .remove 1, .emplace fun _ => 2]] ∧
      twoObjects.SessionsFit [[.modify 0 fun _ => 3],
        [.modify 0 fun _ => 4, .remove 1, .emplace fun _ => 2]] := by
  have h := undo_squashN_nest_iff twoObjects twoObjects_wellFormed [.modify 0 fun _ => 3]
    [[.modify 0 fun _ => 4, .remove 1, .emplace fun _ => 2]]
  have hboth : twoObjects.SquashTransparent [.modify 0 fun _ => 3]
      [[.modify 0 fun _ => 4, .remove 1, .emplace fun _ => 2]] :=
    ⟨twoObjects, twoObjects, by decide, by decide, rfl, rfl, rfl⟩
  exact ⟨twoObjects_wellFormed, hboth, (h.2.1.mp hboth).1⟩

end GenericIndex

end Gamebank.Chainbase
