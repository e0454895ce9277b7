import Gamebank.Chainbase.Session

/-!
# Undo

What the three loops of `generic_index::undo` do, and exactly when they
bring back the state the session was opened on.

The loop over `old_values` runs in the order of the ids, whatever the
order of the changes was. When it puts the old value of `k` back, the
objects with larger ids still have their new values. So the replay goes
through exactly when no surviving object's old value takes a unique key
that an object **with a larger id** holds at the end of the session
(`ReplayFits`).
-/

namespace Gamebank.Chainbase

open Gamebank.Lib

universe u

variable {V : Type u} {keys : List (UniqueKey V)}

namespace MultiIndex

/-! ## The loop over `old_values` -/

/-- The objects of `m` with the entries of `l` laid over them. -/
def overlay (l : List (Nat × V)) (m : IdMap V) (j : Nat) : Option V :=
  (lookupEntry j l).or (m.find? j)

/-- Every turn finds its object and a value that fits there. -/
def OldValuesFit (l : List (Nat × V)) (m : MultiIndex keys) : Prop :=
  ∀ k v, lookupEntry k l = some v → m.rows.find? k ≠ none ∧
    ∀ j w, j ≠ k → (if j < k then overlay l m.rows j else m.rows.find? j) = some w →
      clashes keys w v = false

theorem overlay_insert {e : Nat × V} {rest : List (Nat × V)} {m : IdMap V}
    (hs : Sorted (e :: rest)) (j : Nat) :
    overlay rest (m.insert e.1 e.2) j = overlay (e :: rest) m j := by
  obtain ⟨hlt, -⟩ := List.pairwise_cons.mp hs
  unfold overlay
  rw [IdMap.find?_insert]
  by_cases hj : j = e.1
  · subst hj
    simp [lookupEntry, lookupEntry_of_lt hlt]
  · simp [lookupEntry, hj, Ne.symm hj]

/-- The loop completes with the old values laid over the objects. -/
theorem restoreOldValues_of_fit {l : List (Nat × V)} {m : MultiIndex keys} (hs : Sorted l)
    (h : OldValuesFit l m) :
    ∃ m', m.restoreOldValues l = .done m' ∧ ∀ j, m'.rows.find? j = overlay l m.rows j := by
  induction l generalizing m with
  | nil => exact ⟨m, rfl, fun j => rfl⟩
  | cons e rest ih =>
      obtain ⟨hlt, hrest⟩ := List.pairwise_cons.mp hs
      obtain ⟨hpres, hfit⟩ := h e.1 e.2 (by simp [lookupEntry])
      obtain ⟨x, hx⟩ := Option.ne_none_iff_exists'.mp hpres
      have hfits : fits keys m.rows e.1 e.2 = true := by
        refine fits_iff.mpr fun j w hj hw => hfit j w hj ?_
        split
        · -- Below the least key of the list nothing is laid over yet.
          rename_i hje
          have hnone : lookupEntry j (e :: rest) = none := by
            refine lookupEntry_of_lt fun d hd => ?_
            rcases List.mem_cons.mp hd with rfl | hd
            · exact hje
            · exact Nat.lt_trans hje (hlt d hd)
          simpa [overlay, hnone] using hw
        · exact hw
      obtain ⟨hrows, hok⟩ := modify_of_fits hfits
      generalize hm : m.modify e.1 e.2 = r at hrows hok
      obtain ⟨m₁, ok⟩ := r
      simp only at hrows hok
      subst hok
      have hnext : OldValuesFit rest m₁ := by
        intro k v hk
        have hek : e.1 < k := hlt _ (lookupEntry_mem hk)
        obtain ⟨hp, hf⟩ := h k v (by simp [lookupEntry, Nat.ne_of_lt hek, hk])
        refine ⟨?_, fun j w hj hw => hf j w hj ?_⟩
        · rw [hrows, IdMap.find?_insert]
          split
          · simp
          · exact hp
        · rw [hrows] at hw
          split at hw
          · rename_i hjk
            rw [if_pos hjk, ← overlay_insert hs, hw]
          · rename_i hjk
            rw [if_neg hjk]
            rw [IdMap.find?_insert, if_neg (by omega)] at hw
            exact hw
      obtain ⟨m', hdone, hfind⟩ := ih hrest hnext
      refine ⟨m', ?_, fun j => ?_⟩
      · simp [restoreOldValues, find?, hx, hm, hdone]
      · rw [hfind j, hrows, overlay_insert hs]

/-- If the loop completes, every turn found its object and a value that fitted. -/
theorem oldValuesFit_of_restore {l : List (Nat × V)} {m m' : MultiIndex keys} (hs : Sorted l)
    (h : m.restoreOldValues l = .done m') : OldValuesFit l m := by
  induction l generalizing m with
  | nil =>
      intro k v hk
      simp [lookupEntry] at hk
  | cons e rest ih =>
      obtain ⟨hlt, hrest⟩ := List.pairwise_cons.mp hs
      unfold restoreOldValues at h
      cases hx : m.find? e.1 with
      | none => simp [hx] at h
      | some x =>
          by_cases hfits : fits keys m.rows e.1 e.2 = true
          case neg =>
            simp [hx, modify_of_not_fits (Bool.eq_false_iff.mpr hfits)] at h
          case pos =>
            obtain ⟨hrows, hok⟩ := modify_of_fits hfits
            generalize hm : m.modify e.1 e.2 = r at hrows hok
            obtain ⟨m₁, ok⟩ := r
            simp only at hrows hok
            subst hok
            simp only [hx, hm] at h
            have hnext := ih hrest h
            intro k v hk
            by_cases hke : e.1 = k
            · subst hke
              simp only [lookupEntry, if_true, Option.some.injEq] at hk
              subst hk
              refine ⟨by simp [show m.rows.find? e.1 = some x from hx], fun j w hj hw => ?_⟩
              refine fits_iff.mp hfits j w hj ?_
              split at hw
              · rename_i hje
                have hnone : lookupEntry j (e :: rest) = none := by
                  refine lookupEntry_of_lt fun d hd => ?_
                  rcases List.mem_cons.mp hd with rfl | hd
                  · exact hje
                  · exact Nat.lt_trans hje (hlt d hd)
                simpa [overlay, hnone] using hw
              · exact hw
            · simp only [lookupEntry, hke, if_false] at hk
              have hek : e.1 < k := hlt _ (lookupEntry_mem hk)
              obtain ⟨hp, hf⟩ := hnext k v hk
              rw [hrows, IdMap.find?_insert, if_neg (by omega)] at hp
              refine ⟨hp, fun j w hj hw => hf j w hj ?_⟩
              rw [hrows]
              split at hw
              · rename_i hjk
                rw [if_pos hjk, overlay_insert hs, hw]
              · rename_i hjk
                rw [if_neg hjk, IdMap.find?_insert, if_neg (by omega)]
                exact hw

/-! ## The loops over `new_ids` and `removed_values` -/

/-- The loop over `new_ids` completes exactly when it finds every id. -/
theorem eraseNewIds_of_present {l : List (Nat × Unit)} {m : MultiIndex keys} (hs : Sorted l)
    (h : ∀ k, lookupEntry k l ≠ none → m.rows.find? k ≠ none) :
    ∃ m', m.eraseNewIds l = .done m' ∧
      ∀ j, m'.rows.find? j = if lookupEntry j l = none then m.rows.find? j else none := by
  induction l generalizing m with
  | nil => exact ⟨m, rfl, fun j => rfl⟩
  | cons e rest ih =>
      obtain ⟨hlt, hrest⟩ := List.pairwise_cons.mp hs
      obtain ⟨x, hx⟩ := Option.ne_none_iff_exists'.mp (h e.1 (by simp [lookupEntry]))
      have hnext : ∀ k, lookupEntry k rest ≠ none → (m.erase e.1).rows.find? k ≠ none := by
        intro k hk
        obtain ⟨y, hy⟩ := Option.ne_none_iff_exists'.mp hk
        have hek : e.1 < k := hlt _ (lookupEntry_mem hy)
        rw [erase_rows, IdMap.find?_erase, if_neg (by omega)]
        exact h k (by simp [lookupEntry, Nat.ne_of_lt hek, hy])
      obtain ⟨m', hdone, hfind⟩ := ih hrest hnext
      refine ⟨m', ?_, fun j => ?_⟩
      · simp [eraseNewIds, find?, hx, hdone]
      · rw [hfind j, erase_rows, IdMap.find?_erase]
        by_cases hj : j = e.1
        · simp [hj, lookupEntry]
        · simp [lookupEntry, hj, Ne.symm hj]

theorem present_of_eraseNewIds {l : List (Nat × Unit)} {m m' : MultiIndex keys}
    (h : m.eraseNewIds l = .done m') : ∀ k, lookupEntry k l ≠ none → m.rows.find? k ≠ none := by
  induction l generalizing m with
  | nil =>
      intro k hk
      simp [lookupEntry] at hk
  | cons e rest ih =>
      intro k hk
      unfold eraseNewIds at h
      cases hx : m.find? e.1 with
      | none => simp [hx] at h
      | some x =>
          simp only [hx] at h
          by_cases hke : e.1 = k
          · subst hke
            simp [show m.rows.find? e.1 = some x from hx]
          · have := ih h k (by simpa [lookupEntry, hke] using hk)
            rwa [erase_rows, IdMap.find?_erase, if_neg (Ne.symm hke)] at this

/-- Putting back objects of a state with unique keys, over part of that
same state, never meets a taken key. -/
theorem restoreRemovedValues_of_part {l : List (Nat × V)} {m : MultiIndex keys} {S : IdMap V}
    (hs : Sorted l) (hS : Unique keys S) (hm : ∀ k v, m.rows.find? k = some v → S.find? k = some v)
    (hl : ∀ k v, lookupEntry k l = some v → S.find? k = some v ∧ m.rows.find? k = none) :
    ∃ m', m.restoreRemovedValues l = .done m' ∧
      ∀ j, m'.rows.find? j = overlay l m.rows j := by
  induction l generalizing m with
  | nil => exact ⟨m, rfl, fun j => rfl⟩
  | cons e rest ih =>
      obtain ⟨hlt, hrest⟩ := List.pairwise_cons.mp hs
      obtain ⟨hSe, hme⟩ := hl e.1 e.2 (by simp [lookupEntry])
      have hfits : fits keys m.rows e.1 e.2 = true :=
        fits_iff.mpr fun j w hj hw => hS j e.1 w e.2 hj (hm j w hw) hSe
      obtain ⟨m₁, hemp⟩ : ∃ m₁, m.emplace e.1 e.2 = some m₁ :=
        ⟨⟨m.rows.insert e.1 e.2, m.unique.insert hfits⟩,
          emplace_eq_some.mpr ⟨hme, hfits, rfl⟩⟩
      have hrows := (emplace_eq_some.mp hemp).2.2
      have hm₁ : ∀ k v, m₁.rows.find? k = some v → S.find? k = some v := by
        intro k v hk
        rw [hrows, IdMap.find?_insert] at hk
        split at hk
        · subst k
          rwa [← hk]
        · exact hm k v hk
      have hl₁ : ∀ k v, lookupEntry k rest = some v →
          S.find? k = some v ∧ m₁.rows.find? k = none := by
        intro k v hk
        have hek : e.1 < k := hlt _ (lookupEntry_mem hk)
        obtain ⟨h1, h2⟩ := hl k v (by simp [lookupEntry, Nat.ne_of_lt hek, hk])
        refine ⟨h1, ?_⟩
        rw [hrows, IdMap.find?_insert, if_neg (by omega)]
        exact h2
      obtain ⟨m', hdone, hfind⟩ := ih hrest hm₁ hl₁
      refine ⟨m', ?_, fun j => ?_⟩
      · simp [restoreRemovedValues, hemp, hdone]
      · rw [hfind j, hrows, overlay_insert hs]

end MultiIndex

/-! ## The whole of `undo` -/

/-- No surviving object's old value takes a unique key that an object with
a larger id holds at the end of the session. -/
def ReplayFits (keys : List (UniqueKey V)) (S₀ S₁ : IdMap V) : Prop :=
  ∀ k j v w, k < j → S₀.find? k = some v → S₁.find? k ≠ none → S₁.find? j = some w →
    clashes keys w v = false

namespace GenericIndex

/-- With a right record, the values `undo` restores first fit at their turn
exactly when `ReplayFits` holds. -/
theorem oldValuesFit_iff {S₀ : IdMap V} {n₀ n₁ : Nat} {u : UndoState V} {m : MultiIndex keys}
    (hS : Unique keys S₀) (ht : Tracks S₀ n₀ u m.rows n₁) :
    MultiIndex.OldValuesFit u.oldValues.entries m ↔ ReplayFits keys S₀ m.rows := by
  -- Any object with a smaller id is back at its value of `S₀` when `k` is restored.
  have hback : ∀ k j w, j < k → S₀.find? k ≠ none →
      MultiIndex.overlay u.oldValues.entries m.rows j = some w → S₀.find? j = some w := by
    intro k j w hjk hk hw
    unfold MultiIndex.overlay at hw
    cases ho : u.oldValues.find? j with
    | some x =>
        rw [show lookupEntry j u.oldValues.entries = some x from ho] at hw
        simp only [Option.some_or, Option.some.injEq] at hw
        subst hw
        exact (ht.oldValue j x ho).1
    | none =>
        rw [show lookupEntry j u.oldValues.entries = none from ho] at hw
        simp only [Option.none_or] at hw
        cases h0 : S₀.find? j with
        | none =>
            obtain ⟨y, hy⟩ := Option.ne_none_iff_exists'.mp hk
            have := ht.fresh j w hw h0
            have := ht.below_old k y hy
            omega
        | some x =>
            have := ht.untouched j x ho h0 (by simp [hw])
            rw [← this, hw]
  constructor
  · intro h k j v w hkj h0 h1 hw
    cases ho : u.oldValues.find? k with
    | some x =>
        have hx : x = v := by simpa [h0] using (ht.oldValue k x ho).1.symm
        subst hx
        refine (h k x ho).2 j w (by omega) ?_
        rw [if_neg (by omega)]
        exact hw
    | none =>
        have := ht.untouched k v ho h0 h1
        exact m.unique j k w v (by omega) hw this
  · intro h k v hk
    obtain ⟨h0, h1⟩ := ht.oldValue k v hk
    refine ⟨h1, fun j w hj hw => ?_⟩
    split at hw
    · rename_i hjk
      exact hS j k w v hj (hback k j w hjk (by simp [h0]) hw) h0
    · rename_i hjk
      exact h k j v w (by omega) h0 h1 hw

/-- `undo` of a session with a right record completes, and brings back the
state the session was opened on, when the replay fits. -/
theorem InSession.undo_done {base idx : GenericIndex keys} (h : InSession base idx)
    (hfit : ReplayFits keys base.objects idx.objects) : idx.undo = .done base := by
  obtain ⟨u, hstack, hrev, -, ht⟩ := h
  have hS : Unique keys base.objects := base.indices.unique
  obtain ⟨m₁, hd₁, hf₁⟩ := MultiIndex.restoreOldValues_of_fit u.oldValues.sorted
    ((oldValuesFit_iff hS ht).mpr hfit)
  replace hf₁ : ∀ j, m₁.rows.find? j =
      MultiIndex.overlay u.oldValues.entries idx.objects j := hf₁
  have hpresent : ∀ k, lookupEntry k u.newIds.entries ≠ none → m₁.rows.find? k ≠ none := by
    intro k hk
    have := ((ht.newIds k).mp (IdMap.contains_iff.mpr hk)).2
    rw [hf₁ k]
    unfold MultiIndex.overlay
    cases lookupEntry k u.oldValues.entries with
    | some x => simp
    | none => simpa using this
  obtain ⟨m₂, hd₂, hf₂⟩ := MultiIndex.eraseNewIds_of_present u.newIds.sorted hpresent
  have hnew : ∀ k, lookupEntry k u.newIds.entries = none ↔
      ¬(base.objects.find? k = none ∧ idx.objects.find? k ≠ none) := by
    intro k
    rw [← ht.newIds k, IdMap.contains_iff, not_not]
    rfl
  -- What is left after the second loop: the surviving objects, at their old values.
  have hleft : ∀ k, m₂.rows.find? k =
      if idx.objects.find? k = none then none else base.objects.find? k := by
    intro k
    rw [hf₂ k]
    by_cases h1 : idx.objects.find? k = none
    · rw [if_pos h1]
      split
      · rw [hf₁ k, MultiIndex.overlay]
        cases ho : lookupEntry k u.oldValues.entries with
        | some x => exact absurd h1 (ht.oldValue k x ho).2
        | none => simpa using h1
      · rfl
    · rw [if_neg h1]
      cases h0 : base.objects.find? k with
      | none =>
          rw [if_neg]
          rw [hnew k]
          simp [h0, h1]
      | some v =>
          rw [if_pos ((hnew k).mpr (by simp [h0])), hf₁ k, MultiIndex.overlay]
          cases ho : lookupEntry k u.oldValues.entries with
          | some x =>
              rw [← h0, (ht.oldValue k x ho).1]
              rfl
          | none => simpa using ht.untouched k v ho h0 h1
  obtain ⟨m₃, hd₃, hf₃⟩ := MultiIndex.restoreRemovedValues_of_part (m := m₂)
    (S := base.objects) u.removedValues.sorted hS
    (fun k v hk => by
      rw [hleft k] at hk
      split at hk
      · simp at hk
      · exact hk)
    (fun k v hk => by
      have hk' : u.removedValues.find? k = some v := hk
      rw [ht.removed k] at hk'
      split at hk'
      · rename_i h1
        exact ⟨hk', by rw [hleft k, if_pos h1]⟩
      · simp at hk')
  have hm₃ : m₃ = base.indices := by
    refine MultiIndex.ext_rows (IdMap.ext_find? fun k => ?_)
    show _ = base.objects.find? k
    rw [hf₃ k, MultiIndex.overlay, show lookupEntry k u.removedValues.entries = _ from
      ht.removed k, hleft k]
    by_cases h1 : idx.objects.find? k = none
    · simp [h1]
    · simp [h1]
  unfold GenericIndex.undo
  simp only [hstack, hd₁, hd₂, hd₃, hm₃, ht.oldNextId, hrev]
  congr 1
  cases base
  simp

/-- `undo` of a session with a right record completes only when the replay fits. -/
theorem InSession.replayFits {base idx r : GenericIndex keys} (h : InSession base idx)
    (hd : idx.undo = .done r) : ReplayFits keys base.objects idx.objects := by
  obtain ⟨u, hstack, -, -, ht⟩ := h
  unfold GenericIndex.undo at hd
  rw [hstack] at hd
  cases hm : idx.indices.restoreOldValues u.oldValues.entries with
  | done m =>
      exact (oldValuesFit_iff base.indices.unique ht).mp
        (MultiIndex.oldValuesFit_of_restore u.oldValues.sorted hm)
  | threw m => simp [hm] at hd
  | undefined => simp [hm] at hd

/-- `undo` does not complete when the record expects a lost object. -/
theorem LostSession.undo_ne_done {base idx : GenericIndex keys} (h : LostSession base idx)
    (r : GenericIndex keys) : idx.undo ≠ .done r := by
  obtain ⟨u, hstack, k, -, hnone, hrec⟩ := h
  intro hd
  unfold GenericIndex.undo at hd
  rw [hstack] at hd
  cases hm : idx.indices.restoreOldValues u.oldValues.entries with
  | threw m => simp [hm] at hd
  | undefined => simp [hm] at hd
  | done m₁ =>
      have hfit := MultiIndex.oldValuesFit_of_restore u.oldValues.sorted hm
      rcases hrec with ho | hn
      · obtain ⟨v, hv⟩ := Option.ne_none_iff_exists'.mp (IdMap.contains_iff.mp ho)
        exact (hfit k v hv).1 hnone
      · cases hm₂ : m₁.eraseNewIds u.newIds.entries with
        | threw m => simp [hm, hm₂] at hd
        | undefined => simp [hm, hm₂] at hd
        | done m₂ =>
            have hpres := MultiIndex.present_of_eraseNewIds hm₂ k (IdMap.contains_iff.mp hn)
            obtain ⟨m', hdone, hfind⟩ :=
              MultiIndex.restoreOldValues_of_fit u.oldValues.sorted hfit
            rw [hm, Outcome.done.injEq] at hdone
            subst hdone
            rw [hfind k, MultiIndex.overlay, show idx.indices.rows.find? k = none from hnone]
              at hpres
            simp only [Option.or_none] at hpres
            obtain ⟨v, hv⟩ := Option.ne_none_iff_exists'.mp hpres
            exact (hfit k v hv).1 hnone

/-- When `undo` of a session completes at all, it is back where the session was opened. -/
theorem undo_runCalls_done_iff {idx : GenericIndex keys} (hwf : idx.WellFormed)
    (calls : List (Call V)) (r : GenericIndex keys) :
    (idx.startUndoSession.runCalls calls).undo = .done r ↔
      r = idx ∧ idx.startUndoSession.callsFit calls = true ∧
        ReplayFits keys idx.objects (idx.startUndoSession.runCalls calls).objects := by
  have hstart : InSession idx idx.startUndoSession := inSession_start hwf
  constructor
  · intro hd
    have hc : idx.startUndoSession.callsFit calls = true := by
      by_contra hcon
      exact (hstart.runCalls_lost (by simpa using hcon)).undo_ne_done r hd
    have hfit := (hstart.runCalls hc).replayFits hd
    have hback := (hstart.runCalls hc).undo_done hfit
    rw [hd, Outcome.done.injEq] at hback
    exact ⟨hback, hc, hfit⟩
  · rintro ⟨rfl, hc, hfit⟩
    exact (hstart.runCalls hc).undo_done hfit

/-- **Exactly when undo is exact.** For every set of unique keys, every
index and every sequence of calls in one session, `undo` completes and
brings back the objects, the next id, the revision and the stack the
session was opened on if and only if no `modify` of the session violated a
unique key and the replay fits. -/
theorem undo_runCalls_eq_done_iff (idx : GenericIndex keys) (hwf : idx.WellFormed)
    (calls : List (Call V)) :
    (idx.startUndoSession.runCalls calls).undo = .done idx ↔
      idx.startUndoSession.callsFit calls = true ∧
        ReplayFits keys idx.objects (idx.startUndoSession.runCalls calls).objects := by
  rw [undo_runCalls_done_iff hwf, eq_self, true_and]

/-! ### Two objects with one unique key -/

/-- A single unique key: the value itself. -/
def byValue : List (UniqueKey Nat) := [⟨Nat, inferInstance, fun v => v⟩]

/-- The objects `0 ↦ 1` and `1 ↦ 2`. -/
def twoObjects : GenericIndex byValue where
  indices :=
    { rows := ⟨[(0, 1), (1, 2)], by decide⟩
      unique := by
        intro i j a b hij ha hb
        have ha := IdMap.mem_entries_iff.mpr ha
        have hb := IdMap.mem_entries_iff.mpr hb
        simp only [List.mem_cons, Prod.mk.injEq, List.not_mem_nil, or_false] at ha hb
        rcases ha with ⟨rfl, rfl⟩ | ⟨rfl, rfl⟩ <;> rcases hb with ⟨rfl, rfl⟩ | ⟨rfl, rfl⟩ <;>
          first
          | exact absurd rfl hij
          | decide }
  stack := []
  revision := 0
  nextId := 2

theorem twoObjects_wellFormed : twoObjects.WellFormed := by
  intro k v h
  have h := IdMap.mem_entries_iff.mpr h
  simp only [twoObjects, objects, List.mem_cons, Prod.mk.injEq, List.not_mem_nil,
    or_false] at h ⊢
  omega

/-- Free the key of object `0`, then let object `1` take it. -/
def handOver : List (Call Nat) := [.modify 0 fun _ => 3, .modify 1 fun _ => 1]

/-- Both calls are legal and no call throws, but `undo` throws: it gives
object `0` its old key back while object `1` still holds it. -/
theorem undo_handOver_throws :
    twoObjects.WellFormed ∧ twoObjects.startUndoSession.callsFit handOver = true ∧
      (∃ idx, (twoObjects.startUndoSession.runCalls handOver).undo = .threw idx) ∧
      (twoObjects.startUndoSession.runCalls handOver).undo ≠ .done twoObjects := by
  refine ⟨twoObjects_wellFormed, by decide, ⟨_, rfl⟩, by decide⟩

/-- The same exchange the other way round is undone. -/
theorem undo_handOver_back :
    twoObjects.WellFormed ∧
      twoObjects.startUndoSession.callsFit [.modify 1 fun _ => 3, .modify 0 fun _ => 2] = true ∧
      ReplayFits byValue twoObjects.objects (twoObjects.startUndoSession.runCalls
        [.modify 1 fun _ => 3, .modify 0 fun _ => 2]).objects := by
  have h := (undo_runCalls_eq_done_iff twoObjects twoObjects_wellFormed
    [.modify 1 fun _ => 3, .modify 0 fun _ => 2]).mp (by decide)
  exact ⟨twoObjects_wellFormed, h.1, h.2⟩

end GenericIndex

end Gamebank.Chainbase
