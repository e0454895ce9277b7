import Gamebank.Chainbase.GenericIndex

/-!
# What the record of a session says

`Tracks S₀ n₀ u S₁ n₁`: the undo state `u` is a right record of how the
objects went from `S₀` (with next id `n₀`) to `S₁` (with next id `n₁`).
Every call of a session keeps it, except a `modify` that violates a
unique key: that one loses an object the record still expects
(`Lost`), and nothing done afterwards in the session repairs it.
-/

namespace Gamebank.Chainbase

open Gamebank.Lib

universe u

variable {V : Type u} {keys : List (UniqueKey V)}

/-- All ids of the index are below the next id. -/
def GenericIndex.WellFormed (idx : GenericIndex keys) : Prop :=
  ∀ k v, idx.objects.find? k = some v → k < idx.nextId

/-- `u` records the change from `(S₀, n₀)` to `(S₁, n₁)`. -/
structure Tracks (S₀ : IdMap V) (n₀ : Nat) (u : UndoState V) (S₁ : IdMap V) (n₁ : Nat) :
    Prop where
  oldNextId : u.oldNextId = n₀
  next_le : n₀ ≤ n₁
  below_old : ∀ k v, S₀.find? k = some v → k < n₀
  below : ∀ k v, S₁.find? k = some v → k < n₁
  fresh : ∀ k v, S₁.find? k = some v → S₀.find? k = none → n₀ ≤ k
  newIds : ∀ k, u.newIds.contains k = true ↔ S₀.find? k = none ∧ S₁.find? k ≠ none
  removed : ∀ k, u.removedValues.find? k = if S₁.find? k = none then S₀.find? k else none
  oldValue : ∀ k v, u.oldValues.find? k = some v → S₀.find? k = some v ∧ S₁.find? k ≠ none
  untouched : ∀ k v, u.oldValues.find? k = none → S₀.find? k = some v → S₁.find? k ≠ none →
    S₁.find? k = some v

/-- A record expects the object `k`, which the index no longer has. -/
def Lost (u : UndoState V) (S₁ : IdMap V) (n₁ : Nat) : Prop :=
  ∃ k, k < n₁ ∧ S₁.find? k = none ∧
    (u.oldValues.contains k = true ∨ u.newIds.contains k = true)

/-! ## What a call writes in the record -/

namespace UndoState

/-- `on_modify` can only give its own id an old value. -/
theorem onModify_spec (u : UndoState V) (id : Nat) (v : V) :
    (u.onModify id v).newIds = u.newIds ∧
    (u.onModify id v).removedValues = u.removedValues ∧
    (u.onModify id v).oldNextId = u.oldNextId ∧
    (u.onModify id v).revision = u.revision ∧
    ∀ k, (u.onModify id v).oldValues.find? k =
      (u.oldValues.find? k).or
        (if u.newIds.contains k = true ∨ id ≠ k then none else some v) := by
  unfold onModify
  by_cases hn : u.newIds.contains id = true
  · rw [if_pos hn]
    refine ⟨rfl, rfl, rfl, rfl, fun k => ?_⟩
    rw [if_pos, Option.or_none]
    by_cases hk : id = k
    · exact Or.inl (hk ▸ hn)
    · exact Or.inr hk
  · rw [if_neg hn]
    by_cases ho : u.oldValues.contains id = true
    · rw [if_pos ho]
      refine ⟨rfl, rfl, rfl, rfl, fun k => ?_⟩
      by_cases hk : id = k
      · subst hk
        obtain ⟨x, hx⟩ := Option.ne_none_iff_exists'.mp (IdMap.contains_iff.mp ho)
        simp [hx]
      · simp [hk]
    · rw [if_neg ho]
      refine ⟨rfl, rfl, rfl, rfl, fun k => ?_⟩
      have hnone : u.oldValues.find? id = none := by
        simpa [IdMap.contains] using ho
      by_cases hk : id = k
      · subst hk
        simp [IdMap.find?_emplace, hnone, hn]
      · simp [IdMap.find?_emplace, hk, Ne.symm hk]

/-- A turn of the first loop of `squash` writes what `on_modify` does. -/
theorem mergeOldValue_eq (u : UndoState V) (e : Nat × V) :
    u.mergeOldValue e = u.onModify e.1 e.2 := rfl

/-- A turn of the third loop writes what `on_remove` does, whose last test
`emplace` makes again. -/
theorem mergeRemovedValue_eq (u : UndoState V) (e : Nat × V) :
    u.mergeRemovedValue e = u.onRemove e.1 e.2 := by
  unfold mergeRemovedValue onRemove
  by_cases hn : u.newIds.contains e.1 = true
  · rw [if_pos hn, if_pos hn]
  · rw [if_neg hn, if_neg hn]
    cases u.oldValues.find? e.1 with
    | some old => rfl
    | none =>
        by_cases hr : u.removedValues.contains e.1 = true
        · simp [hr, IdMap.emplace]
        · simp [hr]

/-- `on_remove` changes the entries of its own id only. -/
theorem onRemove_spec (u : UndoState V) (id : Nat) (v : V) :
    (u.onRemove id v).oldNextId = u.oldNextId ∧
    (u.onRemove id v).revision = u.revision ∧
    ∀ k,
      (u.onRemove id v).newIds.find? k = (if id = k then none else u.newIds.find? k) ∧
      (u.onRemove id v).oldValues.find? k =
        (if id = k ∧ u.newIds.contains k = false then none else u.oldValues.find? k) ∧
      (u.onRemove id v).removedValues.find? k =
        (if id = k ∧ u.newIds.contains k = false then
          (u.removedValues.find? k).or (some ((u.oldValues.find? k).getD v))
          else u.removedValues.find? k) := by
  rw [← mergeRemovedValue_eq u (id, v)]
  unfold mergeRemovedValue
  by_cases hn : u.newIds.contains id = true
  · rw [if_pos hn]
    refine ⟨rfl, rfl, fun k => ?_⟩
    by_cases hk : id = k
    · subst hk
      simp [hn]
    · simp [IdMap.find?_erase, hk, Ne.symm hk]
  · have hnone : u.newIds.find? id = none := by simpa [IdMap.contains] using hn
    rw [if_neg hn]
    cases ho : u.oldValues.find? id with
    | some old =>
        refine ⟨rfl, rfl, fun k => ?_⟩
        by_cases hk : id = k
        · subst hk
          simp only [IdMap.find?_erase, IdMap.find?_emplace, hnone, hn, ho]
          cases u.removedValues.find? id <;> simp
        · simp [IdMap.find?_erase, IdMap.find?_emplace, hk, Ne.symm hk]
    | none =>
        refine ⟨rfl, rfl, fun k => ?_⟩
        by_cases hk : id = k
        · subst hk
          simp only [IdMap.find?_emplace, hnone, hn, ho]
          cases u.removedValues.find? id <;> simp
        · simp [IdMap.find?_emplace, hk, Ne.symm hk]

end UndoState

/-! ## One call -/

namespace Tracks

variable {S₀ S₁ : IdMap V} {n₀ n₁ : Nat} {u : UndoState V}

theorem start {S : IdMap V} {n : Nat} (h : ∀ k v, S.find? k = some v → k < n) (r : Int) :
    Tracks S n ⟨∅, ∅, ∅, n, r⟩ S n where
  oldNextId := rfl
  next_le := Nat.le_refl n
  below_old := h
  below := h
  fresh := fun k v h1 h2 => by simp [h1] at h2
  newIds := fun k => by simp [IdMap.contains]
  removed := fun k => by
    split
    · simp_all
    · simp
  oldValue := fun k v h => by simp at h
  untouched := fun k v _ h _ => h

theorem onCreate (h : Tracks S₀ n₀ u S₁ n₁) (v : V) :
    Tracks S₀ n₀ (u.onCreate n₁) (S₁.insert n₁ v) (n₁ + 1) := by
  have hn : S₀.find? n₁ = none := by
    cases hs : S₀.find? n₁ with
    | none => rfl
    | some w => exact absurd (h.below_old _ _ hs) (Nat.not_lt.mpr h.next_le)
  refine ⟨h.oldNextId, Nat.le_succ_of_le h.next_le, h.below_old, ?_, ?_, ?_, ?_, ?_, ?_⟩
  · intro k w hk
    rw [IdMap.find?_insert] at hk
    split at hk
    · omega
    · exact Nat.lt_succ_of_lt (h.below k w hk)
  · intro k w hk h0
    rw [IdMap.find?_insert] at hk
    split at hk
    · subst k
      exact h.next_le
    · exact h.fresh k w hk h0
  · intro k
    simp only [UndoState.onCreate, IdMap.contains_iff, IdMap.find?_insert]
    by_cases hk : k = n₁
    · simp [hk, hn]
    · simpa [hk, IdMap.contains_iff] using h.newIds k
  · intro k
    simp only [UndoState.onCreate, IdMap.find?_insert, h.removed k]
    by_cases hk : k = n₁
    · simp [hk, hn]
    · simp [hk]
  · intro k w hk
    obtain ⟨h0, h1⟩ := h.oldValue k w hk
    refine ⟨h0, ?_⟩
    rw [IdMap.find?_insert]
    split
    · simp
    · exact h1
  · intro k w hk h0 h1
    have hne : k ≠ n₁ := by
      rintro rfl
      simp [hn] at h0
    rw [IdMap.find?_insert, if_neg hne] at h1 ⊢
    exact h.untouched k w hk h0 h1

/-- The value an object has when a call takes it out of a record without an
old value of it is its first one. -/
theorem first_value (h : Tracks S₀ n₀ u S₁ n₁) {k : Nat} {v : V} (hv : S₁.find? k = some v)
    (hnew : ¬u.newIds.contains k = true) (hold : u.oldValues.find? k = none) :
    S₀.find? k = some v := by
  have hne : S₁.find? k ≠ none := by simp [hv]
  cases h0 : S₀.find? k with
  | none => exact absurd ((h.newIds k).mpr ⟨h0, hne⟩) hnew
  | some x => rw [← hv, h.untouched k x hold h0 hne]

theorem onModify (h : Tracks S₀ n₀ u S₁ n₁) {id : Nat} {v : V} (hv : S₁.find? id = some v)
    (w : V) : Tracks S₀ n₀ (u.onModify id v) (S₁.insert id w) n₁ := by
  obtain ⟨hnew, hrem, hnext, -, hold⟩ := u.onModify_spec id v
  have hnone : ∀ k, (S₁.insert id w).find? k = none ↔ S₁.find? k = none := by
    intro k
    rw [IdMap.find?_insert]
    split
    · subst k
      simp [hv]
    · exact Iff.rfl
  have hback : ∀ k x, (S₁.insert id w).find? k = some x → ∃ y, S₁.find? k = some y := by
    intro k x hk
    exact Option.ne_none_iff_exists'.mp (mt (hnone k).mpr (by simp [hk]))
  exact {
    oldNextId := hnext ▸ h.oldNextId
    next_le := h.next_le
    below_old := h.below_old
    below := by
      intro k x hk
      obtain ⟨y, hy⟩ := hback k x hk
      exact h.below k y hy
    fresh := by
      intro k x hk h0
      obtain ⟨y, hy⟩ := hback k x hk
      exact h.fresh k y hy h0
    newIds := by
      intro k
      rw [hnew, ne_eq, hnone k]
      exact h.newIds k
    removed := by
      intro k
      rw [hrem, h.removed k]
      simp only [hnone k]
    oldValue := by
      intro k x hk
      rw [hold k, Option.or_eq_some_iff] at hk
      rw [ne_eq, hnone k]
      rcases hk with hk | ⟨ho, hk⟩
      · exact h.oldValue k x hk
      · by_cases hc : u.newIds.contains k = true ∨ id ≠ k
        · simp [hc] at hk
        · rw [if_neg hc] at hk
          obtain ⟨hn, hid⟩ := not_or.mp hc
          obtain rfl : id = k := not_not.mp hid
          exact ⟨h.first_value (hv.trans hk) hn ho, by simp [hv]⟩
    untouched := by
      intro k x hk h0 h1
      rw [hold k, Option.or_eq_none_iff] at hk
      rw [ne_eq, hnone k] at h1
      by_cases hid : k = id
      · subst hid
        have hn : ¬u.newIds.contains k = true := by simp [h.newIds k, h0]
        simp [hn] at hk
      · rw [IdMap.find?_insert, if_neg hid]
        exact h.untouched k x hk.1 h0 h1 }

theorem onRemove (h : Tracks S₀ n₀ u S₁ n₁) {id : Nat} {v : V} (hv : S₁.find? id = some v) :
    Tracks S₀ n₀ (u.onRemove id v) (S₁.erase id) n₁ := by
  obtain ⟨hnext, -, hspec⟩ := u.onRemove_spec id v
  have hne : S₁.find? id ≠ none := by simp [hv]
  have hfind : ∀ k, (S₁.erase id).find? k = if k = id then none else S₁.find? k :=
    fun k => IdMap.find?_erase _ _ _
  have hremoved : ∀ k, (u.onRemove id v).removedValues.find? k =
      if k = id then S₀.find? id else u.removedValues.find? k := by
    intro k
    rw [(hspec k).2.2]
    by_cases hk : k = id
    · subst hk
      have hrem : u.removedValues.find? k = none := by rw [h.removed k, if_neg hne]
      by_cases hn : u.newIds.contains k = true
      · simp [hn, hrem, ((h.newIds k).mp hn).1]
      · cases ho : u.oldValues.find? k with
        | some x => simp [hn, hrem, (h.oldValue k x ho).1]
        | none => simp [hn, hrem, h.first_value hv hn ho]
    · simp [hk, Ne.symm hk]
  have hold : ∀ k, (u.onRemove id v).oldValues.find? k =
      if k = id then none else u.oldValues.find? k := by
    intro k
    rw [(hspec k).2.1]
    by_cases hk : k = id
    · subst hk
      by_cases hn : u.newIds.contains k = true
      · -- a new object has no old value
        cases ho : u.oldValues.find? k with
        | none => simp
        | some x => exact absurd (h.oldValue k x ho).1 (by simp [((h.newIds k).mp hn).1])
      · simp [hn]
    · simp [hk, Ne.symm hk]
  exact {
    oldNextId := hnext ▸ h.oldNextId
    next_le := h.next_le
    below_old := h.below_old
    below := by
      intro k x hk
      rw [hfind k] at hk
      split at hk
      · simp at hk
      · exact h.below k x hk
    fresh := by
      intro k x hk h0
      rw [hfind k] at hk
      split at hk
      · simp at hk
      · exact h.fresh k x hk h0
    newIds := by
      intro k
      rw [IdMap.contains_iff, (hspec k).1, hfind k]
      by_cases hk : k = id
      · simp [hk]
      · simpa [hk, Ne.symm hk, IdMap.contains_iff] using h.newIds k
    removed := by
      intro k
      rw [hremoved k, hfind k]
      by_cases hk : k = id
      · simp [hk]
      · simpa [hk] using h.removed k
    oldValue := by
      intro k x hk
      rw [hold k] at hk
      rw [hfind k]
      by_cases hkid : k = id
      · simp [hkid] at hk
      · simpa [hkid] using h.oldValue k x (by simpa [hkid] using hk)
    untouched := by
      intro k x hk h0 h1
      rw [hold k] at hk
      rw [hfind k] at h1 ⊢
      by_cases hkid : k = id
      · simp [hkid] at h1
      · simp only [hkid, if_false] at hk h1 ⊢
        exact h.untouched k x hk h0 h1 }

end Tracks

/-! ## What a call can do -/

namespace GenericIndex

/-- No unique key stands against the call: it is not a `modify` whose new
value takes the key of another object. -/
def callFits (idx : GenericIndex keys) : Call V → Bool
  | .modify id m =>
      match idx.indices.find? id with
      | none => true
      | some v => fits keys idx.objects id (m v)
  | _ => true

/-- Every call of the list fits at its turn. -/
def callsFit : GenericIndex keys → List (Call V) → Bool
  | _, [] => true
  | idx, c :: calls => idx.callFits c && (idx.call c).callsFit calls

/-- The index after a call that fits: nothing happened (an `emplace` that
threw, or no object to name), or one object was created, changed or removed. -/
inductive Effect (idx : GenericIndex keys) : GenericIndex keys → Prop where
  | same : Effect idx idx
  | created (v : V) (m : MultiIndex keys) (hm : m.rows = idx.objects.insert idx.nextId v) :
      Effect idx ({ idx with indices := m, nextId := idx.nextId + 1 }.onHead
        (UndoState.onCreate idx.nextId))
  | modified (id : Nat) (v w : V) (m : MultiIndex keys) (hv : idx.objects.find? id = some v)
      (hm : m.rows = idx.objects.insert id w) :
      Effect idx { idx.onHead (UndoState.onModify id v) with indices := m }
  | removed (id : Nat) (v : V) (hv : idx.objects.find? id = some v) :
      Effect idx (idx.removeObject id v)

theorem call_effect (idx : GenericIndex keys) {c : Call V} (h : idx.callFits c = true) :
    idx.Effect (idx.call c) := by
  cases c with
  | emplace c =>
      simp only [call, callResult, emplace]
      cases he : idx.indices.emplace idx.nextId (c idx.nextId) with
      | none => exact .same
      | some m => exact .created _ m (MultiIndex.emplace_eq_some.mp he).2.2
  | modify id f =>
      simp only [call, callResult]
      simp only [callFits] at h
      cases hv : idx.indices.find? id with
      | none => exact .same
      | some v =>
          rw [hv] at h
          obtain ⟨hrows, hok⟩ := MultiIndex.modify_of_fits h
          simp only [modifyObject]
          generalize hm : idx.indices.modify id (f v) = r at hrows hok
          obtain ⟨m, ok⟩ := r
          simp only at hrows hok
          subst hok
          exact .modified id v (f v) m hv hrows
  | remove id =>
      simp only [call, callResult]
      cases hv : idx.indices.find? id with
      | none => exact .same
      | some v => exact .removed id v hv

/-- A call that does not fit erases the object it was to modify. -/
theorem call_not_fits (idx : GenericIndex keys) {c : Call V} (h : idx.callFits c = false) :
    ∃ id v, idx.objects.find? id = some v ∧
      idx.call c =
        { idx.onHead (UndoState.onModify id v) with indices := idx.indices.erase id } := by
  cases c with
  | emplace c => simp [callFits] at h
  | remove id => simp [callFits] at h
  | modify id f =>
      simp only [callFits] at h
      cases hv : idx.indices.find? id with
      | none => simp [hv] at h
      | some v =>
          rw [hv] at h
          refine ⟨id, v, hv, ?_⟩
          simp [call, callResult, hv, modifyObject, MultiIndex.modify_of_not_fits h]

/-! ## A session, call by call -/

/-- The index is inside a session opened on `base`, with a right record. -/
def InSession (base idx : GenericIndex keys) : Prop :=
  ∃ u, idx.stack = u :: base.stack ∧ idx.revision = base.revision + 1 ∧
    u.revision = base.revision + 1 ∧
    Tracks base.objects base.nextId u idx.objects idx.nextId

/-- The index is inside a session whose record expects a lost object. -/
def LostSession (base idx : GenericIndex keys) : Prop :=
  ∃ u, idx.stack = u :: base.stack ∧ Lost u idx.objects idx.nextId

theorem inSession_start {idx : GenericIndex keys} (h : idx.WellFormed) :
    InSession idx idx.startUndoSession :=
  ⟨_, rfl, rfl, rfl, Tracks.start h _⟩

theorem InSession.effect {base idx idx' : GenericIndex keys} (h : InSession base idx)
    (he : idx.Effect idx') : InSession base idx' := by
  obtain ⟨u, hstack, hrev, hu, ht⟩ := h
  cases he with
  | same => exact ⟨u, hstack, hrev, hu, ht⟩
  | created v m hm =>
      refine ⟨u.onCreate idx.nextId, ?_, ?_, hu, ?_⟩
      · simp [onHead, hstack]
      · simpa [onHead, hstack] using hrev
      · simpa [onHead, hstack, objects, hm] using ht.onCreate v
  | modified id v w m hv hm =>
      refine ⟨u.onModify id v, ?_, ?_, (u.onModify_spec id v).2.2.2.1.trans hu, ?_⟩
      · simp [onHead, hstack]
      · simpa [onHead, hstack] using hrev
      · simpa [onHead, hstack, objects, hm] using ht.onModify hv w
  | removed id v hv =>
      refine ⟨u.onRemove id v, ?_, ?_, (u.onRemove_spec id v).2.1.trans hu, ?_⟩
      · simp [removeObject, onHead, hstack]
      · simpa [removeObject, onHead, hstack] using hrev
      · simpa [removeObject, onHead, hstack, objects] using ht.onRemove hv

/-- A call that violates a unique key inside a session loses its object for good. -/
theorem InSession.lost {base idx : GenericIndex keys} (h : InSession base idx) {c : Call V}
    (hc : idx.callFits c = false) : LostSession base (idx.call c) := by
  obtain ⟨u, hstack, -, -, ht⟩ := h
  obtain ⟨id, v, hv, hcall⟩ := idx.call_not_fits hc
  refine ⟨u.onModify id v, by simp [hcall, onHead, hstack], id, ?_, ?_, ?_⟩
  · simpa [hcall, onHead, hstack] using ht.below id v hv
  · simp [hcall, objects]
  · obtain ⟨hnew, -, -, -, hold⟩ := u.onModify_spec id v
    rw [hnew, IdMap.contains_iff, hold id]
    by_cases hn : u.newIds.contains id = true
    · exact Or.inr hn
    · simp [hn]

/-- What a record expects of an id other than the one a call touches stays. -/
theorem Lost.onModify {u : UndoState V} {k id : Nat} (v : V)
    (h : u.oldValues.contains k = true ∨ u.newIds.contains k = true) :
    (u.onModify id v).oldValues.contains k = true ∨
      (u.onModify id v).newIds.contains k = true := by
  obtain ⟨hnew, -, -, -, hold⟩ := u.onModify_spec id v
  rw [hnew, IdMap.contains_iff, hold k]
  rw [IdMap.contains_iff] at h
  refine h.imp_left fun ho => ?_
  simp [Option.or_eq_none_iff, ho]

theorem Lost.onRemove {u : UndoState V} {k id : Nat} (v : V) (hne : k ≠ id)
    (h : u.oldValues.contains k = true ∨ u.newIds.contains k = true) :
    (u.onRemove id v).oldValues.contains k = true ∨
      (u.onRemove id v).newIds.contains k = true := by
  obtain ⟨hnew, hold, -⟩ := (u.onRemove_spec id v).2.2 k
  simp only [IdMap.contains_iff] at h ⊢
  rw [hnew, hold]
  simpa [Ne.symm hne] using h

theorem LostSession.call {base idx : GenericIndex keys} (h : LostSession base idx) (c : Call V) :
    LostSession base (idx.call c) := by
  obtain ⟨u, hstack, k, hk, hnone, hrec⟩ := h
  by_cases hc : idx.callFits c = true
  · have heff := idx.call_effect hc
    generalize idx.call c = idx' at heff
    cases heff with
    | same => exact ⟨u, hstack, k, hk, hnone, hrec⟩
    | created v m hm =>
        refine ⟨u.onCreate idx.nextId, by simp [onHead, hstack], k, ?_, ?_, ?_⟩
        · simp only [onHead, hstack]
          omega
        · simp only [onHead, hstack, objects, hm, IdMap.find?_insert]
          rw [if_neg (by omega)]
          exact hnone
        · refine hrec.imp_right fun hn => ?_
          rw [IdMap.contains_iff] at hn ⊢
          simp only [UndoState.onCreate, IdMap.find?_insert]
          split
          · simp
          · exact hn
    | modified id v w m hv hm =>
        refine ⟨u.onModify id v, by simp [onHead, hstack], k, by simpa [onHead, hstack] using hk,
          ?_, Lost.onModify v hrec⟩
        have hne : k ≠ id := by
          rintro rfl
          simp [hnone] at hv
        simpa [objects, hm, IdMap.find?_insert, hne] using hnone
    | removed id v hv =>
        have hne : k ≠ id := by
          rintro rfl
          simp [hnone] at hv
        refine ⟨u.onRemove id v, by simp [removeObject, onHead, hstack], k,
          by simpa [removeObject, onHead, hstack] using hk, ?_, Lost.onRemove v hne hrec⟩
        simpa [removeObject, objects, IdMap.find?_erase, hne] using hnone
  · obtain ⟨id, v, hv, hcall⟩ := idx.call_not_fits (by simpa using hc)
    refine ⟨u.onModify id v, by simp [hcall, onHead, hstack], k,
      by simpa [hcall, onHead, hstack] using hk, ?_, Lost.onModify v hrec⟩
    simp only [hcall, objects, MultiIndex.erase_rows, IdMap.find?_erase]
    split
    · rfl
    · exact hnone

/-- **A run inside a session** keeps a right record as long as its calls fit. -/
theorem InSession.runCalls {base idx : GenericIndex keys} {calls : List (Call V)}
    (h : InSession base idx) (hc : idx.callsFit calls = true) :
    InSession base (idx.runCalls calls) := by
  induction calls generalizing idx with
  | nil => exact h
  | cons c calls ih =>
      simp only [callsFit, Bool.and_eq_true] at hc
      exact ih (h.effect (idx.call_effect hc.1)) hc.2

theorem LostSession.runCalls {base idx : GenericIndex keys} (calls : List (Call V))
    (h : LostSession base idx) : LostSession base (idx.runCalls calls) := by
  induction calls generalizing idx with
  | nil => exact h
  | cons c calls ih => exact ih (h.call c)

/-- One call that does not fit is enough to lose an object for the rest of the session. -/
theorem InSession.runCalls_lost {base idx : GenericIndex keys} {calls : List (Call V)}
    (h : InSession base idx) (hc : idx.callsFit calls = false) :
    LostSession base (idx.runCalls calls) := by
  induction calls generalizing idx with
  | nil => simp [callsFit] at hc
  | cons c calls ih =>
      by_cases hfit : idx.callFits c = true
      · refine ih (h.effect (idx.call_effect hfit)) ?_
        simpa [callsFit, hfit] using hc
      · exact LostSession.runCalls calls (h.lost (by simpa using hfit))

end GenericIndex

end Gamebank.Chainbase
