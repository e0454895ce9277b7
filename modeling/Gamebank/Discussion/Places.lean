import Gamebank.Lib.Forest
import Gamebank.Ledger.Comments

/-!
# The tree of comments

`Place` is what the evaluators read of a comment to find its way up. A list of
places is `Placed` if names and ids are unique, every reply has its parent in
the list, one level higher and in the same discussion, and a comment without
a parent starts a discussion of its own. `descendants` counts what is below a
comment.

The list grows at its end (`Placed.append`, `descendants_append`). A comment
is taken out of a list by moving it to the end first.
-/

namespace Gamebank.Discussion

open Gamebank.Lib Gamebank.Protocol Gamebank.Ledger

/-- Where a comment stands. -/
structure Place where
  id : Nat
  key : Comment.Key
  parent : Option Comment.Key
  depth : Nat
  root : Nat
deriving DecidableEq

def place (c : Comment) : Place := ⟨c.id, c.key, c.parentKey, c.depth, c.rootComment⟩

/-- The parent pointers of a list of places. -/
def up (places : List Place) (k : Comment.Key) : Option Comment.Key :=
  (places.find? fun p => p.key = k).bind Place.parent

theorem getComment_mem {comments : Comments} {c : Comment} {author : AccountName}
    {permlink : String}
    (h : Comments.getComment comments author permlink = .ok c) :
    c ∈ comments.rows ∧ c.key = (author, cString permlink) := by
  unfold Comments.getComment Database.require at h
  split at h
  next d hfind =>
    cases h
    have hkey := List.find?_some hfind
    exact ⟨List.mem_of_find?_eq_some hfind, of_decide_eq_true hkey⟩
  next => cases h

/-- The walk up the tree changes nothing but what its function changes. -/
theorem updateAncestors_map {β : Type} {f : Comment → Comment} {g : Comment → β}
    (hf : ∀ c, g (f c) = g c) (fuel : Nat) (parent : Comment) (comments : Comments) :
    Returns (Comments.updateAncestors f fuel parent comments) fun comments' =>
      comments'.nextId = comments.nextId ∧ comments'.rows.map g = comments.rows.map g := by
  induction fuel generalizing parent comments with
  | zero => exact .error
  | succ fuel ih =>
      rw [Comments.updateAncestors]
      refine .ite (fun _ => .bind_any fun next => ?_) fun _ => .pure ⟨rfl, map_modifyFirst hf _⟩
      refine (ih next _).mono fun comments' h => ⟨h.1, ?_⟩
      exact h.2.trans (map_modifyFirst hf _)

structure Placed (places : List Place) : Prop where
  ids : (places.map Place.id).Nodup
  keys : (places.map Place.key).Nodup
  authors : ∀ p ∈ places, p.key.1 ≠ rootPostParent
  top : ∀ p ∈ places, p.parent = none → p.depth = 0 ∧ p.root = p.id
  reply : ∀ p ∈ places, ∀ k, p.parent = some k →
    ∃ q ∈ places, q.key = k ∧ p.depth = q.depth + 1 ∧ p.root = q.root
  deep : ∀ p ∈ places, p.depth ≤ maxCommentDepth

open scoped Classical in
/-- The number of places below `k`. -/
noncomputable def descendants (places : List Place) (k : Comment.Key) : Nat :=
  places.countP fun q => Below (up places) q.key k

variable {places rest : List Place} {p q n : Place} {k : Comment.Key}

/-! ## On the way up -/

theorem up_of_mem (hkeys : (places.map Place.key).Nodup) (hp : p ∈ places) :
    up places p.key = p.parent := by
  rw [up, find?_eq_some_of_nodup hkeys hp, Option.bind_some]

namespace Placed

/-- The chain of a place stays in the list, and goes up one level at a time. -/
theorem ancestor_mem (h : Placed places) {j : Nat} (hp : p ∈ places)
    (hj : ancestor (up places) j p.key = some k) :
    ∃ q ∈ places, q.key = k ∧ p.depth = q.depth + j ∧ p.root = q.root := by
  induction j generalizing p with
  | zero => exact ⟨p, hp, Option.some.inj hj, rfl, rfl⟩
  | succ j ih =>
      have hup := up_of_mem h.keys hp
      cases hparent : p.parent with
      | none =>
          rw [ancestor_succ_of_none (hup.trans hparent)] at hj
          cases hj
      | some b =>
          rw [ancestor_succ_of_some (hup.trans hparent)] at hj
          obtain ⟨q, hq, rfl, hdepth, hroot⟩ := h.reply p hp b hparent
          obtain ⟨r, hr, hrk, hrdepth, hrroot⟩ := ih hq hj
          exact ⟨r, hr, hrk, by omega, hroot.trans hrroot⟩

theorem reaches_mem (h : Placed places) (hp : p ∈ places) (hreach : Reaches (up places) p.key k) :
    k ∈ places.map Place.key := by
  obtain ⟨j, hj⟩ := hreach
  obtain ⟨q, hq, rfl, -⟩ := h.ancestor_mem hp hj
  exact List.mem_map_of_mem hq

theorem eq_of_key (h : Placed places) (hp : p ∈ places) (hq : q ∈ places) (hkey : p.key = q.key) :
    p = q :=
  List.inj_on_of_nodup_map h.keys hp hq hkey

theorem not_below_self (h : Placed places) (hp : p ∈ places) : ¬Below (up places) p.key p.key := by
  rintro ⟨j, hj⟩
  obtain ⟨q, hq, hkey, hdepth, -⟩ := h.ancestor_mem hp hj
  rw [h.eq_of_key hq hp hkey] at hdepth
  omega

/-- Every discussion has a top. -/
theorem exists_top (h : Placed places) (hp : p ∈ places) :
    ∃ r ∈ places, r.parent = none ∧ r.depth = 0 ∧ r.id = p.root ∧
      Reaches (up places) p.key r.key := by
  induction hd : p.depth generalizing p with
  | zero =>
      cases hparent : p.parent with
      | none => exact ⟨p, hp, hparent, hd, (h.top p hp hparent).2.symm, Reaches.refl _ _⟩
      | some b =>
          obtain ⟨q, -, -, hdepth, -⟩ := h.reply p hp b hparent
          omega
  | succ d ih =>
      cases hparent : p.parent with
      | none =>
          have := (h.top p hp hparent).1
          omega
      | some b =>
          obtain ⟨q, hq, rfl, hdepth, hroot⟩ := h.reply p hp b hparent
          obtain ⟨r, hr, hnone, hzero, hid, hreach⟩ := ih hq (by omega)
          have hup : up places p.key = some q.key := (up_of_mem h.keys hp).trans hparent
          exact ⟨r, hr, hnone, hzero, hid.trans hroot.symm,
            reaches_iff_eq_or_below.mpr (.inr ((below_iff_of_some hup).mpr hreach))⟩

end Placed

/-! ## One place more -/

theorem up_append (hnew : n.key ∉ places.map Place.key) :
    up (places ++ [n]) = Function.update (up places) n.key n.parent := by
  funext k
  unfold up
  rw [List.find?_append]
  by_cases hk : k = n.key
  · subst hk
    rw [find?_key_eq_none.mpr hnew, Function.update_self]
    simp
  · rw [Function.update_of_ne hk]
    cases places.find? fun p => p.key = k with
    | some p => rfl
    | none => simp [Ne.symm hk]

/-- A new place is the top of a discussion or a reply to a place of the list. -/
def Joins (places : List Place) (n : Place) : Prop :=
  (n.parent = none ∧ n.depth = 0 ∧ n.root = n.id) ∨
    ∃ q ∈ places, n.parent = some q.key ∧ n.depth = q.depth + 1 ∧ n.root = q.root

theorem Placed.append (h : Placed places) (hid : n.id ∉ places.map Place.id)
    (hkey : n.key ∉ places.map Place.key) (hauthor : n.key.1 ≠ rootPostParent)
    (hjoins : Joins places n) (hdeep : n.depth ≤ maxCommentDepth) : Placed (places ++ [n]) where
  ids := by
    rw [List.map_append, List.nodup_append]
    refine ⟨h.ids, by simp, ?_⟩
    rintro a ha b hb rfl
    rw [List.map_singleton, List.mem_singleton] at hb
    exact hid (hb ▸ ha)
  keys := by
    rw [List.map_append, List.nodup_append]
    refine ⟨h.keys, by simp, ?_⟩
    rintro a ha b hb rfl
    rw [List.map_singleton, List.mem_singleton] at hb
    exact hkey (hb ▸ ha)
  authors := by
    intro p hp
    rcases List.mem_append.mp hp with hp | hp
    · exact h.authors p hp
    · exact (List.mem_singleton.mp hp) ▸ hauthor
  top := by
    intro p hp hparent
    rcases List.mem_append.mp hp with hp | hp
    · exact h.top p hp hparent
    · rw [List.mem_singleton] at hp
      subst hp
      rcases hjoins with ⟨-, htop⟩ | ⟨q, -, hq, -⟩
      · exact htop
      · rw [hparent] at hq
        cases hq
  reply := by
    intro p hp k hparent
    rcases List.mem_append.mp hp with hp | hp
    · obtain ⟨q, hq, hrest⟩ := h.reply p hp k hparent
      exact ⟨q, List.mem_append_left _ hq, hrest⟩
    · rw [List.mem_singleton] at hp
      subst hp
      rcases hjoins with ⟨hnone, -⟩ | ⟨q, hq, hsome, hrest⟩
      · rw [hparent] at hnone
        cases hnone
      · rw [hparent, Option.some.injEq] at hsome
        exact ⟨q, List.mem_append_left _ hq, hsome.symm, hrest⟩
  deep := by
    intro p hp
    rcases List.mem_append.mp hp with hp | hp
    · exact h.deep p hp
    · exact (List.mem_singleton.mp hp) ▸ hdeep

/-- The new place changes no chain but its own. -/
theorem Placed.ancestor_append (h : Placed places) (hkey : n.key ∉ places.map Place.key)
    (hp : p ∈ places) (j : Nat) :
    ancestor (up (places ++ [n])) j p.key = ancestor (up places) j p.key := by
  rw [up_append hkey]
  apply ancestor_update_of_avoids
  intro i hi
  exact hkey (h.reaches_mem hp ⟨i, hi⟩)

theorem Placed.below_append (h : Placed places) (hkey : n.key ∉ places.map Place.key)
    (hp : p ∈ places) : Below (up (places ++ [n])) p.key k ↔ Below (up places) p.key k := by
  unfold Below
  simp only [h.ancestor_append hkey hp]

theorem Placed.reaches_append (h : Placed places) (hkey : n.key ∉ places.map Place.key)
    (hp : p ∈ places) : Reaches (up (places ++ [n])) p.key k ↔ Reaches (up places) p.key k := by
  unfold Reaches
  simp only [h.ancestor_append hkey hp]

theorem Placed.below_append_new (h : Placed places) (hkey : n.key ∉ places.map Place.key)
    (hparent : ∀ a ∈ n.parent, a ∈ places.map Place.key) :
    Below (up (places ++ [n])) n.key k ↔ ∃ a ∈ n.parent, Reaches (up places) a k := by
  rw [up_append hkey]
  cases hn : n.parent with
  | none =>
      have hnot := not_below_of_none (p := k)
        (Function.update_self n.key (none : Option Comment.Key) (up places))
      simp [hnot]
  | some a =>
      obtain ⟨q, hq, rfl⟩ := List.mem_map.mp (hparent a hn)
      rw [below_iff_of_some (Function.update_self n.key (some q.key) (up places)), ← hn,
        ← up_append hkey, h.reaches_append hkey hq, hn]
      simp

open scoped Classical in
theorem Placed.descendants_append (h : Placed places) (hkey : n.key ∉ places.map Place.key)
    (hparent : ∀ a ∈ n.parent, a ∈ places.map Place.key) (k : Comment.Key) :
    descendants (places ++ [n]) k =
      descendants places k + if ∃ a ∈ n.parent, Reaches (up places) a k then 1 else 0 := by
  unfold descendants
  rw [List.countP_append, List.countP_singleton]
  congr 1
  · apply List.countP_congr
    intro p hp
    rw [decide_eq_true_eq, decide_eq_true_eq, h.below_append hkey hp]
  · simp only [decide_eq_true_eq, h.below_append_new hkey hparent]

theorem Placed.descendants_append_new (h : Placed places) (hkey : n.key ∉ places.map Place.key) :
    descendants places n.key = 0 := by
  classical
  unfold descendants
  rw [List.countP_eq_zero]
  intro p hp
  rw [decide_eq_true_eq]
  intro hbelow
  exact hkey (h.reaches_mem hp (reaches_iff_eq_or_below.mpr (.inr hbelow)))

theorem descendants_pos (hp : p ∈ places) (hbelow : Below (up places) p.key k) :
    0 < descendants places k := by
  classical
  unfold descendants
  rw [List.countP_pos_iff]
  exact ⟨p, hp, by simpa using hbelow⟩

/-! ## The order of the list -/

theorem up_perm (hperm : places.Perm rest) (hkeys : (places.map Place.key).Nodup) :
    up rest = up places := by
  funext k
  have hkeys' : (rest.map Place.key).Nodup := (hperm.map Place.key).nodup_iff.mp hkeys
  unfold up
  congr 1
  cases hfind : places.find? fun p => p.key = k with
  | none =>
      rw [find?_key_eq_none] at hfind ⊢
      exact fun hmem => hfind ((hperm.map Place.key).mem_iff.mpr hmem)
  | some p =>
      rw [find?_key_eq_some hkeys] at hfind
      exact (find?_key_eq_some hkeys').mpr ⟨hperm.mem_iff.mp hfind.1, hfind.2⟩

theorem descendants_perm (hperm : places.Perm rest) (hkeys : (places.map Place.key).Nodup)
    (k : Comment.Key) : descendants rest k = descendants places k := by
  unfold descendants
  rw [up_perm hperm hkeys]
  exact (hperm.countP_eq _).symm

theorem Placed.perm (h : Placed places) (hperm : places.Perm rest) : Placed rest where
  ids := (hperm.map Place.id).nodup_iff.mp h.ids
  keys := (hperm.map Place.key).nodup_iff.mp h.keys
  authors := fun p hp => h.authors p (hperm.mem_iff.mpr hp)
  top := fun p hp => h.top p (hperm.mem_iff.mpr hp)
  reply := by
    intro p hp k hparent
    obtain ⟨q, hq, hrest⟩ := h.reply p (hperm.mem_iff.mpr hp) k hparent
    exact ⟨q, hperm.mem_iff.mp hq, hrest⟩
  deep := fun p hp => h.deep p (hperm.mem_iff.mpr hp)

/-- A place that nothing is below may go. -/
theorem Placed.of_append (h : Placed (places ++ [n]))
    (hnone : descendants (places ++ [n]) n.key = 0) :
    Placed places ∧ n.key ∉ places.map Place.key ∧ ∀ a ∈ n.parent, a ∈ places.map Place.key := by
  classical
  have hkeys := h.keys
  rw [List.map_append, List.nodup_append] at hkeys
  have hids := h.ids
  rw [List.map_append, List.nodup_append] at hids
  have hlast : n ∈ places ++ [n] := List.mem_append_right _ (List.mem_singleton_self n)
  have hfree : ∀ p ∈ places ++ [n], p.parent ≠ some n.key := by
    intro p hp hparent
    unfold descendants at hnone
    rw [List.countP_eq_zero] at hnone
    apply hnone p hp
    rw [decide_eq_true_eq, below_iff_of_some ((up_of_mem h.keys hp).trans hparent)]
    exact Reaches.refl _ _
  have hreply : ∀ p ∈ places ++ [n], ∀ k, p.parent = some k →
      ∃ q ∈ places, q.key = k ∧ p.depth = q.depth + 1 ∧ p.root = q.root := by
    intro p hp k hparent
    obtain ⟨q, hq, rfl, hrest⟩ := h.reply p hp k hparent
    rcases List.mem_append.mp hq with hq | hq
    · exact ⟨q, hq, rfl, hrest⟩
    · rw [List.mem_singleton] at hq
      exact absurd (hq ▸ hparent) (hfree p hp)
  refine ⟨⟨hids.1, hkeys.1, fun p hp => h.authors p (List.mem_append_left _ hp),
    fun p hp => h.top p (List.mem_append_left _ hp),
    fun p hp => hreply p (List.mem_append_left _ hp),
    fun p hp => h.deep p (List.mem_append_left _ hp)⟩, ?_, ?_⟩
  · intro hmem
    exact hkeys.2.2 n.key hmem n.key (by simp) rfl
  · intro a ha
    obtain ⟨q, hq, rfl, -⟩ := hreply n hlast a ha
    exact List.mem_map_of_mem hq

end Gamebank.Discussion
