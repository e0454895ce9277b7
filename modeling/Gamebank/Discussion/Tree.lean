import Gamebank.Lib.Runs
import Gamebank.Discussion.Counts

/-!
# Discussions stay trees

`Threaded` is the invariant: the comments are placed, and each counts its
descendants. A new comment keeps it as long as no counter above it is at its
end, and so does a comment that is deleted.

An `Event` is what can happen to the comments: the two operations, the retally,
and everything else, which may not touch what the tree is made of.
-/

namespace Gamebank.Discussion

open Gamebank.Lib Gamebank.Protocol Gamebank.Ledger
open Comments (updateAncestors retallyCommentChildren)

structure Threaded (comments : Comments) : Prop where
  placed : Placed (placesOf comments)
  fresh : ∀ c ∈ comments.rows, c.id < comments.nextId
  counted : ∀ c ∈ comments.rows, c.children = descendants (placesOf comments) c.key
  small : ∀ c ∈ comments.rows, c.children < uint32Range

variable {comments : Comments} {c p new : Comment} {f : Comment → Comment}

theorem threaded_empty : Threaded .empty where
  placed := ⟨List.nodup_nil, List.nodup_nil, by simp [Table.empty], by simp [Table.empty],
    by simp [Table.empty], by simp [Table.empty]⟩
  fresh := by simp [Table.empty]
  counted := by simp [Table.empty]
  small := by simp [Table.empty]

namespace Threaded

/-- The retally finds what it has left. -/
theorem retally (h : Threaded comments) : retallyCommentChildren comments = .ok comments := by
  rw [retallyCommentChildren_eq h.placed]
  refine congrArg Except.ok (congrArg (Table.mk comments.nextId) ?_)
  have hsame : ∀ c ∈ comments.rows,
      setChildren (countBelow comments (placesOf comments) c.key % uint32Range) c = c := by
    intro c hc
    have hcount : countBelow comments (placesOf comments) c.key = c.children :=
      (h.counted c hc).symm
    rw [hcount, Nat.mod_eq_of_lt (h.small c hc)]
    rfl
  rw [List.map_congr_left hsame, List.map_id']

/-! ## A new comment -/

/-- The id of a new comment is new. -/
theorem fresh_id (h : Threaded comments) : comments.nextId ∉ (placesOf comments).map Place.id := by
  rw [ids_eq]
  intro hmem
  obtain ⟨c, hc, hid⟩ := List.mem_map.mp hmem
  have := h.fresh c hc
  omega

theorem placed_create (h : Threaded comments) (hid : new.id = comments.nextId)
    (hkey : new.key ∉ comments.rows.map Comment.key) (hauthor : new.author ≠ rootPostParent)
    (hjoins : Joins (placesOf comments) (place new)) (hdeep : new.depth ≤ maxCommentDepth) :
    Placed (placesOf comments ++ [place new]) := by
  apply h.placed.append _ _ hauthor hjoins hdeep
  · exact fun hmem => h.fresh_id (hid ▸ hmem)
  · rwa [keys_eq]

/-- A discussion is started. -/
theorem post (h : Threaded comments) (hid : new.id = comments.nextId)
    (hkey : new.key ∉ comments.rows.map Comment.key) (hauthor : new.author ≠ rootPostParent)
    (htop : new.parentAuthor = rootPostParent) (hdepth : new.depth = 0)
    (hroot : new.rootComment = new.id) (hchildren : new.children = 0) :
    Threaded ⟨comments.nextId + 1, comments.rows ++ [new]⟩ := by
  have hparent : (place new).parent = none := parentKey_eq_none.mpr htop
  have hkey' : (place new).key ∉ (placesOf comments).map Place.key := by rwa [keys_eq]
  have hplaces : placesOf ⟨comments.nextId + 1, comments.rows ++ [new]⟩ =
      placesOf comments ++ [place new] := List.map_append
  have hcount : ∀ k, descendants (placesOf comments ++ [place new]) k =
      descendants (placesOf comments) k := by
    intro k
    rw [h.placed.descendants_append hkey' (by simp [hparent])]
    simp [hparent]
  constructor
  · rw [hplaces]
    exact h.placed_create hid hkey hauthor (.inl ⟨hparent, hdepth, hroot⟩) (by omega)
  · intro c hc
    rcases List.mem_append.mp hc with hc | hc
    · exact Nat.lt_succ_of_lt (h.fresh c hc)
    · rw [List.mem_singleton.mp hc, hid]
      exact Nat.lt_succ_self _
  · intro c hc
    rw [hplaces, hcount]
    rcases List.mem_append.mp hc with hc | hc
    · exact h.counted c hc
    · rw [List.mem_singleton.mp hc, hchildren]
      exact (h.placed.descendants_append_new hkey').symm
  · intro c hc
    rcases List.mem_append.mp hc with hc | hc
    · exact h.small c hc
    · rw [List.mem_singleton.mp hc, hchildren]
      decide

/-- A reply counts for everything above it. -/
theorem reply (h : Threaded comments) (hid : new.id = comments.nextId)
    (hkey : new.key ∉ comments.rows.map Comment.key) (hauthor : new.author ≠ rootPostParent)
    (hp : p ∈ comments.rows) (hparent : new.parentKey = some p.key)
    (hdepth : new.depth = p.depth + 1) (hdeep : p.depth < maxCommentDepth)
    (hroot : new.rootComment = p.rootComment) (hchildren : new.children = 0)
    (hplace : ∀ c, place (f c) = place c)
    (hf : ∀ c, (f c).children = (c.children + 1) % uint32Range)
    (hroom : ∀ c ∈ comments.rows, Reaches (up (placesOf comments)) p.key c.key →
      c.children + 1 < uint32Range) :
    Threaded (changeAbove f p.key ⟨comments.nextId + 1, comments.rows ++ [new]⟩) := by
  classical
  have hkey' : (place new).key ∉ (placesOf comments).map Place.key := by rwa [keys_eq]
  have hpplace : place p ∈ placesOf comments := List.mem_map_of_mem hp
  have hplaces : placesOf (changeAbove f p.key ⟨comments.nextId + 1, comments.rows ++ [new]⟩) =
      placesOf comments ++ [place new] := by
    rw [placesOf_changeAbove hplace]
    exact List.map_append
  have hcount : ∀ k, descendants (placesOf comments ++ [place new]) k =
      descendants (placesOf comments) k +
        if Reaches (up (placesOf comments)) p.key k then 1 else 0 := by
    intro k
    have hin : ∀ a ∈ (place new).parent, a ∈ (placesOf comments).map Place.key := by
      intro a ha
      rw [show (place new).parent = some p.key from hparent, Option.mem_some_iff] at ha
      exact ha ▸ List.mem_map_of_mem hpplace
    rw [h.placed.descendants_append hkey' hin]
    simp [show (place new).parent = some p.key from hparent]
  -- the way up from the parent is what it was, and misses the new comment
  have hreach : ∀ k, Reaches (up (placesOf comments ++ [place new])) p.key k ↔
      Reaches (up (placesOf comments)) p.key k := fun k => h.placed.reaches_append hkey' hpplace
  have hmiss : ¬Reaches (up (placesOf comments)) p.key new.key := fun hreach =>
    hkey' (h.placed.reaches_mem hpplace hreach)
  have hrows : ∀ c ∈ (changeAbove f p.key ⟨comments.nextId + 1, comments.rows ++ [new]⟩).rows,
      c = new ∨ ∃ d ∈ comments.rows, c = passed (placesOf comments) f p.key d := by
    intro c hc
    obtain ⟨d, hd, rfl⟩ := List.mem_map.mp hc
    have hplaces' : placesOf ⟨comments.nextId + 1, comments.rows ++ [new]⟩ =
      placesOf comments ++ [place new] := List.map_append
    simp only [hplaces', passed, hreach]
    rcases List.mem_append.mp hd with hd | hd
    · exact .inr ⟨d, hd, rfl⟩
    · rw [List.mem_singleton.mp hd]
      exact .inl (if_neg hmiss)
  -- what the loop adds is one for each comment on the way up
  have hold : ∀ d ∈ comments.rows, (passed (placesOf comments) f p.key d).children =
      d.children + if Reaches (up (placesOf comments)) p.key d.key then 1 else 0 := by
    intro d hd
    by_cases hr : Reaches (up (placesOf comments)) p.key d.key
    · rw [passed_of_reaches hr, if_pos hr, hf, Nat.mod_eq_of_lt (hroom d hd hr)]
    · rw [passed_of_not hr, if_neg hr, Nat.add_zero]
  constructor
  · rw [hplaces]
    exact h.placed_create hid hkey hauthor (.inr ⟨place p, hpplace, hparent, hdepth, hroot⟩)
      (by omega)
  · intro c hc
    rcases hrows c hc with rfl | ⟨d, hd, rfl⟩
    · exact hid ▸ Nat.lt_succ_self _
    · have hsame : (passed (placesOf comments) f p.key d).id = d.id :=
        congrArg Place.id (place_passed hplace p.key d)
      exact hsame ▸ Nat.lt_succ_of_lt (h.fresh d hd)
  · intro c hc
    rw [hplaces, hcount]
    rcases hrows c hc with rfl | ⟨d, hd, rfl⟩
    · rw [hchildren, if_neg hmiss, Nat.add_zero]
      exact (h.placed.descendants_append_new hkey').symm
    · have hsame : (passed (placesOf comments) f p.key d).key = d.key :=
        congrArg Place.key (place_passed hplace p.key d)
      rw [hold d hd, h.counted d hd, hsame]
  · intro c hc
    rcases hrows c hc with rfl | ⟨d, hd, rfl⟩
    · rw [hchildren]
      decide
    · rw [hold d hd]
      split
      next hr => exact hroom d hd hr
      next => exact h.small d hd

/-! ## A comment that goes -/

/-- The comment that is taken out may stand at the end. -/
theorem perm_remove (h : Placed (placesOf comments)) (hc : c ∈ comments.rows) :
    comments.rows.Perm ((comments.rows.eraseP fun d => d.id = c.id) ++ [c]) := by
  have hids : (comments.rows.map Comment.id).Nodup := ids_eq comments ▸ h.ids
  exact perm_eraseP (find?_eq_some_of_nodup hids hc)

/-- A comment with no descendants is taken out, when it no longer counts for
what is above it. -/
theorem remove (h : Threaded comments) (hc : c ∈ comments.rows) (hnone : c.children = 0)
    {g : Comment → Comment} (hplace : ∀ d, place (g d) = place d)
    (hg : ∀ d ∈ comments.rows, Below (up (placesOf comments)) c.key d.key →
      (g d).children + 1 = d.children)
    (hg' : ∀ d ∈ comments.rows, ¬Below (up (placesOf comments)) c.key d.key →
      (g d).children = d.children) :
    Threaded (Table.remove ⟨comments.nextId, comments.rows.map g⟩ fun d => d.id = c.id) := by
  classical
  have hplaces := placesOf_map comments hplace comments.nextId
  have hplaced : Placed (placesOf ⟨comments.nextId, comments.rows.map g⟩) := hplaces ▸ h.placed
  have hgc : g c ∈ comments.rows.map g := List.mem_map_of_mem hc
  have hid : (g c).id = c.id := congrArg Place.id (hplace c)
  have hperm := perm_remove hplaced hgc
  rw [hid] at hperm
  set rest := (comments.rows.map g).eraseP fun d => d.id = c.id with hrest
  have hpplaces : (placesOf comments).Perm (rest.map place ++ [place c]) := by
    have := hperm.map place
    rw [List.map_append, List.map_singleton, hplace c] at this
    exact hplaces ▸ this
  have hkeys := h.placed.keys
  have hcount := descendants_perm hpplaces hkeys
  have hup := up_perm hpplaces hkeys
  have hzero : descendants (rest.map place ++ [place c]) (place c).key = 0 := by
    rw [hcount]
    exact (h.counted c hc).symm.trans hnone
  obtain ⟨hleft, hkey, hparent⟩ := (h.placed.perm hpplaces).of_append hzero
  have hmem : ∀ d ∈ rest, ∃ b ∈ comments.rows, g b = d := by
    intro d hd
    exact List.mem_map.mp (List.mem_of_mem_eraseP hd)
  have hbelow : ∀ k, (∃ a ∈ (place c).parent, Reaches (up (rest.map place)) a k) ↔
      Below (up (placesOf comments)) c.key k := by
    intro k
    rw [← hleft.below_append_new hkey hparent, hup]
    rfl
  have hsub : ∀ b ∈ comments.rows, (g b).children = descendants (rest.map place) b.key := by
    intro b hb
    have hsplit := hleft.descendants_append hkey hparent b.key
    rw [hcount, ← h.counted b hb] at hsplit
    simp only [hbelow] at hsplit
    by_cases hr : Below (up (placesOf comments)) c.key b.key
    · rw [if_pos hr] at hsplit
      have := hg b hb hr
      omega
    · rw [if_neg hr, Nat.add_zero] at hsplit
      exact (hg' b hb hr).trans hsplit
  constructor
  · exact hleft
  · intro d hd
    obtain ⟨b, hb, rfl⟩ := hmem d hd
    have hsame : (g b).id = b.id := congrArg Place.id (hplace b)
    exact hsame ▸ h.fresh b hb
  · intro d hd
    obtain ⟨b, hb, rfl⟩ := hmem d hd
    have hsame : (g b).key = b.key := congrArg Place.key (hplace b)
    rw [hsame]
    exact hsub b hb
  · intro d hd
    obtain ⟨b, hb, rfl⟩ := hmem d hd
    have hle := h.small b hb
    by_cases hr : Below (up (placesOf comments)) c.key b.key
    · have := hg b hb hr
      omega
    · exact (hg' b hb hr) ▸ hle

end Threaded

end Gamebank.Discussion
