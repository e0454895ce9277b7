import Gamebank.Discussion.Frames
import Gamebank.Discussion.Threads

/-!
# The contents of comments

`comment_evaluator` makes a comment and its content in one go; the content
holds the id of the comment. `delete_comment_evaluator` removes the comment and
the votes on it. It does not remove the content, and nothing else does either:
contents and comments match one to one as long as no comment is deleted, and
never again after that.
-/

namespace Gamebank.Discussion

open Gamebank.Lib Gamebank.Protocol Gamebank.Ledger
open Comments (updateAncestors retallyCommentChildren)

/-! ## What the two tables have to do with each other -/

/-- The ids of the comments, and those the contents hold. -/
@[ext] structure Ids where
  next : Nat
  comments : List Nat
  contents : List Nat

def idsOf (s : Database) : Ids where
  next := s.comments.nextId
  comments := s.comments.rows.map Comment.id
  contents := s.commentContents.rows.map CommentContent.comment

namespace Ids

/-- The contents belong to the comments, one to each. -/
structure OneToOne (i : Ids) : Prop where
  distinct : i.comments.Nodup
  paired : i.contents.Perm i.comments

/-- With a comment and its content. -/
def made (i : Ids) : Ids := ⟨i.next + 1, i.comments ++ [i.next], i.contents ++ [i.next]⟩

/-- Without a comment. -/
def deleted (i : Ids) (id : Nat) : Ids := { i with comments := i.comments.erase id }

/-- As long as no comment has been deleted. -/
structure Whole (i : Ids) : Prop extends i.OneToOne where
  fresh : ∀ id ∈ i.comments, id < i.next

variable {i : Ids}

theorem Whole.made (h : i.Whole) : i.made.Whole where
  distinct := nodup_append_single h.distinct fun hmem => Nat.lt_irrefl _ (h.fresh _ hmem)
  paired := h.paired.append_right _
  fresh := by
    intro id hid
    rcases List.mem_append.mp hid with hid | hid
    · exact Nat.lt_succ_of_lt (h.fresh id hid)
    · rw [List.mem_singleton.mp hid]
      exact Nat.lt_succ_self _

/-- The content of a deleted comment is one too many. -/
theorem Whole.not_oneToOne_deleted (h : i.Whole) {id : Nat} (hid : id ∈ i.comments) :
    ¬(i.deleted id).OneToOne := by
  intro hdeleted
  have hlength := hdeleted.paired.length_eq
  have herase := List.length_erase_of_mem hid
  have hpos := List.length_pos_of_mem hid
  have hmatch := h.paired.length_eq
  simp only [deleted] at hlength
  omega

end Ids

/-! ## The evaluators -/

section

variable {s : Database}

theorem comment_ids (tools : TextTools) (s : Database) (o : CommentOperation) :
    Returns (s.comment tools o) fun t => idsOf t = idsOf s ∨ idsOf t = (idsOf s).made := by
  refine (comment_frame tools s o).mono fun t ht => ?_
  rcases ht with ⟨parent, ht⟩ | ht
  · right
    ext1
    case next => exact ht.next
    case comments => exact ht.rows fun _ _ => rfl
    case contents => exact ht.contents
  · left
    ext1
    case next => exact ht.next
    case comments => exact ht.rows fun _ _ => rfl
    case contents => exact ht.contents

theorem deleteComment_ids (s : Database) (o : DeleteCommentOperation) :
    Returns (s.deleteComment o) fun t =>
      ∃ id ∈ (idsOf s).comments, idsOf t = (idsOf s).deleted id := by
  refine (deleteComment_removed s o).mono fun t ⟨c, ht⟩ => ⟨c.id, List.mem_map_of_mem ht.mem, ?_⟩
  ext1
  case next => exact ht.next
  case comments =>
    show t.comments.rows.map Comment.id = List.erase (s.comments.rows.map Comment.id) c.id
    rw [ht.rows fun _ _ => rfl, List.erase_eq_eraseP', List.eraseP_map]
    rfl
  case contents =>
    rw [ht.rest]
    rfl

/-- The retally counts again, and neither makes nor removes a comment. -/
theorem retally_map {comments : Comments} {β : Type} {g : Comment → β}
    (hg : ∀ c n, g { c with children := n } = g c) :
    Returns (retallyCommentChildren comments) fun comments' =>
      comments'.nextId = comments.nextId ∧ comments'.rows.map g = comments.rows.map g := by
  unfold retallyCommentChildren
  refine .foldlM ⟨rfl, ?_⟩ fun t ht c _ => ?_
  · show (comments.rows.map _).map g = _
    rw [List.map_map]
    exact List.map_congr_left fun c _ => hg c 0
  · unfold Comments.retallyComment
    refine .ite (fun _ => .bind_any fun parent => ?_) fun _ => .pure ht
    refine (updateAncestors_map (f := Comments.countUp) (fun c => hg c _) _ parent _).mono ?_
    exact fun t' h => ⟨h.1.trans ht.1, h.2.trans ht.2⟩

end

/-! ## Runs -/

/-- Everything else a block does leaves the contents alone. -/
def apart (s : Database) : Event → Bool
  | .elsewhere t => t.commentContents = s.commentContents
  | _ => true

def performApart (tools : TextTools) (s : Database) (e : Event) : Except String Database := do
  ensure (apart s e) "the contents have been changed"
  perform tools s e

/-- The state after an event; one that throws changes nothing. -/
def stepApart (tools : TextTools) (s : Database) (e : Event) : Database :=
  attempt s (performApart tools s e)

/-- A comment is deleted. -/
def Deletes (tools : TextTools) (s : Database) : Event → Prop
  | .deleteComment o => ∃ t, perform tools s (.deleteComment o) = .ok t
  | _ => False

variable {s : Database} {tools : TextTools}

theorem performApart_ids (s : Database) (e : Event) : Returns (performApart tools s e) fun t =>
    (¬Deletes tools s e ∧ (idsOf t = idsOf s ∨ idsOf t = (idsOf s).made)) ∨
      Deletes tools s e ∧ ∃ id ∈ (idsOf s).comments, idsOf t = (idsOf s).deleted id := by
  refine .ensure fun hapart => ?_
  cases e with
  | comment o =>
      exact .bind_any fun _ => (comment_ids tools s o).mono fun _ h => .inl ⟨id, h⟩
  | deleteComment o =>
      intro t ht
      have hids : Returns (perform tools s (.deleteComment o)) fun t =>
          ∃ id ∈ (idsOf s).comments, idsOf t = (idsOf s).deleted id :=
        .bind_any fun _ => deleteComment_ids s o
      exact .inr ⟨⟨t, ht⟩, hids t ht⟩
  | retally =>
      refine .bind (retally_map (g := Comment.id) fun _ _ => rfl) fun comments h => .pure ?_
      refine .inl ⟨id, .inl ?_⟩
      ext1
      case next => exact h.1
      case comments => exact h.2
      case contents => rfl
  | elsewhere t =>
      refine .ensure fun hsame => .pure (.inl ⟨id, .inl ?_⟩)
      unfold sameTree at hsame
      rw [Bool.and_eq_true, decide_eq_true_eq, decide_eq_true_eq] at hsame
      have hids := congrArg (List.map fun p : Place × Nat => p.1.id) hsame.2
      rw [List.map_map, List.map_map] at hids
      ext1
      case next => exact hsame.1
      case comments => exact hids
      case contents =>
        show t.commentContents.rows.map _ = s.commentContents.rows.map _
        rw [of_decide_eq_true hapart]

/-- The step lemma: what has been whole stays so unless a comment is deleted, and
is not one to one any more if one is. -/
theorem stepApart_whole (h : (idsOf s).Whole) (e : Event) :
    (¬Deletes tools s e → (idsOf (stepApart tools s e)).Whole) ∧
      ((idsOf (stepApart tools s e)).OneToOne → ¬Deletes tools s e) := by
  have hids : Returns (performApart tools s e) _ := performApart_ids s e
  unfold stepApart attempt
  cases hresult : performApart tools s e with
  | error m =>
      refine ⟨fun _ => h, fun _ hdeletes => ?_⟩
      cases e with
      | deleteComment o =>
          obtain ⟨t, ht⟩ := hdeletes
          have hok : performApart tools s (.deleteComment o) = .ok t := ht
          rw [hresult] at hok
          cases hok
      | comment o => exact hdeletes
      | retally => exact hdeletes
      | elsewhere t => exact hdeletes
  | ok t =>
      rcases hids t hresult with ⟨hno, hsame⟩ | ⟨hdeletes, id, hid, hdeleted⟩
      · refine ⟨fun _ => ?_, fun _ => hno⟩
        rcases hsame with hsame | hmade
        · exact hsame ▸ h
        · exact hmade ▸ h.made
      · refine ⟨fun hno => absurd hdeletes hno, fun hmatch => ?_⟩
        exact absurd (hdeleted ▸ hmatch) (h.not_oneToOne_deleted hid)

/-- Contents and comments match one to one all along a run if and only if no
comment is deleted in it. -/
theorem contents_match_iff (tools : TextTools) (initialSupply : Int) (events : List Event) :
    (∀ k, (idsOf ((events.take k).foldl (stepApart tools)
        (Database.genesis initialSupply))).OneToOne) ↔
      Along (stepApart tools) (fun s e => ¬Deletes tools s e) (Database.genesis initialSupply)
        events := by
  have hstart : (idsOf (Database.genesis initialSupply)).Whole :=
    { distinct := List.nodup_nil
      paired := List.Perm.nil
      fresh := fun _ hid => absurd hid List.not_mem_nil }
  exact along_iff (I := fun s => (idsOf s).Whole) (P := fun s => (idsOf s).OneToOne)
    (fun s e h hno => (stepApart_whole h e).1 hno) (fun _ h => h.toOneToOne)
    (fun s e h hmatch => (stepApart_whole h e).2 hmatch) events hstart

/-- A comment is posted and deleted. Its content stays. -/
theorem content_outlives_comment :
    let events : List Event := [.comment rootOperation, .deleteComment ⟨initMinerName, "root"⟩]
    let s := events.foldl (stepApart ⟨fun _ => true, fun _ body => body⟩) (Database.genesis 0)
    s.comments.rows = [] ∧ s.commentContents.rows = [⟨0, "", "first", ""⟩] ∧
      ¬(idsOf s).OneToOne := by
  have hrun : let events : List Event :=
    [.comment rootOperation, .deleteComment ⟨initMinerName, "root"⟩]
    let s := events.foldl (stepApart ⟨fun _ => true, fun _ body => body⟩) (Database.genesis 0)
    s.comments.rows = [] ∧ s.commentContents.rows = [⟨0, "", "first", ""⟩] := by decide +kernel
  refine ⟨hrun.1, hrun.2, fun h => ?_⟩
  have hlength := h.paired.length_eq
  simp only [idsOf, hrun.1, hrun.2] at hlength
  cases hlength

end Gamebank.Discussion
