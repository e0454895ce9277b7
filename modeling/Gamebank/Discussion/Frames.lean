import Gamebank.Discussion.Places
import Gamebank.Stake.Frames

/-!
# What the evaluators of comments leave alone

A comment is made at the end of the table (`Made`), edited where it stands
(`Edited`) or removed (`Removed`). All the other comments keep what neither the
counts of replies nor the times of activity are part of, so what a module reads
of a comment passes over an evaluator in one step.
-/

namespace Gamebank.Discussion

open Gamebank.Lib Gamebank.Protocol Gamebank.Ledger

variable {s : Database} {o : CommentOperation}

/-- `t` is `s` with the comment that `o` makes. -/
structure Made (o : CommentOperation) (parent : Option Comment) (s t : Database) : Prop where
  next : t.comments.nextId = s.comments.nextId + 1
  rows : ∀ {β : Type} {g : Comment → β}, (∀ now c, g (Comments.replied now c) = g c) →
    t.comments.rows.map g =
      s.comments.rows.map g ++ [g (o.newComment parent s.headBlockTime s.comments.nextId)]
  contents : t.commentContents.rows.map CommentContent.comment =
    s.commentContents.rows.map CommentContent.comment ++ [s.comments.nextId]
  accounts : ∀ {β : Type} {g : Account → β},
    (∀ a root post count,
      g { a with lastRootPost := root, lastPost := post, postCount := count } = g a) →
    t.accounts.rows.map g = s.accounts.rows.map g
  rest : t = { s with
    accounts := { s.accounts with rows := t.accounts.rows }
    comments := t.comments
    commentContents := t.commentContents }

/-- `t` is `s` with another text of a comment. -/
structure Edited (s t : Database) : Prop where
  next : t.comments.nextId = s.comments.nextId
  rows : ∀ {β : Type} {g : Comment → β},
    (∀ c time, g { c with lastUpdate := time, active := time } = g c) →
    t.comments.rows.map g = s.comments.rows.map g
  contents : t.commentContents.rows.map CommentContent.comment =
    s.commentContents.rows.map CommentContent.comment
  rest : t = { s with comments := t.comments, commentContents := t.commentContents }

/-- `t` is `s` without the comment `c` and the votes on it. -/
structure Removed (c : Comment) (s t : Database) : Prop where
  mem : c ∈ s.comments.rows
  next : t.comments.nextId = s.comments.nextId
  rows : ∀ {β : Type} {g : Comment → β}, (∀ now c, g (Comments.unreplied now c) = g c) →
    t.comments.rows.map g = (s.comments.rows.eraseP fun d => d.id = c.id).map g
  rest : t = { s with
    comments := t.comments
    commentVotes := s.commentVotes.filter fun v => v.comment ≠ c.id }

theorem createComment_made (s : Database) (auth : Account) (parent : Option Comment)
    (o : CommentOperation) : Returns (s.createComment auth parent o) (Made o parent s) := by
  cases parent with
  | none =>
      refine .bind_any fun _ => .bind (Database.modifyAccount_spec s _ _) fun t ⟨a, ht⟩ =>
        .bind_any fun _ => .bind_any fun _ => .pure ?_
      rw [ht.rest]
      exact
        { next := rfl
          rows := fun _ => List.map_append
          contents := List.map_append
          accounts := fun hg => ht.replaces.map_eq (hg a _ _ _)
          rest := rfl }
  | some p =>
      refine .bind_any fun root => .ensure fun _ => .bind_any fun _ =>
        .bind (Database.modifyAccount_spec s _ _) fun t ⟨a, ht⟩ =>
          .bind_any fun _ => .bind_any fun _ => .bind_eq fun comments hcomments => .pure ?_
      rw [ht.rest] at hcomments ⊢
      exact
        { next := (updateAncestors_map (g := fun _ => ()) (fun _ => rfl) _ _ _ comments hcomments).1
          rows := fun hg =>
            (updateAncestors_map (hg _) _ _ _ comments hcomments).2.trans List.map_append
          contents := List.map_append
          accounts := fun hg => ht.replaces.map_eq (hg a _ _ _)
          rest := rfl }

theorem editComment_edited (tools : TextTools) (s : Database) (c : Comment)
    (parent : Option Comment)
    (o : CommentOperation) : Returns (s.editComment tools c parent o) (Edited s) := by
  have hedited : ∀ f : CommentContent → CommentContent, (∀ d, (f d).comment = d.comment) →
      Edited s { s with
        comments := s.comments.modify (fun d => d.id = c.id) fun d =>
          { d with lastUpdate := s.headBlockTime, active := s.headBlockTime }
        commentContents := s.commentContents.modify (fun d => d.comment = c.id) f } := fun f hf =>
    { next := rfl
      rows := fun hg => map_modifyFirst (fun d => hg d _) _
      contents := map_modifyFirst hf _
      rest := rfl }
  unfold Database.editComment
  cases parent with
  | none =>
      exact .bind_any fun _ => .bind_any fun _ => .bind_any fun _ => .pure (hedited _ fun _ => rfl)
  | some p =>
      exact .bind_any fun _ => .bind_any fun _ => .bind_any fun _ => .pure (hedited _ fun _ => rfl)

theorem comment_frame (tools : TextTools) (s : Database) (o : CommentOperation) :
    Returns (s.comment tools o) fun t => (∃ parent, Made o parent s t) ∨ Edited s t := by
  unfold Database.comment
  refine .ensure fun _ => .bind_any fun auth => .bind_any fun parent => ?_
  split
  next => exact (createComment_made s auth parent o).mono fun _ ht => .inl ⟨parent, ht⟩
  next c _ => exact (editComment_edited tools s c parent o).mono fun _ ht => .inr ht

/-- Rows that only lost a reply have the comment in the same place. -/
theorem map_eraseP_eq {β : Type} {g : Comment → β} {rows rows' : List Comment} {id : Nat}
    (h : rows'.map (fun c => (c.id, g c)) = rows.map fun c => (c.id, g c)) :
    (rows'.eraseP fun d => d.id = id).map g = (rows.eraseP fun d => d.id = id).map g := by
  have hsplit : ∀ l : List Comment, (l.eraseP fun d => d.id = id).map g =
      ((l.map fun c => (c.id, g c)).eraseP fun d => d.1 = id).map Prod.snd := by
    intro l
    rw [List.eraseP_map, List.map_map]
    rfl
  rw [hsplit, hsplit, h]

theorem deleteComment_removed (s : Database) (o : DeleteCommentOperation) :
    Returns (s.deleteComment o) fun t => ∃ c, Removed c s t := by
  unfold Database.deleteComment
  refine .bind_eq fun c hc => .ensure fun _ => .ensure fun _ => .ensure fun _ => ?_
  have hmem := (getComment_mem hc).1
  refine .ite (fun _ => .bind_any fun parent => .bind_eq fun comments hcomments => .pure ⟨c, ?_⟩)
    fun _ => .pure ⟨c, hmem, rfl, fun _ => rfl, rfl⟩
  exact
    { mem := hmem
      next := (updateAncestors_map (g := fun _ => ()) (fun _ => rfl) _ _ _ comments hcomments).1
      rows := fun {_ g} hg => map_eraseP_eq (updateAncestors_map (f := Comments.unreplied _)
        (g := fun c => (c.id, g c))
          (fun c => congrArg (c.id, ·) (hg _ c)) _ _ _ comments hcomments).2
      rest := rfl }

end Gamebank.Discussion
