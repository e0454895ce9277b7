import Gamebank.Discussion.Threads

/-!
# The parent of an edited comment

An operation on a comment that exists is an edit, and is to name the parent
the comment has. The author of the parent is compared as it is; its permlink by
`strcmp_equal`, for which it is enough that two texts are of the same size, or
the same up to the first zero byte.
-/

namespace Gamebank.Discussion

open Gamebank.Lib Gamebank.Protocol Gamebank.Ledger

/-- When `strcmp_equal` tells two texts apart exactly if they differ. -/
theorem strcmpEqual_exact_iff (a b : String) :
    (strcmpEqual a b = true ↔ a = b) ↔
      a = b ∨ a.utf8ByteSize ≠ b.utf8ByteSize ∧ cString a ≠ cString b := by
  have hequal : strcmpEqual a b = true ↔
      a.utf8ByteSize = b.utf8ByteSize ∨ cString a = cString b := by
    simp [strcmpEqual]
  by_cases hab : a = b
  · subst hab
    simp [hequal]
  · simp [hequal, hab]

/-- The other checks that an operation meets before it edits the comment `c`. -/
structure Editable (tools : TextTools) (s : Database) (c : Comment) (o : CommentOperation) :
    Prop where
  valid : o.validate tools = .ok ()
  author : ∃ a, s.getAccount o.author = .ok a
  parent : ∃ p, s.findParent o = .ok p
  sameAuthor : o.parentAuthor = c.parentAuthor
  content : ∃ d ∈ s.commentContents.rows, d.comment = c.id

/-- Two permlinks that `strcmp_equal` takes for the same. -/
def Confused (a b : String) : Prop :=
  a ≠ b ∧ (a.utf8ByteSize = b.utf8ByteSize ∨ cString a = cString b)

variable {tools : TextTools} {s : Database} {c : Comment} {o : CommentOperation}

theorem findParent_eq_none {p : Option Comment} (h : s.findParent o = .ok p) (hp : p = none) :
    o.parentAuthor = rootPostParent := by
  by_contra hne
  subst hp
  unfold Database.findParent at h
  rw [if_pos hne] at h
  obtain ⟨q, -, h⟩ := bind_eq_ok.mp h
  obtain ⟨-, h⟩ := ensure_bind_eq_ok.mp h
  cases h

/-- Whether the comment has a parent or not, the same two things are compared. -/
theorem editComment_parent {p : Option Comment} (hp : s.findParent o = .ok p) :
    s.editComment tools c p o = s.editComment tools c (some c) o := by
  cases p with
  | some q => rfl
  | none =>
      have hroot : o.parentAuthor = "" := findParent_eq_none hp rfl
      simp only [Database.editComment, hroot]

theorem editComment_eq_ok_iff {p : Option Comment} (hp : s.findParent o = .ok p) :
    (∃ t, s.editComment tools c p o = .ok t) ↔ o.parentAuthor = c.parentAuthor ∧
      strcmpEqual c.parentPermlink o.parentPermlink = true ∧
      ∃ d ∈ s.commentContents.rows, d.comment = c.id := by
  have hcontent : (∃ d, Database.require (s.commentContents.find? fun d => d.comment = c.id) =
      .ok d) ↔ ∃ d ∈ s.commentContents.rows, d.comment = c.id := by
    simp only [Database.require_eq_ok, Table.find?]
    rw [← Option.isSome_iff_exists, List.find?_isSome]
    simp
  rw [← hcontent, @eq_comm _ o.parentAuthor, editComment_parent hp]
  simp only [Database.editComment, bind_eq_ok, ensure_eq_ok, pure_eq_ok, decide_eq_true_eq]
  constructor
  · rintro ⟨_, ⟨⟩, hauthor, ⟨⟩, hpermlink, d, hd, _⟩
    exact ⟨hauthor, hpermlink, d, hd⟩
  · rintro ⟨hauthor, hpermlink, d, hd⟩
    exact ⟨_, (), hauthor, (), hpermlink, d, hd, rfl⟩

/-- An edit is accepted exactly if it meets the other checks and its permlink passes for
that of the parent. -/
theorem comment_eq_ok_iff (hc : Comments.findComment s.comments o.author o.permlink = some c) :
    (∃ t, perform tools s (.comment o) = .ok t) ↔
      Editable tools s c o ∧ strcmpEqual c.parentPermlink o.parentPermlink = true := by
  have hedit : ∀ p, s.findParent o = .ok p → ((∃ t, s.editComment tools c p o = .ok t) ↔ _) :=
    fun p hp => editComment_eq_ok_iff hp
  constructor
  · rintro ⟨t, h⟩
    obtain ⟨⟨⟩, hvalid, h⟩ := bind_eq_ok.mp h
    obtain ⟨-, h⟩ := ensure_bind_eq_ok.mp h
    obtain ⟨a, ha, h⟩ := bind_eq_ok.mp h
    obtain ⟨p, hp, h⟩ := bind_eq_ok.mp h
    rw [hc] at h
    obtain ⟨hauthor, hpermlink, hcontent⟩ := (hedit p hp).mp ⟨t, h⟩
    exact ⟨⟨hvalid, ⟨a, ha⟩, ⟨p, hp⟩, hauthor, hcontent⟩, hpermlink⟩
  · rintro ⟨⟨hvalid, ⟨a, ha⟩, ⟨p, hp⟩, hauthor, hcontent⟩, hpermlink⟩
    obtain ⟨t, ht⟩ := (hedit p hp).mpr ⟨hauthor, hpermlink, hcontent⟩
    -- `validate` has seen to it that there is a body
    have hbody : 0 < o.body.utf8ByteSize := by
      have h := hvalid
      obtain ⟨-, h⟩ := ensure_bind_eq_ok.mp h
      obtain ⟨hbody, -⟩ := ensure_bind_eq_ok.mp h
      exact of_decide_eq_true hbody
    have hchange : decide (0 < o.title.utf8ByteSize + o.body.utf8ByteSize +
        o.jsonMetadata.utf8ByteSize) = true := decide_eq_true (by omega)
    refine ⟨t, bind_eq_ok.mpr ⟨(), hvalid, ensure_bind_eq_ok.mpr ⟨hchange, ?_⟩⟩⟩
    refine bind_eq_ok.mpr ⟨a, ha, bind_eq_ok.mpr ⟨p, hp, ?_⟩⟩
    rw [hc]
    exact ht

/-- An edit is accepted only with the parent the comment has if and only if it does not meet
all other checks with a permlink that `strcmp_equal` confuses with that of the parent. -/
theorem edit_names_parent_iff (tools : TextTools) (s : Database) (c : Comment)
    (o : CommentOperation)
    (hc : Comments.findComment s.comments o.author o.permlink = some c) :
    (∀ t, perform tools s (.comment o) = .ok t →
        o.parentAuthor = c.parentAuthor ∧ o.parentPermlink = c.parentPermlink) ↔
      ¬(Editable tools s c o ∧ Confused o.parentPermlink c.parentPermlink) := by
  have haccepted : (∃ t, perform tools s (.comment o) = .ok t) ↔ _ := comment_eq_ok_iff hc
  have hequal : strcmpEqual c.parentPermlink o.parentPermlink = true ↔
      o.parentPermlink.utf8ByteSize = c.parentPermlink.utf8ByteSize ∨
        cString o.parentPermlink = cString c.parentPermlink := by
    rw [@eq_comm _ o.parentPermlink.utf8ByteSize, @eq_comm _ (cString o.parentPermlink)]
    simp [strcmpEqual]
  constructor
  · rintro hnames ⟨hedit, hne, hconfused⟩
    obtain ⟨t, ht⟩ := haccepted.mpr ⟨hedit, hequal.mpr hconfused⟩
    exact hne (hnames t ht).2
  · intro hnot t ht
    obtain ⟨hedit, hpermlink⟩ := haccepted.mp ⟨t, ht⟩
    refine ⟨hedit.sameAuthor, ?_⟩
    by_contra hne
    exact hnot ⟨hedit, hne, hequal.mp hpermlink⟩

/-- A post that is edited in its own category. -/
theorem edit_names_parent_same :
    let tools : TextTools := ⟨fun _ => true, fun _ body => body⟩
    let s := step tools (Database.genesis 0) (.comment rootOperation)
    ∀ t, perform tools s (.comment rootOperation) = .ok t →
      rootOperation.parentAuthor = (rootRow 0).parentAuthor ∧
      rootOperation.parentPermlink = (rootRow 0).parentPermlink :=
  (edit_names_parent_iff _ _ (rootRow 0) rootOperation (by decide +kernel)).mpr
    fun h => h.2.1 rfl

/-- An edit with "cake" as the category. -/
def mistakenEdit : CommentOperation := { rootOperation with parentPermlink := "cake" }

/-- The category of a post is "game", and an edit that says "cake" is accepted. -/
theorem edit_claims_other_category :
    let tools : TextTools := ⟨fun _ => true, fun _ body => body⟩
    let s := step tools (Database.genesis 0) (.comment rootOperation)
    ∃ c t, Comments.findComment s.comments mistakenEdit.author mistakenEdit.permlink = some c ∧
      perform tools s (.comment mistakenEdit) = .ok t ∧
      mistakenEdit.parentPermlink ≠ c.parentPermlink := by
  intro tools s
  have hrun : (perform tools s (.comment mistakenEdit)).toOption.any (fun _ => true) = true := by
    decide +kernel
  obtain ⟨t, ht, -⟩ := exists_of_any hrun
  have hfind : Comments.findComment s.comments mistakenEdit.author mistakenEdit.permlink =
      some (rootRow 0) := by decide +kernel
  exact ⟨rootRow 0, t, hfind, ht, by decide⟩

end Gamebank.Discussion
