import Gamebank.Ledger.Calls
import Gamebank.Discussion.Tree

/-!
# Every run of posts, edits and deletions

An `Event` is what can happen to the comments: the two operations, the
retally of a hardfork, and everything else a block does (votes, options,
payouts, new accounts), which does not touch what the tree is made of. A
comment may be posted, deleted and posted again under the same permlink.

`children` is a `uint32_t`. A comment that already has all the descendants
it can count is the one thing that breaks the tree: `Room` says that a new
comment is not put below such a comment.
-/

namespace Gamebank.Discussion

open Gamebank.Lib Gamebank.Protocol Gamebank.Ledger
open Comments (updateAncestors retallyCommentChildren)

/-! ## The evaluators -/

section

variable {s : Database} {comments : Comments} {c p : Comment}

theorem modifyAccount_comments {t : Database} {name : AccountName} {f : Account → Account}
    (h : s.modifyAccount name f = .ok t) : t.comments = s.comments := by
  unfold Database.modifyAccount at h
  obtain ⟨a, -, h⟩ := bind_eq_ok.mp h
  obtain ⟨-, h⟩ := ensure_bind_eq_ok.mp h
  rw [← pure_eq_ok.mp h]

/-- A new comment. -/
theorem createComment_threaded (h : Threaded s.comments) (auth : Account) (o : CommentOperation)
    (hauthor : o.author ≠ rootPostParent)
    (hnew : Comments.findComment s.comments o.author o.permlink = none) {parent : Option Comment}
    (hparent : ∀ p ∈ parent, p ∈ s.comments.rows ∧ p.depth < maxCommentDepth)
    (hroom : ∀ p ∈ parent, ∀ c ∈ s.comments.rows,
      Reaches (up (placesOf s.comments)) p.key c.key → c.children + 1 < uint32Range) :
    Returns (s.createComment auth parent o) fun t => Threaded t.comments := by
  have hkey : (o.author, cString o.permlink) ∉ s.comments.rows.map Comment.key :=
    find?_key_eq_none.mp hnew
  cases parent with
  | none =>
      refine .bind_any fun _ => .bind_eq fun t ht => .bind_any fun _ => .bind_any fun _ => .pure ?_
      rw [modifyAccount_comments ht]
      exact h.post rfl hkey hauthor rfl rfl rfl rfl
  | some p =>
      obtain ⟨hp, hdeep⟩ := hparent p rfl
      have hpauthor : p.author ≠ rootPostParent :=
        h.placed.authors (place p) (List.mem_map_of_mem hp)
      refine .bind_any fun root => .ensure fun _ => .bind_any fun _ => .bind_eq fun t ht =>
        .bind_any fun _ => .bind_any fun _ => .bind_eq fun comments hwalk => .pure ?_
      rw [modifyAccount_comments ht] at hwalk
      have hparentKey : (o.newComment (some p) s.headBlockTime s.comments.nextId).parentKey =
          some p.key := if_neg hpauthor
      have hid : (o.newComment (some p) s.headBlockTime s.comments.nextId).id =
          s.comments.nextId := rfl
      have hthreaded := h.reply (f := Comments.replied s.headBlockTime) hid hkey hauthor hp
        hparentKey rfl hdeep rfl rfl (place_replied _) (fun _ => rfl) (hroom p rfl)
      have hplaced :
        Placed (placesOf (s.comments.create (o.newComment (some p) s.headBlockTime))) :=
        placesOf_changeAbove (place_replied s.headBlockTime) p.key ▸ hthreaded.placed
      rw [updateAncestors_returns hplaced (place_replied _) (List.mem_append_left _ hp)] at hwalk
      cases hwalk
      exact hthreaded

/-- What changes neither place nor counter of a comment keeps the tree. -/
theorem Threaded.congr {comments' : Comments} (h : Threaded comments)
    (hnext : comments'.nextId = comments.nextId)
    (hrows : (comments'.rows.map fun c => (place c, c.children)) =
      comments.rows.map fun c => (place c, c.children)) : Threaded comments' := by
  have hplaces : placesOf comments' = placesOf comments := by
    have := congrArg (List.map Prod.fst) hrows
    rwa [List.map_map, List.map_map] at this
  have hold :
    ∀ c ∈ comments'.rows, ∃ d ∈ comments.rows, place d = place c ∧ d.children = c.children := by
    intro c hc
    have hmem : (place c, c.children) ∈ comments.rows.map fun c => (place c, c.children) :=
      hrows ▸ List.mem_map_of_mem (f := fun c => (place c, c.children)) hc
    obtain ⟨d, hd, heq⟩ := List.mem_map.mp hmem
    exact ⟨d, hd, congrArg Prod.fst heq, congrArg Prod.snd heq⟩
  constructor
  · exact hplaces ▸ h.placed
  · intro c hc
    obtain ⟨d, hd, hplace, -⟩ := hold c hc
    have hid : d.id = c.id := congrArg Place.id hplace
    exact hid ▸ hnext ▸ h.fresh d hd
  · intro c hc
    obtain ⟨d, hd, hplace, hchildren⟩ := hold c hc
    have hkey : d.key = c.key := congrArg Place.key hplace
    rw [hplaces, ← hkey, ← hchildren]
    exact h.counted d hd
  · intro c hc
    obtain ⟨d, hd, -, hchildren⟩ := hold c hc
    exact hchildren ▸ h.small d hd

/-- An edit leaves a comment where it is. -/
theorem editComment_threaded (h : Threaded s.comments) (tools : TextTools) (c : Comment)
    (parent : Option Comment) (o : CommentOperation) :
    Returns (s.editComment tools c parent o) fun t => Threaded t.comments := by
  have hedit : Threaded (s.comments.modify (fun d => d.id = c.id) fun d =>
      { d with lastUpdate := s.headBlockTime, active := s.headBlockTime }) := by
    refine h.congr rfl ?_
    rw [modify_id_eq h.placed]
    show (s.comments.rows.map _).map _ = _
    rw [List.map_map]
    refine List.map_congr_left fun d _ => ?_
    rw [Function.comp_apply]
    split <;> rfl
  unfold Database.editComment
  cases parent with
  | none => exact .bind_any fun _ => .bind_any fun _ => .bind_any fun _ => .pure hedit
  | some p => exact .bind_any fun _ => .bind_any fun _ => .bind_any fun _ => .pure hedit

theorem findParent_mem (s : Database) (o : CommentOperation) :
    Returns (s.findParent o) fun parent => ∀ p ∈ parent, p ∈ s.comments.rows ∧
      p.depth < maxCommentDepth ∧ p.key = (o.parentAuthor, cString o.parentPermlink) := by
  unfold Database.findParent
  refine .ite (fun _ => .bind_eq fun p hp => .ensure fun hdeep => .pure ?_) fun _ => .pure (by simp)
  obtain ⟨hmem, hkey⟩ := getComment_mem hp
  rintro q hq
  cases hq
  exact ⟨hmem, of_decide_eq_true hdeep, hkey⟩

/-- `comment_evaluator` keeps the tree. -/
theorem comment_threaded (h : Threaded s.comments) (tools : TextTools) (o : CommentOperation)
    (hauthor : o.author ≠ rootPostParent)
    (hroom : Comments.findComment s.comments o.author o.permlink = none →
      ∀ c ∈ s.comments.rows,
        Reaches (up (placesOf s.comments)) (o.parentAuthor, cString o.parentPermlink) c.key →
        c.children + 1 < uint32Range) :
    Returns (s.comment tools o) fun t => Threaded t.comments := by
  unfold Database.comment
  refine .ensure fun _ => .bind_any fun auth => .bind (findParent_mem s o) fun parent hp => ?_
  split
  next hnew =>
    refine createComment_threaded h auth o hauthor hnew
      (fun p hmem => ⟨(hp p hmem).1, (hp p hmem).2.1⟩) fun p hmem c hc hreach => ?_
    exact hroom hnew c hc ((hp p hmem).2.2 ▸ hreach)
  next c _ => exact editComment_threaded h tools c parent o

/-- `delete_comment_evaluator` keeps the tree. -/
theorem deleteComment_threaded (h : Threaded s.comments) (o : DeleteCommentOperation) :
    Returns (s.deleteComment o) fun t => Threaded t.comments := by
  unfold Database.deleteComment
  refine .bind_eq fun c hc => .ensure fun hchildren => .ensure fun _ => .ensure fun _ => ?_
  obtain ⟨hmem, -⟩ := getComment_mem hc
  have hnone : c.children = 0 := of_decide_eq_true hchildren
  have hplace : place c ∈ placesOf s.comments := List.mem_map_of_mem hmem
  by_cases hparent : c.parentAuthor = rootPostParent
  · -- a comment without a parent counts for none
    have hup : up (placesOf s.comments) c.key = none :=
      (up_of_mem h.placed.keys hplace).trans (parentKey_eq_none.mpr hparent)
    have hgone := h.remove (g := id) hmem hnone (fun _ => rfl)
      (fun d _ hbelow => absurd hbelow (not_below_of_none hup)) fun _ _ _ => rfl
    rw [List.map_id] at hgone
    simp only [hparent, ne_eq, not_true_eq_false, if_false]
    exact .pure hgone
  · obtain ⟨p, hp, hget, hup, -⟩ := getComment_parent h.placed hplace hparent
    have hwalk := updateAncestors_returns h.placed (place_unreplied s.headBlockTime) hp
    have hgone :=
      h.remove (g := passed (placesOf s.comments) (Comments.unreplied s.headBlockTime) p.key)
      hmem hnone (place_passed (place_unreplied _) p.key)
      (fun d hd hbelow => ?_) fun d _ hbelow => ?_
    · simp only [hparent, ne_eq, not_false_eq_true, if_true, hget]
      refine .bind (Q := fun comments => comments = changeAbove
        (Comments.unreplied s.headBlockTime) p.key s.comments) ?_ fun comments hcomments => .pure ?_
      · intro comments hcomments
        exact (Except.ok.inj (hwalk.symm.trans hcomments)).symm
      · rw [hcomments]
        exact hgone
    · have hpos := descendants_pos hplace hbelow
      rw [← h.counted d hd] at hpos
      have hsmall := h.small d hd
      rw [below_iff_of_some hup] at hbelow
      rw [passed_of_reaches hbelow]
      show (d.children + (uint32Range - 1)) % uint32Range + 1 = d.children
      unfold uint32Range at hsmall ⊢
      omega
    · rw [below_iff_of_some hup] at hbelow
      rw [passed_of_not hbelow]

end

/-! ## Runs -/

/-- What can happen to the comments. -/
inductive Event where
  | comment (o : CommentOperation)
  | deleteComment (o : DeleteCommentOperation)
  | retally
  | elsewhere (t : Database)

/-- What the rest of the program leaves alone. -/
def sameTree (s t : Database) : Bool :=
  t.comments.nextId = s.comments.nextId &&
  (t.comments.rows.map fun c => (place c, c.children)) =
    s.comments.rows.map fun c => (place c, c.children)

def perform (tools : TextTools) (s : Database) : Event → Except String Database
  | .comment o => do
      o.validate tools
      s.comment tools o
  | .deleteComment o => do
      o.validate
      s.deleteComment o
  | .retally => do
      let comments ← retallyCommentChildren s.comments
      return { s with comments := comments }
  | .elsewhere t => do
      ensure (sameTree s t) "the tree has been changed"
      return t

/-- The state after an event; one that throws changes nothing. -/
def step (tools : TextTools) (s : Database) (e : Event) : Database := attempt s (perform tools s e)

/-- A new comment is not put below one that has all the descendants it can
count. -/
def Room (s : Database) : Event → Prop
  | .comment o => Comments.findComment s.comments o.author o.permlink = none →
      ∀ c ∈ s.comments.rows,
        Reaches (up (placesOf s.comments)) (o.parentAuthor, cString o.parentPermlink) c.key →
        c.children + 1 < uint32Range
  | _ => True

/-- What the tree of comments is for. -/
structure CommentTree (comments : Comments) : Prop where
  parent : ∀ c ∈ comments.rows, c.parentAuthor ≠ rootPostParent →
    ∃ p ∈ comments.rows, Comments.getComment comments c.parentAuthor c.parentPermlink = .ok p ∧
      c.depth = p.depth + 1
  root : ∀ c ∈ comments.rows, ∃ r ∈ comments.rows, r.id = c.rootComment ∧ r.depth = 0 ∧
    r.parentAuthor = rootPostParent ∧ Reaches (up (placesOf comments)) c.key r.key
  children : ∀ c ∈ comments.rows, c.children = descendants (placesOf comments) c.key
  retally : retallyCommentChildren comments = .ok comments
  walk : ∀ f, (∀ c, place (f c) = place c) → ∀ c ∈ comments.rows,
    ∃ comments', ∀ fuel > c.depth, updateAncestors f fuel c comments = .ok comments'

variable {s : Database} {comments : Comments} {tools : TextTools}

theorem Threaded.commentTree (h : Threaded comments) : CommentTree comments where
  parent := by
    intro c hc hreply
    obtain ⟨p, hp, hget, -, hdepth, -⟩ := getComment_parent h.placed (List.mem_map_of_mem hc) hreply
    exact ⟨p, hp, hget, hdepth⟩
  root := by
    intro c hc
    obtain ⟨q, hq, hnone, hdepth, hid, hreach⟩ := h.placed.exists_top (List.mem_map_of_mem hc)
    obtain ⟨r, hr, rfl⟩ := List.mem_map.mp hq
    exact ⟨r, hr, hid, hdepth, parentKey_eq_none.mp hnone, hreach⟩
  children := h.counted
  retally := h.retally
  walk := fun f hf c hc => ⟨changeAbove f c.key comments, fun _ hfuel =>
    updateAncestors_eq h.placed hf hc hfuel⟩

theorem perform_threaded (h : Threaded s.comments) {e : Event} (hroom : Room s e) :
    Returns (perform tools s e) fun t => Threaded t.comments := by
  cases e with
  | comment o =>
      have hvalid : Returns (o.validate tools) fun _ => o.author ≠ rootPostParent := by
        unfold CommentOperation.validate
        refine .ensure fun _ => .ensure fun _ => ?_
        have hrest : Returns (do
            validateAccountName o.author
            validatePermlink o.parentPermlink
            validatePermlink o.permlink
            ensure (o.jsonMetadata = "" || tools.isValidJson o.jsonMetadata)
              "JSON Metadata not valid JSON") fun _ => o.author ≠ rootPostParent :=
          .bind_eq fun _ hname _ _ => ne_empty_of_isValidAccountName (ensure_eq_ok.mp hname)
        exact .ite (fun _ => .bind_any fun _ => hrest) fun _ => hrest
      exact .bind hvalid fun _ hauthor => comment_threaded h tools o hauthor hroom
  | deleteComment o => exact .bind_any fun _ => deleteComment_threaded h o
  | retally =>
      refine .bind_eq fun comments hcomments => .pure ?_
      rw [h.retally] at hcomments
      cases hcomments
      exact h
  | elsewhere t =>
      refine .ensure fun hsame => .pure ?_
      unfold sameTree at hsame
      rw [Bool.and_eq_true, decide_eq_true_eq, decide_eq_true_eq] at hsame
      exact h.congr hsame.1 hsame.2

theorem step_threaded (h : Threaded s.comments) {e : Event} (hroom : Room s e) :
    Threaded (step tools s e).comments := by
  have hreturns : Returns (perform tools s e) fun t => Threaded t.comments :=
    perform_threaded h hroom
  unfold step
  cases hresult : perform tools s e with
  | error m => exact h
  | ok t => exact hreturns t hresult

/-- In a run that leaves room for every new comment, the comments are trees at
every moment. -/
theorem comments_stay_trees (tools : TextTools) (s : Database) (events : List Event)
    (hstart : s.comments = .empty) (hroom : Along (step tools) Room s events) :
    CommentTree (events.foldl (step tools) s).comments := by
  have hthreaded : Threaded s.comments := hstart ▸ threaded_empty
  exact (hroom.keeps (I := fun s => Threaded s.comments) (fun _ _ h hroom => step_threaded h hroom)
    hthreaded).commentTree

/-! ## A crowd -/

/-- The number `i` in `n` letters. -/
def letters : Nat → Nat → List Char
  | 0, _ => []
  | n + 1, i => Char.ofNat (97 + i % 16) :: letters n (i / 16)

theorem isLetter_of_mem_letters {n i : Nat} : ∀ c ∈ letters n i, isLetter c = true := by
  have hdigit : ∀ d < 16, isLetter (Char.ofNat (97 + d)) = true := by decide
  induction n generalizing i with
  | zero => simp [letters]
  | succ n ih =>
      intro c hc
      rcases List.mem_cons.mp hc with rfl | hc
      · exact hdigit (i % 16) (Nat.mod_lt i (by decide))
      · exact ih c hc

theorem length_letters (n i : Nat) : (letters n i).length = n := by
  induction n generalizing i with
  | zero => rfl
  | succ n ih => rw [letters, List.length_cons, ih]

theorem letters_injective {n i j : Nat} (h : letters n i = letters n j) :
    i % 16 ^ n = j % 16 ^ n := by
  have hdigit : ∀ d < 16, ∀ e < 16, Char.ofNat (97 + d) = Char.ofNat (97 + e) → d = e := by decide
  induction n generalizing i j with
  | zero => rw [Nat.pow_zero, Nat.mod_one, Nat.mod_one]
  | succ n ih =>
      obtain ⟨hfirst, hrest⟩ := List.cons.inj h
      have hlow := hdigit _ (Nat.mod_lt i (by decide)) _ (Nat.mod_lt j (by decide)) hfirst
      rw [Nat.pow_succ', Nat.mod_mul, Nat.mod_mul, hlow, ih hrest]

def crowdName (i : Nat) : AccountName := String.ofList ('z' :: letters 8 i)

theorem isValidAccountName_crowdName (i : Nat) : isValidAccountName (crowdName i) = true := by
  have hletters : ∀ c ∈ 'z' :: letters 8 i, isLetter c = true := by
    intro c hc
    rcases List.mem_cons.mp hc with rfl | hc
    · decide
    · exact isLetter_of_mem_letters c hc
  have hdot : '.' ∉ 'z' :: letters 8 i := fun hmem => absurd (hletters '.' hmem) (by decide)
  have hpart : isValidPart ('z' :: letters 8 i) = true := by
    have hmem := fun c hc => hletters c (List.mem_cons_of_mem 'z' hc)
    unfold isValidPart
    simp only [length_letters, Bool.and_eq_true, List.all_eq_true, Option.any_eq_true]
    refine ⟨⟨⟨by decide, by decide⟩, fun c hc => ?_⟩, ?_⟩
    · simp [hmem c (List.mem_of_mem_dropLast hc)]
    · have hne : letters 8 i ≠ [] := by
        intro hnil
        have := length_letters 8 i
        rw [hnil] at this
        cases this
      exact ⟨_, List.getLast?_eq_some_getLast hne, by simp [hmem _ (List.getLast_mem hne)]⟩
  unfold isValidAccountName crowdName
  rw [String.toList_ofList, List.splitOn_eq_singleton hdot, List.length_cons, length_letters]
  simp [hpart, minAccountNameLength, maxAccountNameLength]

theorem crowdName_injective {i j : Nat} (hi : i < uint32Range) (hj : j < uint32Range)
    (h : crowdName i = crowdName j) : i = j := by
  have hlist : letters 8 i = letters 8 j := by
    have := congrArg String.toList h
    simpa [crowdName] using this
  have hmod := letters_injective hlist
  unfold uint32Range at hi hj
  omega

/-- `n` accounts besides that of genesis. -/
def crowd (n : Nat) : Database :=
  let s := Database.genesis 0
  { s with
    accounts := ⟨n + 4, s.accounts.rows ++ (List.range n).map fun i => Account.make (crowdName i)⟩ }

def rootOperation : CommentOperation := ⟨"", "game", initMinerName, "root", "", "first", ""⟩

def replyOperation (i : Nat) : CommentOperation :=
  ⟨initMinerName, "root", crowdName i, "re-root", "", "me too", ""⟩

/-- A discussion in which `k` accounts have replied. -/
def rootRow (k : Nat) : Comment :=
  { rootOperation.newComment none genesisTime 0 with children := k % uint32Range }

def replyRow (i : Nat) : Comment :=
  (replyOperation i).newComment (some (rootRow 0)) genesisTime (i + 1)

def star (k : Nat) : Comments := ⟨k + 1, rootRow k :: (List.range k).map replyRow⟩

/-- `k` of the `n` accounts have replied. -/
structure Stage (n k : Nat) (s : Database) : Prop where
  comments : s.comments = star k
  time : s.props.time = genesisTime
  hardfork : s.hardfork01 = false
  waiting : ∀ i, k ≤ i → i < n →
    (s.accounts.find? fun a => a.name = crowdName i) = some (Account.make (crowdName i))

theorem crowdName_ne_of_first {i : Nat} {name : String} (h : name.toList.head? ≠ some 'z') :
    name ≠ crowdName i := by
  rintro rfl
  exact h (by simp [crowdName])

theorem findComment_star {k : Nat} (hk : k < uint32Range) :
    Comments.findComment (star k) (crowdName k) "re-root" = none := by
  refine find?_key_eq_none.mpr fun hmem => ?_
  rcases List.mem_cons.mp hmem with heq | hmem
  · have hname : initMinerName ≠ crowdName k := crowdName_ne_of_first (by decide)
    exact hname (congrArg Prod.fst heq).symm
  · obtain ⟨c, hc, heq⟩ := List.mem_map.mp hmem
    obtain ⟨i, hi, rfl⟩ := List.mem_map.mp hc
    have hik := List.mem_range.mp hi
    have := crowdName_injective (by omega) hk (congrArg Prod.fst heq)
    omega

theorem find?_star {k : Nat} {test : Comment → Bool} (h : test (rootRow k) = true) :
    (star k).find? test = some (rootRow k) := List.find?_cons_of_pos h

theorem star_create (k : Nat) :
    (star k).create ((replyOperation k).newComment (some (rootRow k)) genesisTime) =
      ⟨k + 2, rootRow k :: (List.range (k + 1)).map replyRow⟩ := by
  rw [List.range_succ, List.map_append]
  rfl

/-- The walk of a reply is one step long. -/
theorem updateAncestors_star (k : Nat) :
    updateAncestors (Comments.replied genesisTime) Comments.fuel (rootRow k)
      ⟨k + 2, rootRow k :: (List.range (k + 1)).map replyRow⟩ = .ok (star (k + 1)) := by
  have hroot : Comments.replied genesisTime (rootRow k) = rootRow (k + 1) := by
    unfold Comments.replied rootRow
    rw [Nat.mod_add_mod]
    rfl
  unfold Comments.fuel
  rw [updateAncestors]
  show Except.ok _ = _
  unfold Table.modify modifyFirst
  rw [if_pos (by rfl), hroot]
  rfl

theorem replyOperation_validate (tools : TextTools) (k : Nat) :
    Completes ((replyOperation k).validate tools) fun _ => True := by
  have hparent : validateAccountName initMinerName = .ok () :=
    ensure_eq_ok.mpr (by decide +kernel)
  have hname : validateAccountName (crowdName k) = .ok () :=
    ensure_eq_ok.mpr (isValidAccountName_crowdName k)
  have hrest : Completes (do
      validateAccountName (crowdName k)
      validatePermlink "root"
      validatePermlink "re-root"
      ensure ("" = "" || tools.isValidJson "") "JSON Metadata not valid JSON") fun _ => True :=
    .bind (Q := fun _ => True) (.of_eq hname trivial) fun _ _ =>
      .ensure (by decide) (.ensure (by decide) (.of_eq rfl trivial))
  have htitle : "".utf8ByteSize < 256 := by decide
  have hbody : 0 < "me too".utf8ByteSize := by decide
  unfold CommentOperation.validate
  refine .ensure (decide_eq_true htitle)
    (.ensure (decide_eq_true hbody) (.ite (fun _ => ?_) fun _ => hrest))
  exact .bind (Q := fun _ => True) (.of_eq hparent trivial) fun _ _ => hrest

/-- The author is modified, and nothing else. -/
theorem modifyAccount_author {s : Database} {name : AccountName} {a : Account}
    {f : Account → Account}
    (hauth : s.getAccount name = .ok a) (hfits : (f a).fits = true)
    (hf : ∀ a, (f a).name = a.name) :
    Completes (s.modifyAccount name f) fun t => t.comments = s.comments ∧ t.props = s.props ∧
      t.hardfork01 = s.hardfork01 ∧ ∀ other, name ≠ other →
        (t.accounts.find? fun a => a.name = other) = s.accounts.find? fun a => a.name = other := by
  unfold Database.modifyAccount
  refine .bind (Q := (· = a)) (.of_eq hauth rfl) fun b hb => ?_
  subst hb
  refine .ensure hfits (.pure ⟨rfl, rfl, rfl, fun other hne => ?_⟩)
  refine find?_modifyFirst_of_not (fun b hb => ?_) s.accounts.rows
  have hname : b.name ≠ other := by
    rw [of_decide_eq_true hb]
    exact hne
  exact ⟨decide_eq_false hname, decide_eq_false (by rwa [hf b])⟩

theorem Stage.reply {n k : Nat} {s : Database} (tools : TextTools) (h : Stage n k s) (hk : k < n)
    (hn : n ≤ uint32Range) :
    Completes (perform tools s (.comment (replyOperation k))) (Stage n (k + 1)) := by
  have hauth : s.getAccount (crowdName k) = .ok (Account.make (crowdName k)) := by
    unfold Database.getAccount
    rw [h.waiting k le_rfl hk]
    rfl
  have hroot : Comments.getComment s.comments initMinerName "root" = .ok (rootRow k) := by
    have hkey : (rootRow k).key = (initMinerName, cString "root") := rfl
    have hfind : Comments.findComment (star k) initMinerName "root" = some (rootRow k) :=
      find?_star (decide_eq_true hkey)
    rw [h.comments, Comments.getComment, hfind]
    rfl
  have hparent : s.findParent (replyOperation k) = .ok (some (rootRow k)) := by
    unfold Database.findParent
    rw [show (replyOperation k).parentAuthor = initMinerName from rfl,
      show (replyOperation k).parentPermlink = "root" from rfl, hroot]
    rfl
  have hnew : Comments.findComment s.comments (crowdName k) "re-root" = none := by
    rw [h.comments]
    exact findComment_star (by omega)
  refine .bind (replyOperation_validate tools k) fun _ _ => ?_
  unfold Database.comment
  have hsize : 0 < "".utf8ByteSize + "me too".utf8ByteSize + "".utf8ByteSize := by decide
  refine .ensure (decide_eq_true hsize) (.bind (Q := (· = Account.make (crowdName k)))
    (.of_eq hauth rfl) fun auth hmake => ?_)
  subst hmake
  refine .bind (Q := (· = some (rootRow k))) (.of_eq hparent rfl) fun parent hsome => ?_
  subst hsome
  rw [show (replyOperation k).author = crowdName k from rfl,
    show (replyOperation k).permlink = "re-root" from rfl, hnew]
  show Completes
    (s.createComment (Account.make (crowdName k)) (some (rootRow k)) (replyOperation k))
    (Stage n (k + 1))
  unfold Database.createComment
  have hrequire : Database.require (s.comments.find? fun c => c.id = (rootRow k).rootComment) =
      .ok (rootRow k) := by
    have hid : (rootRow k).id = (rootRow k).rootComment := rfl
    rw [h.comments, find?_star (decide_eq_true hid)]
    rfl
  have hinterval : s.checkInterval (Account.make (crowdName k)) false = .ok () := by
    unfold Database.checkInterval Database.headBlockTime
    rw [h.time, h.hardfork]
    rfl
  refine .bind (Q := (· = rootRow k)) (.of_eq hrequire rfl) fun root hroot' => ?_
  subst hroot'
  refine .ensure rfl (.bind (Q := fun _ => True) (.of_eq hinterval trivial) fun _ _ => ?_)
  have hfits : (Account.make "").fits = true := by decide +kernel
  refine .bind (modifyAccount_author hauth hfits fun _ => rfl) ?_
  · rintro t ⟨hcomments, hprops, hhardfork, hothers⟩
    have hpermlinks :
      validatePermlink01 "root" = .ok () ∧ validatePermlink01 "re-root" = .ok () := by
      decide +kernel
    refine .bind (Q := fun _ => True) (.of_eq hpermlinks.1 trivial) fun _ _ => ?_
    refine .bind (Q := fun _ => True) (.of_eq hpermlinks.2 trivial) fun _ _ => ?_
    have hwalk : updateAncestors (Comments.replied s.headBlockTime) Comments.fuel (rootRow k)
        (t.comments.create ((replyOperation k).newComment (some (rootRow k)) s.headBlockTime)) =
        .ok (star (k + 1)) := by
      rw [hcomments, h.comments, show s.headBlockTime = genesisTime from h.time, star_create]
      exact updateAncestors_star k
    refine .bind (Q := (· = star (k + 1))) (.of_eq hwalk rfl) fun comments hstar => .pure ?_
    refine ⟨hstar, by rw [hprops]; exact h.time, hhardfork.trans h.hardfork, fun i hki hi => ?_⟩
    have hne : crowdName k ≠ crowdName i := by
      intro heq
      have := crowdName_injective (by omega) (by omega) heq
      omega
    exact (hothers _ hne).trans (h.waiting i (by omega) hi)

theorem crowd_waiting {n i : Nat} (hn : n ≤ uint32Range) (hi : i < n) :
    ((crowd n).accounts.find? fun a => a.name = crowdName i) =
      some (Account.make (crowdName i)) := by
  have hnames :
    (((List.range n).map fun i => Account.make (crowdName i)).map Account.name).Nodup := by
    rw [List.map_map]
    refine List.Nodup.map_on (fun j hj k hk heq => ?_) List.nodup_range
    rw [List.mem_range] at hj hk
    exact crowdName_injective (by omega) (by omega) heq
  have hgenesis :
    (Database.genesis 0).accounts.rows.find? (fun a => a.name = crowdName i) = none := by
    refine find?_key_eq_none.mpr fun hmem => ?_
    have hfirst : ∀ name ∈ (Database.genesis 0).accounts.rows.map Account.name,
        name.toList.head? ≠ some 'z' := by decide +kernel
    exact crowdName_ne_of_first (hfirst _ hmem) rfl
  show List.find? _ (_ ++ _) = _
  rw [List.find?_append, hgenesis, Option.none_or]
  exact find?_eq_some_of_nodup hnames (List.mem_map_of_mem (List.mem_range.mpr hi))

theorem rootOperation_validate (tools : TextTools) :
    Completes (rootOperation.validate tools) fun _ => True := by
  have hname : validateAccountName initMinerName = .ok () := ensure_eq_ok.mpr (by decide +kernel)
  have hrest : Completes (do
      validateAccountName initMinerName
      validatePermlink "game"
      validatePermlink "root"
      ensure ("" = "" || tools.isValidJson "") "JSON Metadata not valid JSON") fun _ => True :=
    .bind (Q := fun _ => True) (.of_eq hname trivial) fun _ _ =>
      .ensure (by decide) (.ensure (by decide) (.of_eq rfl trivial))
  unfold CommentOperation.validate
  exact .ensure (by decide) (.ensure (by decide) (.ite (fun hne => absurd rfl hne) fun _ => hrest))

/-- The discussion is started. -/
theorem stage_zero {n : Nat} (tools : TextTools) (hn : n ≤ uint32Range) :
    Completes (perform tools (crowd n) (.comment rootOperation)) (Stage n 0) := by
  have hauth :
    (crowd n).getAccount initMinerName = .ok (Database.genesisAccount initMinerName 0) := by
    have hfind : (Database.genesis 0).accounts.rows.find? (fun a => a.name = initMinerName) =
        some (Database.genesisAccount initMinerName 0) := by decide +kernel
    have hfind' : ((crowd n).accounts.find? fun a => a.name = initMinerName) =
        some (Database.genesisAccount initMinerName 0) := by
      show List.find? _ (_ ++ _) = _
      rw [List.find?_append, hfind, Option.some_or]
    unfold Database.getAccount
    rw [hfind']
    rfl
  refine .bind (rootOperation_validate tools) fun _ _ => ?_
  unfold Database.comment
  refine .ensure (by decide) (.bind (Q := (· = Database.genesisAccount initMinerName 0))
    (.of_eq hauth rfl) fun auth hmake => ?_)
  subst hmake
  refine .bind (Q := (· = none)) (.of_eq rfl rfl) fun parent hnone => ?_
  subst hnone
  show Completes
    ((crowd n).createComment (Database.genesisAccount initMinerName 0) none rootOperation)
    (Stage n 0)
  unfold Database.createComment
  refine .bind (Q := fun _ => True) (.of_eq rfl trivial) fun _ _ => ?_
  have hfits : (Database.genesisAccount initMinerName 0).fits = true := by decide +kernel
  refine .bind (modifyAccount_author hauth hfits fun _ => rfl) ?_
  · rintro t ⟨hcomments, hprops, hhardfork, hothers⟩
    have hpermlinks : validatePermlink01 "game" = .ok () ∧ validatePermlink01 "root" = .ok () := by
      decide +kernel
    refine .bind (Q := fun _ => True) (.of_eq hpermlinks.1 trivial) fun _ _ => ?_
    refine .bind (Q := fun _ => True) (.of_eq hpermlinks.2 trivial) fun _ _ => .pure ?_
    refine ⟨?_, by rw [hprops]; rfl, hhardfork, fun i _ hi => ?_⟩
    · show t.comments.create _ = _
      rw [hcomments]
      rfl
    · have hne : initMinerName ≠ crowdName i := crowdName_ne_of_first (by decide)
      exact (hothers _ hne).trans (crowd_waiting hn hi)

/-- A post and `k` replies to it. -/
def flood (k : Nat) : List Event :=
  .comment rootOperation :: (List.range k).map fun i => .comment (replyOperation i)

theorem flood_stage {n k : Nat} (tools : TextTools) (hk : k ≤ n) (hn : n ≤ uint32Range) :
    Stage n k ((flood k).foldl (step tools) (crowd n)) := by
  have hstep : ∀ {s : Database} {e : Event} {P : Database → Prop},
      Completes (perform tools s e) P → P (step tools s e) := by
    rintro s e P ⟨t, ht, hP⟩
    unfold step
    rw [ht]
    exact hP
  induction k with
  | zero => exact hstep (stage_zero tools hn)
  | succ k ih =>
      have hlast : flood (k + 1) = flood k ++ [.comment (replyOperation k)] := by
        unfold flood
        rw [List.range_succ, List.map_append]
        rfl
      rw [hlast, List.foldl_append]
      exact hstep ((ih (by omega)).reply tools (by omega) hn)

/-- A post and a reply. -/
theorem comments_stay_trees_reply :
    ((flood 1).foldl (step ⟨fun _ => true, fun _ body => body⟩) (crowd 1)).comments = star 1 ∧
      CommentTree
        ((flood 1).foldl (step ⟨fun _ => true, fun _ body => body⟩) (crowd 1)).comments := by
  have hstage := flood_stage ⟨fun _ => true, fun _ body => body⟩ (Nat.zero_le 1)
    (show 1 ≤ uint32Range by decide)
  refine ⟨(flood_stage _ le_rfl (by decide)).comments,
    comments_stay_trees _ _ _ rfl ⟨?_, ?_, trivial⟩⟩
  · intro _ c hc
    cases hc
  · intro _ c hc _
    have hc' : c ∈ (star 0).rows := hstage.comments ▸ hc
    rw [List.mem_singleton.mp hc']
    decide

/-- A counter at zero above a reply. -/
theorem not_commentTree_star {k : Nat} (hk : (k + 1) % uint32Range = 0) :
    ¬CommentTree (star (k + 1)) := by
  intro htree
  have hchildren : (rootRow (k + 1)).children = 0 := hk
  rw [htree.children (rootRow (k + 1)) List.mem_cons_self] at hchildren
  have hplaces : placesOf (star (k + 1)) = place (rootRow (k + 1)) :: place (replyRow 0) ::
      ((List.range k).map fun i => place (replyRow (i + 1))) := by
    show (rootRow (k + 1) :: (List.range (k + 1)).map replyRow).map place = _
    rw [List.range_succ_eq_map]
    simp only [List.map_cons, List.map_map]
    rfl
  have hne : (rootRow (k + 1)).key ≠ (replyRow 0).key := by
    intro heq
    have hname : initMinerName ≠ crowdName 0 := crowdName_ne_of_first (by decide)
    exact hname (congrArg Prod.fst heq)
  have hup :
    up (placesOf (star (k + 1))) (place (replyRow 0)).key = some (rootRow (k + 1)).key := by
    unfold up
    rw [hplaces, List.find?_cons_of_neg (by rwa [decide_eq_true_eq]),
      List.find?_cons_of_pos (by simp)]
    rfl
  have hmem : place (replyRow 0) ∈ placesOf (star (k + 1)) := by
    rw [hplaces]
    exact List.mem_cons_of_mem _ List.mem_cons_self
  have hpos := descendants_pos hmem ((below_iff_of_some hup).mpr (Reaches.refl _ _))
  omega

/-- With 2 ^ 32 replies the counter of a comment is back at zero. -/
theorem crowd_overflows_children :
    (crowd 4294967296).comments = .empty ∧
      ¬CommentTree ((flood 4294967296).foldl (step ⟨fun _ => true, fun _ body => body⟩)
        (crowd 4294967296)).comments := by
  refine ⟨rfl, ?_⟩
  have hstage := flood_stage ⟨fun _ => true, fun _ body => body⟩ (le_refl 4294967296)
    (le_refl uint32Range)
  rw [hstage.comments]
  exact not_commentTree_star (k := 4294967295) (by decide)

end Gamebank.Discussion
