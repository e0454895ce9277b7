import Gamebank.Discussion.Places

/-!
# The way up and the counters

`updateAncestors` changes the comments a chain passes through, and returns
(`updateAncestors_eq`). Both evaluators and the retally are this one walk
with their own change, and what they do to the counters follows.
-/

namespace Gamebank.Discussion

open Gamebank.Lib Gamebank.Protocol Gamebank.Ledger
open Comments (updateAncestors retallyComment retallyCommentChildren countUp)

/-- The places of the comments. -/
abbrev placesOf (comments : Comments) : List Place := comments.rows.map place

variable {comments : Comments} {c d : Comment} {f : Comment → Comment} {places : List Place}

theorem keys_eq (comments : Comments) :
    (placesOf comments).map Place.key = comments.rows.map Comment.key := by
  rw [List.map_map]
  rfl

theorem ids_eq (comments : Comments) :
    (placesOf comments).map Place.id = comments.rows.map Comment.id := by
  rw [List.map_map]
  rfl

theorem placesOf_map (comments : Comments) (hf : ∀ c, place (f c) = place c) (n : Nat) :
    placesOf ⟨n, comments.rows.map f⟩ = placesOf comments := by
  show (comments.rows.map f).map place = comments.rows.map place
  rw [List.map_map]
  exact List.map_congr_left fun c _ => hf c

theorem parentKey_eq_none : c.parentKey = none ↔ c.parentAuthor = rootPostParent := by
  unfold Comment.parentKey
  split <;> simp [*]

theorem parentKey_of_ne (h : c.parentAuthor ≠ rootPostParent) :
    c.parentKey = some (c.parentAuthor, cString c.parentPermlink) := if_neg h

theorem place_countUp (c : Comment) : place (countUp c) = place c := rfl

theorem place_replied (now : Nat) (c : Comment) : place (Comments.replied now c) = place c := rfl

theorem place_unreplied (now : Nat) (c : Comment) : place (Comments.unreplied now c) = place c :=
    rfl

/-- The parent of a reply is there. -/
theorem getComment_parent (h : Placed (placesOf comments)) (hc : place c ∈ placesOf comments)
    (hreply : c.parentAuthor ≠ rootPostParent) :
    ∃ p ∈ comments.rows, Comments.getComment comments c.parentAuthor c.parentPermlink = .ok p ∧
      up (placesOf comments) c.key = some p.key ∧ c.depth = p.depth + 1 ∧
      c.rootComment = p.rootComment := by
  have hparent : (place c).parent = some (c.parentAuthor, cString c.parentPermlink) :=
    parentKey_of_ne hreply
  obtain ⟨q, hq, hkey, hdepth, hroot⟩ := h.reply (place c) hc _ hparent
  obtain ⟨p, hp, rfl⟩ := List.mem_map.mp hq
  have hkeys : (comments.rows.map Comment.key).Nodup := keys_eq comments ▸ h.keys
  have hfind : Comments.findComment comments c.parentAuthor c.parentPermlink = some p :=
    (find?_key_eq_some hkeys).mpr ⟨hp, hkey⟩
  refine ⟨p, hp, by rw [Comments.getComment, hfind]; rfl, ?_, hdepth, hroot⟩
  calc up (placesOf comments) c.key = (place c).parent := up_of_mem h.keys hc
    _ = some p.key := by rw [hparent, ← hkey]; rfl

theorem id_eq_iff_key_eq (h : Placed (placesOf comments)) (hc : c ∈ comments.rows)
    (hd : d ∈ comments.rows) : d.id = c.id ↔ d.key = c.key := by
  constructor
  · intro hid
    have hids : (comments.rows.map Comment.id).Nodup := ids_eq comments ▸ h.ids
    exact congrArg Comment.key (List.inj_on_of_nodup_map hids hd hc hid)
  · intro hkey
    have hsame := h.eq_of_key (List.mem_map_of_mem hd) (List.mem_map_of_mem hc) hkey
    exact congrArg Place.id hsame

/-! ## The walk -/

open scoped Classical in
/-- A comment after a walk up from `k`: `f` changes what the chain comes to. -/
noncomputable def passed (places : List Place) (f : Comment → Comment) (k : Comment.Key)
    (c : Comment) : Comment :=
  if Reaches (up places) k c.key then f c else c

theorem passed_of_reaches {k : Comment.Key} (h : Reaches (up places) k c.key) :
    passed places f k c = f c := if_pos h

theorem passed_of_not {k : Comment.Key} (h : ¬Reaches (up places) k c.key) :
    passed places f k c = c := if_neg h

theorem place_passed (hf : ∀ c, place (f c) = place c) (k : Comment.Key) (c : Comment) :
    place (passed places f k c) = place c := by
  unfold passed
  split
  · exact hf c
  · rfl

/-- The comments after a walk up from `k`. -/
noncomputable def changeAbove (f : Comment → Comment) (k : Comment.Key) (comments : Comments) :
    Comments :=
  ⟨comments.nextId, comments.rows.map (passed (placesOf comments) f k)⟩

theorem placesOf_changeAbove (hf : ∀ c, place (f c) = place c) (k : Comment.Key) :
    placesOf (changeAbove f k comments) = placesOf comments :=
  placesOf_map comments (place_passed hf k) comments.nextId

/-- One turn of the walk changes one comment. -/
theorem modify_id_eq (h : Placed (placesOf comments)) (f : Comment → Comment) (n : Nat) :
    Table.modify comments (fun c => c.id = n) f =
      ⟨comments.nextId, comments.rows.map fun c => if c.id = n then f c else c⟩ := by
  have hids : (comments.rows.map Comment.id).Nodup := ids_eq comments ▸ h.ids
  rw [Table.modify, modifyFirst_eq_map hids]

/-- At the top the chain ends. -/
theorem changeAbove_top (h : Placed (placesOf comments)) (hc : c ∈ comments.rows)
    (htop : c.parentAuthor = rootPostParent) :
    changeAbove f c.key comments =
      ⟨comments.nextId, comments.rows.map fun d => if d.id = c.id then f d else d⟩ := by
  classical
  have hnone : up (placesOf comments) c.key = none :=
    (up_of_mem h.keys (List.mem_map_of_mem hc)).trans (parentKey_eq_none.mpr htop)
  refine congrArg (Table.mk comments.nextId) (List.map_congr_left fun d hd => ?_)
  have hiff : Reaches (up (placesOf comments)) c.key d.key ↔ d.id = c.id := by
    rw [id_eq_iff_key_eq h hc hd, reaches_iff_eq_or_below, or_iff_left (not_below_of_none hnone),
      eq_comm]
  exact if_congr hiff rfl rfl

/-- Below the top the chain goes on with the parent. -/
theorem changeAbove_reply (h : Placed (placesOf comments)) (hf : ∀ c, place (f c) = place c)
    (hc : c ∈ comments.rows) {k : Comment.Key} (hup : up (placesOf comments) c.key = some k) :
    changeAbove f c.key comments =
      changeAbove f k
        ⟨comments.nextId, comments.rows.map fun d => if d.id = c.id then f d else d⟩ := by
  classical
  have hfirst : ∀ d, place (if d.id = c.id then f d else d) = place d := by
    intro d
    split
    · exact hf d
    · rfl
  refine congrArg (Table.mk comments.nextId) ?_
  rw [placesOf_map comments hfirst, List.map_map]
  refine List.map_congr_left fun d hd => ?_
  have hbelow : Below (up (placesOf comments)) c.key d.key ↔
      Reaches (up (placesOf comments)) k d.key := below_iff_of_some hup
  rw [Function.comp_apply]
  by_cases hd' : d.id = c.id
  · -- the comment itself is not above itself
    have hdc := (id_eq_iff_key_eq h hc hd).mp hd'
    have hnot : ¬Reaches (up (placesOf comments)) k d.key := by
      rw [← hbelow, hdc]
      exact h.not_below_self (List.mem_map_of_mem hc)
    have hself : Reaches (up (placesOf comments)) c.key d.key := hdc ▸ Reaches.refl _ _
    have hkey : (f d).key = d.key := congrArg Place.key (hf d)
    rw [if_pos hd', passed_of_reaches hself, passed_of_not (by rwa [hkey])]
  · have hiff : Reaches (up (placesOf comments)) c.key d.key ↔
        Reaches (up (placesOf comments)) k d.key := by
      rw [reaches_iff_eq_or_below, ← hbelow, or_iff_right]
      exact fun hdc => hd' ((id_eq_iff_key_eq h hc hd).mpr hdc.symm)
    simp only [if_neg hd', passed, hiff]

/-- **The walk up.** It returns after as many turns as the comment is deep,
and one more. -/
theorem updateAncestors_eq (h : Placed (placesOf comments)) (hf : ∀ c, place (f c) = place c)
    {fuel : Nat} (hc : c ∈ comments.rows) (hfuel : c.depth < fuel) :
    updateAncestors f fuel c comments = .ok (changeAbove f c.key comments) := by
  induction fuel generalizing c comments with
  | zero => omega
  | succ fuel ih =>
      rw [updateAncestors, modify_id_eq h f c.id]
      by_cases hparent : c.parentAuthor = rootPostParent
      · rw [changeAbove_top h hc hparent]
        simp only [hparent, ne_eq, not_true_eq_false, if_false]
        rfl
      · have hfirst : ∀ d, place (if d.id = c.id then f d else d) = place d := by
          intro d
          split
          · exact hf d
          · rfl
        have hplaces := placesOf_map comments hfirst comments.nextId
        obtain ⟨p, hp, hget, hup, hdepth, -⟩ := getComment_parent (hplaces ▸ h)
          (hplaces ▸ List.mem_map_of_mem hc) hparent
        rw [hplaces] at hup
        simp only [hparent, ne_eq, not_false_eq_true, if_true]
        rw [hget, changeAbove_reply h hf hc hup]
        exact ih (hplaces ▸ h) hp (by omega)

/-- The fuel of the evaluators is enough. -/
theorem updateAncestors_returns (h : Placed (placesOf comments))
    (hf : ∀ c, place (f c) = place c) (hc : c ∈ comments.rows) :
    updateAncestors f Comments.fuel c comments = .ok (changeAbove f c.key comments) :=
  updateAncestors_eq h hf hc (Nat.lt_succ_of_le (h.deep (place c) (List.mem_map_of_mem hc)))

/-! ## The retally -/

def setChildren (n : Nat) (c : Comment) : Comment := { c with children := n }

@[simp] theorem place_setChildren (n : Nat) (c : Comment) : place (setChildren n c) = place c := rfl

open scoped Classical in
/-- How many of `seen` are below a comment. -/
noncomputable def countBelow (comments : Comments) (seen : List Place) (k : Comment.Key) : Nat :=
  seen.countP fun q => Below (up (placesOf comments)) q.key k

/-- The comments when the places of `seen` have been counted. -/
noncomputable def tallied (comments : Comments) (seen : List Place) : Comments :=
  ⟨comments.nextId, comments.rows.map fun c =>
    setChildren (countBelow comments seen c.key % uint32Range) c⟩

theorem placesOf_tallied (comments : Comments) (seen : List Place) :
    placesOf (tallied comments seen) = placesOf comments :=
  placesOf_map comments (fun c => place_setChildren _ c) comments.nextId

/-- One place more is counted above it. -/
theorem tallied_reply (seen : List Place) {q : Place} {k : Comment.Key}
    (hup : up (placesOf comments) q.key = some k) :
    changeAbove countUp k (tallied comments seen) = tallied comments (seen ++ [q]) := by
  classical
  refine congrArg (Table.mk comments.nextId) ?_
  rw [placesOf_tallied]
  show (comments.rows.map _).map _ = comments.rows.map _
  rw [List.map_map]
  refine List.map_congr_left fun c _ => ?_
  have hbelow : Below (up (placesOf comments)) q.key c.key ↔
      Reaches (up (placesOf comments)) k c.key := below_iff_of_some hup
  have hcount : countBelow comments (seen ++ [q]) c.key =
      countBelow comments seen c.key +
        if Reaches (up (placesOf comments)) k c.key then 1 else 0 := by
    unfold countBelow
    rw [List.countP_append, List.countP_singleton]
    simp only [decide_eq_true_eq, hbelow]
  rw [hcount]
  by_cases hreach : Reaches (up (placesOf comments)) k c.key
  · refine (if_pos hreach).trans ?_
    rw [if_pos hreach, ← Nat.mod_add_mod]
    rfl
  · refine (if_neg hreach).trans ?_
    rw [if_neg hreach, Nat.add_zero]

theorem tallied_top (seen : List Place) {q : Place} (hup : up (placesOf comments) q.key = none) :
    tallied comments seen = tallied comments (seen ++ [q]) := by
  classical
  refine congrArg (Table.mk comments.nextId) (List.map_congr_left fun c _ => ?_)
  have hcount : countBelow comments (seen ++ [q]) c.key = countBelow comments seen c.key := by
    unfold countBelow
    rw [List.countP_append, List.countP_singleton, if_neg, Nat.add_zero]
    simpa using not_below_of_none hup
  rw [hcount]

theorem retallyComment_eq (h : Placed (placesOf comments)) (seen : List Place)
    (hc : place c ∈ placesOf comments) :
    retallyComment (tallied comments seen) c = .ok (tallied comments (seen ++ [place c])) := by
  have hplaces := placesOf_tallied comments seen
  unfold retallyComment
  by_cases hparent : c.parentAuthor = rootPostParent
  · have hnone : up (placesOf comments) (place c).key = none :=
      (up_of_mem h.keys hc).trans (parentKey_eq_none.mpr hparent)
    rw [if_neg (not_not.mpr hparent), ← tallied_top seen hnone]
    rfl
  · obtain ⟨p, hp, hget, hup, -⟩ := getComment_parent (hplaces ▸ h) (hplaces ▸ hc) hparent
    rw [hplaces] at hup
    rw [if_pos hparent, hget, ← tallied_reply (q := place c) seen hup]
    exact updateAncestors_returns (hplaces ▸ h) place_countUp hp

/-- **The retally** counts the descendants of every comment. -/
theorem retallyCommentChildren_eq (h : Placed (placesOf comments)) :
    retallyCommentChildren comments = .ok (tallied comments (placesOf comments)) := by
  -- the loop over `rest`, when the places of `seen` have been counted
  have hloop : ∀ (rest : List Comment) (seen : List Place),
      (∀ c ∈ rest, place c ∈ placesOf comments) →
      rest.foldlM retallyComment (tallied comments seen) =
        .ok (tallied comments (seen ++ rest.map place)) := by
    intro rest
    induction rest with
    | nil =>
        intro seen _
        rw [List.map_nil, List.append_nil]
        rfl
    | cons c rest ih =>
        intro seen hmem
        rw [List.foldlM_cons, List.map_cons, List.append_cons,
          retallyComment_eq h seen (hmem c List.mem_cons_self)]
        exact ih (seen ++ [place c]) fun d hd => hmem d (List.mem_cons_of_mem c hd)
  have hstart : (⟨comments.nextId, comments.rows.map (setChildren 0)⟩ : Comments) =
      tallied comments [] := by
    simp [tallied, countBelow]
  have hplaces : (comments.rows.map (setChildren 0)).map place = placesOf comments :=
    placesOf_map comments (fun c => place_setChildren 0 c) comments.nextId
  have hrun := hloop (comments.rows.map (setChildren 0)) [] fun c hc =>
    hplaces ▸ List.mem_map_of_mem hc
  rw [List.nil_append, hplaces, ← hstart] at hrun
  exact hrun

end Gamebank.Discussion
