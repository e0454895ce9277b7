import Gamebank.Chain.ForkTree
import Mathlib.Logic.Relation
import Mathlib.Data.List.Chain

/-!
# The branches of two blocks

A fork database that is a tree (`Tree`) names each block once in its index,
and a link leads to the block before. Two blocks whose chains of parents meet
have a lowest height at which they are still apart: `fetch_branch_from` walks
both down to one height and then together until they share the block before,
so it ends there, and the two branches have nothing in common unless one
block is above the other (`fetchBranchFrom_branches`).
-/

namespace Gamebank.Chain

universe u v

variable {Name : Type u} {Tx : Type v}

namespace ForkDatabase

/-- `i` is linked to `j`, both in the index. -/
structure Parent (f : ForkDatabase Name Tx) (i j : ForkItem Name Tx) : Prop where
  child : i ∈ f.index
  parent : j ∈ f.index
  link : i.prev = some j.addr

/-- `j` is `i` or in the chain of its parents. -/
def Descends (f : ForkDatabase Name Tx) : ForkItem Name Tx → ForkItem Name Tx → Prop :=
  Relation.ReflTransGen f.Parent

/-- An id names one item of the index, and a link leads to the block before. -/
structure Tree (f : ForkDatabase Name Tx) : Prop where
  sound : f.Sound
  named : ∀ i ∈ f.index, ∀ j ∈ f.index, i.id = j.id → i = j
  links : ∀ i j, f.Parent i j → j.id = i.previousId

variable {f : ForkDatabase Name Tx} {a b c i j : ForkItem Name Tx}

/-! ## Parents -/

theorem mem_alive_of_index (h : i ∈ f.index) : i ∈ f.alive := mem_alive.mpr (Or.inl h)

theorem Sound.num_parent (h : f.Sound) (hp : f.Parent i j) : j.num + 1 = i.num :=
  h.linked i (mem_alive_of_index hp.child) j (mem_alive_of_index hp.parent) hp.link

/-- The link of an item with a parent locks. -/
theorem Sound.lock_parent (h : f.Sound) (hp : f.Parent i j) : f.lock [] i.prev = some j := by
  have hj : j ∈ f.alive := mem_alive_of_index hp.parent
  have hlock : (f.lock [] i.prev).isSome := by
    rw [hp.link]
    simp only [lock, List.append_nil, List.find?_isSome, decide_eq_true_eq]
    exact ⟨j, hj, rfl⟩
  obtain ⟨k, hk⟩ := Option.isSome_iff_exists.mp hlock
  obtain ⟨hmem, hprev⟩ := mem_of_lock hk
  have hk' : k ∈ f.alive := by simpa using hmem
  have haddr : k.addr = j.addr := by
    rw [hp.link, Option.some.injEq] at hprev
    exact hprev.symm
  rw [hk, h.same k hk' j hj haddr]

theorem Sound.num_le_of_descends (h : f.Sound) (hd : f.Descends a c) : c.num ≤ a.num := by
  induction hd with
  | refl => exact Nat.le_refl _
  | tail _ hp ih =>
      have := h.num_parent hp
      omega

/-- One block of each height is below a block. -/
theorem Sound.eq_of_descends (h : f.Sound) (hd : f.Descends a c) (hnum : c.num = a.num) :
    a = c := by
  rcases Relation.ReflTransGen.cases_head hd with heq | ⟨j, hp, hrest⟩
  · exact heq
  · have h1 := h.num_parent hp
    have h2 := h.num_le_of_descends hrest
    omega

/-- Above the block where the chains meet there is a parent. -/
theorem Descends.exists_parent (hd : f.Descends a c) (hlt : c.num < a.num) :
    ∃ j, f.Parent a j ∧ f.Descends j c := by
  rcases Relation.ReflTransGen.cases_head hd with rfl | hstep
  · exact absurd hlt (Nat.lt_irrefl _)
  · exact hstep

theorem Descends.mem_index (hd : f.Descends a c) (ha : a ∈ f.index) : c ∈ f.index := by
  rcases Relation.ReflTransGen.cases_tail hd with rfl | ⟨j, -, hp⟩
  · exact ha
  · exact hp.parent

/-- The blocks of a chain of parents are not above its first one. -/
theorem Sound.num_le_of_chain (h : f.Sound) {l : Branch Name Tx} (hl : l.IsChain f.Parent)
    (hhead : l.head? = some a) : ∀ i ∈ l, i.num ≤ a.num := by
  induction l generalizing a with
  | nil => simp
  | cons x rest ih =>
      rw [List.head?_cons, Option.some.injEq] at hhead
      subst hhead
      intro i hi
      rcases List.mem_cons.mp hi with rfl | hi
      · exact Nat.le_refl _
      · cases rest with
        | nil => simp at hi
        | cons y rest =>
            rw [List.isChain_cons_cons] at hl
            have h1 := h.num_parent hl.1
            have h2 := ih hl.2 rfl i hi
            omega

/-! ## The three loops -/

/-- The climb from `a` down to the height `num`, when that is not below the
block `c` under it. -/
structure Climbs (f : ForkDatabase Name Tx) (num : Nat) (a : ForkItem Name Tx)
    (branch : Branch Name Tx) (below : ForkItem Name Tx) : Prop where
  head : (branch ++ [below]).head? = some a
  chain : (branch ++ [below]).IsChain f.Parent
  above : ∀ i ∈ branch, num < i.num
  descends : f.Descends a below
  height : below.num = min a.num num

theorem climb_of_descends (h : f.Sound) (num fuel : Nat) (hd : f.Descends a c)
    (hnum : c.num ≤ num) (hfuel : a.num < num + fuel) (hpos : 0 < fuel) :
    ∃ branch below, f.climb num fuel a = some (branch, below) ∧
      f.Climbs num a branch below ∧ f.Descends below c := by
  induction fuel generalizing a with
  | zero => exact absurd hpos (Nat.lt_irrefl 0)
  | succ fuel ih =>
      unfold climb
      by_cases hlt : num < a.num
      · obtain ⟨j, hp, hj⟩ := hd.exists_parent (by omega)
        have hjnum := h.num_parent hp
        obtain ⟨branch, below, heq, hclimbs, hbelow⟩ := ih hj (by omega) (by omega)
        refine ⟨a :: branch, below, ?_, ?_, hbelow⟩
        · simp only [if_pos hlt, h.lock_parent hp, heq, Option.map_some]
        · have hchain : (a :: (branch ++ [below])).IsChain f.Parent := by
            refine hclimbs.chain.cons fun y hy => ?_
            rw [hclimbs.head, Option.mem_some_iff] at hy
            exact hy ▸ hp
          have habove := hclimbs.above
          have hheight := hclimbs.height
          exact ⟨rfl, hchain, List.forall_mem_cons.mpr ⟨hlt, habove⟩,
            Relation.ReflTransGen.head hp hclimbs.descends, by omega⟩
      · refine ⟨[], a, if_neg hlt, ?_, hd⟩
        exact ⟨rfl, List.isChain_singleton a, by simp, Relation.ReflTransGen.refl, by omega⟩

/-- Two branches from `a` and `b` of one height, down to where the block before
is the same. -/
structure Meets (f : ForkDatabase Name Tx) (a b : ForkItem Name Tx)
    (down down' : Branch Name Tx) : Prop where
  head : down.head? = some a
  head' : down'.head? = some b
  chain : down.IsChain f.Parent
  chain' : down'.IsChain f.Parent
  fork : ∃ last last', down.getLast? = some last ∧ down'.getLast? = some last' ∧
    last.previousId = last'.previousId
  apart : a ≠ b → ∀ i ∈ down, ∀ j ∈ down', i.id ≠ j.id

theorem meet_of_descends (h : f.Tree) (fuel : Nat) (ha : a ∈ f.index) (hb : b ∈ f.index)
    (hda : f.Descends a c) (hdb : f.Descends b c) (hnum : a.num = b.num)
    (hfuel : a.num < c.num + fuel) :
    ∃ down down', f.meet fuel a b = some (down, down') ∧ f.Meets a b down down' := by
  induction fuel generalizing a b with
  | zero =>
      have := h.sound.num_le_of_descends hda
      omega
  | succ fuel ih =>
      unfold meet
      by_cases hprev : a.previousId = b.previousId
      · refine ⟨[a], [b], if_pos hprev, rfl, rfl, List.isChain_singleton a,
          List.isChain_singleton b,
          ⟨a, b, rfl, rfl, hprev⟩, fun hne i hi j hj => ?_⟩
        rw [List.mem_singleton] at hi hj
        subst hi hj
        exact fun hid => hne (h.named i ha j hb hid)
      · -- Were one of them the common block, both would be.
        have hlt : c.num < a.num := by
          have hle := h.sound.num_le_of_descends hda
          by_contra hge
          have hac := h.sound.eq_of_descends hda (by omega)
          have hbc := h.sound.eq_of_descends hdb (by omega)
          exact hprev (by rw [hac, hbc])
        obtain ⟨a', hpa, hda'⟩ := hda.exists_parent hlt
        obtain ⟨b', hpb, hdb'⟩ := hdb.exists_parent (hnum ▸ hlt)
        have hna := h.sound.num_parent hpa
        have hnb := h.sound.num_parent hpb
        obtain ⟨down, down', heq, hmeets⟩ :=
          ih hpa.parent hpb.parent hda' hdb' (by omega) (by omega)
        have hchain : (a :: down).IsChain f.Parent := by
          refine hmeets.chain.cons fun y hy => ?_
          rw [hmeets.head, Option.mem_some_iff] at hy
          exact hy ▸ hpa
        have hchain' : (b :: down').IsChain f.Parent := by
          refine hmeets.chain'.cons fun y hy => ?_
          rw [hmeets.head', Option.mem_some_iff] at hy
          exact hy ▸ hpb
        obtain ⟨last, last', hlast, hlast', hfork⟩ := hmeets.fork
        refine ⟨a :: down, b :: down', ?_, rfl, rfl, hchain, hchain', ⟨last, last', ?_, ?_, hfork⟩,
          fun hne => ?_⟩
        · simp only [if_neg hprev, h.sound.lock_parent hpa, h.sound.lock_parent hpb, heq,
            Option.map_some]
        · rw [List.getLast?_cons, hlast]
          rfl
        · rw [List.getLast?_cons, hlast']
          rfl
        · -- The blocks before differ, so the rest of the branches is apart.
          have hne' : a' ≠ b' := by
            rintro rfl
            exact hprev ((h.links a a' hpa).symm.trans (h.links b a' hpb))
          have hrest := hmeets.apart hne'
          have hlow := h.sound.num_le_of_chain hmeets.chain hmeets.head
          have hlow' := h.sound.num_le_of_chain hmeets.chain' hmeets.head'
          have hnums : ∀ {i j : ForkItem Name Tx}, i.num ≠ j.num → i.id ≠ j.id :=
            fun hne hid => hne (congrArg BlockId.num hid)
          intro i hi j hj
          rcases List.mem_cons.mp hi with rfl | hi <;> rcases List.mem_cons.mp hj with rfl | hj
          · exact fun hid => hne (h.named i ha j hb hid)
          · have := hlow' j hj
            exact hnums (by omega)
          · have := hlow i hi
            exact hnums (by omega)
          · exact hrest i hi j hj

/-! ## `fetch_branch_from` -/

/-- What `fetch_branch_from` is to return for the blocks `a` and `b`. -/
structure Branches (f : ForkDatabase Name Tx) (a b : ForkItem Name Tx)
    (first second : Branch Name Tx) : Prop where
  starts : first.head? = some a
  starts' : second.head? = some b
  linked : first.IsChain fun i j => i.previousId = j.id
  linked' : second.IsChain fun i j => i.previousId = j.id
  fork : ∃ last last', first.getLast? = some last ∧ second.getLast? = some last' ∧
    last.previousId = last'.previousId
  apart : ¬f.Descends a b → ¬f.Descends b a → ∀ i ∈ first, ∀ j ∈ second, i.id ≠ j.id

/-- A climb goes on with the branch from where it ends. -/
theorem Climbs.append {num : Nat} {branch down : Branch Name Tx} {below : ForkItem Name Tx}
    (hclimbs : f.Climbs num a branch below) (hhead : down.head? = some below)
    (hchain : down.IsChain f.Parent) :
    (branch ++ down).head? = some a ∧ (branch ++ down).IsChain f.Parent := by
  obtain ⟨rest, rfl⟩ : ∃ rest, down = below :: rest := by
    cases down with
    | nil => simp at hhead
    | cons x rest =>
        rw [List.head?_cons, Option.some.injEq] at hhead
        exact ⟨rest, by rw [hhead]⟩
  have happend : branch ++ below :: rest = branch ++ [below] ++ rest := by simp
  refine ⟨head?_append_of_climb hclimbs.head hhead, ?_⟩
  rw [happend]
  exact hclimbs.chain.append_overlap hchain (by simp)

theorem getLast?_append_of_some {l l' : Branch Name Tx} {x : ForkItem Name Tx}
    (h : l'.getLast? = some x) : (l ++ l').getLast? = some x := by
  rw [List.getLast?_append, h]
  rfl

theorem Tree.fetchBlock (h : f.Tree) (hi : i ∈ f.index) : f.fetchBlock i.id = some i := by
  have hsome : (f.fetchBlock i.id).isSome := by
    simp only [ForkDatabase.fetchBlock, List.find?_isSome, decide_eq_true_eq]
    exact ⟨i, hi, rfl⟩
  obtain ⟨k, hk⟩ := Option.isSome_iff_exists.mp hsome
  obtain ⟨hmem, hid⟩ := mem_index_of_fetchBlock hk
  rw [hk, h.named k hmem i hi hid]

/-- **The branches of two blocks.** Where the chains of two blocks in the index
meet in the index, `fetch_branch_from` ends, and it returns what it is to. -/
theorem Tree.fetchBranchFrom_branches (h : f.Tree) (ha : a ∈ f.index) (hb : b ∈ f.index)
    (hda : f.Descends a c) (hdb : f.Descends b c) :
    ∃ first second, f.fetchBranchFrom a.id b.id = .ok (first, second) ∧
      f.Branches a b first second := by
  have hpos : ∀ i : ForkItem Name Tx, 0 < i.num := fun i => Nat.succ_pos _
  have hca := h.sound.num_le_of_descends hda
  have hcb := h.sound.num_le_of_descends hdb
  have hposa := hpos a
  have hposb := hpos b
  obtain ⟨above, a', hclimb, hclimbs, hda'⟩ :=
    climb_of_descends h.sound b.num a.num hda hcb (by omega) hposa
  have ha'num := hclimbs.height
  have hca' := h.sound.num_le_of_descends hda'
  obtain ⟨above', b', hclimb', hclimbs', hdb'⟩ :=
    climb_of_descends h.sound a'.num b.num hdb hca' (by omega) hposb
  have hb'num := hclimbs'.height
  have hposc := hpos c
  obtain ⟨down, down', hmeet, hmeets⟩ :=
    meet_of_descends h a'.num (hclimbs.descends.mem_index ha)
      (hclimbs'.descends.mem_index hb) hda' hdb' (by omega) (by omega)
  obtain ⟨hhead, hchain⟩ := hclimbs.append hmeets.head hmeets.chain
  obtain ⟨hhead', hchain'⟩ := hclimbs'.append hmeets.head' hmeets.chain'
  obtain ⟨last, last', hlast, hlast', hfork⟩ := hmeets.fork
  refine ⟨above ++ down, above' ++ down', ?_, hhead, hhead', hchain.imp fun i j hp => ?_,
    hchain'.imp fun i j hp => ?_, ⟨last, last', ?_, ?_, hfork⟩, fun hab hba i hi j hj => ?_⟩
  · unfold fetchBranchFrom
    simp only [h.fetchBlock ha, h.fetchBlock hb, hclimb, hclimb', hmeet]
  · exact (h.links i j hp).symm
  · exact (h.links i j hp).symm
  · exact getLast?_append_of_some hlast
  · exact getLast?_append_of_some hlast'
  · -- Below the lower of the two blocks the branches have no block in common.
    have hne : a' ≠ b' := by
      rintro rfl
      by_cases hle : a.num ≤ b.num
      · have haa := h.sound.eq_of_descends hclimbs.descends (by omega)
        exact hba (haa ▸ hclimbs'.descends)
      · have hbb := h.sound.eq_of_descends hclimbs'.descends (by omega)
        exact hab (hbb ▸ hclimbs.descends)
    have hapart := hmeets.apart hne
    have hlow := h.sound.num_le_of_chain hmeets.chain hmeets.head
    have hlow' := h.sound.num_le_of_chain hchain' hhead'
    have hnums : i.num ≠ j.num → i.id ≠ j.id := fun hne hid => hne (congrArg BlockId.num hid)
    have hj' := hlow' j hj
    rcases List.mem_append.mp hi with hi | hi
    · have := hclimbs.above i hi
      exact hnums (by omega)
    · have hi' := hlow i hi
      rcases List.mem_append.mp hj with hj | hj
      · have := hclimbs'.above j hj
        exact hnums (by omega)
      · exact hapart i hi j hj

end ForkDatabase

end Gamebank.Chain
