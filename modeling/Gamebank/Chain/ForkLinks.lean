import Gamebank.Chain.ForkFrames
import Mathlib.Logic.Relation

/-!
# Where the links of two items lead

Over every run a link of a live item leads to the item of the block before
(`Threaded`). So the links of an item name the blocks below it, block by block
(`Descent`), and where two walks down have met, `fetch_branch_from` ends:
it answers for two blocks if the links of both lead down to one height where the
blocks before are the same (`fetchBranchFrom_of_reaches`), and what it answers
then are the two walks, down to the first such height
(`parted_of_fetchBranchFrom`).
-/

namespace Gamebank.Chain

universe u v w

variable {Name : Type u} {Tx : Type v} {Rest : Type w}

namespace ForkDatabase

variable {f f' : ForkDatabase Name Tx} {a a' b i j x y : ForkItem Name Tx}
  {l m : Branch Name Tx}

/-! ## Links -/

/-- A link leads to the item of the block before. -/
structure Threaded (f : ForkDatabase Name Tx) : Prop where
  sound : f.Sound
  links : ∀ i ∈ f.alive, ∀ j ∈ f.alive, i.prev = some j.addr → i.previousId = j.id

/-- The link of `i` locks to `j`. -/
def Linked (f : ForkDatabase Name Tx) (i j : ForkItem Name Tx) : Prop :=
  f.lock [] i.prev = some j

/-- The links of `i` lead down to `x`. -/
def Leads (f : ForkDatabase Name Tx) : ForkItem Name Tx → ForkItem Name Tx → Prop :=
  Relation.ReflTransGen f.Linked

/-- The links of `i` lead down to the height `k`. -/
def Reaches (f : ForkDatabase Name Tx) (i : ForkItem Name Tx) (k : Nat) : Prop :=
  ∃ x, f.Leads i x ∧ x.num = k

theorem Linked.mem_alive (h : f.Linked i j) : j ∈ f.alive := by
  simpa using (mem_of_lock h).1

theorem Leads.mem_alive (h : f.Leads i x) (hi : i ∈ f.alive) : x ∈ f.alive := by
  induction h with
  | refl => exact hi
  | tail _ hlink _ => exact hlink.mem_alive

theorem Threaded.previousId (h : f.Threaded) (hi : i ∈ f.alive) (hlink : f.Linked i j) :
    i.previousId = j.id :=
  h.links i hi j hlink.mem_alive (mem_of_lock hlink).2

theorem num_of_previousId (h : i.previousId = j.id) : i.num = j.num + 1 :=
  congrArg (fun id => BlockId.num id + 1) h

theorem Threaded.num_le (h : f.Threaded) (hi : i ∈ f.alive) (hx : f.Leads i x) : x.num ≤ i.num := by
  induction hx with
  | refl => exact Nat.le_refl _
  | tail hleads hlink ih =>
      have := num_of_previousId (h.previousId (Leads.mem_alive hleads hi) hlink)
      omega

/-- The walk down the links goes one way. -/
theorem linked_rightUnique (f : ForkDatabase Name Tx) : Relator.RightUnique f.Linked := by
  intro i j k hj hk
  exact Option.some.inj (hj.symm.trans hk)

/-- Above the end of a walk there is a link, and the walk goes on from there. -/
theorem Leads.exists_link (hx : f.Leads i x) (hlt : x.num < i.num) :
    ∃ j, f.Linked i j ∧ f.Leads j x := by
  rcases Relation.ReflTransGen.cases_head hx with rfl | hstep
  · exact absurd hlt (Nat.lt_irrefl _)
  · exact hstep

theorem startBlock_threaded (b : SignedBlock Name Tx) :
    (empty.startBlock b : ForkDatabase Name Tx).Threaded := by
  refine ⟨startBlock_sound b, fun i hi j hj hprev => ?_⟩
  have hi' : i = ⟨0, b, none⟩ := by simpa [alive, startBlock, empty] using hi
  rw [hi'] at hprev
  cases hprev

theorem Threaded.pushBlock {b : SignedBlock Name Tx} (h : f.Threaded)
    (hpush : f.pushBlock b = .ok f') : f'.Threaded := by
  have hs := h.sound.pushBlock hpush
  obtain ⟨item, haddr, hdata, hprev, -, hindex, hhead⟩ := pushBlock_cases hpush
  have hmem : ∀ i ∈ f'.alive, i = item ∨ i ∈ f.alive := by
    intro i hi
    rcases ForkDatabase.mem_alive.mp hi with hi | hi
    · exact (hindex i hi).imp_right fun hi => ForkDatabase.mem_alive.mpr (Or.inl hi)
    · rcases hhead with ⟨hh, -⟩ | ⟨hh, -⟩
      · rw [hh, Option.some.injEq] at hi
        exact Or.inl hi.symm
      · rw [hh] at hi
        exact Or.inr (ForkDatabase.mem_alive.mpr (Or.inr hi))
  refine ⟨hs, fun i hi j hj hlink => ?_⟩
  rcases hmem j hj with rfl | hj'
  · -- The new item is younger than all others, so none links to it.
    rcases hmem i hi with rfl | hi'
    · exact absurd (hs.older i hi _ hlink) (Nat.lt_irrefl _)
    · have h1 := h.sound.older i hi' _ hlink
      have h2 := h.sound.allocated i hi'
      omega
  · rcases hmem i hi with rfl | hi'
    · obtain ⟨k, hk, hka, hkid⟩ := hprev _ hlink
      have hkj := h.sound.same k (ForkDatabase.mem_alive.mpr (Or.inl hk)) j hj' hka
      rw [← hkj, hkid]
      exact congrArg SignedBlock.previous hdata
    · exact h.links i hi' j hj' hlink

theorem threaded_lasting : Lasting (fun f : ForkDatabase Name Tx => f.Threaded) :=
  ⟨fun _ _ h hsub hnext => ⟨h.sound.of_subset hsub hnext, fun i hi j hj =>
    h.links i (hsub i hi) j (hsub j hj)⟩, fun _ _ _ h => h.pushBlock⟩

/-! ## Blocks below one another -/

/-- `l` names the blocks from `a` down to `x`, each before the last. -/
inductive Descent : ForkItem Name Tx → Branch Name Tx → ForkItem Name Tx → Prop where
  | refl (i : ForkItem Name Tx) : Descent i [i] i
  | step {i j x : ForkItem Name Tx} {l : Branch Name Tx} :
      i.previousId = j.id → Descent j l x → Descent i (i :: l) x

namespace Descent

theorem length_eq (h : Descent a l x) : l.length + x.num = a.num + 1 := by
  induction h with
  | refl i => exact Nat.add_comm _ _
  | step hprev _ ih =>
      have := num_of_previousId hprev
      rw [List.length_cons]
      omega

theorem last_num_le (h : Descent a l x) : x.num ≤ a.num := by
  induction h with
  | refl i => exact Nat.le_refl _
  | step hprev _ ih =>
      have := num_of_previousId hprev
      omega

theorem num_le (h : Descent a l x) : ∀ i ∈ l, x.num ≤ i.num ∧ i.num ≤ a.num := by
  induction h with
  | refl i => simp
  | step hprev hrest ih =>
      have := num_of_previousId hprev
      have := hrest.last_num_le
      intro i hi
      rcases List.mem_cons.mp hi with rfl | hi
      · omega
      · have := ih i hi
        omega

theorem last_mem (h : Descent a l x) : x ∈ l := by
  induction h with
  | refl i => exact List.mem_singleton_self i
  | step _ _ ih => exact List.mem_cons_of_mem _ ih

theorem head_mem (h : Descent a l x) : a ∈ l := by
  cases h <;> exact List.mem_cons_self

theorem getLast? (h : Descent a l x) : l.getLast? = some x := by
  induction h with
  | refl i => rfl
  | step _ _ ih =>
      rw [List.getLast?_cons, ih]
      rfl

/-- Every height between is met. -/
theorem exists_at (h : Descent a l x) {k : Nat} (hlow : x.num ≤ k) (hhigh : k ≤ a.num) :
    ∃ i ∈ l, i.num = k := by
  induction h with
  | refl i => exact ⟨i, List.mem_singleton_self i, Nat.le_antisymm hlow hhigh⟩
  | @step i j x l hprev _ ih =>
      have := num_of_previousId hprev
      by_cases htop : k = i.num
      · exact ⟨i, List.mem_cons_self, htop.symm⟩
      · obtain ⟨i', hi', hnum⟩ := ih hlow (by omega)
        exact ⟨i', List.mem_cons_of_mem _ hi', hnum⟩

/-- Above its end a descent goes on. -/
theorem exists_before (h : Descent a l x) (hi : i ∈ l) (hlt : x.num < i.num) :
    ∃ j ∈ l, i.previousId = j.id := by
  induction h with
  | refl i' =>
      rw [List.mem_singleton] at hi
      rw [hi] at hlt
      exact absurd hlt (Nat.lt_irrefl _)
  | step hprev hrest ih =>
      rcases List.mem_cons.mp hi with rfl | hi
      · exact ⟨_, List.mem_cons_of_mem _ hrest.head_mem, hprev⟩
      · obtain ⟨j, hj, heq⟩ := ih hi hlt
        exact ⟨j, List.mem_cons_of_mem _ hj, heq⟩

/-- The item at a height, counted from the end. -/
theorem reverse_getElem? (h : Descent a l x) {k : Nat} (hk : x.num + k ≤ a.num) :
    ∃ i ∈ l, l.reverse[k]? = some i ∧ i.num = x.num + k := by
  induction h with
  | refl i =>
      obtain rfl : k = 0 := by omega
      exact ⟨i, List.mem_singleton_self i, rfl, rfl⟩
  | @step i j x l hprev hrest ih =>
      have hnum := num_of_previousId hprev
      have hlen := hrest.length_eq
      rw [List.reverse_cons]
      by_cases hlt : x.num + k ≤ j.num
      · obtain ⟨i', hi', hget, hheight⟩ := ih hlt
        refine ⟨i', List.mem_cons_of_mem _ hi', ?_, hheight⟩
        rw [List.getElem?_append_left (by rw [List.length_reverse]; omega)]
        exact hget
      · refine ⟨i, List.mem_cons_self, ?_, by omega⟩
        rw [List.getElem?_append_right (by rw [List.length_reverse]; omega), List.length_reverse]
        rw [show k - l.length = 0 by omega]
        rfl

/-- Two descents from one block agree at each height, ids naming blocks. -/
theorem agree (h : Descent a l x) (h' : Descent a' m y) (htop : a.id = a'.id)
    (hnamed : ∀ i ∈ l, ∀ j ∈ m, i.id = j.id → i.previousId = j.previousId) :
    ∀ i ∈ l, ∀ j ∈ m, i.num = j.num → i.id = j.id := by
  have htopnum : a.num = a'.num := congrArg BlockId.num htop
  induction h generalizing a' m with
  | refl i' =>
      intro i hi j hj hnum
      rw [List.mem_singleton] at hi
      subst hi
      cases h' with
      | refl _ =>
          rw [List.mem_singleton] at hj
          exact hj ▸ htop
      | step hprev hrest =>
          have := num_of_previousId hprev
          rcases List.mem_cons.mp hj with rfl | hj
          · exact htop
          · have := (hrest.num_le j hj).2
            omega
  | step hprev hrest ih =>
      have h1 := num_of_previousId hprev
      intro i hi j hj hnum
      cases h' with
      | refl _ =>
          rw [List.mem_singleton] at hj
          subst hj
          rcases List.mem_cons.mp hi with rfl | hi
          · exact htop
          · have := (hrest.num_le i hi).2
            omega
      | step hprev' hrest' =>
          have h2 := num_of_previousId hprev'
          rcases List.mem_cons.mp hi with rfl | hi <;> rcases List.mem_cons.mp hj with rfl | hj
          · exact htop
          · have := (hrest'.num_le j hj).2
            omega
          · have := (hrest.num_le i hi).2
            omega
          · have hnext := hnamed _ List.mem_cons_self _ List.mem_cons_self htop
            rw [hprev, hprev'] at hnext
            exact ih hrest' hnext (fun i hi j hj =>
              hnamed i (List.mem_cons_of_mem _ hi) j (List.mem_cons_of_mem _ hj))
              (congrArg BlockId.num hnext) i hi j hj hnum

/-- Two descents from one block down to one height name the same blocks. -/
theorem map_id_eq (h : Descent a l x) (h' : Descent a' m y) (htop : a.id = a'.id)
    (hend : x.num = y.num)
    (hnamed : ∀ i ∈ l, ∀ j ∈ m, i.id = j.id → i.previousId = j.previousId) :
    l.map ForkItem.id = m.map ForkItem.id := by
  have htopnum : a.num = a'.num := congrArg BlockId.num htop
  induction h generalizing a' m with
  | refl i =>
      cases h' with
      | refl _ => simp [htop]
      | step hprev hrest =>
          have := num_of_previousId hprev
          have := hrest.last_num_le
          omega
  | step hprev hrest ih =>
      cases h' with
      | refl _ =>
          have := num_of_previousId hprev
          have := hrest.last_num_le
          omega
      | step hprev' hrest' =>
          have hnext := hnamed _ List.mem_cons_self _ List.mem_cons_self htop
          rw [hprev, hprev'] at hnext
          rw [List.map_cons, List.map_cons, htop, ih hrest' hnext hend (fun i hi j hj =>
            hnamed i (List.mem_cons_of_mem _ hi) j (List.mem_cons_of_mem _ hj))
            (congrArg BlockId.num hnext)]

end Descent

/-- The links of an item name a descent. -/
theorem Leads.descent (h : f.Threaded) (hi : i ∈ f.alive) (hx : f.Leads i x) :
    ∃ l, Descent i l x ∧ ∀ k ∈ l, k ∈ f.alive := by
  induction hx using Relation.ReflTransGen.head_induction_on with
  | refl => exact ⟨[x], .refl x, by simpa using hi⟩
  | head hlink _ ih =>
      obtain ⟨l, hl, hmem⟩ := ih (Linked.mem_alive hlink)
      exact ⟨_ :: l, .step (h.previousId hi hlink) hl, List.forall_mem_cons.mpr ⟨hi, hmem⟩⟩

/-! ## The walks of `fetch_branch_from` -/

theorem climb_spec (h : f.Threaded) {num fuel : Nat} {above : Branch Name Tx} (hi : i ∈ f.alive)
    (hc : f.climb num fuel i = some (above, j)) :
    f.Leads i j ∧ j.num = min i.num num ∧ (∀ k ∈ above, num < k.num) ∧
      ∀ l x, Descent j l x → Descent i (above ++ l) x := by
  induction fuel generalizing i above with
  | zero => simp [climb] at hc
  | succ fuel ih =>
      unfold climb at hc
      by_cases hlt : num < i.num
      · rw [if_pos hlt] at hc
        cases hlink : f.lock [] i.prev with
        | none => simp [hlink] at hc
        | some next =>
            cases hrest : f.climb num fuel next with
            | none => simp [hlink, hrest] at hc
            | some r =>
                simp only [hlink, hrest, Option.map_some, Option.some.injEq, Prod.mk.injEq] at hc
                obtain ⟨rfl, rfl⟩ := hc
                have hprev := h.previousId hi hlink
                have hnum := num_of_previousId hprev
                obtain ⟨hleads, hheight, habove, hdesc⟩ := ih (Linked.mem_alive hlink) hrest
                exact ⟨.head hlink hleads, by omega, List.forall_mem_cons.mpr ⟨hlt, habove⟩,
                  fun l x hl => .step hprev (hdesc l x hl)⟩
      · rw [if_neg hlt, Option.some.injEq, Prod.mk.injEq] at hc
        obtain ⟨rfl, rfl⟩ := hc
        exact ⟨.refl, by omega, by simp, fun l x hl => hl⟩

theorem climb_of_leads (h : f.Threaded) (num : Nat) {fuel : Nat} (hi : i ∈ f.alive)
    (hx : f.Leads i x)
    (hnum : x.num ≤ num) (hfuel : i.num < num + fuel) (hpos : 0 < fuel) :
    ∃ above j, f.climb num fuel i = some (above, j) := by
  induction fuel generalizing i with
  | zero => exact absurd hpos (Nat.lt_irrefl 0)
  | succ fuel ih =>
      unfold climb
      by_cases hlt : num < i.num
      · obtain ⟨next, hlink, hrest⟩ := hx.exists_link (by omega)
        have := num_of_previousId (h.previousId hi hlink)
        obtain ⟨above, j, heq⟩ := ih hlink.mem_alive hrest (by omega) (by omega)
        have hlock : f.lock [] i.prev = some next := hlink
        exact ⟨i :: above, j, by simp only [if_pos hlt, hlock, heq, Option.map_some]⟩
      · exact ⟨[], i, if_neg hlt⟩

/-- The walks from `a` and from `b`, down to the first height at which the blocks
before are the same. -/
structure Parted (f : ForkDatabase Name Tx) (a b : ForkItem Name Tx)
    (first second : Branch Name Tx) (x y : ForkItem Name Tx) : Prop where
  leads : f.Leads a x
  leads' : f.Leads b y
  descent : Descent a first x
  descent' : Descent b second y
  fork : x.previousId = y.previousId
  apart : ∀ i ∈ first, ∀ j ∈ second, i.num = j.num → x.num < i.num →
    i.previousId ≠ j.previousId

theorem meet_spec (h : f.Threaded) {fuel : Nat} (ha : a ∈ f.alive) (hb : b ∈ f.alive)
    (hnum : a.num = b.num) (hm : f.meet fuel a b = some (l, m)) :
    ∃ x y, f.Parted a b l m x y := by
  induction fuel generalizing a b l m with
  | zero => simp [meet] at hm
  | succ fuel ih =>
      unfold meet at hm
      by_cases hprev : a.previousId = b.previousId
      · rw [if_pos hprev, Option.some.injEq, Prod.mk.injEq] at hm
        obtain ⟨rfl, rfl⟩ := hm
        refine ⟨a, b, .refl, .refl, .refl a, .refl b, hprev, fun i hi _ _ _ hlt => ?_⟩
        rw [List.mem_singleton] at hi
        exact absurd (hi ▸ hlt) (Nat.lt_irrefl _)
      · rw [if_neg hprev] at hm
        split at hm
        · rename_i a' b' hla hlb
          cases hrest : f.meet fuel a' b' with
          | none => simp [hrest] at hm
          | some r =>
              simp only [hrest, Option.map_some, Option.some.injEq, Prod.mk.injEq] at hm
              obtain ⟨rfl, rfl⟩ := hm
              have hpa := h.previousId ha hla
              have hpb := h.previousId hb hlb
              have h1 := num_of_previousId hpa
              have h2 := num_of_previousId hpb
              obtain ⟨x, y, hp⟩ := ih (Linked.mem_alive hla) (Linked.mem_alive hlb) (by omega) hrest
              refine ⟨x, y, .head hla hp.leads, .head hlb hp.leads', .step hpa hp.descent,
                .step hpb hp.descent', hp.fork, fun i hi j hj hij hlt => ?_⟩
              -- The items at the top have the heights of none below.
              rcases List.mem_cons.mp hi with rfl | hi <;> rcases List.mem_cons.mp hj with rfl | hj
              · exact hprev
              · have := (hp.descent'.num_le j hj).2
                omega
              · have := (hp.descent.num_le i hi).2
                omega
              · exact hp.apart i hi j hj hij hlt
        · simp at hm

theorem meet_of_leads (h : f.Threaded) (fuel : Nat) (ha : a ∈ f.alive) (hb : b ∈ f.alive)
    (hnum : a.num = b.num) (hx : f.Leads a x) (hy : f.Leads b y)
    (hfork : x.previousId = y.previousId) (hfuel : a.num < x.num + fuel) :
    ∃ l m, f.meet fuel a b = some (l, m) := by
  have hxy : x.num = y.num := congrArg (fun id => BlockId.num id + 1) hfork
  induction fuel generalizing a b with
  | zero =>
      have := h.num_le ha hx
      omega
  | succ fuel ih =>
      unfold meet
      by_cases hprev : a.previousId = b.previousId
      · exact ⟨[a], [b], if_pos hprev⟩
      · -- At the height of `x` the blocks before are the same.
        have hlt : x.num < a.num := by
          rcases Relation.ReflTransGen.cases_head hx with rfl | ⟨a', hla, hrest⟩
          · rcases Relation.ReflTransGen.cases_head hy with rfl | ⟨b', hlb, hrest⟩
            · exact absurd hfork hprev
            · have h1 := num_of_previousId (h.previousId hb hlb)
              have h2 := h.num_le (Linked.mem_alive hlb) hrest
              omega
          · have h1 := num_of_previousId (h.previousId ha hla)
            have h2 := h.num_le (Linked.mem_alive hla) hrest
            omega
        obtain ⟨a', hla, hxa⟩ := hx.exists_link hlt
        obtain ⟨b', hlb, hyb⟩ := hy.exists_link (by omega)
        have h1 := num_of_previousId (h.previousId ha hla)
        have h2 := num_of_previousId (h.previousId hb hlb)
        obtain ⟨l, m, heq⟩ := ih hla.mem_alive hlb.mem_alive (by omega) hxa hyb (by omega)
        have hlocka : f.lock [] a.prev = some a' := hla
        have hlockb : f.lock [] b.prev = some b' := hlb
        exact ⟨a :: l, b :: m, by simp only [if_neg hprev, hlocka, hlockb, heq, Option.map_some]⟩

/-- Of two blocks under one, the upper leads to the lower. -/
theorem Leads.of_num_le (h : f.Threaded) (hi : i ∈ f.alive) (hx : f.Leads i x) (hy : f.Leads i y)
    (hnum : y.num ≤ x.num) : f.Leads x y := by
  rcases Relation.ReflTransGen.total_of_right_unique (linked_rightUnique f) hx hy with hxy | hyx
  · exact hxy
  · rcases Relation.ReflTransGen.cases_head hyx with rfl | ⟨k, hlink, hrest⟩
    · exact .refl
    · have h1 := num_of_previousId (h.previousId (hy.mem_alive hi) hlink)
      have h2 := h.num_le hlink.mem_alive hrest
      omega

/-- `fetch_branch_from` answers for two blocks whose links lead down to items with
the same block before. -/
theorem fetchBranchFrom_of_leads (h : f.Threaded) {id id' : BlockId}
    (ha : f.fetchBlock id = some a) (hb : f.fetchBlock id' = some b) (hx : f.Leads a x)
    (hy : f.Leads b y) (hfork : x.previousId = y.previousId) :
    ∃ first second, f.fetchBranchFrom id id' = .ok (first, second) := by
  have hxy : x.num = y.num := congrArg (fun id => BlockId.num id + 1) hfork
  have hamem := mem_alive.mpr (Or.inl (mem_index_of_fetchBlock ha).1)
  have hbmem := mem_alive.mpr (Or.inl (mem_index_of_fetchBlock hb).1)
  have hxa := h.num_le hamem hx
  have hyb := h.num_le hbmem hy
  have hpos : ∀ i : ForkItem Name Tx, 0 < i.num := fun i => Nat.succ_pos _
  have hposa := hpos a
  have hposb := hpos b
  have hposx := hpos x
  obtain ⟨above, a', hclimb⟩ :=
    climb_of_leads h b.num hamem hx (by omega) (by omega) hposa
  obtain ⟨hleada, ha'num, -, -⟩ := climb_spec h hamem hclimb
  obtain ⟨above', b', hclimb'⟩ :=
    climb_of_leads h a'.num hbmem hy (by omega) (by omega) hposb
  obtain ⟨hleadb, hb'num, -, -⟩ := climb_spec h hbmem hclimb'
  obtain ⟨down, down', hmeet⟩ :=
    meet_of_leads h a'.num (hleada.mem_alive hamem) (hleadb.mem_alive hbmem) (by omega)
      (hleada.of_num_le h hamem hx (by omega)) (hleadb.of_num_le h hbmem hy (by omega)) hfork
      (by omega)
  refine ⟨above ++ down, above' ++ down', ?_⟩
  unfold fetchBranchFrom
  simp only [ha, hb, hclimb, hclimb', hmeet]

/-- What `fetch_branch_from` answers. -/
theorem parted_of_fetchBranchFrom (h : f.Threaded) {id id' : BlockId}
    {first second : Branch Name Tx} (hf : f.fetchBranchFrom id id' = .ok (first, second)) :
    ∃ a b x y, f.fetchBlock id = some a ∧ f.fetchBlock id' = some b ∧
      f.Parted a b first second x y := by
  unfold fetchBranchFrom at hf
  split at hf
  · rename_i a b ha hb
    have hamem := mem_alive.mpr (Or.inl (mem_index_of_fetchBlock ha).1)
    have hbmem := mem_alive.mpr (Or.inl (mem_index_of_fetchBlock hb).1)
    split at hf
    · cases hf
    · rename_i above a' hclimb
      obtain ⟨hleada, ha'num, habove, hdesc⟩ := climb_spec h hamem hclimb
      split at hf
      · cases hf
      · rename_i above' b' hclimb'
        obtain ⟨hleadb, hb'num, habove', hdesc'⟩ := climb_spec h hbmem hclimb'
        split at hf
        · cases hf
        · rename_i down down' hmeet
          rw [Except.ok.injEq, Prod.mk.injEq] at hf
          obtain ⟨rfl, rfl⟩ := hf
          have hsame : a'.num = b'.num := by
            have hle : a'.num ≤ b.num := by omega
            omega
          obtain ⟨x, y, hp⟩ :=
            meet_spec h (hleada.mem_alive hamem) (hleadb.mem_alive hbmem) hsame hmeet
          refine ⟨a, b, x, y, ha, hb, hleada.trans hp.leads, hleadb.trans hp.leads',
            hdesc down x hp.descent, hdesc' down' y hp.descent', hp.fork,
            fun i hi j hj hij hlt => ?_⟩
          -- Above the lower of the two blocks only one of the branches has items.
          rcases List.mem_append.mp hi with hi | hi
          · have h1 := habove i hi
            have h2 := ((hdesc' down' y hp.descent').num_le j hj).2
            omega
          · rcases List.mem_append.mp hj with hj | hj
            · have h1 := habove' j hj
              have h2 := (hp.descent.num_le i hi).2
              omega
            · exact hp.apart i hi j hj hij hlt
  · cases hf

end ForkDatabase

end Gamebank.Chain
