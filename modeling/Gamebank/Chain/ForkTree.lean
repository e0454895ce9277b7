import Gamebank.Chain.ForkDatabase

/-!
# The fork database as a tree

The items that are alive form a forest: a link leads to an item one block
lower and allocated earlier, and an address names one item (`Sound`).
Pushing a block keeps this; every other operation only lets items go.

The branches `fetch_branch_from` returns are made of live items, and the
second one starts with the block it was asked for.
-/

namespace Gamebank.Chain

universe u v

variable {Name : Type u} {Tx : Type v}

namespace ForkDatabase

/-- The items the fork database itself owns. -/
def alive (f : ForkDatabase Name Tx) : List (ForkItem Name Tx) := f.index ++ f.head.toList

theorem mem_alive {f : ForkDatabase Name Tx} {i : ForkItem Name Tx} :
    i ∈ f.alive ↔ i ∈ f.index ∨ f.head = some i := by
  simp [alive]

structure Sound (f : ForkDatabase Name Tx) : Prop where
  linked : ∀ i ∈ f.alive, ∀ j ∈ f.alive, i.prev = some j.addr → j.num + 1 = i.num
  same : ∀ i ∈ f.alive, ∀ j ∈ f.alive, i.addr = j.addr → i = j
  allocated : ∀ i ∈ f.alive, i.addr < f.nextAddr
  older : ∀ i ∈ f.alive, ∀ a, i.prev = some a → a < i.addr

/-- Letting items go keeps the forest. -/
theorem Sound.of_subset {f f' : ForkDatabase Name Tx} (h : f.Sound)
    (hsub : ∀ i ∈ f'.alive, i ∈ f.alive) (hnext : f'.nextAddr = f.nextAddr) : f'.Sound where
  linked i hi j hj := h.linked i (hsub i hi) j (hsub j hj)
  same i hi j hj := h.same i (hsub i hi) j (hsub j hj)
  allocated i hi := by
    rw [hnext]
    exact h.allocated i (hsub i hi)
  older i hi := h.older i (hsub i hi)

theorem startBlock_sound (b : SignedBlock Name Tx) :
    (empty.startBlock b : ForkDatabase Name Tx).Sound := by
  have hone : ∀ i ∈ (empty.startBlock b : ForkDatabase Name Tx).alive, i = ⟨0, b, none⟩ := by
    intro i hi
    simpa [alive, startBlock, empty] using hi
  refine ⟨fun i hi j _ hp => ?_, fun i hi j hj _ => ?_, fun i hi => ?_, fun i hi a hp => ?_⟩
  · rw [hone i hi] at hp
    simp at hp
  · rw [hone i hi, hone j hj]
  · rw [hone i hi]
    exact Nat.zero_lt_one
  · rw [hone i hi] at hp
    simp at hp

/-! ## Links -/

theorem mem_of_lock {f : ForkDatabase Name Tx} {pinned : List (ForkItem Name Tx)}
    {p : Option Nat} {j : ForkItem Name Tx} (h : f.lock pinned p = some j) :
    (j ∈ f.alive ∨ j ∈ pinned) ∧ p = some j.addr := by
  unfold lock at h
  cases p with
  | none => simp at h
  | some a =>
      have hmem := List.mem_of_find?_eq_some h
      have haddr := List.find?_some h
      simp only [decide_eq_true_eq] at haddr
      exact ⟨List.mem_append.mp hmem, by rw [haddr]⟩

theorem mem_index_of_fetchBlock {f : ForkDatabase Name Tx} {id : BlockId} {j : ForkItem Name Tx}
    (h : f.fetchBlock id = some j) : j ∈ f.index ∧ j.id = id := by
  have hid := List.find?_some h
  simp only [decide_eq_true_eq] at hid
  exact ⟨List.mem_of_find?_eq_some h, hid⟩

/-- The link of a new item: to the item of its predecessor in the index, if it has one. -/
theorem linkFor_eq_ok {f : ForkDatabase Name Tx} {b : SignedBlock Name Tx} {prev : Option Nat}
    (h : f.linkFor b = .ok prev) :
    prev = none ∧ (f.head = none ∨ b.previous = BlockId.zero) ∨
      ∃ j ∈ f.index, prev = some j.addr ∧ j.id = b.previous := by
  unfold linkFor at h
  split at h
  · rename_i hnone
    exact Or.inl ⟨(Except.ok.inj h).symm, Or.inl hnone⟩
  · split at h
    · rename_i hzero
      exact Or.inl ⟨(Except.ok.inj h).symm, Or.inr hzero⟩
    · split at h
      · cases h
      · rename_i j hj
        obtain ⟨hmem, hid⟩ := mem_index_of_fetchBlock hj
        exact Or.inr ⟨j, hmem, (Except.ok.inj h).symm, hid⟩

theorem insert_cases (f : ForkDatabase Name Tx) (item : ForkItem Name Tx) :
    f.fetchBlock item.id = none ∧ f.insert item = { f with index := item :: f.index } ∨
      (∃ i ∈ f.index, i.id = item.id) ∧ f.insert item = f := by
  unfold insert
  cases hfetch : f.fetchBlock item.id with
  | none => exact Or.inl ⟨rfl, rfl⟩
  | some i =>
      obtain ⟨hmem, hid⟩ := mem_index_of_fetchBlock hfetch
      exact Or.inr ⟨⟨i, hmem, hid⟩, rfl⟩

theorem raiseHead_cases (f : ForkDatabase Name Tx) (item : ForkItem Name Tx) :
    f.raiseHead item = { f with head := some item } ∧
        (∀ top, f.head = some top → top.num < item.num) ∨
      f.raiseHead item = f ∧ ∃ top, f.head = some top ∧ item.num ≤ top.num := by
  unfold raiseHead
  cases hhead : f.head with
  | none => exact Or.inl ⟨rfl, fun top htop => nomatch htop⟩
  | some top =>
      by_cases hlt : top.num < item.num
      · refine Or.inl ⟨if_pos hlt, fun top' htop' => ?_⟩
        exact Option.some.inj htop' ▸ hlt
      · exact Or.inr ⟨if_neg hlt, top, rfl, Nat.not_lt.mp hlt⟩

/-- **What pushing a block does**: a new item, linked to that of its predecessor,
goes to the index unless its id is there, and becomes the head if it is higher. -/
theorem pushBlock_spec {f f' : ForkDatabase Name Tx} {b : SignedBlock Name Tx}
    (h : f.pushBlock b = .ok f') :
    ∃ item : ForkItem Name Tx, item.addr = f.nextAddr ∧ item.data = b ∧
      (item.prev = none ∧ (f.head = none ∨ b.previous = BlockId.zero) ∨
        ∃ j ∈ f.index, item.prev = some j.addr ∧ j.id = b.previous) ∧
      f'.nextAddr = f.nextAddr + 1 ∧
      (f.fetchBlock b.id = none ∧ f'.index = item :: f.index ∨
        (∃ i ∈ f.index, i.id = b.id) ∧ f'.index = f.index) ∧
      (f'.head = some item ∧ (∀ top, f.head = some top → top.num < item.num) ∨
        f'.head = f.head ∧ ∃ top, f.head = some top ∧ item.num ≤ top.num) := by
  unfold pushBlock at h
  by_cases hold : f.tooOld b
  · simp [hold] at h
  · cases hlink : f.linkFor b with
    | error e => simp [hold, hlink] at h
    | ok prev =>
        simp only [hold, hlink, Except.ok.injEq, Bool.false_eq_true, if_false] at h
        subst h
        refine ⟨⟨f.nextAddr, b, prev⟩, rfl, rfl, linkFor_eq_ok hlink, ?_⟩
        have hins : ∃ g : ForkDatabase Name Tx, { f with nextAddr := f.nextAddr + 1 }.insert
            ⟨f.nextAddr, b, prev⟩ = g ∧ g.head = f.head ∧ g.nextAddr = f.nextAddr + 1 ∧
            (f.fetchBlock b.id = none ∧ g.index = ⟨f.nextAddr, b, prev⟩ :: f.index ∨
              (∃ i ∈ f.index, i.id = b.id) ∧ g.index = f.index) := by
          rcases insert_cases { f with nextAddr := f.nextAddr + 1 } ⟨f.nextAddr, b, prev⟩ with
            ⟨hfresh, heq⟩ | ⟨hknown, heq⟩
          · exact ⟨_, heq, rfl, rfl, Or.inl ⟨hfresh, rfl⟩⟩
          · exact ⟨_, heq, rfl, rfl, Or.inr ⟨hknown, rfl⟩⟩
        obtain ⟨g, heq, hhead, hnext, hindex⟩ := hins
        rw [heq, ← hhead]
        rcases raiseHead_cases g ⟨f.nextAddr, b, prev⟩ with ⟨hraise, htop⟩ | ⟨hraise, htop⟩
        · rw [hraise]
          exact ⟨hnext, hindex, Or.inl ⟨rfl, htop⟩⟩
        · rw [hraise]
          exact ⟨hnext, hindex, Or.inr ⟨rfl, htop⟩⟩

/-- What pushing a block can do, in short. -/
theorem pushBlock_cases {f f' : ForkDatabase Name Tx} {b : SignedBlock Name Tx}
    (h : f.pushBlock b = .ok f') :
    ∃ item : ForkItem Name Tx, item.addr = f.nextAddr ∧ item.data = b ∧
      (∀ a, item.prev = some a → ∃ j ∈ f.index, j.addr = a ∧ j.id = b.previous) ∧
      f'.nextAddr = f.nextAddr + 1 ∧ (∀ i ∈ f'.index, i = item ∨ i ∈ f.index) ∧
      (f'.head = some item ∧ (∀ top, f.head = some top → top.num < item.num) ∨
        f'.head = f.head ∧ ∃ top, f.head = some top ∧ item.num ≤ top.num) := by
  obtain ⟨item, haddr, hdata, hlink, hnext, hindex, hhead⟩ := pushBlock_spec h
  refine ⟨item, haddr, hdata, fun a ha => ?_, hnext, fun i hi => ?_, hhead⟩
  · rcases hlink with ⟨hnone, -⟩ | ⟨j, hj, hprev, hid⟩
    · simp [hnone] at ha
    · rw [hprev, Option.some.injEq] at ha
      exact ⟨j, hj, ha, hid⟩
  · rcases hindex with ⟨-, heq⟩ | ⟨-, heq⟩
    · rw [heq] at hi
      exact List.mem_cons.mp hi
    · exact Or.inr (heq ▸ hi)

theorem Sound.pushBlock {f f' : ForkDatabase Name Tx} {b : SignedBlock Name Tx} (h : f.Sound)
    (hpush : f.pushBlock b = .ok f') : f'.Sound := by
  obtain ⟨item, haddr, hdata, hprev, hnext, hindex, hhead⟩ := pushBlock_cases hpush
  have hmem : ∀ i ∈ f'.alive, i = item ∨ i ∈ f.alive := by
    intro i hi
    rcases mem_alive.mp hi with hi | hi
    · exact (hindex i hi).imp (fun he => he) fun hi => mem_alive.mpr (Or.inl hi)
    · rcases hhead with ⟨hh, -⟩ | ⟨hh, -⟩
      · rw [hh, Option.some.injEq] at hi
        exact Or.inl hi.symm
      · rw [hh] at hi
        exact Or.inr (mem_alive.mpr (Or.inr hi))
  -- The new address is above all others, so no live item links to it.
  have hfresh : ∀ i ∈ f.alive, i.addr ≠ item.addr := by
    intro i hi heq
    have := h.allocated i hi
    omega
  have holder : ∀ a, item.prev = some a → a < item.addr := by
    intro a ha
    obtain ⟨j, hj, rfl, -⟩ := hprev a ha
    rw [haddr]
    exact h.allocated j (mem_alive.mpr (Or.inl hj))
  refine ⟨fun i hi j hj hp => ?_, fun i hi j hj heq => ?_, fun i hi => ?_, fun i hi a hp => ?_⟩
  · rcases hmem j hj with rfl | hj
    · rcases hmem i hi with rfl | hi
      · exact absurd (holder _ hp) (Nat.lt_irrefl _)
      · have := h.older i hi _ hp
        have := h.allocated i hi
        omega
    · rcases hmem i hi with rfl | hi
      · obtain ⟨k, hk, hka, hkid⟩ := hprev _ hp
        have hkj : k = j := h.same k (mem_alive.mpr (Or.inl hk)) j hj hka
        subst hkj
        have hnum : k.num = b.previous.num := congrArg BlockId.num hkid
        rw [hnum]
        exact (congrArg SignedBlock.blockNum hdata).symm
      · exact h.linked i hi j hj hp
  · rcases hmem i hi with rfl | hi <;> rcases hmem j hj with rfl | hj
    · rfl
    · exact absurd heq.symm (hfresh j hj)
    · exact absurd heq (hfresh i hi)
    · exact h.same i hi j hj heq
  · rw [hnext]
    rcases hmem i hi with rfl | hi
    · omega
    · exact Nat.lt_succ_of_lt (h.allocated i hi)
  · rcases hmem i hi with rfl | hi
    · exact holder a hp
    · exact h.older i hi a hp

/-! ## Branches -/

theorem climb_forall {f : ForkDatabase Name Tx} {P : ForkItem Name Tx → Prop}
    (hP : ∀ i j, P i → f.lock [] i.prev = some j → P j) {num fuel : Nat}
    {item below : ForkItem Name Tx} {branch : Branch Name Tx}
    (h : f.climb num fuel item = some (branch, below)) (hitem : P item) :
    (∀ i ∈ branch, P i) ∧ P below ∧ (branch ++ [below]).head? = some item := by
  induction fuel generalizing item branch with
  | zero => simp [climb] at h
  | succ fuel ih =>
      unfold climb at h
      split at h
      · split at h
        · simp at h
        · rename_i next hnext
          cases hr : f.climb num fuel next with
          | none => simp [hr] at h
          | some r =>
              simp only [hr, Option.map_some, Option.some.injEq, Prod.mk.injEq] at h
              obtain ⟨rfl, rfl⟩ := h
              obtain ⟨h1, h2, -⟩ := ih hr (hP item next hitem hnext)
              exact ⟨List.forall_mem_cons.mpr ⟨hitem, h1⟩, h2, rfl⟩
      · simp only [Option.some.injEq, Prod.mk.injEq] at h
        obtain ⟨rfl, rfl⟩ := h
        exact ⟨by simp, hitem, rfl⟩

theorem meet_forall {f : ForkDatabase Name Tx} {P : ForkItem Name Tx → Prop}
    (hP : ∀ i j, P i → f.lock [] i.prev = some j → P j) {fuel : Nat} {a b : ForkItem Name Tx}
    {down down' : Branch Name Tx} (h : f.meet fuel a b = some (down, down')) (ha : P a) (hb : P b) :
    (∀ i ∈ down, P i) ∧ (∀ i ∈ down', P i) ∧ down.head? = some a ∧ down'.head? = some b := by
  induction fuel generalizing a b down down' with
  | zero => simp [meet] at h
  | succ fuel ih =>
      unfold meet at h
      split at h
      · simp only [Option.some.injEq, Prod.mk.injEq] at h
        obtain ⟨rfl, rfl⟩ := h
        exact ⟨by simpa using ha, by simpa using hb, rfl, rfl⟩
      · split at h
        · rename_i a' b' hla hlb
          cases hr : f.meet fuel a' b' with
          | none => simp [hr] at h
          | some r =>
              simp only [hr, Option.map_some, Option.some.injEq, Prod.mk.injEq] at h
              obtain ⟨rfl, rfl⟩ := h
              obtain ⟨h1, h2, -, -⟩ := ih hr (hP a a' ha hla) (hP b b' hb hlb)
              exact ⟨List.forall_mem_cons.mpr ⟨ha, h1⟩, List.forall_mem_cons.mpr ⟨hb, h2⟩, rfl, rfl⟩
        · simp at h

/-- A branch starts where the climb began. -/
theorem head?_append_of_climb {above down : Branch Name Tx} {a below : ForkItem Name Tx}
    (h : (above ++ [below]).head? = some a) (hdown : down.head? = some below) :
    (above ++ down).head? = some a := by
  cases above with
  | nil =>
      simp only [List.nil_append, List.head?_cons, Option.some.injEq] at h
      rw [List.nil_append, hdown, h]
  | cons i rest => simpa using h

/-- What the index has and links hand on, the branches have, and each starts
with the block asked for. -/
theorem fetchBranchFrom_forall {f : ForkDatabase Name Tx} {P : ForkItem Name Tx → Prop}
    (hP : ∀ i j, P i → f.lock [] i.prev = some j → P j) (hindex : ∀ i ∈ f.index, P i)
    {id id' : BlockId} {first second : Branch Name Tx}
    (h : f.fetchBranchFrom id id' = .ok (first, second)) :
    (∀ i ∈ first, P i) ∧ (∀ i ∈ second, P i) ∧
      (∃ tip, first.head? = some tip ∧ tip ∈ f.index ∧ tip.id = id) ∧
      ∃ tip, second.head? = some tip ∧ tip ∈ f.index ∧ tip.id = id' := by
  unfold fetchBranchFrom at h
  split at h
  · rename_i a b ha hb
    obtain ⟨hamem, haid⟩ := mem_index_of_fetchBlock ha
    obtain ⟨hbmem, hbid⟩ := mem_index_of_fetchBlock hb
    split at h
    · simp at h
    · rename_i above a' hca
      obtain ⟨h1, ha', htip⟩ := climb_forall hP hca (hindex a hamem)
      split at h
      · simp at h
      · rename_i above' b' hcb
        obtain ⟨h2, hb', htip'⟩ := climb_forall hP hcb (hindex b hbmem)
        split at h
        · simp at h
        · rename_i down down' hmeet
          obtain ⟨h3, h4, hdown, hdown'⟩ := meet_forall hP hmeet ha' hb'
          simp only [Except.ok.injEq, Prod.mk.injEq] at h
          obtain ⟨rfl, rfl⟩ := h
          exact ⟨List.forall_mem_append.mpr ⟨h1, h3⟩, List.forall_mem_append.mpr ⟨h2, h4⟩,
            ⟨a, head?_append_of_climb htip hdown, hamem, haid⟩,
            b, head?_append_of_climb htip' hdown', hbmem, hbid⟩
  · simp at h

/-- The branches are made of live items, and the second one starts with the
block asked for. -/
theorem fetchBranchFrom_mem {f : ForkDatabase Name Tx} {id id' : BlockId}
    {first second : Branch Name Tx} (h : f.fetchBranchFrom id id' = .ok (first, second)) :
    (∀ i ∈ first, i ∈ f.alive) ∧ (∀ i ∈ second, i ∈ f.alive) ∧
      ∃ tip, second.head? = some tip ∧ tip.id = id' := by
  obtain ⟨h1, h2, -, tip, htip, -, hid⟩ := fetchBranchFrom_forall
    (P := fun i => i ∈ f.alive) (fun _ _ _ hj => by simpa using (mem_of_lock hj).1)
    (fun i hi => mem_alive.mpr (Or.inl hi)) h
  exact ⟨h1, h2, tip, htip, hid⟩

/-! ## The main branch by number -/

theorem walkDown_num {f : ForkDatabase Name Tx} (h : f.Sound) {num fuel : Nat}
    {start item : ForkItem Name Tx} (hstart : start ∈ f.alive) (hle : num ≤ start.num)
    (hw : f.walkDown num fuel (some start) = some item) : item.num = num := by
  induction fuel generalizing start with
  | zero => simp [walkDown] at hw
  | succ fuel ih =>
      unfold walkDown at hw
      split at hw
      · rename_i hlt
        cases hl : f.lock [] start.prev with
        | none => simp [hl, walkDown] at hw
        | some next =>
            obtain ⟨hmem, hprev⟩ := mem_of_lock hl
            have hmem : next ∈ f.alive := by simpa using hmem
            have hnum := h.linked start hstart next hmem hprev
            rw [hl] at hw
            exact ih hmem (by omega) hw
      · simp only [Option.some.injEq] at hw
        subst hw
        omega

/-- The block fetched for a number has that number. -/
theorem fetchBlockOnMainBranchByNumber_num {f : ForkDatabase Name Tx} (h : f.Sound) {num : Nat}
    {item : ForkItem Name Tx} (hi : f.fetchBlockOnMainBranchByNumber num = some item) :
    item.num = num := by
  unfold fetchBlockOnMainBranchByNumber at hi
  split at hi
  · simp at hi
  · rename_i j hj
    simp only [Option.some.injEq] at hi
    subst hi
    have hmem : j ∈ f.fetchBlockByNumber num := by simp [hj]
    simpa using (List.mem_filter.mp hmem).2
  · unfold walkMainBranchToNum at hi
    split at hi
    · simp at hi
    · rename_i top htop
      split at hi
      · simp at hi
      · exact walkDown_num h (mem_alive.mpr (Or.inr htop)) (by omega) hi

end ForkDatabase

end Gamebank.Chain
