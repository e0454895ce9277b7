import Gamebank.Crowdfunding.Cases

/-!
# Which campaigns are settled

A settled campaign stays in `by_expire_originator`, and the loop of
`process_crowdfunding` stops at a settled campaign. Campaigns opened later
expire later, so the first campaign that is ever settled stays the first of
the index, and no other one is settled after it.
-/

namespace Gamebank.Crowdfunding

open Gamebank.Lib

variable {Name Permlink : Type}

namespace State

/-- Only the first campaign may be settled, and only after it has expired. -/
structure FirstOnly (s : State Name Permlink) : Prop where
  unfinished : ∀ c ∈ s.crowdfundings.tail, c.finish = 0
  expired : ∀ c ∈ s.crowdfundings, 0 < c.finish → c.expire ≤ s.headBlockTime

theorem Genesis.firstOnly {s : State Name Permlink} (h : Genesis s) : FirstOnly s := by
  constructor <;> simp [h.crowdfundings]

variable [LinearOrder Name]

theorem settle_firstOnly {c : CrowdfundingObject Name Permlink}
    {rest : List (CrowdfundingObject Name Permlink)} {s : State Name Permlink} (h : FirstOnly s)
    (hc : s.crowdfundings = c :: rest) (hexpired : c.expire ≤ s.headBlockTime) :
    FirstOnly (s.settle c rest) := by
  constructor
  · intro d hd
    rw [settle_crowdfundings] at hd
    exact h.unfinished d (by rw [hc]; exact hd)
  · intro d hd hfinish
    rw [settle_crowdfundings] at hd
    rw [settle_headBlockTime]
    rcases List.mem_cons.mp hd with rfl | hd
    · exact hexpired
    · exact h.expired d (by rw [hc]; exact List.mem_cons_of_mem c hd) hfinish

/-- A new campaign expires after every settled one, so none moves back. -/
theorem Opens.firstOnly {op : CrowdfundingOperation Name Permlink} {s s' : State Name Permlink}
    (ho : Opens op s s') (h : FirstOnly s) : FirstOnly s' := by
  constructor
  · intro c hc
    rw [ho.crowdfundings] at hc
    rcases mem_tail_orderedInsert hc with rfl | hc | ⟨hc, hle⟩
    · rfl
    · exact h.unfinished c hc
    · have hexpire : (s.newCrowdfunding op).expire ≤ c.expire :=
        Prod.Lex.monotone_fst _ _ hle
      have hnew : s.headBlockTime < (s.newCrowdfunding op).expire := by
        simp [newCrowdfunding, crowdfundingPeriod]
      by_contra hfinish
      have hexpired := h.expired c hc (by omega)
      omega
  · intro c hc hfinish
    rw [ho.crowdfundings, List.mem_orderedInsert] at hc
    rw [ho.headBlockTime]
    rcases hc with rfl | hc
    · exact absurd hfinish (by simp [newCrowdfunding])
    · exact h.expired c hc hfinish

/-- An investment changes neither the order nor the state of the campaigns. -/
theorem Invests.firstOnly {op : InvestOperation Name Permlink}
    {c : CrowdfundingObject Name Permlink} {s s' : State Name Permlink} (hi : Invests op c s s')
    (h : FirstOnly s) : FirstOnly s' := by
  have hmap : s'.crowdfundings.map (fun c => (c.expire, c.finish)) =
      s.crowdfundings.map fun c => (c.expire, c.finish) :=
    hi.crowdfundings.map_eq rfl
  constructor
  · intro d hd
    have hd' : (d.expire, d.finish) ∈ (s.crowdfundings.map fun c => (c.expire, c.finish)).tail := by
      rw [← hmap, ← List.map_tail]
      exact List.mem_map_of_mem hd
    rw [← List.map_tail] at hd'
    obtain ⟨e, he, heq⟩ := List.mem_map.mp hd'
    rw [Prod.mk.injEq] at heq
    rw [← heq.2]
    exact h.unfinished e he
  · intro d hd hfinish
    have hd' : (d.expire, d.finish) ∈ s.crowdfundings.map fun c => (c.expire, c.finish) := by
      rw [← hmap]
      exact List.mem_map_of_mem hd
    obtain ⟨e, he, heq⟩ := List.mem_map.mp hd'
    rw [Prod.mk.injEq] at heq
    rw [hi.headBlockTime, ← heq.1]
    exact h.expired e he (heq.2 ▸ hfinish)

variable [DecidableEq Permlink]

end State

end Gamebank.Crowdfunding
