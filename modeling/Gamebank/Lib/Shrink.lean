import Mathlib.Data.List.Basic
import Mathlib.Data.List.Nodup

/-!
# Leaving out what is not needed

A greedy pass over the elements of a list: each is left out in its turn and
stays out if a test accepts what is left (`shrink`). The test may also throw,
and then the pass does. `trials` are the lists that are tested, each with the
element that is left out.

A pass ends with the last list that was accepted, or with the list it began
with if none was (`shrink_eq`). An element that is tested after that is still
needed at the end (`rejected_after`); one that was tested before need not be,
unless the test accepts with a list every longer one (`rejected_of_mono`).
-/

namespace Gamebank.Lib

universe u v

variable {α : Type u} {ε : Type v}

/-- The test accepts the list. -/
def passes (test : List α → Except ε Bool) (l : List α) : Bool :=
  match test l with
  | .ok accepted => accepted
  | .error _ => false

theorem passes_eq_true {test : List α → Except ε Bool} {l : List α} :
    passes test l = true ↔ test l = .ok true := by
  unfold passes
  cases test l with
  | error e => simp
  | ok accepted => simp

variable [DecidableEq α] (test : List α → Except ε Bool)

/-- What is left of a list after each element of the first had its turn. -/
def shrink : List α → List α → Except ε (List α)
  | [], l => .ok l
  | a :: rest, l =>
      match test (l.erase a) with
      | .ok true => shrink rest (l.erase a)
      | .ok false => shrink rest l
      | .error e => .error e

/-- The lists that are tested, each with the element that is left out. -/
def trials : List α → List α → List (α × List α)
  | [], _ => []
  | a :: rest, l =>
      (a, l.erase a) :: trials rest (if passes test (l.erase a) then l.erase a else l)

/-- The last list that is accepted, with the element that is left out. -/
def lastAccepted (rest l : List α) : Option (α × List α) :=
  ((trials test rest l).filter fun trial => passes test trial.2).getLast?

variable {test} {a b : α} {rest l m : List α}

theorem shrink_sublist (h : shrink test rest l = .ok m) : m.Sublist l := by
  induction rest generalizing l with
  | nil =>
      cases h
      exact List.Sublist.refl _
  | cons a rest ih =>
      rw [shrink] at h
      split at h
      · exact (ih h).trans List.erase_sublist
      · exact ih h
      · cases h

/-- Every list that is tested is part of the one the pass begins with. -/
theorem trials_sublist : ∀ trial ∈ trials test rest l, trial.2.Sublist l := by
  induction rest generalizing l with
  | nil => simp [trials]
  | cons a rest ih =>
      intro trial htrial
      rcases List.mem_cons.mp htrial with rfl | htrial
      · exact List.erase_sublist
      · by_cases haccepts : passes test (l.erase a) = true
        · rw [if_pos haccepts] at htrial
          exact (ih trial htrial).trans List.erase_sublist
        · rw [if_neg haccepts] at htrial
          exact ih trial htrial

/-- What is left out is not there. -/
theorem notMem_trial (hl : l.Nodup) : ∀ trial ∈ trials test rest l, trial.1 ∉ trial.2 := by
  induction rest generalizing l with
  | nil => simp [trials]
  | cons a rest ih =>
      intro trial htrial
      rcases List.mem_cons.mp htrial with rfl | htrial
      · exact hl.not_mem_erase
      · by_cases haccepts : passes test (l.erase a) = true
        · rw [if_pos haccepts] at htrial
          exact ih (hl.sublist List.erase_sublist) trial htrial
        · rw [if_neg haccepts] at htrial
          exact ih hl trial htrial

/-- A pass throws exactly if a test does. -/
theorem shrink_returns : (∃ m, shrink test rest l = .ok m) ↔
    ∀ trial ∈ trials test rest l, ∃ accepted, test trial.2 = .ok accepted := by
  induction rest generalizing l with
  | nil => simp [shrink, trials]
  | cons a rest ih =>
      rw [shrink, trials, List.forall_mem_cons]
      cases htest : test (l.erase a) with
      | error e => simp
      | ok accepted =>
          cases accepted with
          | true => simpa [passes_eq_true.mpr htest] using ih
          | false => simpa [passes, htest] using ih

theorem lastAccepted_cons (a : α) (rest l : List α) : lastAccepted test (a :: rest) l =
    if passes test (l.erase a) then
      some ((lastAccepted test rest (l.erase a)).getD (a, l.erase a))
    else lastAccepted test rest l := by
  unfold lastAccepted
  rw [trials]
  by_cases haccepts : passes test (l.erase a) = true
  · simp [haccepts, List.getLast?_cons]
  · simp [haccepts]

/-- A pass ends with the last list that was accepted. -/
theorem shrink_eq (h : shrink test rest l = .ok m) :
    m = ((lastAccepted test rest l).map Prod.snd).getD l := by
  induction rest generalizing l with
  | nil =>
      cases h
      rfl
  | cons a rest ih =>
      rw [shrink] at h
      rw [lastAccepted_cons]
      split at h
      next htest =>
        rw [if_pos (passes_eq_true.mpr htest), ih h]
        cases lastAccepted test rest (l.erase a) <;> rfl
      next htest =>
        rw [if_neg (by simp [passes, htest])]
        exact ih h
      next => cases h

theorem lastAccepted_mem {last : α × List α} (h : lastAccepted test rest l = some last) :
    last ∈ trials test rest l ∧ passes test last.2 = true := by
  simpa using List.mem_filter.mp (List.mem_of_getLast? h)

theorem lastAccepted_none : lastAccepted test rest l = none ↔
    ∀ trial ∈ trials test rest l, passes test trial.2 = false := by
  simp [lastAccepted]

/-- A pass ends with a list that is accepted if it begins with one or comes to one. -/
theorem passes_shrink (h : shrink test rest l = .ok m) : passes test m = true ↔
    passes test l = true ∨ ∃ trial ∈ trials test rest l, passes test trial.2 = true := by
  rw [shrink_eq h]
  cases hlast : lastAccepted test rest l with
  | none =>
      have hnone := lastAccepted_none.mp hlast
      constructor
      · exact fun h => Or.inl h
      · rintro (h | ⟨trial, htrial, h⟩)
        · exact h
        · rw [hnone trial htrial] at h
          cases h
  | some last =>
      obtain ⟨htrial, hpasses⟩ := lastAccepted_mem hlast
      exact ⟨fun h => Or.inr ⟨last, htrial, h⟩, fun _ => hpasses⟩

/-- If no list is accepted, each element is needed in the one the pass begins with. -/
theorem rejected_of_none (h : lastAccepted test rest l = none) :
    ∀ b ∈ rest, passes test (l.erase b) = false := by
  induction rest with
  | nil => simp
  | cons a rest ih =>
      rw [lastAccepted_cons] at h
      by_cases haccepts : passes test (l.erase a) = true
      · rw [if_pos haccepts] at h
        cases h
      · rw [if_neg haccepts] at h
        exact List.forall_mem_cons.mpr ⟨by simpa using haccepts, ih h⟩

/-- An element that is tested after the last list was accepted is needed in it. -/
theorem rejected_after (h : lastAccepted test rest l = some (a, m)) :
    ∃ before after, rest = before ++ a :: after ∧ ∀ b ∈ after, passes test (m.erase b) = false := by
  induction rest generalizing l with
  | nil => cases h
  | cons b rest ih =>
      rw [lastAccepted_cons] at h
      by_cases haccepts : passes test (l.erase b) = true
      · rw [if_pos haccepts, Option.some.injEq] at h
        cases hlast : lastAccepted test rest (l.erase b) with
        | none =>
            rw [hlast, Option.getD_none, Prod.mk.injEq] at h
            obtain ⟨rfl, rfl⟩ := h
            exact ⟨[], rest, rfl, rejected_of_none hlast⟩
        | some last =>
            rw [hlast, Option.getD_some] at h
            obtain ⟨before, after, hrest, hafter⟩ := ih (hlast.trans (congrArg some h))
            exact ⟨b :: before, after, by rw [hrest]; rfl, hafter⟩
      · rw [if_neg haccepts] at h
        obtain ⟨before, after, hrest, hafter⟩ := ih h
        exact ⟨b :: before, after, by rw [hrest]; rfl, hafter⟩

/-- Where longer lists are accepted with shorter ones, what is tested and still
there is needed. -/
theorem rejected_of_mono (hl : l.Nodup)
    (hmono : ∀ k k' : List α, k.Sublist k' → k'.Sublist l → passes test k = true →
      passes test k' = true) (h : shrink test rest l = .ok m) (hb : b ∈ rest) (hbm : b ∈ m) :
    passes test (m.erase b) = false := by
  induction rest generalizing l with
  | nil => cases hb
  | cons a rest ih =>
      rw [shrink] at h
      split at h
      next htest =>
        have hsub : (l.erase a).Sublist l := List.erase_sublist
        rcases List.mem_cons.mp hb with rfl | hb
        · exact absurd ((shrink_sublist h).subset hbm) hl.not_mem_erase
        · exact ih (hl.sublist hsub) (fun k k' hk hk' => hmono k k' hk (hk'.trans hsub)) h hb
      next htest =>
        rcases List.mem_cons.mp hb with rfl | hb
        · -- what is left of the smaller list is part of what was rejected
          rw [Bool.eq_false_iff]
          intro hpasses
          have hall := hmono _ _ ((shrink_sublist h).erase b) List.erase_sublist hpasses
          rw [passes_eq_true, htest] at hall
          cases hall
        · exact ih hl hmono h hb
      next => cases h

end Gamebank.Lib
