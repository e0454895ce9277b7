import Gamebank.Lib.Checked
import Gamebank.Lib.Table

/-!
# Objects that fall due

A loop takes the first object of an index as long as that one is due, and
removes it. If an index whose first object is not due has no object that is,
the loop leaves exactly the objects that are not due, in their order
(`drain_due`).
-/

namespace Gamebank.Lib

universe u

variable {α σ : Type}

/-- Removing an object that `q` does not hold of leaves those it holds of. -/
theorem filter_eraseP {p q : α → Bool} {l : List α} {a : α} (h : l.find? p = some a)
    (hq : q a = false) : (l.eraseP p).filter q = l.filter q := by
  obtain ⟨hp, before, after, hl, hbefore⟩ := List.find?_eq_some_iff_append.mp h
  have hnot : ∀ b ∈ before, ¬p b = true := by simpa using hbefore
  rw [hl, List.eraseP_append_right _ hnot, List.eraseP_cons_of_pos hp, List.filter_append,
    List.filter_append, List.filter_cons_of_neg (by rw [hq]; decide)]

/-- What `dropWhile p` leaves does not meet `q`, if all that come before an object
that meets `q` meet `q`, and so `p`. -/
theorem not_of_mem_dropWhile {p q : α → Bool} {l : List α} (hqp : ∀ a ∈ l, q a = true → p a = true)
    (hl : l.Pairwise fun a b => q b = true → q a = true) {a : α} (ha : a ∈ l.dropWhile p) :
    q a = false := by
  induction l with
  | nil => cases ha
  | cons b rest ih =>
      obtain ⟨hb, hrest⟩ := List.pairwise_cons.mp hl
      cases hp : p b with
      | true =>
          rw [List.dropWhile_cons_of_pos hp] at ha
          exact ih (fun c hc => hqp c (List.mem_cons_of_mem b hc)) hrest ha
      | false =>
          have hqb : ¬q b = true := fun hqb => by
            rw [hqp b List.mem_cons_self hqb] at hp
            cases hp
          rw [List.dropWhile_cons_of_neg (by simp [hp])] at ha
          rcases List.mem_cons.mp ha with rfl | ha
          · exact Bool.not_eq_true _ ▸ hqb
          · exact Bool.not_eq_true _ ▸ fun hqa => hqb (hb a ha hqa)

/-- In such an order `dropWhile` removes all that meet `p`. -/
theorem dropWhile_eq_filter {p : α → Bool} {l : List α}
    (hl : l.Pairwise fun a b => p b = true → p a = true) :
    l.dropWhile p = l.filter fun a => !p a := by
  induction l with
  | nil => rfl
  | cons b rest ih =>
      obtain ⟨hb, hrest⟩ := List.pairwise_cons.mp hl
      cases hp : p b with
      | true => rw [List.dropWhile_cons_of_pos hp, ih hrest, List.filter_cons_of_neg (by simp [hp])]
      | false =>
          rw [List.dropWhile_cons_of_neg (by simp [hp]), List.filter_cons_of_pos (by simp [hp])]
          congr 1
          refine (List.filter_eq_self.mpr fun a ha => ?_).symm
          simpa [hp] using hb a ha

namespace Table

/-- A composite key of a time and a name. -/
def byTime (time : α → Nat) (name : α → String) (a b : α) : Bool :=
  time a < time b || (time a = time b && name a < name b)

variable {t : Table α} {time : α → Nat} {name : α → String} {now : Nat} {a : α}

theorem le_of_byTime {b : α} (h : byTime time name a b = true) : time a ≤ time b := by
  simp only [byTime, Bool.or_eq_true, Bool.and_eq_true, decide_eq_true_eq] at h
  omega

theorem le_of_not_byTime {b : α} (h : byTime time name a b = false) : time b ≤ time a := by
  simp only [byTime, Bool.or_eq_false_iff, decide_eq_false_iff_not] at h
  omega

/-- No object comes earlier than the first, in an order that is first by time. -/
theorem time_least_le {lt : α → α → Bool} (hlt : ∀ a b, lt a b = true → time a ≤ time b)
    (hnot : ∀ a b, lt a b = false → time b ≤ time a) {l : List α} (h : least lt l = some a) :
    ∀ b ∈ l, time a ≤ time b := by
  induction l generalizing a with
  | nil => cases h
  | cons b rest ih =>
      rw [least] at h
      cases hrest : least lt rest with
      | none =>
          rw [hrest] at h
          obtain rfl := Option.some.inj h
          rw [least_eq_none] at hrest
          intro c hc
          rw [hrest, List.mem_singleton] at hc
          rw [hc]
      | some c =>
          rw [hrest] at h
          have hc := ih hrest
          cases hcb : lt c b with
          | true =>
              obtain rfl : c = a := by simpa [hcb] using h
              intro d hd
              rcases List.mem_cons.mp hd with rfl | hd
              · exact hlt _ _ hcb
              · exact hc d hd
          | false =>
              obtain rfl : b = a := by simpa [hcb] using h
              intro d hd
              rcases List.mem_cons.mp hd with rfl | hd
              · exact Nat.le_refl _
              · exact (hnot _ _ hcb).trans (hc d hd)

/-- If the first object is not due, none is. -/
theorem lt_of_first_none {lt : α → α → Bool} (hlt : ∀ a b, lt a b = true → time a ≤ time b)
    (hnot : ∀ a b, lt a b = false → time b ≤ time a)
    (h : ((t.first lt).filter fun a => time a ≤ now) = none) : ∀ a ∈ t.rows, now < time a := by
  intro a ha
  have hfirst : t.first lt ≠ none := by
    intro hnone
    rw [first, least_eq_none] at hnone
    rw [hnone] at ha
    cases ha
  obtain ⟨b, hb⟩ := Option.ne_none_iff_exists'.mp hfirst
  have hlate := Option.filter_eq_none_iff.mp h b hb
  have hle := time_least_le hlt hnot hb a ha
  rw [decide_eq_true_eq] at hlate
  omega

/-- The first object by its time, if that has come. -/
def firstDue (t : Table α) (time : α → Nat) (name : α → String) (now : Nat) : Option α :=
  (t.first (byTime time name)).filter fun a => time a ≤ now

theorem firstDue_some (h : t.firstDue time name now = some a) : a ∈ t.rows ∧ time a ≤ now := by
  obtain ⟨hfirst, htime⟩ := Option.filter_eq_some_iff.mp h
  exact ⟨mem_of_least hfirst, of_decide_eq_true htime⟩

theorem firstDue_none (h : t.firstDue time name now = none) : ∀ a ∈ t.rows, now < time a :=
  lt_of_first_none (fun _ _ => le_of_byTime) (fun _ _ => le_of_not_byTime) h

end Table

/-- **The loop leaves what is not due.** The body keeps `I` and removes the
object it is given; `keep` holds of the objects that are not due. -/
theorem drain_due (rows : σ → List α) (keep : α → Bool) (I : σ → Prop) {due : σ → Option α}
    {body : α → σ → Except String σ}
    (hdue : ∀ s a, I s → due s = some a → a ∈ rows s ∧ keep a = false)
    (hnone : ∀ s, I s → due s = none → ∀ a ∈ rows s, keep a = true)
    (hbody : ∀ s a, I s → due s = some a → Completes (body a s) fun s' => I s' ∧
      ∃ p, (rows s).find? p = some a ∧ rows s' = (rows s).eraseP p)
    {fuel : Nat} {s : σ} (hs : I s) (hfuel : (rows s).length < fuel) :
    Completes (drain due body fuel s) fun s' => I s' ∧ rows s' = (rows s).filter keep := by
  induction fuel generalizing s with
  | zero => omega
  | succ fuel ih =>
      unfold drain
      cases hfirst : due s with
      | none => exact .ok ⟨hs, (List.filter_eq_self.mpr (hnone s hs hfirst)).symm⟩
      | some a =>
          obtain ⟨hmem, hkeep⟩ := hdue s a hs hfirst
          obtain ⟨s', hs', hI, p, hfind, hrows⟩ := hbody s a hs hfirst
          have hlength : (rows s').length < (rows s).length := by
            rw [hrows, List.length_eraseP_of_mem hmem (List.find?_some hfind)]
            exact Nat.sub_lt (List.length_pos_of_mem hmem) Nat.one_pos
          have hrest := ih hI (by omega)
          rw [hrows, filter_eraseP hfind hkeep] at hrest
          dsimp only
          rw [hs']
          exact hrest

end Gamebank.Lib
