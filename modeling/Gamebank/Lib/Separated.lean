/-!
# Lists of pieces

A list may be read as pieces between separators. If no piece holds a separator
itself, there is one way to read it, which `List.splitOn` finds.
-/

namespace Gamebank.Lib

universe u v

/-- One piece or several, each but the last followed by a separator. -/
inductive Separated {α : Type u} (sep : α) (P : List α → Prop) : List α → Prop
  | last {piece : List α} : P piece → Separated sep P piece
  | cons {piece rest : List α} :
      P piece → Separated sep P rest → Separated sep P (piece ++ sep :: rest)

namespace Separated

variable {α : Type u} {β : Type v} {sep : α} {P : List α → Prop} {piece rest l : List α}

section

variable [BEq α] [LawfulBEq α]

theorem iff_splitOn (hP : ∀ piece, P piece → sep ∉ piece) :
    Separated sep P l ↔ ∀ piece ∈ l.splitOn sep, P piece := by
  constructor
  · intro h
    induction h with
    | last hpiece =>
        rw [List.splitOn_eq_singleton (hP _ hpiece)]
        simpa using hpiece
    | cons hpiece _ ih =>
        rw [List.splitOn_append_cons_self_of_not_mem (hP _ hpiece)]
        simpa using ⟨hpiece, ih⟩
  · -- the length of what is still to be read
    induction hn : l.length using Nat.strongRecOn generalizing l with
    | ind n ih =>
        intro h
        by_cases hmem : sep ∈ l
        · obtain ⟨piece, rest, rfl, hnot⟩ := List.eq_append_cons_of_mem hmem
          rw [List.splitOn_append_cons_self_of_not_mem hnot] at h
          have hlength : rest.length < n := by
            rw [← hn, List.length_append, List.length_cons]
            omega
          apply Separated.cons (h piece List.mem_cons_self)
          exact ih rest.length hlength rfl fun p hp => h p (List.mem_cons_of_mem piece hp)
        · rw [List.splitOn_eq_singleton hmem] at h
          exact Separated.last (h l List.mem_cons_self)

theorem iff_of_not_mem (hP : ∀ piece, P piece → sep ∉ piece) (h : sep ∉ l) :
    Separated sep P l ↔ P l := by
  rw [iff_splitOn hP, List.splitOn_eq_singleton h]
  simp

theorem append_cons_iff (hP : ∀ piece, P piece → sep ∉ piece) (h : sep ∉ piece) :
    Separated sep P (piece ++ sep :: rest) ↔ P piece ∧ Separated sep P rest := by
  rw [iff_splitOn hP, iff_splitOn hP, List.splitOn_append_cons_self_of_not_mem h]
  simp

end

/-- What holds of the elements of every piece holds of all but the separators. -/
theorem forall_mem {Q : α → Prop} (h : ∀ piece, P piece → ∀ a ∈ piece, Q a) (hsep : Q sep)
    (hl : Separated sep P l) : ∀ a ∈ l, Q a := by
  induction hl with
  | last hpiece => exact h _ hpiece
  | cons hpiece _ ih =>
      intro a ha
      rcases List.mem_append.mp ha with ha | ha
      · exact h _ hpiece a ha
      · rcases List.mem_cons.mp ha with rfl | ha
        · exact hsep
        · exact ih a ha

/-- Other names for the elements. -/
theorem map_iff {f : α → β} {P : List β → Prop} (hf : ∀ a b, f a = f b → a = b) :
    Separated (f sep) P (l.map f) ↔ Separated sep (fun piece => P (piece.map f)) l := by
  constructor
  · intro h
    generalize hm : l.map f = m at h
    induction h generalizing l with
    | last hpiece => exact .last (hm ▸ hpiece)
    | cons hpiece _ ih =>
        obtain ⟨piece, tail, rfl, rfl, htail⟩ := List.map_eq_append_iff.mp hm
        obtain ⟨a, rest, rfl, ha, hrest⟩ := List.map_eq_cons_iff.mp htail
        obtain rfl := hf a sep ha
        exact .cons hpiece (ih hrest)
  · intro h
    induction h with
    | last hpiece => exact .last hpiece
    | cons hpiece _ ih =>
        rw [List.map_append, List.map_cons]
        exact .cons hpiece ih

end Separated

end Gamebank.Lib
