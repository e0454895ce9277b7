import Gamebank.Lib.Checked
import Mathlib.Data.List.Basic

/-!
# Values on a stream

A reader takes a value off the front of the bytes that are left, or throws.
`Reads r front a` says that `a` is what `r` takes off `front`, whatever comes
behind it; `Local` readers look at nothing but the bytes they take.
-/

namespace Gamebank.Lib

/-- A value and the bytes behind it. -/
abbrev Reader (α : Type) := List UInt8 → Except String (α × List UInt8)

variable {α β : Type}

/-- The bytes `front` are read as `a`. -/
def Reads (r : Reader α) (front : List UInt8) (a : α) : Prop :=
  ∀ rest, r (front ++ rest) = .ok (a, rest)

namespace Reader

/-- What is read does not depend on the bytes that are left. -/
def Local (r : Reader α) : Prop :=
  ∀ s a rest, r s = .ok (a, rest) → ∃ front, s = front ++ rest ∧ Reads r front a

def pure (a : α) : Reader α := fun s => .ok (a, s)

/-- One value, and with it another. -/
def bind (r : Reader α) (f : α → Reader β) : Reader β := fun s => do
  let (a, s) ← r s
  f a s

def map (f : α → β) (r : Reader α) : Reader β := r.bind fun a => pure (f a)

/-- An assertion between two values. -/
def check (condition : Bool) (message : String) : Reader Unit := fun s => do
  ensure condition message
  return ((), s)

/-- The next `n` bytes. -/
def bytes (message : String) (n : Nat) : Reader (List UInt8) := fun s => do
  ensure (n ≤ s.length) message
  return (s.take n, s.drop n)

/-- As many values as are asked for. -/
def times (r : Reader α) : Nat → Reader (List α)
  | 0 => pure []
  | n + 1 => r.bind fun a => (r.times n).map (a :: ·)

end Reader

open Reader

/-! ## Reading what stands there -/

namespace Reads

variable {r : Reader α} {f : α → Reader β} {front back : List UInt8} {a a' : α} {b : β}

theorem pure (a : α) : Reads (Reader.pure a) [] a := fun _ => rfl

theorem bind (ha : Reads r front a) (hb : Reads (f a) back b) :
    Reads (r.bind f) (front ++ back) b := by
  intro rest
  rw [Reader.bind, List.append_assoc]
  exact bind_eq_ok.mpr ⟨(a, back ++ rest), ha _, hb rest⟩

theorem map (g : α → β) (ha : Reads r front a) : Reads (r.map g) front (g a) := by
  rw [← List.append_nil front]
  exact ha.bind (pure (g a))

theorem check {condition : Bool} {message : String} (h : condition = true) :
    Reads (Reader.check condition message) [] () := by
  intro rest
  exact ensure_bind_eq_ok.mpr ⟨h, rfl⟩

/-- After an assertion that holds. -/
theorem check_bind {condition : Bool} {message : String} {f : Unit → Reader β}
    (h : condition = true) (hb : Reads (f ()) back b) :
    Reads ((Reader.check condition message).bind f) back b :=
  (check h).bind hb

theorem bytes (message : String) (text : List UInt8) :
    Reads (Reader.bytes message text.length) text text := by
  intro rest
  refine ensure_bind_eq_ok.mpr ⟨?_, ?_⟩
  · rw [decide_eq_true_eq, List.length_append]
    omega
  · rw [List.take_left, List.drop_left]
    rfl

/-- Values that stand one behind the other. -/
theorem times {fronts : List (List UInt8)} {l : List α} (h : List.Forall₂ (Reads r) fronts l) :
    Reads (r.times l.length) fronts.flatten l := by
  induction h with
  | nil => exact pure []
  | cons hfront _ ih => exact hfront.bind (ih.map _)

/-- Where one reader finds two values in the same bytes, they are the same. -/
theorem unique (ha : Reads r front a) (ha' : Reads r back a') {rest rest' : List UInt8}
    (h : front ++ rest = back ++ rest') : a = a' ∧ rest = rest' := by
  have hread := ha rest
  rw [h, ha' rest'] at hread
  obtain ⟨rfl, rfl⟩ := Prod.mk.inj (Except.ok.inj hread)
  exact ⟨rfl, rfl⟩

end Reads

/-! ## Readers that look at what they take only -/

namespace Reader.Local

variable {r : Reader α} {f : α → Reader β}

theorem pure (a : α) : (Reader.pure a).Local := by
  intro s a' rest h
  obtain ⟨rfl, rfl⟩ := Prod.mk.inj (Except.ok.inj h)
  exact ⟨[], rfl, Reads.pure a⟩

theorem bind (hr : r.Local) (hf : ∀ a, (f a).Local) : (r.bind f).Local := by
  intro s b rest h
  obtain ⟨⟨a, s'⟩, ha, hb⟩ := bind_eq_ok.mp h
  obtain ⟨front, rfl, hfront⟩ := hr s a s' ha
  obtain ⟨back, rfl, hback⟩ := hf a s' b rest hb
  exact ⟨front ++ back, (List.append_assoc front back rest).symm, hfront.bind hback⟩

theorem map (g : α → β) (hr : r.Local) : (r.map g).Local := hr.bind fun a => pure (g a)

theorem check (condition : Bool) (message : String) : (Reader.check condition message).Local := by
  intro s u rest h
  obtain ⟨hc, h⟩ := ensure_bind_eq_ok.mp h
  obtain ⟨-, rfl⟩ := Prod.mk.inj (Except.ok.inj h)
  exact ⟨[], rfl, Reads.check hc⟩

theorem bytes (message : String) (n : Nat) : (Reader.bytes message n).Local := by
  intro s text rest h
  obtain ⟨hlength, h⟩ := ensure_bind_eq_ok.mp h
  obtain ⟨rfl, rfl⟩ := Prod.mk.inj (Except.ok.inj h)
  rw [decide_eq_true_eq] at hlength
  refine ⟨s.take n, (List.take_append_drop n s).symm, ?_⟩
  have hbytes := Reads.bytes message (s.take n)
  rwa [List.length_take, Nat.min_eq_left hlength] at hbytes

theorem times (hr : r.Local) (n : Nat) : (r.times n).Local := by
  induction n with
  | zero => exact pure []
  | succ n ih => exact hr.bind fun a => ih.map (a :: ·)

theorem ite {c : Prop} [Decidable c] {r' : Reader α} (hr : c → r.Local) (hr' : ¬c → r'.Local) :
    (if c then r else r').Local := by
  split
  next h => exact hr h
  next h => exact hr' h

/-- A reader that throws. -/
theorem error (message : String) : Local (fun _ => .error message : Reader α) := by
  intro s a rest h
  cases h

end Reader.Local

/-! ## The parts of what was read -/

namespace Reads

variable {r : Reader α} {f : α → Reader β} {front : List UInt8} {a : α} {b : β}

theorem of_pure {a' : α} (h : Reads (Reader.pure a) front a') : a = a' ∧ front = [] := by
  have hread := h []
  rw [List.append_nil] at hread
  exact Prod.mk.inj (Except.ok.inj hread)

theorem of_bind (hr : r.Local) (hf : ∀ a, (f a).Local) (h : Reads (r.bind f) front b) :
    ∃ a first second, front = first ++ second ∧ Reads r first a ∧ Reads (f a) second b := by
  have hread := h []
  rw [List.append_nil] at hread
  obtain ⟨⟨a, s'⟩, ha, hb⟩ := bind_eq_ok.mp hread
  obtain ⟨first, rfl, hfirst⟩ := hr front a s' ha
  obtain ⟨second, rfl, hsecond⟩ := hf a s' b [] hb
  exact ⟨a, first, second, by rw [List.append_nil], hfirst, hsecond⟩

theorem of_map {g : α → β} (hr : r.Local) (h : Reads (r.map g) front b) :
    ∃ a, Reads r front a ∧ b = g a := by
  obtain ⟨a, first, second, rfl, ha, hb⟩ := of_bind hr (fun a => Local.pure (g a)) h
  obtain ⟨rfl, rfl⟩ := of_pure hb
  exact ⟨a, by rwa [List.append_nil], rfl⟩

theorem of_check {condition : Bool} {message : String} {u : Unit}
    (h : Reads (Reader.check condition message) front u) : condition = true ∧ front = [] := by
  have hread := h []
  rw [List.append_nil] at hread
  obtain ⟨hc, hread⟩ := ensure_bind_eq_ok.mp hread
  exact ⟨hc, (Prod.mk.inj (Except.ok.inj hread)).2⟩

theorem of_check_bind {condition : Bool} {message : String} {f : Unit → Reader β}
    (hf : (f ()).Local) (h : Reads ((Reader.check condition message).bind f) front b) :
    condition = true ∧ Reads (f ()) front b := by
  obtain ⟨u, first, second, rfl, hcheck, hb⟩ := of_bind (Local.check _ _) (fun _ => hf) h
  obtain ⟨hc, rfl⟩ := of_check hcheck
  exact ⟨hc, hb⟩

theorem of_bytes {message : String} {n : Nat} {text : List UInt8}
    (h : Reads (Reader.bytes message n) front text) : text = front ∧ front.length = n := by
  have hread := h []
  rw [List.append_nil] at hread
  obtain ⟨hlength, hread⟩ := ensure_bind_eq_ok.mp hread
  rw [decide_eq_true_eq] at hlength
  obtain ⟨rfl, hrest⟩ := Prod.mk.inj (Except.ok.inj hread)
  have hle := List.drop_eq_nil_iff.mp hrest
  exact ⟨List.take_of_length_le hle, by omega⟩

theorem of_times {n : Nat} {l : List α} (hr : r.Local) (h : Reads (r.times n) front l) :
    ∃ fronts, front = fronts.flatten ∧ List.Forall₂ (Reads r) fronts l ∧ l.length = n := by
  induction n generalizing front l with
  | zero =>
      obtain ⟨rfl, rfl⟩ := of_pure h
      exact ⟨[], rfl, List.Forall₂.nil, rfl⟩
  | succ n ih =>
      obtain ⟨a, first, second, rfl, ha, hrest⟩ :=
        of_bind hr (fun a => (Local.times hr n).map (a :: ·)) h
      obtain ⟨rest, hothers, rfl⟩ := of_map (Local.times hr n) hrest
      obtain ⟨fronts, rfl, hfronts, hlength⟩ := ih hothers
      exact ⟨first :: fronts, rfl, hfronts.cons ha, by rw [List.length_cons, hlength]⟩

end Reads

end Gamebank.Lib
