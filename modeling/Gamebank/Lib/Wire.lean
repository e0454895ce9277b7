import Gamebank.Lib.Reader
import Gamebank.Lib.SortedVector

/-!
# Types on the wire

A type that is packed is described by how it is built (`Ty`): from leaves with
a form of their own, by pairs, optional values, vectors, sorted sets and maps,
and variants with a tag. `pack` and `unpack` follow the description.

What is unpacked is `Bounded`: sets are sorted, and nothing is larger than the
format allows. A bounded value all of whose leaves are `Faithful` comes back
from the bytes it is packed to. Where a leaf that was read packs to at most
`k` times the bytes it was read from, so does every type.
-/

namespace Gamebank.Lib

/-! ## Formats -/

/-- How elements are counted, and what a reader asserts. -/
structure Format where
  /-- The number of values of a count. -/
  bound : Nat
  packCount : Nat → List UInt8
  unpackCount : Reader Nat
  maxAlloc : Nat
  vectorMessage : String
  mapMessage : String
  tagMessage : String
  flagMessage : String
  readMessage : String
  reads_count : ∀ {n}, n < bound → Reads unpackCount (packCount n) n
  local_count : unpackCount.Local
  count_lt : ∀ {front n}, Reads unpackCount front n → n < bound
  count_le : ∀ {front n}, Reads unpackCount front n → (packCount n).length ≤ front.length
  count_mono : ∀ {m n}, m ≤ n → (packCount m).length ≤ (packCount n).length

/-- A type with a form of its own. What is read is `Bounded`; a bounded value
that is `Faithful` is read again from what it is packed to. -/
structure Leaf (k : Nat) where
  Val : Type
  pack : Val → Except String (List UInt8)
  unpack : Reader Val
  less : Val → Val → Bool
  Bounded : Val → Prop
  Faithful : Val → Prop
  reads : ∀ {a}, Bounded a → Faithful a → Completes (pack a) fun bytes => Reads unpack bytes a
  local_unpack : unpack.Local
  bounded : ∀ {front a}, Reads unpack front a → Bounded a
  pack_le : ∀ {front a}, Reads unpack front a →
    Returns (pack a) fun bytes => bytes.length ≤ k * front.length
  less_trans : ∀ a b c, less a b = true → less b c = true → less a c = true

/-- How a type is built. `size` is the memory one element takes. -/
inductive Ty (k : Nat) where
  | leaf (l : Leaf k)
  | unit
  | pair (first second : Ty k)
  | optional (t : Ty k)
  | vector (size : Nat) (t : Ty k)
  | flatSet (size : Nat) (t : Ty k)
  | flatMap (size : Nat) (key value : Ty k)
  | variant (n : Nat) (alternatives : Fin n → Ty k)

/-- The elements of a list, one behind the other. -/
def packAll {α : Type} (pack : α → Except String (List UInt8)) (l : List α) :
    Except String (List UInt8) := do
  let parts ← l.mapM pack
  return parts.flatten

namespace Ty

variable {k : Nat}

/-- The values of a type; a variant has a tag and a value of that alternative. -/
def Val : Ty k → Type
  | leaf l => l.Val
  | unit => Unit
  | pair first second => first.Val × second.Val
  | optional t => Option t.Val
  | vector _ t => List t.Val
  | flatSet _ t => List t.Val
  | flatMap _ key value => List (key.Val × value.Val)
  | variant n alternatives => (i : Fin n) × (alternatives i).Val

/-- The order in a set. Variants compare by their tag; other built types are
in no set, and no two of their values are in order. -/
def less : (t : Ty k) → t.Val → t.Val → Bool
  | leaf l => l.less
  | variant _ _ => fun a b => a.1 < b.1
  | unit => fun _ _ => false
  | pair _ _ => fun _ _ => false
  | optional _ => fun _ _ => false
  | vector _ _ => fun _ _ => false
  | flatSet _ _ => fun _ _ => false
  | flatMap _ _ _ => fun _ _ => false

/-- A map is in the order of its keys. -/
def lessKey (key value : Ty k) (a b : key.Val × value.Val) : Bool := key.less a.1 b.1

variable (f : Format)

/-- How many there are, and then each of them. -/
def packCounted {α : Type} (pack : α → Except String (List UInt8)) (l : List α) :
    Except String (List UInt8) := do
  let parts ← packAll pack l
  return f.packCount (l.length % f.bound) ++ parts

def pack : (t : Ty k) → t.Val → Except String (List UInt8)
  | leaf l, a => l.pack a
  | unit, _ => .ok []
  | pair first second, a => do
      let front ← pack first a.1
      let back ← pack second a.2
      return front ++ back
  | optional _, none => .ok [0]
  | optional t, some a => do
      let back ← pack t a
      return 1 :: back
  | vector _ t, l => packCounted f (pack t) l
  | flatSet _ t, l => packCounted f (pack t) l
  | flatMap _ key value, l => packCounted f (fun a => do
      let front ← pack key a.1
      let back ← pack value a.2
      return front ++ back) l
  | variant _ alternatives, a => do
      let back ← pack (alternatives a.1) a.2
      return f.packCount a.1 ++ back

/-- A `bool` in a byte. -/
def unpackFlag : Reader Bool
  | [] => .error f.readMessage
  | b :: rest => do
      ensure (b &&& 0xFE = 0) f.flagMessage
      return (b ≠ 0, rest)

/-- A count that fits, and as many values. -/
def unpackCounted {α : Type} (unpack : Reader α) (size : Nat) (message : String) :
    Reader (List α) :=
  f.unpackCount.bind fun n =>
    (Reader.check (n * size < f.maxAlloc) message).bind fun _ => unpack.times n

def unpack : (t : Ty k) → Reader t.Val
  | leaf l => l.unpack
  | unit => Reader.pure ()
  | pair first second => (unpack first).bind fun a => (unpack second).map fun b => (a, b)
  | optional t =>
      (unpackFlag f).bind fun present =>
        if present then (unpack t).map some else Reader.pure none
  | vector size t => unpackCounted f (unpack t) size f.vectorMessage
  | flatSet size t => (unpackCounted f (unpack t) size f.vectorMessage).map (insertAll t.less)
  | flatMap size key value =>
      (unpackCounted f ((unpack key).bind fun a => (unpack value).map fun b => (a, b)) size
        f.mapMessage).map (insertAll (lessKey key value))
  | variant n alternatives =>
      f.unpackCount.bind fun tag =>
        if h : tag < n then (unpack (alternatives ⟨tag, h⟩)).map fun a => ⟨⟨tag, h⟩, a⟩
        else fun _ => .error f.tagMessage

/-- A list that can be counted and allocated, each element of which meets `P`. -/
structure Fits {α : Type} (P : α → Prop) (size : Nat) (l : List α) : Prop where
  each : ∀ a ∈ l, P a
  counted : l.length < f.bound
  allocated : l.length * size < f.maxAlloc

/-- What is guaranteed of a value that was read. -/
def Bounded : (t : Ty k) → t.Val → Prop
  | leaf l, a => l.Bounded a
  | unit, _ => True
  | pair first second, a => Bounded first a.1 ∧ Bounded second a.2
  | optional _, none => True
  | optional t, some a => Bounded t a
  | vector size t, l => Fits f (Bounded t) size l
  | flatSet size t, l => Fits f (Bounded t) size l ∧ SortedBy t.less l
  | flatMap size key value, l =>
      Fits f (fun a => Bounded key a.1 ∧ Bounded value a.2) size l ∧ SortedBy (lessKey key value) l
  | variant _ alternatives, a => a.1.val < f.bound ∧ Bounded (alternatives a.1) a.2

/-- Every element of the list meets `P`. -/
def Each {α : Type} (P : α → Prop) (l : List α) : Prop := ∀ a ∈ l, P a

/-- All leaves of the value are. -/
def Faithful : (t : Ty k) → t.Val → Prop
  | leaf l, a => l.Faithful a
  | unit, _ => True
  | pair first second, a => Faithful first a.1 ∧ Faithful second a.2
  | optional _, none => True
  | optional t, some a => Faithful t a
  | vector _ t, l => Each (Faithful t) l
  | flatSet _ t, l => Each (Faithful t) l
  | flatMap _ key value, l => Each (fun a => Faithful key a.1 ∧ Faithful value a.2) l
  | variant _ alternatives, a => Faithful (alternatives a.1) a.2

/-! ## Records -/

/-- A class, by the types of its fields. -/
def record (l : List (Ty k)) : Ty k := l.foldr pair unit

/-- The first fields of a record and the others. -/
def split : (l l' : List (Ty k)) → (record (l ++ l')).Val → (record l).Val × (record l').Val
  | [], _, a => ((), a)
  | _ :: l, l', a => ((a.1, (split l l' a.2).1), (split l l' a.2).2)

/-- A record that goes on is packed as its first fields and then the others. -/
theorem pack_append (l l' : List (Ty k)) (a : (record (l ++ l')).Val) :
    pack f (record (l ++ l')) a = (do
      let front ← pack f (record l) (split l l' a).1
      let back ← pack f (record l') (split l l' a).2
      return front ++ back) := by
  induction l with
  | nil =>
      show pack f (record l') a = (pack f (record l') a >>= fun back => pure ([] ++ back))
      simp only [List.nil_append, bind_pure]
  | cons t l ih =>
      have hrest := ih a.2
      show (do
        let front ← pack f t a.1
        let back ← pack f (record (l ++ l')) a.2
        pure (front ++ back)) = (do
        let front ← (do
          let front ← pack f t a.1
          let back ← pack f (record l) (split l l' a.2).1
          pure (front ++ back))
        let back ← pack f (record l') (split l l' a.2).2
        pure (front ++ back))
      rw [hrest]
      simp only [bind_assoc, pure_bind, List.append_assoc]

theorem bounded_append {l l' : List (Ty k)} {a : (record (l ++ l')).Val}
    (h : (record (l ++ l')).Bounded f a) :
    (record l).Bounded f (split l l' a).1 ∧ (record l').Bounded f (split l l' a).2 := by
  induction l with
  | nil => exact ⟨trivial, h⟩
  | cons t l ih =>
      obtain ⟨hfirst, hrest⟩ := h
      exact ⟨⟨hfirst, (ih hrest).1⟩, (ih hrest).2⟩

theorem faithful_append {l l' : List (Ty k)} {a : (record (l ++ l')).Val}
    (h : (record (l ++ l')).Faithful a) :
    (record l).Faithful (split l l' a).1 ∧ (record l').Faithful (split l l' a).2 := by
  induction l with
  | nil => exact ⟨trivial, h⟩
  | cons t l ih =>
      obtain ⟨hfirst, hrest⟩ := h
      exact ⟨⟨hfirst, (ih hrest).1⟩, (ih hrest).2⟩

theorem split_injective {l l' : List (Ty k)} {a b : (record (l ++ l')).Val}
    (h : split l l' a = split l l' b) : a = b := by
  induction l with
  | nil => exact congrArg Prod.snd h
  | cons t l ih =>
      obtain ⟨hfront, hback⟩ := Prod.mk.inj h
      obtain ⟨hfirst, hfront⟩ := Prod.mk.inj hfront
      have hrest := ih (a := a.2) (b := b.2) (Prod.ext hfront hback)
      exact Prod.ext hfirst hrest

/-! ## Parts of a format -/

section

variable {f} {α β : Type} {packα : α → Except String (List UInt8)} {unpackα : Reader α}
  {packβ : β → Except String (List UInt8)} {unpackβ : Reader β} {P : α → Prop} {Q : β → Prop}

/-- Values that meet `P` are read again from what they are packed to. -/
def RoundTrip (pack : α → Except String (List UInt8)) (unpack : Reader α) (P : α → Prop) : Prop :=
  ∀ a, P a → Completes (pack a) fun bytes => Reads unpack bytes a

/-- What is read packs to at most `k` times the bytes it was read from. -/
def Grows (k : Nat) (pack : α → Except String (List UInt8)) (unpack : Reader α) : Prop :=
  ∀ front a, Reads unpack front a → Returns (pack a) fun bytes => bytes.length ≤ k * front.length

theorem RoundTrip.pair (hα : RoundTrip packα unpackα P) (hβ : RoundTrip packβ unpackβ Q) :
    RoundTrip (fun a : α × β => do
        let front ← packα a.1
        let back ← packβ a.2
        return front ++ back)
      (unpackα.bind fun a => unpackβ.map fun b => (a, b)) fun a => P a.1 ∧ Q a.2 := by
  rintro ⟨a, b⟩ ⟨ha, hb⟩
  refine (hα a ha).bind fun front hfront => (hβ b hb).bind fun back hback => Completes.pure ?_
  exact hfront.bind (hback.map _)

theorem Grows.pair (hα : Grows k packα unpackα) (hβ : Grows k packβ unpackβ)
    (hlα : unpackα.Local) (hlβ : unpackβ.Local) :
    Grows k (fun a : α × β => do
        let front ← packα a.1
        let back ← packβ a.2
        return front ++ back)
      (unpackα.bind fun a => unpackβ.map fun b => (a, b)) := by
  intro front c hc
  obtain ⟨a, first, second, rfl, ha, hrest⟩ := Reads.of_bind hlα (fun a => hlβ.map _) hc
  obtain ⟨b, hb, rfl⟩ := Reads.of_map hlβ hrest
  refine (hα first a ha).bind fun x hx => (hβ second b hb).bind fun y hy => Returns.pure ?_
  rw [List.length_append, List.length_append, Nat.mul_add]
  exact Nat.add_le_add hx hy

/-- The elements of a list, each of which is read again. -/
theorem RoundTrip.mapM (h : RoundTrip packα unpackα P) {l : List α} (hl : ∀ a ∈ l, P a) :
    Completes (l.mapM packα) fun parts => List.Forall₂ (Reads unpackα) parts l := by
  induction l with
  | nil => exact Completes.pure List.Forall₂.nil
  | cons a rest ih =>
      rw [List.mapM_cons]
      refine (h a (hl a List.mem_cons_self)).bind fun front hfront => ?_
      refine (ih fun b hb => hl b (List.mem_cons_of_mem a hb)).bind fun parts hparts => ?_
      exact Completes.pure (hparts.cons hfront)

theorem RoundTrip.counted (h : RoundTrip packα unpackα P) (size : Nat) (message : String) :
    RoundTrip (packCounted f packα) (unpackCounted f unpackα size message) (Fits f P size) := by
  intro l hl
  unfold packCounted packAll
  simp only [bind_assoc, pure_bind]
  refine (h.mapM hl.each).bind fun parts hparts => Completes.pure ?_
  rw [Nat.mod_eq_of_lt hl.counted]
  refine (f.reads_count hl.counted).bind (Reads.check_bind ?_ (Reads.times hparts))
  exact decide_eq_true hl.allocated

theorem local_unpackCounted (h : unpackα.Local) (size : Nat) (message : String) :
    (unpackCounted f unpackα size message).Local :=
  f.local_count.bind fun n => (Reader.Local.check _ _).bind fun _ => h.times n

/-- What is known of a list that was read: its elements were. -/
theorem of_unpackCounted (hlocal : unpackα.Local) {size : Nat} {message : String}
    {front : List UInt8} {l : List α} (h : Reads (unpackCounted f unpackα size message) front l) :
    ∃ first fronts, front = first ++ fronts.flatten ∧ Reads f.unpackCount first l.length ∧
      l.length * size < f.maxAlloc ∧ List.Forall₂ (Reads unpackα) fronts l := by
  obtain ⟨n, first, second, rfl, hfirst, hrest⟩ := Reads.of_bind f.local_count
    (fun n => (Reader.Local.check _ _).bind fun _ => hlocal.times n) h
  obtain ⟨hsize, hrest⟩ := Reads.of_check_bind (hlocal.times n) hrest
  obtain ⟨fronts, rfl, hfronts, rfl⟩ := Reads.of_times hlocal hrest
  exact ⟨first, fronts, rfl, hfirst, of_decide_eq_true hsize, hfronts⟩

theorem fits_of_reads (hlocal : unpackα.Local) (hbounded : ∀ front a, Reads unpackα front a → P a)
    {size : Nat} {message : String} {front : List UInt8} {l : List α}
    (h : Reads (unpackCounted f unpackα size message) front l) : Fits f P size l := by
  obtain ⟨first, fronts, -, hfirst, hsize, hfronts⟩ := of_unpackCounted hlocal h
  refine ⟨fun a ha => ?_, f.count_lt hfirst, hsize⟩
  obtain ⟨i, hi, rfl⟩ := List.getElem_of_mem ha
  exact hbounded _ _ (hfronts.get (hfronts.length_eq ▸ hi) hi)

/-- The number of bytes a value packs to. -/
def packLength (pack : α → Except String (List UInt8)) (a : α) : Nat :=
  (pack a).toOption.elim 0 List.length

theorem packAll_length (pack : α → Except String (List UInt8)) (l : List α) :
    Returns (packAll pack l) fun bytes => bytes.length = (l.map (packLength pack)).sum := by
  unfold packAll
  refine Returns.bind (Q := fun parts => parts.flatten.length = (l.map (packLength pack)).sum) ?_
    fun parts hparts => Returns.pure hparts
  induction l with
  | nil => exact Returns.pure rfl
  | cons a rest ih =>
      rw [List.mapM_cons]
      refine Returns.bind_eq fun front hfront => ih.bind fun parts hparts => Returns.pure ?_
      rw [List.flatten_cons, List.length_append, hparts, List.map_cons, List.sum_cons, packLength,
        hfront]
      rfl

theorem Grows.packLength_le (h : Grows k packα unpackα) {front : List UInt8} {a : α}
    (ha : Reads unpackα front a) : packLength packα a ≤ k * front.length := by
  unfold packLength
  cases hpack : packα a with
  | error e => exact Nat.zero_le _
  | ok bytes => exact h front a ha bytes hpack

theorem Grows.sum_le (h : Grows k packα unpackα) {fronts : List (List UInt8)} {l : List α}
    (hl : List.Forall₂ (Reads unpackα) fronts l) :
    (l.map (packLength packα)).sum ≤ k * fronts.flatten.length := by
  induction hl with
  | nil => exact Nat.zero_le _
  | cons ha _ ih =>
      rw [List.map_cons, List.sum_cons, List.flatten_cons, List.length_append, Nat.mul_add]
      exact Nat.add_le_add (h.packLength_le ha) ih

/-- The list that is made of what was read (`g`) has no more elements, which
take no more bytes. -/
theorem Grows.counted (h : Grows k packα unpackα) (hk : 0 < k) (hlocal : unpackα.Local)
    {g : List α → List α}
    (hlength : ∀ l, (g l).length ≤ l.length)
    (hsum : ∀ (weight : α → Nat) l, ((g l).map weight).sum ≤ (l.map weight).sum) (size : Nat)
    (message : String) :
    Grows k (packCounted f packα) ((unpackCounted f unpackα size message).map g) := by
  intro front l' hl'
  obtain ⟨l, hl, rfl⟩ := Reads.of_map (local_unpackCounted hlocal size message) hl'
  obtain ⟨first, fronts, rfl, hfirst, -, hfronts⟩ := of_unpackCounted hlocal hl
  unfold packCounted
  refine (packAll_length packα (g l)).bind fun parts hparts => Returns.pure ?_
  have hcount : (f.packCount ((g l).length % f.bound)).length ≤ k * first.length :=
    ((f.count_mono ((Nat.mod_le _ _).trans (hlength l))).trans (f.count_le hfirst)).trans
      (Nat.le_mul_of_pos_left _ hk)
  have hall := (hsum (packLength packα) l).trans (h.sum_le hfronts)
  rw [List.length_append, List.length_append, hparts, Nat.mul_add]
  exact Nat.add_le_add hcount hall

end

/-! ## Flags -/

theorem reads_false : Reads (unpackFlag f) [0] false := fun _ => rfl

theorem reads_true : Reads (unpackFlag f) [1] true := fun _ => rfl

theorem local_unpackFlag : (unpackFlag f).Local := by
  intro s present rest h
  cases s with
  | nil => cases h
  | cons b s =>
      obtain ⟨hb, h⟩ := ensure_bind_eq_ok.mp h
      obtain ⟨rfl, rfl⟩ := Prod.mk.inj (Except.ok.inj h)
      exact ⟨[b], rfl, fun more => ensure_bind_eq_ok.mpr ⟨hb, rfl⟩⟩

/-- A flag is one byte. -/
theorem length_of_unpackFlag {front : List UInt8} {present : Bool}
    (h : Reads (unpackFlag f) front present) : front.length = 1 := by
  cases front with
  | nil => cases h []
  | cons b s =>
      obtain ⟨-, h⟩ := ensure_bind_eq_ok.mp (h [])
      obtain ⟨-, hrest⟩ := Prod.mk.inj (Except.ok.inj h)
      have hnil : s = [] := (List.append_nil s).symm.trans hrest
      rw [hnil]
      rfl

/-! ## Every type -/

theorem local_optional {t : Ty k} (h : (t.unpack f).Local) (present : Bool) :
    (if present then (t.unpack f).map some else Reader.pure none : Reader (Option t.Val)).Local :=
  Reader.Local.ite (fun _ => h.map some) fun _ => Reader.Local.pure none

theorem local_variant {n : Nat} {alternatives : Fin n → Ty k}
    (h : ∀ i, ((alternatives i).unpack f).Local) (tag : Nat) :
    (if h : tag < n then ((alternatives ⟨tag, h⟩).unpack f).map fun a => ⟨⟨tag, h⟩, a⟩
      else fun _ => .error f.tagMessage : Reader ((i : Fin n) × (alternatives i).Val)).Local := by
  split
  next hlt => exact (h ⟨tag, hlt⟩).map _
  next => exact Reader.Local.error _

/-- `unpack` looks at nothing but the bytes it takes. -/
theorem local_unpack (t : Ty k) : (t.unpack f).Local := by
  induction t with
  | leaf l => exact l.local_unpack
  | unit => exact Reader.Local.pure ()
  | pair first second ihfirst ihsecond => exact ihfirst.bind fun a => ihsecond.map fun b => (a, b)
  | optional t ih => exact (local_unpackFlag f).bind fun present => local_optional f ih present
  | vector size t ih => exact local_unpackCounted ih size _
  | flatSet size t ih => exact (local_unpackCounted ih size _).map _
  | flatMap size key value ihkey ihvalue =>
      exact (local_unpackCounted (ihkey.bind fun a => ihvalue.map fun b => (a, b)) size _).map _
  | variant n alternatives ih => exact f.local_count.bind fun tag => local_variant f ih tag

theorem less_trans (t : Ty k) (a b c : t.Val) (hab : t.less a b = true) (hbc : t.less b c = true) :
    t.less a c = true := by
  cases t with
  | leaf l => exact l.less_trans a b c hab hbc
  | variant n alternatives =>
      have hab : a.1 < b.1 := of_decide_eq_true hab
      have hbc : b.1 < c.1 := of_decide_eq_true hbc
      exact decide_eq_true (Nat.lt_trans hab hbc)
  | unit => cases hab
  | pair first second => cases hab
  | optional t => cases hab
  | vector size t => cases hab
  | flatSet size t => cases hab
  | flatMap size key value => cases hab

/-- What was read is bounded. -/
theorem bounded_of_reads (t : Ty k) {front : List UInt8} {a : t.Val}
    (h : Reads (t.unpack f) front a) : t.Bounded f a := by
  induction t generalizing front with
  | leaf l => exact l.bounded h
  | unit => trivial
  | pair first second ihfirst ihsecond =>
      obtain ⟨x, front, back, rfl, hx, hrest⟩ := Reads.of_bind (local_unpack f first)
        (fun x => (local_unpack f second).map _) h
      obtain ⟨y, hy, rfl⟩ := Reads.of_map (local_unpack f second) hrest
      exact ⟨ihfirst hx, ihsecond hy⟩
  | optional t ih =>
      obtain ⟨present, front, back, rfl, -, hrest⟩ := Reads.of_bind (local_unpackFlag f)
        (local_optional f (local_unpack f t)) h
      cases present with
      | false =>
          obtain ⟨rfl, -⟩ := Reads.of_pure hrest
          trivial
      | true =>
          obtain ⟨x, hx, rfl⟩ := Reads.of_map (local_unpack f t) hrest
          exact ih hx
  | vector size t ih => exact fits_of_reads (local_unpack f t) (fun _ _ => ih) h
  | flatSet size t ih =>
      obtain ⟨l, hl, rfl⟩ := Reads.of_map (local_unpackCounted (local_unpack f t) size _) h
      have hfits := fits_of_reads (local_unpack f t) (fun _ _ => ih) hl
      have hle := length_insertAll_le t.less l
      exact ⟨⟨fun b hb => hfits.each b (mem_of_mem_insertAll hb), hle.trans_lt hfits.counted,
        (Nat.mul_le_mul_right size hle).trans_lt hfits.allocated⟩,
        sorted_insertAll (less_trans t) l⟩
  | flatMap size key value ihkey ihvalue =>
      have hlocal : ((key.unpack f).bind fun a => (value.unpack f).map fun b => (a, b)).Local :=
        (local_unpack f key).bind fun _ => (local_unpack f value).map _
      obtain ⟨l, hl, rfl⟩ := Reads.of_map (local_unpackCounted hlocal size _) h
      have hfits := fits_of_reads (P := fun c => key.Bounded f c.1 ∧ value.Bounded f c.2) hlocal
        (fun front c hc => by
          obtain ⟨x, front, back, rfl, hx, hrest⟩ := Reads.of_bind (local_unpack f key)
            (fun x => (local_unpack f value).map _) hc
          obtain ⟨y, hy, rfl⟩ := Reads.of_map (local_unpack f value) hrest
          exact ⟨ihkey hx, ihvalue hy⟩) hl
      have hle := length_insertAll_le (lessKey key value) l
      exact ⟨⟨fun b hb => hfits.each b (mem_of_mem_insertAll hb), hle.trans_lt hfits.counted,
        (Nat.mul_le_mul_right size hle).trans_lt hfits.allocated⟩,
        sorted_insertAll (fun a b c => less_trans key a.1 b.1 c.1) l⟩
  | variant n alternatives ih =>
      obtain ⟨tag, front, back, rfl, htag, hrest⟩ := Reads.of_bind f.local_count
        (local_variant f fun i => local_unpack f (alternatives i)) h
      split at hrest
      next hlt =>
        obtain ⟨x, hx, rfl⟩ := Reads.of_map (local_unpack f _) hrest
        exact ⟨f.count_lt htag, ih _ hx⟩
      next => cases hrest []

/-- A bounded value with faithful leaves is read from what it packs to. -/
theorem reads_pack (t : Ty k) :
    RoundTrip (t.pack f) (t.unpack f) fun a => t.Bounded f a ∧ t.Faithful a := by
  induction t with
  | leaf l => exact fun a ha => l.reads ha.1 ha.2
  | unit => exact fun a _ => Completes.ok (Reads.pure ())
  | pair first second ihfirst ihsecond =>
      intro a ha
      exact ihfirst.pair ihsecond a ⟨⟨ha.1.1, ha.2.1⟩, ha.1.2, ha.2.2⟩
  | optional t ih =>
      intro a ha
      cases a with
      | none => exact Completes.ok ((reads_false f).bind (Reads.pure none))
      | some x =>
          refine (ih x ha).bind fun back hback => Completes.pure ?_
          exact (reads_true f).bind (hback.map some)
  | vector size t ih =>
      intro l hl
      exact ih.counted size _ l
        ⟨fun a ha => ⟨hl.1.each a ha, hl.2 a ha⟩, hl.1.counted, hl.1.allocated⟩
  | flatSet size t ih =>
      intro l hl
      refine (ih.counted size f.vectorMessage l ⟨fun a ha => ⟨hl.1.1.each a ha, hl.2 a ha⟩,
        hl.1.1.counted, hl.1.1.allocated⟩).mono fun bytes hbytes => ?_
      have hread := hbytes.map (insertAll t.less)
      rwa [insertAll_sorted hl.1.2] at hread
  | flatMap size key value ihkey ihvalue =>
      intro l hl
      refine ((ihkey.pair ihvalue).counted size f.mapMessage l ⟨fun a ha => ?_,
        hl.1.1.counted, hl.1.1.allocated⟩).mono fun bytes hbytes => ?_
      · exact ⟨⟨(hl.1.1.each a ha).1, (hl.2 a ha).1⟩, (hl.1.1.each a ha).2, (hl.2 a ha).2⟩
      · have hread := hbytes.map (insertAll (lessKey key value))
        rwa [insertAll_sorted hl.1.2] at hread
  | variant n alternatives ih =>
      rintro ⟨i, a⟩ ha
      refine (ih i a ⟨ha.1.2, ha.2⟩).bind fun back hback => Completes.pure ?_
      refine (f.reads_count ha.1.1).bind ?_
      rw [dif_pos i.isLt]
      exact hback.map _

/-- A type grows no more than its leaves. -/
theorem pack_le (hk : 0 < k) (t : Ty k) : Grows k (t.pack f) (t.unpack f) := by
  induction t with
  | leaf l => exact fun front a h => l.pack_le h
  | unit => exact fun front a _ => Returns.ok (Nat.zero_le _)
  | pair first second ihfirst ihsecond =>
      exact ihfirst.pair ihsecond (local_unpack f first) (local_unpack f second)
  | optional t ih =>
      intro front a h
      obtain ⟨present, front, back, rfl, hflag, hrest⟩ := Reads.of_bind (local_unpackFlag f)
        (local_optional f (local_unpack f t)) h
      have hone := length_of_unpackFlag f hflag
      cases present with
      | false =>
          obtain ⟨rfl, -⟩ := Reads.of_pure hrest
          refine Returns.ok ?_
          rw [List.length_append, hone, List.length_singleton]
          exact Nat.mul_pos hk (by omega)
      | true =>
          obtain ⟨x, hx, rfl⟩ := Reads.of_map (local_unpack f t) hrest
          refine (ih back x hx).bind fun bytes hbytes => Returns.pure ?_
          rw [List.length_append, List.length_cons, hone, Nat.mul_add, Nat.mul_one, Nat.add_comm]
          exact Nat.add_le_add hk hbytes
  | vector size t ih =>
      intro front l h
      exact ih.counted hk (local_unpack f t) (g := id) (fun _ => Nat.le_refl _)
        (fun _ _ => Nat.le_refl _) size f.vectorMessage front l (h.map id)
  | flatSet size t ih =>
      exact ih.counted hk (local_unpack f t) (length_insertAll_le t.less)
        (sum_insertAll_le t.less) size _
  | flatMap size key value ihkey ihvalue =>
      exact (ihkey.pair ihvalue (local_unpack f key) (local_unpack f value)).counted hk
        ((local_unpack f key).bind fun _ => (local_unpack f value).map _)
        (length_insertAll_le (lessKey key value)) (sum_insertAll_le (lessKey key value)) size _
  | variant n alternatives ih =>
      intro front a h
      obtain ⟨tag, front, back, rfl, htag, hrest⟩ := Reads.of_bind f.local_count
        (local_variant f fun i => local_unpack f (alternatives i)) h
      split at hrest
      next hlt =>
        obtain ⟨x, hx, rfl⟩ := Reads.of_map (local_unpack f _) hrest
        have htagle := (f.count_le htag).trans (Nat.le_mul_of_pos_left _ hk)
        refine (ih _ back x hx).bind fun bytes hbytes => Returns.pure ?_
        rw [List.length_append, List.length_append, Nat.mul_add]
        exact Nat.add_le_add htagle hbytes
      next => cases hrest []

end Ty

end Gamebank.Lib
