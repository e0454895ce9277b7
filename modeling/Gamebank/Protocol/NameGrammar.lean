import Gamebank.Lib.Separated
import Gamebank.Protocol.Validation

/-!
# The grammar of account names

`is_valid_account_name` on the bytes of a string, with its two loops and its
index arithmetic. A read outside the string is an error here, and so is a loop
that does not end. On the bytes of a UTF-8 string the scan says what
`isValidAccountName` says.
-/

namespace Gamebank.Protocol.NameScan

open Gamebank.Lib

/-- What must not happen. -/
inductive ScanError where
  | outOfRange
  | outOfFuel
deriving DecidableEq

/-- A difference of two `size_t`. -/
def sizeSub (a b : Nat) : Nat := (a + 18446744073709551616 - b) % 18446744073709551616

/-- `name[ i ]`. -/
def readByte (name : List UInt8) (i : Nat) : Except ScanError UInt8 :=
  match name[i]? with
  | some c => .ok c
  | none => .error .outOfRange

/-- `std::string::find_first_of` of one character; `npos` is `none`. -/
def findFirstOf (name : List UInt8) (c : UInt8) (pos : Nat) : Option Nat :=
  ((name.drop pos).findIdx? (· == c)).map (pos + ·)

/-- `'.'`. -/
def dot : UInt8 := 46

/-- The cases `'a'` to `'z'`. -/
def isLetter (c : UInt8) : Bool := 97 ≤ c && c ≤ 122

/-- The cases `'a'` to `'z'` and `'0'` to `'9'`. -/
def isLetterOrDigit (c : UInt8) : Bool := isLetter c || (48 ≤ c && c ≤ 57)

/-- The same, and `'-'`. -/
def isInner (c : UInt8) : Bool := isLetterOrDigit c || c = 45

/-- `for( size_t i=begin+1; i<end-1; i++ )`, where `last` is `end-1`. -/
def scanInner (name : List UInt8) (last : Nat) : Nat → Nat → Except ScanError Bool
  | 0, _ => .error .outOfFuel
  | fuel + 1, i =>
      if i < last then do
        let c ← readByte name i
        if isInner c then scanInner name last fuel (i + 1) else return false
      else return true

/-- What the scan checks of the bytes from `first` up to `stop`. -/
def scanLabel (name : List UInt8) (first stop : Nat) : Except ScanError Bool := do
  if sizeSub stop first < 3 then
    return false
  let c ← readByte name first
  if !isLetter c then
    return false
  let c ← readByte name (sizeSub stop 1)
  if !isLetterOrDigit c then
    return false
  scanInner name (sizeSub stop 1) (name.length + 1) (first + 1)

/-- `while( true )`. -/
def scanLabels (name : List UInt8) : Nat → Nat → Except ScanError Bool
  | 0, _ => .error .outOfFuel
  | fuel + 1, first => do
      let stop := (findFirstOf name dot first).getD name.length
      if !(← scanLabel name first stop) then
        return false
      if stop = name.length then
        return true
      scanLabels name fuel (stop + 1)

/-- `is_valid_account_name`. -/
def isValidAccountName (name : List UInt8) : Except ScanError Bool :=
  if name.length < minAccountNameLength then .ok false
  else if maxAccountNameLength < name.length then .ok false
  else scanLabels name (name.length + 1) 0

/-! ## The grammar -/

/-- What may stand between two dots. -/
structure IsLabel (label : List UInt8) : Prop where
  length : 3 ≤ label.length
  bytes : ∀ c ∈ label, isInner c = true
  starts : ∃ c, label.head? = some c ∧ isLetter c = true
  ends : ∃ c, label.getLast? = some c ∧ isLetterOrDigit c = true

/-- A name: labels with dots between them, of no more than sixteen bytes. -/
structure IsAccountName (name : List UInt8) : Prop where
  atLeast : minAccountNameLength ≤ name.length
  atMost : name.length ≤ maxAccountNameLength
  labels : Separated dot IsLabel name

theorem isInner_of_letterOrDigit {c : UInt8} (h : isLetterOrDigit c = true) :
    isInner c = true := by
  simp [isInner, h]

theorem isLetterOrDigit_of_letter {c : UInt8} (h : isLetter c = true) :
    isLetterOrDigit c = true := by
  simp [isLetterOrDigit, h]

/-- A label of three bytes or more has a first byte, a last one and some between. -/
theorem isLabel_iff {c d : UInt8} {inner : List UInt8} :
    IsLabel (c :: (inner ++ [d])) ↔
      1 ≤ inner.length ∧ isLetter c = true ∧ isLetterOrDigit d = true ∧
        inner.all isInner = true := by
  rw [List.all_eq_true]
  constructor
  · intro h
    obtain ⟨c', hc', hletter⟩ := h.starts
    obtain ⟨d', hd', hlast⟩ := h.ends
    have hlength := h.length
    simp only [List.head?_cons, Option.some.injEq] at hc'
    obtain rfl : d = d' := by simpa [List.getLast?_cons] using hd'
    simp only [List.length_cons, List.length_append, List.length_nil] at hlength
    refine ⟨by omega, hc' ▸ hletter, hlast, ?_⟩
    intro b hb
    exact h.bytes b (List.mem_cons_of_mem c (List.mem_append_left [d] hb))
  · intro ⟨hlength, hletter, hlast, hinner⟩
    constructor
    · simp
      omega
    · intro b hb
      rcases List.mem_cons.mp hb with rfl | hb
      · exact isInner_of_letterOrDigit (isLetterOrDigit_of_letter hletter)
      · rcases List.mem_append.mp hb with hb | hb
        · exact hinner b hb
        · rw [List.mem_singleton.mp hb]
          exact isInner_of_letterOrDigit hlast
    · exact ⟨c, rfl, hletter⟩
    · exact ⟨d, by simp [List.getLast?_cons], hlast⟩

theorem not_mem_of_isLabel (label : List UInt8) (h : IsLabel label) : dot ∉ label := by
  intro hmem
  exact absurd (h.bytes dot hmem) (by decide)

/-! ## The scan stays inside the string -/

theorem sizeSub_eq {a b : Nat} (hle : b ≤ a) (ha : a < 18446744073709551616) :
    sizeSub a b = a - b := by
  rw [sizeSub, Nat.sub_add_comm hle, Nat.add_mod_right, Nat.mod_eq_of_lt (by omega)]

theorem readByte_append (pre post : List UInt8) (c : UInt8) :
    readByte (pre ++ c :: post) pre.length = .ok c := by
  simp [readByte]

/-- The inner loop reads what stands before `last`. -/
theorem scanInner_eq (pre inner post : List UInt8) {fuel : Nat} (hfuel : inner.length < fuel) :
    scanInner (pre ++ inner ++ post) (pre.length + inner.length) fuel pre.length =
      .ok (inner.all isInner) := by
  induction fuel generalizing pre inner with
  | zero => omega
  | succ fuel ih =>
      rw [scanInner]
      cases inner with
      | nil => simp [pure, Except.pure]
      | cons c inner =>
          rw [if_pos (by simp), List.append_assoc, List.cons_append, readByte_append]
          -- one byte further on
          have hnext := ih (pre ++ [c]) inner (by simpa using hfuel)
          have harrange : pre ++ [c] ++ inner ++ post = pre ++ c :: (inner ++ post) := by simp
          have hlast : (pre ++ [c]).length + inner.length = pre.length + (c :: inner).length := by
            simp
            omega
          rw [harrange, hlast, List.length_append] at hnext
          by_cases hc : isInner c = true
          · simpa [hc, bind, Except.bind] using hnext
          · simp [hc, bind, Except.bind, pure, Except.pure]

/-- The bytes between `pre` and `post` are checked, and no others. -/
theorem scanLabel_spec (pre label post : List UInt8)
    (hsize : (pre ++ label ++ post).length < 18446744073709551616) :
    ∃ b, scanLabel (pre ++ label ++ post) pre.length (pre.length + label.length) = .ok b ∧
      (b = true ↔ IsLabel label) := by
  simp only [List.length_append] at hsize
  rw [scanLabel, sizeSub_eq (Nat.le_add_right _ _) (by omega), Nat.add_sub_cancel_left]
  by_cases hlength : label.length < 3
  · rw [if_pos hlength]
    exact ⟨false, rfl, by simpa using fun h : IsLabel label => absurd h.length (by omega)⟩
  · rw [if_neg hlength, sizeSub_eq (by omega) (by omega)]
    obtain ⟨c, tail, rfl⟩ := List.exists_cons_of_length_pos (l := label) (by omega)
    rcases List.eq_nil_or_concat tail with rfl | ⟨inner, d, rfl⟩
    · exact absurd hlength (by simp)
    · have hfirst : readByte (pre ++ c :: (inner ++ [d]) ++ post) pre.length = .ok c := by
        rw [List.append_assoc, List.cons_append, readByte_append]
      have hstop : pre.length + (c :: (inner ++ [d])).length - 1 =
          (pre ++ c :: inner).length := by
        simp
      have hlast : readByte (pre ++ c :: (inner ++ [d]) ++ post)
          (pre ++ c :: inner).length = .ok d := by
        have h := readByte_append (pre ++ c :: inner) post d
        simpa using h
      -- the loop runs from the second byte to the last but one
      have hinner : scanInner (pre ++ c :: (inner ++ [d]) ++ post) (pre ++ c :: inner).length
          ((pre ++ c :: (inner ++ [d]) ++ post).length + 1) (pre.length + 1) =
            .ok (inner.all isInner) := by
        have hfuel : inner.length < (pre ++ c :: (inner ++ [d]) ++ post).length + 1 := by
          simp
          omega
        have h := scanInner_eq (pre ++ [c]) inner (d :: post) hfuel
        simpa [Nat.add_assoc, Nat.add_comm, Nat.add_left_comm] using h
      rw [List.concat_eq_append, hstop, hfirst, isLabel_iff]
      have hsome : 1 ≤ inner.length := by
        simp at hlength
        omega
      refine ⟨isLetter c && (isLetterOrDigit d && inner.all isInner), ?_, by simp [hsome]⟩
      by_cases hc : isLetter c = true
      · by_cases hd : isLetterOrDigit d = true
        · simp only [hlast, hinner, hc, hd, bind, Except.bind]
          rfl
        · simp only [hlast, hc, bind, Except.bind]
          simp [hd, pure, Except.pure]
      · simp [hc, bind, Except.bind, pure, Except.pure]

theorem findFirstOf_of_mem {pre label tail : List UInt8} {c : UInt8} (h : c ∉ label) :
    findFirstOf (pre ++ (label ++ c :: tail)) c pre.length = some (pre.length + label.length) := by
  have hnone : label.findIdx? (· == c) = none := by
    rw [List.findIdx?_eq_none_iff]
    intro b hb
    simpa using fun heq : b = c => h (heq ▸ hb)
  simp [findFirstOf, List.findIdx?_append, hnone, List.findIdx?_cons]

theorem findFirstOf_of_not_mem {pre rest : List UInt8} {c : UInt8} (h : c ∉ rest) :
    findFirstOf (pre ++ rest) c pre.length = none := by
  simp only [findFirstOf, List.drop_left, Option.map_eq_none_iff, List.findIdx?_eq_none_iff]
  intro b hb
  simpa using fun heq : b = c => h (heq ▸ hb)

/-- The loop reads what is left of the name, label after label. -/
theorem scanLabels_spec (pre rest : List UInt8) {fuel : Nat} (hfuel : rest.length < fuel)
    (hsize : (pre ++ rest).length < 18446744073709551616) :
    ∃ b, scanLabels (pre ++ rest) fuel pre.length = .ok b ∧
      (b = true ↔ Separated dot IsLabel rest) := by
  induction fuel generalizing pre rest with
  | zero => omega
  | succ fuel ih =>
      rw [scanLabels]
      by_cases hmem : dot ∈ rest
      · obtain ⟨label, tail, rfl, hnot⟩ := List.eq_append_cons_of_mem hmem
        obtain ⟨b, hlabel, hb⟩ := scanLabel_spec pre label (dot :: tail)
          (by simpa using hsize)
        rw [List.append_assoc] at hlabel
        rw [Separated.append_cons_iff not_mem_of_isLabel hnot, findFirstOf_of_mem hnot,
          Option.getD_some, hlabel]
        have hstop : ¬pre.length + label.length = (pre ++ (label ++ dot :: tail)).length := by
          simp
        cases b with
        | false => exact ⟨false, rfl, by simpa using fun h => absurd (hb.mpr h) (by simp)⟩
        | true =>
            -- the dot has been found, so the scan goes on behind it
            obtain ⟨b', hrest, hb'⟩ := ih (pre ++ label ++ [dot]) tail
              (by simp at hfuel; omega) (by simpa using hsize)
            have harrange : pre ++ label ++ [dot] ++ tail = pre ++ (label ++ dot :: tail) := by
              simp
            have hnext : (pre ++ label ++ [dot]).length = pre.length + label.length + 1 := by
              simp
              omega
            rw [harrange, hnext] at hrest
            refine ⟨b', ?_, hb'.trans (by simp [hb.mp rfl])⟩
            simpa [bind, Except.bind, hstop] using hrest
      · obtain ⟨b, hlabel, hb⟩ := scanLabel_spec pre rest [] (by simpa using hsize)
        rw [List.append_nil] at hlabel
        rw [Separated.iff_of_not_mem not_mem_of_isLabel hmem, findFirstOf_of_not_mem hmem,
          Option.getD_none, List.length_append, hlabel]
        refine ⟨b, ?_, hb⟩
        cases b <;> simp [bind, Except.bind, pure, Except.pure]

theorem scanLabels_name {name : List UInt8} (hmax : ¬maxAccountNameLength < name.length) :
    ∃ b, scanLabels name (name.length + 1) 0 = .ok b ∧
      (b = true ↔ Separated dot IsLabel name) := by
  have hsize : name.length < 18446744073709551616 := by
    rw [maxAccountNameLength] at hmax
    omega
  exact scanLabels_spec [] name (Nat.lt_succ_self name.length) (by simpa using hsize)

theorem isValidAccountName_returns (name : List UInt8) :
    ∃ b, isValidAccountName name = .ok b := by
  rw [isValidAccountName]
  by_cases hmin : name.length < minAccountNameLength
  · exact ⟨false, if_pos hmin⟩
  · by_cases hmax : maxAccountNameLength < name.length
    · exact ⟨false, by rw [if_neg hmin, if_pos hmax]⟩
    · obtain ⟨b, hscan, -⟩ := scanLabels_name hmax
      exact ⟨b, by rw [if_neg hmin, if_neg hmax, hscan]⟩

theorem isValidAccountName_accepts_iff {name : List UInt8} :
    isValidAccountName name = .ok true ↔ IsAccountName name := by
  rw [isValidAccountName]
  by_cases hmin : name.length < minAccountNameLength
  · rw [if_pos hmin]
    exact ⟨by simp, fun h => absurd h.atLeast (by omega)⟩
  · by_cases hmax : maxAccountNameLength < name.length
    · rw [if_neg hmin, if_pos hmax]
      exact ⟨by simp, fun h => absurd h.atMost (by omega)⟩
    · obtain ⟨b, hscan, hb⟩ := scanLabels_name hmax
      rw [if_neg hmin, if_neg hmax, hscan, Except.ok.injEq, hb]
      exact ⟨fun h => ⟨by omega, by omega, h⟩, fun h => h.labels⟩

/-- **The scan and the grammar**: the scan ends without a read outside the
string, and accepts the account names. -/
theorem isValidAccountName_iff (name : List UInt8) :
    ∃ b, isValidAccountName name = .ok b ∧ (b = true ↔ IsAccountName name) := by
  obtain ⟨b, hscan⟩ := isValidAccountName_returns name
  refine ⟨b, hscan, ?_⟩
  rw [← isValidAccountName_accepts_iff, hscan, Except.ok.injEq]

-- a trailing dot leaves an empty label
example : isValidAccountName [97, 98, 99, dot] = .ok false := by decide

/-! ## Names in UTF-8 -/

/-- The bytes of a string. -/
def utf8 (text : String) : List UInt8 := text.toList.flatMap String.utf8EncodeChar

@[simp] theorem val_ofUInt8 (c : UInt8) : (Char.ofUInt8 c).val = c.toUInt32 := rfl

@[simp] theorem isLetter_ofUInt8 (c : UInt8) :
    Protocol.isLetter (Char.ofUInt8 c) = isLetter c := by
  simp [Protocol.isLetter, isLetter, Char.le_def, UInt32.le_iff_toNat_le, UInt8.le_iff_toNat_le]

@[simp] theorem isDigit_ofUInt8 (c : UInt8) :
    Protocol.isDigit (Char.ofUInt8 c) = (48 ≤ c && c ≤ 57) := by
  simp [Protocol.isDigit, Char.le_def, UInt32.le_iff_toNat_le, UInt8.le_iff_toNat_le]

theorem ofUInt8_injective (a b : UInt8) (h : Char.ofUInt8 a = Char.ofUInt8 b) : a = b := by
  have hval : a.toUInt32 = b.toUInt32 := congrArg Char.val h
  simpa using congrArg UInt32.toUInt8 hval

theorem isValidPart_map {label : List UInt8} :
    isValidPart (label.map Char.ofUInt8) = true ↔ IsLabel label := by
  cases label with
  | nil =>
      simp only [List.map_nil, isValidPart, Bool.false_eq_true, false_iff]
      intro h
      exact absurd h.length (by simp)
  | cons c tail =>
      rcases List.eq_nil_or_concat tail with rfl | ⟨inner, d, rfl⟩
      · simp only [List.map_cons, List.map_nil, isValidPart, List.length_nil]
        refine ⟨by simp, ?_⟩
        intro h
        exact absurd h.length (by simp)
      · have hhyphen : ∀ b : UInt8, Char.ofUInt8 b = '-' ↔ b = 45 :=
          fun b => ⟨ofUInt8_injective b 45, fun h => h ▸ rfl⟩
        rw [List.concat_eq_append, isLabel_iff]
        simp only [List.map_cons, List.map_append, List.map_nil, isValidPart, List.length_append,
          List.length_map, List.length_singleton, List.dropLast_concat, List.getLast?_concat,
          Option.any_some, List.all_map, isLetter_ofUInt8, isDigit_ofUInt8, Bool.and_eq_true,
          decide_eq_true_eq, isLetterOrDigit, Function.comp_def, hhyphen]
        constructor
        · intro ⟨⟨⟨hlength, hfirst⟩, hinner⟩, hlast⟩
          exact ⟨by omega, hfirst, hlast, hinner⟩
        · intro ⟨hlength, hfirst, hlast, hinner⟩
          exact ⟨⟨⟨by omega, hfirst⟩, hinner⟩, hlast⟩

theorem forall_of_isValidPart (part : List Char) (h : isValidPart part = true) :
    ∀ c ∈ part, (Protocol.isLetter c || Protocol.isDigit c || c = '-') = true := by
  cases part with
  | nil => simp
  | cons first rest =>
      rcases List.eq_nil_or_concat rest with rfl | ⟨inner, last, rfl⟩
      · simp [isValidPart] at h
      · simp only [List.concat_eq_append, isValidPart, List.dropLast_concat, List.getLast?_concat,
          Option.any_some, Bool.and_eq_true, List.all_eq_true] at h
        obtain ⟨⟨⟨-, hfirst⟩, hinner⟩, hlast⟩ := h
        intro c hc
        rcases List.mem_cons.mp hc with rfl | hc
        · simp [hfirst]
        · rw [List.concat_eq_append] at hc
          rcases List.mem_append.mp hc with hc | hc
          · exact hinner c hc
          · rw [List.mem_singleton.mp hc, hlast, Bool.true_or]

theorem not_mem_of_isValidPart (part : List Char) (h : isValidPart part = true) : '.' ∉ part := by
  intro hmem
  exact absurd (forall_of_isValidPart part h '.' hmem) (by decide)

theorem toNat_lt_of_isValidPart (part : List Char) (h : isValidPart part = true) :
    ∀ c ∈ part, c.toNat < 128 := by
  intro c hc
  have hchar := forall_of_isValidPart part h c hc
  simp only [Protocol.isLetter, Protocol.isDigit, Bool.or_eq_true, Bool.and_eq_true,
    decide_eq_true_eq, Char.le_def, UInt32.le_iff_toNat_le] at hchar
  rcases hchar with (⟨-, hle⟩ | ⟨-, hle⟩) | rfl
  · exact Nat.lt_of_le_of_lt hle (by decide)
  · exact Nat.lt_of_le_of_lt hle (by decide)
  · decide

theorem lt_of_isLabel (label : List UInt8) (h : IsLabel label) : ∀ c ∈ label, c < 128 := by
  intro c hc
  have hbyte := h.bytes c hc
  simp only [isInner, isLetterOrDigit, isLetter, Bool.or_eq_true, Bool.and_eq_true,
    decide_eq_true_eq] at hbyte
  rcases hbyte with (⟨-, hle⟩ | ⟨-, hle⟩) | rfl
  · exact UInt8.lt_of_le_of_lt hle (by decide)
  · exact UInt8.lt_of_le_of_lt hle (by decide)
  · decide

/-- A character of one byte. -/
theorem map_utf8EncodeChar {c : Char} (h : c.toNat < 128) :
    (String.utf8EncodeChar c).map Char.ofUInt8 = [c] := by
  have hle : c.val.toNat ≤ 127 := Nat.le_of_lt_succ h
  have hval : (UInt8.ofNat c.val.toNat).toUInt32 = c.val := by
    apply UInt32.toNat_inj.mp
    simp
    omega
  simp only [String.utf8EncodeChar, if_pos hle, List.map_cons, List.map_nil, List.cons.injEq,
    and_true]
  exact Char.ext hval

/-- A character of several bytes ends with a high one. -/
theorem exists_le_of_utf8EncodeChar {c : Char} (h : ¬c.toNat < 128) :
    ∃ b ∈ String.utf8EncodeChar c, 128 ≤ b := by
  have hle : ¬c.val.toNat ≤ 127 := fun hle => h (Nat.lt_succ_of_le hle)
  refine ⟨UInt8.ofNat (c.val.toNat % 64 + 128), ?_, ?_⟩
  · rw [String.utf8EncodeChar, if_neg hle]
    split
    next => simp
    next => split <;> simp
  · rw [UInt8.le_iff_toNat_le]
    simp
    omega

theorem map_utf8 {text : String} (h : ∀ c ∈ text.toList, c.toNat < 128) :
    (utf8 text).map Char.ofUInt8 = text.toList := by
  rw [utf8]
  generalize text.toList = l at h
  induction l with
  | nil => rfl
  | cons c rest ih =>
      rw [List.flatMap_cons, List.map_append, map_utf8EncodeChar (h c List.mem_cons_self),
        ih fun b hb => h b (List.mem_cons_of_mem c hb), List.singleton_append]

theorem isValidAccountName_string (text : String) :
    Protocol.isValidAccountName text = true ↔
      minAccountNameLength ≤ text.toList.length ∧ text.toList.length ≤ maxAccountNameLength ∧
        Separated '.' (fun part => isValidPart part = true) text.toList := by
  rw [Separated.iff_splitOn not_mem_of_isValidPart]
  simp [Protocol.isValidAccountName, and_assoc]

/-- **Names as strings and as bytes**: what is said of a string is what the
scan says of its bytes. -/
theorem isValidAccountName_utf8 (text : String) :
    isValidAccountName (utf8 text) = .ok (Protocol.isValidAccountName text) := by
  obtain ⟨b, hscan⟩ := isValidAccountName_returns (utf8 text)
  have hb : b = true ↔ IsAccountName (utf8 text) := by
    rw [← isValidAccountName_accepts_iff, hscan, Except.ok.injEq]
  rw [hscan, Except.ok.injEq, Bool.eq_iff_iff, hb, isValidAccountName_string]
  by_cases hascii : ∀ c ∈ text.toList, c.toNat < 128
  · have hdot : ('.' : Char) = Char.ofUInt8 dot := by decide
    rw [← map_utf8 hascii, hdot, Separated.map_iff ofUInt8_injective, List.length_map]
    simp only [isValidPart_map]
    exact ⟨fun h => ⟨h.atLeast, h.atMost, h.labels⟩, fun h => ⟨h.1, h.2.1, h.2.2⟩⟩
  · -- a character of several bytes is in no name
    constructor
    · intro h
      obtain ⟨c, hc, hhigh⟩ := by simpa using hascii
      obtain ⟨b, hb, hle⟩ := exists_le_of_utf8EncodeChar (c := c) (by simpa using hhigh)
      have hmem : b ∈ utf8 text := List.mem_flatMap.mpr ⟨c, hc, hb⟩
      have hlow := h.labels.forall_mem (Q := (· < 128)) lt_of_isLabel (by decide) b hmem
      exact absurd hle (UInt8.not_le.mpr hlow)
    · intro h
      exact absurd (h.2.2.forall_mem toNat_lt_of_isValidPart (by decide)) hascii

end Gamebank.Protocol.NameScan
