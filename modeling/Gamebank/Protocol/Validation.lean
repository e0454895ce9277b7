import Mathlib.Data.List.TakeWhile
import Gamebank.Lib.Checked

/-!
# Names and texts

`validation.hpp` and `is_valid_account_name`. A string that is not ASCII has a
character that no account name may have, so lengths of names may be counted
in characters. A Lean string is always UTF-8.
-/

namespace Gamebank.Protocol

open Gamebank.Lib

/-- A string as `strcmp` sees it. -/
def cString (text : String) : String := String.ofList (text.toList.takeWhile (· ≠ '\x00'))

theorem cString_of_not_mem {text : String} (h : '\x00' ∉ text.toList) : cString text = text := by
  have hall : ∀ c ∈ text.toList, decide (c ≠ '\x00') = true := by
    intro c hc
    simp only [decide_eq_true_eq]
    rintro rfl
    exact h hc
  rw [cString, List.takeWhile_eq_self_iff.mpr hall, String.ofList_toList]

/-- `GAMEBANK_MIN_ACCOUNT_NAME_LENGTH`. -/
def minAccountNameLength : Nat := 3

/-- `GAMEBANK_MAX_ACCOUNT_NAME_LENGTH`. -/
def maxAccountNameLength : Nat := 16

/-- `GAMEBANK_MAX_PERMLINK_LENGTH`. -/
def maxPermlinkLength : Nat := 256

def isLetter (c : Char) : Bool := 'a' ≤ c && c ≤ 'z'

def isDigit (c : Char) : Bool := '0' ≤ c && c ≤ '9'

/-- What stands between two dots of a name. -/
def isValidPart : List Char → Bool
  | [] => false
  | first :: rest =>
      2 ≤ rest.length && isLetter first &&
      rest.dropLast.all (fun c => isLetter c || isDigit c || c = '-') &&
      rest.getLast?.any (fun c => isLetter c || isDigit c)

/-- `is_valid_account_name`. -/
def isValidAccountName (name : String) : Bool :=
  minAccountNameLength ≤ name.toList.length && name.toList.length ≤ maxAccountNameLength &&
  (name.toList.splitOn '.').all isValidPart

/-- `validate_account_name`. -/
def validateAccountName (name : String) : Except String Unit :=
  ensure (isValidAccountName name) "Account name is invalid"

/-- `validate_permlink`. -/
def validatePermlink (permlink : String) : Except String Unit :=
  ensure (permlink.utf8ByteSize < maxPermlinkLength) "permlink is too long"

theorem ne_empty_of_isValidAccountName {name : String} (h : isValidAccountName name = true) :
    name ≠ "" := by
  rintro rfl
  revert h
  decide

end Gamebank.Protocol
