import Gamebank.Chainbase.MultiIndex
import Mathlib.Data.List.DropRight

/-!
# `chainbase::generic_index`

One table of the object database with its undo stack
(`libraries/chainbase/include/chainbase/chainbase.hpp`). The stack holds
**differences**: for each open session the old values of the objects
modified in it, the objects removed in it and the ids created in it.

* Objects are kept by id and a modifier does not change the id of its
  object, so a value here is the object without its id.
* `modify` and `remove` take a reference to an object of the index; a call
  in a run names the object by its id, and there is no call to make when
  the index has no such object.
* `_indices.modify` and `_indices.erase` on the end iterator, which `undo`
  does when an id of its record is gone, have no defined behaviour; that
  outcome is `undefined`.
-/

namespace Gamebank.Chainbase

open Gamebank.Lib

universe u

/-- A set of ids, in order. -/
abbrev IdSet := IdMap Unit

/-- How a call on an index ends: normally, by an exception (the index is
left as the exception finds it), or outside defined behaviour. -/
inductive Outcome (α : Type u) where
  | done (a : α)
  | threw (a : α)
  | undefined
deriving DecidableEq

/-- `undo_state`: what one session changed. -/
structure UndoState (V : Type u) where
  oldValues : IdMap V
  removedValues : IdMap V
  newIds : IdSet
  oldNextId : Nat
  revision : Int
deriving DecidableEq

/-- `generic_index`: the container, the undo stack (newest state first),
the revision and the next id. -/
structure GenericIndex {V : Type u} (keys : List (UniqueKey V)) where
  indices : MultiIndex keys
  stack : List (UndoState V)
  revision : Int
  nextId : Nat
deriving DecidableEq

namespace GenericIndex

variable {V : Type u} {keys : List (UniqueKey V)}

/-- The objects of the index by id. -/
def objects (idx : GenericIndex keys) : IdMap V := idx.indices.rows

/-- Change the newest undo state; nothing happens with no session open. -/
def onHead (idx : GenericIndex keys) (f : UndoState V → UndoState V) : GenericIndex keys :=
  match idx.stack with
  | [] => idx
  | head :: rest => { idx with stack := f head :: rest }

end GenericIndex

/-! ## The record of one call -/

namespace UndoState

variable {V : Type u}

/-- The part of `on_modify` that changes the newest state. -/
def onModify (id : Nat) (v : V) (head : UndoState V) : UndoState V :=
  if head.newIds.contains id then head
  else if head.oldValues.contains id then head
  else { head with oldValues := head.oldValues.emplace id v }

/-- The part of `on_remove` that changes the newest state. -/
def onRemove (id : Nat) (v : V) (head : UndoState V) : UndoState V :=
  if head.newIds.contains id then { head with newIds := head.newIds.erase id }
  else
    match head.oldValues.find? id with
    | some old =>
        { head with
          removedValues := head.removedValues.emplace id old
          oldValues := head.oldValues.erase id }
    | none =>
        if head.removedValues.contains id then head
        else { head with removedValues := head.removedValues.emplace id v }

/-- The part of `on_create` that changes the newest state. -/
def onCreate (id : Nat) (head : UndoState V) : UndoState V :=
  { head with newIds := head.newIds.insert id () }

/-! ### `squash`: the three loops that merge a state into the one below -/

/-- One turn of the loop over `state.old_values`. -/
def mergeOldValue (prev : UndoState V) (item : Nat × V) : UndoState V :=
  if prev.newIds.contains item.1 then prev
  else if prev.oldValues.contains item.1 then prev
  else { prev with oldValues := prev.oldValues.emplace item.1 item.2 }

/-- One turn of the loop over `state.new_ids`. -/
def mergeNewId (prev : UndoState V) (item : Nat × Unit) : UndoState V :=
  { prev with newIds := prev.newIds.insert item.1 () }

/-- One turn of the loop over `state.removed_values`. -/
def mergeRemovedValue (prev : UndoState V) (item : Nat × V) : UndoState V :=
  if prev.newIds.contains item.1 then { prev with newIds := prev.newIds.erase item.1 }
  else
    match prev.oldValues.find? item.1 with
    | some old =>
        { prev with
          removedValues := prev.removedValues.emplace item.1 old
          oldValues := prev.oldValues.erase item.1 }
    | none => { prev with removedValues := prev.removedValues.emplace item.1 item.2 }

/-- The merge of `state` into `prev`, in the order of the source. -/
def merge (prev state : UndoState V) : UndoState V :=
  let afterOld := state.oldValues.entries.foldl mergeOldValue prev
  let afterNew := state.newIds.entries.foldl mergeNewId afterOld
  state.removedValues.entries.foldl mergeRemovedValue afterNew

end UndoState

/-! ## `undo`: the three loops that replay a record -/

namespace MultiIndex

variable {V : Type u} {keys : List (UniqueKey V)}

/-- The loop over `old_values`: put each old value back in place. -/
def restoreOldValues : List (Nat × V) → MultiIndex keys → Outcome (MultiIndex keys)
  | [], m => .done m
  | item :: rest, m =>
      match m.find? item.1 with
      | none => .undefined
      | some _ =>
          match m.modify item.1 item.2 with
          | (m', true) => restoreOldValues rest m'
          | (m', false) => .threw m'

/-- The loop over `new_ids`: erase each object created in the session. -/
def eraseNewIds : List (Nat × Unit) → MultiIndex keys → Outcome (MultiIndex keys)
  | [], m => .done m
  | item :: rest, m =>
      match m.find? item.1 with
      | none => .undefined
      | some _ => eraseNewIds rest (m.erase item.1)

/-- The loop over `removed_values`: insert each removed object again. -/
def restoreRemovedValues : List (Nat × V) → MultiIndex keys → Outcome (MultiIndex keys)
  | [], m => .done m
  | item :: rest, m =>
      match m.emplace item.1 item.2 with
      | none => .threw m
      | some m' => restoreRemovedValues rest m'

end MultiIndex

namespace GenericIndex

variable {V : Type u} {keys : List (UniqueKey V)}

/-! ## The operations -/

/-- `emplace`: the constructor `c` sees the id of the new object. -/
def emplace (idx : GenericIndex keys) (c : Nat → V) : Outcome (GenericIndex keys) :=
  match idx.indices.emplace idx.nextId (c idx.nextId) with
  | none => .threw idx
  | some m =>
      .done ({ idx with indices := m, nextId := idx.nextId + 1 }.onHead
        (UndoState.onCreate idx.nextId))

/-- `modify` of the object `id` with value `v` by the modifier `m`. -/
def modifyObject (idx : GenericIndex keys) (id : Nat) (v : V) (m : V → V) :
    Outcome (GenericIndex keys) :=
  let recorded := idx.onHead (UndoState.onModify id v)
  match idx.indices.modify id (m v) with
  | (m', true) => .done { recorded with indices := m' }
  | (m', false) => .threw { recorded with indices := m' }

/-- `remove` of the object `id` with value `v`. -/
def removeObject (idx : GenericIndex keys) (id : Nat) (v : V) : GenericIndex keys :=
  { idx.onHead (UndoState.onRemove id v) with indices := idx.indices.erase id }

def startUndoSession (idx : GenericIndex keys) : GenericIndex keys :=
  { idx with
    stack :=
      { oldValues := ∅, removedValues := ∅, newIds := ∅, oldNextId := idx.nextId,
        revision := idx.revision + 1 } :: idx.stack
    revision := idx.revision + 1 }

def undo (idx : GenericIndex keys) : Outcome (GenericIndex keys) :=
  match idx.stack with
  | [] => .done idx
  | head :: rest =>
      match idx.indices.restoreOldValues head.oldValues.entries with
      | .undefined => .undefined
      | .threw m => .threw { idx with indices := m }
      | .done m₁ =>
          match m₁.eraseNewIds head.newIds.entries with
          | .undefined => .undefined
          | .threw m => .threw { idx with indices := m }
          | .done m₂ =>
              match m₂.restoreRemovedValues head.removedValues.entries with
              | .undefined => .undefined
              | .threw m => .threw { idx with indices := m, nextId := head.oldNextId }
              | .done m₃ =>
                  .done
                    { indices := m₃, stack := rest, revision := idx.revision - 1,
                      nextId := head.oldNextId }

def squash (idx : GenericIndex keys) : GenericIndex keys :=
  match idx.stack with
  | [] => idx
  | [_] => { idx with stack := [] }
  | state :: prev :: rest =>
      { idx with stack := prev.merge state :: rest, revision := idx.revision - 1 }

def commit (idx : GenericIndex keys) (revision : Int) : GenericIndex keys :=
  { idx with stack := idx.stack.rdropWhile fun s => s.revision ≤ revision }

/-! ## Calls and runs -/

end GenericIndex

/-- A call made inside a session. -/
inductive Call (V : Type u) where
  | emplace (c : Nat → V)
  | modify (id : Nat) (m : V → V)
  | remove (id : Nat)

namespace GenericIndex

variable {V : Type u} {keys : List (UniqueKey V)}

/-- One call, and whether it threw. -/
def callResult (idx : GenericIndex keys) : Call V → Outcome (GenericIndex keys)
  | .emplace c => idx.emplace c
  | .modify id m =>
      match idx.indices.find? id with
      | none => .done idx
      | some v => idx.modifyObject id v m
  | .remove id =>
      match idx.indices.find? id with
      | none => .done idx
      | some v => .done (idx.removeObject id v)

/-- The index after a call whose exception, if any, is caught by the caller. -/
def call (idx : GenericIndex keys) (c : Call V) : GenericIndex keys :=
  match idx.callResult c with
  | .done idx' => idx'
  | .threw idx' => idx'
  | .undefined => idx

def runCalls (idx : GenericIndex keys) (calls : List (Call V)) : GenericIndex keys :=
  calls.foldl call idx

/-- The `n`-fold undo; it stops at the first one that does not complete. -/
def undoN : Nat → GenericIndex keys → Outcome (GenericIndex keys)
  | 0, idx => .done idx
  | n + 1, idx =>
      match idx.undo with
      | .done idx' => undoN n idx'
      | .threw idx' => .threw idx'
      | .undefined => .undefined

/-- The `n`-fold squash. -/
def squashN : Nat → GenericIndex keys → GenericIndex keys
  | 0, idx => idx
  | n + 1, idx => squashN n idx.squash

/-- Nested sessions, outermost first, each with its calls. -/
def nest (idx : GenericIndex keys) (sessions : List (List (Call V))) : GenericIndex keys :=
  sessions.foldl (fun i calls => i.startUndoSession.runCalls calls) idx

end GenericIndex

end Gamebank.Chainbase
