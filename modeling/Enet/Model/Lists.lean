import Enet.Library.CircularList

/-!
# Lists

The functions of `list.c`. A node has two links, and the nodes of a heap are
kept as two maps from their addresses. The writes of a function stand in the
order of the source, and each reads the heap as the writes before it left it.
-/

set_option autoImplicit false

namespace Enet

open Library (Links)

universe u

variable {α : Type u} [DecidableEq α]

/-- `enet_list_clear`. -/
def listClear (links : Links α) (sentinel : α) : Links α :=
  let links := links.setNext sentinel sentinel
  links.setPrevious sentinel sentinel

/-- `enet_list_insert`, and the iterator it returns. -/
def listInsert (links : Links α) (position data : α) : Links α × α :=
  let result := data
  let links := links.setPrevious result (links.previous position)
  let links := links.setNext result position
  let links := links.setNext (links.previous result) result
  let links := links.setPrevious position result
  (links, result)

/-- `enet_list_remove`, and the node it returns. -/
def listRemove (links : Links α) (position : α) : Links α × α :=
  let links := links.setNext (links.previous position) (links.next position)
  let links := links.setPrevious (links.next position) (links.previous position)
  (links, position)

/-- `enet_list_move`, and the iterator it returns. -/
def listMove (links : Links α) (position dataFirst dataLast : α) : Links α × α :=
  let first := dataFirst
  let last := dataLast
  let links := links.setNext (links.previous first) (links.next last)
  let links := links.setPrevious (links.next last) (links.previous first)
  let links := links.setPrevious first (links.previous position)
  let links := links.setNext last position
  let links := links.setNext (links.previous first) first
  let links := links.setPrevious position last
  (links, first)

/-- The loop of `enet_list_size`. There is no answer while it has not ended. -/
def listSizeFrom (links : Links α) (sentinel : α) : (fuel : Nat) → (position : α) →
    (size : Nat) → Option Nat
  | 0, _, _ => none
  | fuel + 1, position, size =>
    if position ≠ sentinel then listSizeFrom links sentinel fuel (links.next position) (size + 1)
    else some size

/-- `enet_list_size`. -/
def listSize (links : Links α) (sentinel : α) (fuel : Nat) : Option Nat :=
  listSizeFrom links sentinel fuel (links.next sentinel) 0

end Enet
