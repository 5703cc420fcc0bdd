import Mathlib.Logic.Function.Basic

/-!
# Circular doubly linked list (`linked_list_advanced/include/ll.h`)

Nodes are named by the elements of a type `ν`; the heap gives the two links of
every node, `none` for `NULL`. A node in no list may hold any links. The
functions are in `Option` where they follow a link that may be `NULL`.
-/

namespace LinkedList

/-- `struct list_item` -/
structure ListItem (ν : Type) where
  next : Option ν
  prev : Option ν
deriving Repr, DecidableEq

/-- The links of all nodes. -/
abbrev Heap (ν : Type) := ν → ListItem ν

variable {ν : Type} [DecidableEq ν]

/-- `p->next = v` -/
def setNext (h : Heap ν) (p v : Option ν) : Option (Heap ν) :=
  p.map fun a => Function.update h a { h a with next := v }

/-- `p->prev = v` -/
def setPrev (h : Heap ν) (p v : Option ν) : Option (Heap ν) :=
  p.map fun a => Function.update h a { h a with prev := v }

/-- `ll_init_list` -/
def llInitList (h : Heap ν) (list : ν) : Heap ν :=
  Function.update h list { next := some list, prev := some list }

/-- `__ll_add` -/
def rawLlAdd (h : Heap ν) (newItem : ν) (prev next : Option ν) : Option (Heap ν) := do
  let h ← setNext h newItem next
  let h ← setPrev h newItem prev
  let h ← setNext h prev newItem
  setPrev h next newItem

/-- `ll_add`: add `newItem` after `prev` -/
def llAdd (h : Heap ν) (newItem prev : ν) : Option (Heap ν) :=
  rawLlAdd h newItem prev (h prev).next

/-- `ll_add_tail`: add `newItem` before `next` -/
def llAddTail (h : Heap ν) (newItem next : ν) : Option (Heap ν) :=
  rawLlAdd h newItem (h next).prev next

/-- `__ll_del` -/
def rawLlDel (h : Heap ν) (prev next : Option ν) : Option (Heap ν) := do
  let h ← setNext h prev next
  setPrev h next next  -- `next->prev = next`, as the source has it

/-- `ll_del` -/
def llDel (h : Heap ν) (del : ν) : Option (Heap ν) := do
  -- both arguments are read before `__ll_del` writes
  let h ← rawLlDel h (h del).prev (h del).next
  let h ← setNext h del none
  setPrev h del none

/-- `ll_is_empty` -/
def llIsEmpty (h : Heap ν) (head : ν) : Bool := (h head).next == some head

end LinkedList
