import Mathlib.Tactic.Common
import Mathlib.Data.List.Induction

/-!
# `Chuckles.Lib.Object`: memory objects with checked accesses

An `Object β` is a finite run of memory cells, as an array or a string of a C program
is. A cell holds a value, or nothing yet (an array that was declared and not
initialised). A pointer into the object is an offset.

`load` and `store` are partial. A load outside the object, a load of a cell that holds
nothing, and a store outside the object have no result. So a program that is written
with them and returns a result made no access that the language leaves undefined.

The access lemmas split an object at the accessed cell (`before ++ cell :: after`), the
form in which the loop invariants of the users of this file are stated.
-/

set_option autoImplicit false

namespace Lib

universe u

/-- A memory object: one entry per cell, `none` while the cell is uninitialised. -/
abbrev Object (β : Type u) := List (Option β)

namespace Object

variable {β : Type u}

/-- An object of `n` uninitialised cells. -/
def fresh (n : Nat) : Object β := List.replicate n none

/-- The value in the cell at the offset `a`. -/
def load (o : Object β) (a : Nat) : Option β := o[a]?.join

/-- The object after a store of `b` at the offset `a`. -/
def store (o : Object β) (a : Nat) (b : β) : Option (Object β) :=
  if a < o.length then some (o.set a (some b)) else none

/-- The size of a new object. -/
@[simp] theorem length_fresh (n : Nat) : (fresh n : Object β).length = n := by
  simp [fresh]

/-- A load at the split point reads the cell after it. -/
theorem load_append (before after : Object β) (b : β) {a : Nat} (ha : a = before.length) :
    load (before ++ some b :: after) a = some b := by
  subst ha
  simp [load]

/-- A store at the split point replaces the cell after it. -/
theorem store_append (before after : Object β) (c : Option β) (b : β) {a : Nat}
    (ha : a = before.length) :
    store (before ++ c :: after) a b = some (before ++ some b :: after) := by
  subst ha
  simp [store]

/-- A store to the last of the first cells of an object. -/
theorem store_take {o : Object β} {a : Nat} (ha : a < o.length) (rest : Object β) (b : β) :
    store (o.take (a + 1) ++ rest) a b = some (o.take a ++ some b :: rest) := by
  rw [← List.take_append_getElem ha, List.append_assoc]
  exact store_append (o.take a) rest o[a] b (by rw [List.length_take]; omega)

/-- A store keeps the number of cells. -/
theorem length_of_store {o o' : Object β} {a : Nat} {b : β} (h : store o a b = some o') :
    o'.length = o.length := by
  unfold store at h
  split at h
  · cases h
    simp
  · cases h

/-- A store changes no other cell. -/
theorem getElem?_of_store {o o' : Object β} {a i : Nat} {b : β}
    (h : store o a b = some o') (hi : i ≠ a) : o'[i]? = o[i]? := by
  unfold store at h
  split at h
  · cases h
    exact List.getElem?_set_ne hi.symm
  · cases h

end Object

end Lib
