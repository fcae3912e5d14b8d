import Chuckles.Libc.String

/-!
# `Chuckles.Proofs.Strrev`: `strrev` reverses in place

The string and its NUL lie between any other cells. These may hold nothing, and there may be none
at all. A load of a cell that holds nothing has no result, and a store to it would leave a value
there. So a call that returns, and leaves the other cells as they are whatever they hold, has
accessed the string and its NUL only.

The stores are those of the loop. It runs on the bytes without their NUL as well, so it neither
loads nor stores it.
-/

set_option autoImplicit false

namespace Chuckles.Proofs

open Lib

/-- The string with its bytes in the other order. -/
def reversed (s : CString) : CString :=
  ⟨s.bytes.reverse, fun b hb => s.nonzero b (List.mem_reverse.mp hb)⟩

/-- Its bytes. -/
@[simp] theorem reversed_bytes (s : CString) : (reversed s).bytes = s.bytes.reverse := rfl

/-- Twice reversed it is the same string. -/
@[simp] theorem reversed_reversed (s : CString) : reversed (reversed s) = s := by
  simp [reversed]

/-- A call for a string of any length, also for the empty one, which the source treats apart. -/
theorem strrev_object (s : CString) (before after : Object UInt8) :
    ∃ report, strrev (before ++ (s.object ++ after)) (some before.length)
      = some (some before.length, before ++ ((reversed s).object ++ after), report) := by
  have hobject (t : CString) : t.object ++ after = t.bytes.map some ++ some 0 :: after := by
    simp [CString.object]
  rw [hobject, hobject, reversed_bytes]
  by_cases hnil : s.bytes = []
  · rw [hnil]
    exact ⟨_, strrev_nil before after rfl⟩
  · rcases strrev_eq before after s.bytes s.nonzero hnil rfl with ⟨out, h, -⟩
    exact ⟨_, h⟩

/-- `strrev` returns its argument, and leaves the reversed string with its NUL. A second call
restores the string. Both calls access no other cell, and no store goes to the NUL. -/
theorem strrev_in_place (s : CString) (before after : Object UInt8) :
    (∃ report, strrev (before ++ (s.object ++ after)) (some before.length)
      = some (some before.length, before ++ ((reversed s).object ++ after), report)) ∧
    (∃ report, strrev (before ++ ((reversed s).object ++ after)) (some before.length)
      = some (some before.length, before ++ (s.object ++ after), report)) ∧
    ∃ out, strrevLoop s.bytes.length (before ++ (s.bytes.map some ++ after)) before.length
        (before.length + s.bytes.length - 1)
      = some (before ++ (s.bytes.reverse.map some ++ after), out) := by
  refine ⟨strrev_object s before after, ?_, ?_⟩
  · have htwice := strrev_object (reversed s) before after
    rwa [reversed_reversed] at htwice
  · rcases strrevLoop_eq s.bytes _ before after (Nat.le_refl _) with ⟨out, h, -⟩
    exact ⟨out, h⟩

end Chuckles.Proofs
