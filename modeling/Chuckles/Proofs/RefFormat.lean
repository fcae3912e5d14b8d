import Chuckles.Libc.Printf

/-!
# `Chuckles.Proofs.RefFormat`: a reference formatter

`refFormat` says what a format and its arguments mean, one byte of the format at a time: the
text, and the arguments that are left. It has no result when an argument is missing or has
the wrong type.

`itoaCalls` are the numbers that the format converts with `%d`, and `hasHex` says whether it
reaches a `%x`. The lemmas split off a run of literal text (`refFormat_literal`,
`itoaCalls_literal`, `hasHex_literal`).
-/

set_option autoImplicit false

namespace Chuckles.Proofs

open Lib

/-- Text in front of a result. -/
def prepend (l : List UInt8) : Option (List UInt8 × List Arg) → Option (List UInt8 × List Arg) :=
  Option.map fun r => (l ++ r.1, r.2)

/-- The text of one conversion, and the arguments that are left. -/
def refConv (k : UInt8) (args : List Arg) : Option (List UInt8 × List Arg) :=
  if k = 'c'.toUInt8 then
    match args with
    | .int i :: args => some ([charOfInt i.toInt], args)
    | _ => none
  else if k = 's'.toUInt8 then
    match args with
    | .str s :: args => some (s.bytes, args)
    | _ => none
  else if k = 'd'.toUInt8 then
    match args with
    | .int i :: args => some (decimal i, args)
    | _ => none
  else
    match args with
    | .int i :: args => some (hexText i, args)
    | _ => none

/-- The text of a format with its arguments, and the arguments that are left. -/
def refFormat : List UInt8 → List Arg → Option (List UInt8 × List Arg)
  | [], args => some ([], args)
  | [c], args => some ([c], args)
  | c :: k :: rest, args =>
    if c ≠ '%'.toUInt8 then prepend [c] (refFormat (k :: rest) args)
    else if k = '%'.toUInt8 then prepend [k] (refFormat rest args)
    else if k ∈ ascii "csdx" then do
      let (l, args) ← refConv k args
      prepend l (refFormat rest args)
    else some (c :: k :: rest, args)

/-- The calls of `itoa` for one conversion. -/
def convCalls (k : UInt8) (args : List Arg) : List Int32 :=
  match args with
  | .int i :: _ => if k = 'd'.toUInt8 then [i, i, i] else []
  | _ => []

/-- Only `%d` calls `itoa`. -/
theorem convCalls_of_ne {k : UInt8} (hk : k ≠ 'd'.toUInt8) (args : List Arg) :
    convCalls k args = [] := by
  unfold convCalls
  split
  · rw [if_neg hk]
  · rfl

/-- The calls of `itoa` for a format with its arguments. -/
def itoaCalls : List UInt8 → List Arg → List Int32
  | [], _ => []
  | [_], _ => []
  | c :: k :: rest, args =>
    if c ≠ '%'.toUInt8 then itoaCalls (k :: rest) args
    else if k = '%'.toUInt8 then itoaCalls rest args
    else if k ∈ ascii "csdx" then
      convCalls k args ++ itoaCalls rest ((refConv k args).map Prod.snd |>.getD [])
    else []

/-- The format reaches a `%x`. -/
def hasHex : List UInt8 → Bool
  | [] => false
  | [_] => false
  | c :: k :: rest =>
    if c ≠ '%'.toUInt8 then hasHex (k :: rest)
    else if k = '%'.toUInt8 then hasHex rest
    else if k ∈ ascii "csdx" then k = 'x'.toUInt8 || hasHex rest
    else false

/-- A byte that is not a percent sign stands for itself. -/
theorem refFormat_cons {c : UInt8} (hc : c ≠ '%'.toUInt8) (rest : List UInt8)
    (args : List Arg) : refFormat (c :: rest) args = prepend [c] (refFormat rest args) := by
  cases rest with
  | nil => rfl
  | cons k rest => rw [refFormat, if_pos hc]

/-- Literal text calls no `itoa`. -/
theorem itoaCalls_literal (lit : List UInt8) (hlit : '%'.toUInt8 ∉ lit)
    (rest : List UInt8) (args : List Arg) : itoaCalls (lit ++ rest) args = itoaCalls rest args := by
  induction lit with
  | nil => rfl
  | cons b lit ih =>
    obtain ⟨hb, hlit⟩ := List.ne_and_not_mem_of_not_mem_cons hlit
    have hb : b ≠ '%'.toUInt8 := Ne.symm hb
    have hrest := ih hlit
    rw [List.cons_append, ← hrest]
    cases lit ++ rest with
    | nil => rfl
    | cons k rest' => rw [itoaCalls, if_pos hb]

/-- Literal text reaches no `%x`. -/
theorem hasHex_literal (lit : List UInt8) (hlit : '%'.toUInt8 ∉ lit) (rest : List UInt8) :
    hasHex (lit ++ rest) = hasHex rest := by
  induction lit with
  | nil => rfl
  | cons b lit ih =>
    rcases List.ne_and_not_mem_of_not_mem_cons hlit with ⟨hb, hlit⟩
    rw [List.cons_append, ← ih hlit]
    cases lit ++ rest with
    | nil => rfl
    | cons k rest' => rw [hasHex, if_pos (Ne.symm hb)]

/-- No text in front. -/
theorem prepend_nil (r : Option (List UInt8 × List Arg)) : prepend [] r = r := by
  cases r <;> rfl

/-- One text in front of the other. -/
theorem prepend_append (l₁ l₂ : List UInt8) (r : Option (List UInt8 × List Arg)) :
    prepend (l₁ ++ l₂) r = prepend l₁ (prepend l₂ r) := by
  cases r <;> simp [prepend]

/-- There is a result with a text in front only when there is one without. -/
theorem prepend_eq_some {l : List UInt8} {r : Option (List UInt8 × List Arg)}
    {out : List UInt8} {args : List Arg} (h : prepend l r = some (out, args)) :
    ∃ out', r = some (out', args) ∧ out = l ++ out' := by
  cases r with
  | none => simp [prepend] at h
  | some r =>
    obtain ⟨out', args'⟩ := r
    simp only [prepend, Option.map_some, Option.some.injEq, Prod.mk.injEq] at h
    obtain ⟨rfl, rfl⟩ := h
    exact ⟨out', rfl, rfl⟩

/-- A run of literal text. -/
theorem refFormat_literal (lit : List UInt8) (hlit : '%'.toUInt8 ∉ lit)
    (rest : List UInt8) (args : List Arg) :
    refFormat (lit ++ rest) args = prepend lit (refFormat rest args) := by
  induction lit with
  | nil => rw [List.nil_append, prepend_nil]
  | cons b lit ih =>
    obtain ⟨hb, hlit⟩ := List.ne_and_not_mem_of_not_mem_cons hlit
    rw [List.cons_append, refFormat_cons (Ne.symm hb), ih hlit,
      ← prepend_append, List.singleton_append]

/-- The bytes of a format up to its next percent sign. -/
theorem literal_split (rest : List UInt8) :
    ∃ lit rest', rest = lit ++ rest' ∧ '%'.toUInt8 ∉ lit ∧
      rest'.head?.all (· = '%'.toUInt8) := by
  induction rest with
  | nil => exact ⟨[], [], rfl, by simp, rfl⟩
  | cons b rest ih =>
    by_cases hb : b = '%'.toUInt8
    · exact ⟨[], b :: rest, rfl, by simp, by simpa using hb⟩
    · obtain ⟨lit, rest', rfl, hlit, hrest⟩ := ih
      exact ⟨b :: lit, rest', rfl, List.not_mem_cons_of_ne_of_not_mem (Ne.symm hb) hlit, hrest⟩

end Chuckles.Proofs
