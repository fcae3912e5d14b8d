import Chuckles.Proofs.RefFormat

/-!
# `Chuckles.Proofs.FormatPass`: one pass of the formatter, for any sink

`printf` and `serial_printf` take the same passes, whatever their sink does with the bytes.
`refPiece` is the next piece of output at a place of the format, and `NextPiece` says that
the next pass puts it out: the part of the format that it uses, and how the reference splits
there.

`exists_nextPiece` is the result: at every place before the end of a format that matches its
arguments there is a next piece. The cases are those of the reference.
-/

set_option autoImplicit false

namespace Chuckles.Proofs

open Lib Lib.Loop

/-- The place of the format does not matter for a piece. -/
theorem passes_place {p : Piece} {put : Sink} {s : FmtState} (place : Nat) {format : Nat}
    {pass : Option (Pass FmtState FmtResult)}
    (h : p.Passes put { s with format := place } format pass) : p.Passes put s format pass :=
  ⟨h.overflow, h.accepted, h.serial, h.refused⟩

/-- The piece of a conversion. -/
def convPiece (k : UInt8) (l : List UInt8) (args argsLeft : List Arg) : Piece where
  text := l
  calls := convCalls k args
  args := argsLeft
  checked := k = 'c'.toUInt8 ∨ k = 's'.toUInt8
  reports := k = 'x'.toUInt8

/-- The piece of literal text from the byte `c` on, and the format behind it. -/
def literalPiece (c : UInt8) (rest : List UInt8) (args : List Arg) : Piece × List UInt8 :=
  (⟨c :: rest.takeWhile (· ≠ '%'.toUInt8), [], args, true, false⟩,
    rest.dropWhile (· ≠ '%'.toUInt8))

/-- The next piece of a format with its arguments, and the format behind it. -/
def refPiece : List UInt8 → List Arg → Option (Piece × List UInt8)
  | [], _ => none
  | [c], args => some (⟨[c], [], args, true, false⟩, [])
  | c :: k :: rest, args =>
    if c ≠ '%'.toUInt8 then some (literalPiece c (k :: rest) args)
    else if k = '%'.toUInt8 then some (literalPiece k rest args)
    else if k ∈ ascii "csdx" then
      (refConv k args).map fun r => (convPiece k r.1 args r.2, rest)
    else some (⟨c :: k :: rest, [], args, true, false⟩, [])

/-- A run of literal text, up to the next percent sign. -/
theorem literalPiece_append (c : UInt8) {lit rest : List UInt8} (hlit : '%'.toUInt8 ∉ lit)
    (hrest : rest.head?.all (· = '%'.toUInt8)) (args : List Arg) :
    literalPiece c (lit ++ rest) args = (⟨c :: lit, [], args, true, false⟩, rest) := by
  have hall : ∀ b ∈ lit, decide (b ≠ '%'.toUInt8) = true :=
    fun b hb => decide_eq_true fun h => hlit (h ▸ hb)
  have hhead : rest.takeWhile (· ≠ '%'.toUInt8) = [] ∧ rest.dropWhile (· ≠ '%'.toUInt8) = rest := by
    cases rest with
    | nil => exact ⟨rfl, rfl⟩
    | cons b rest =>
      have hb : b = '%'.toUInt8 := by simpa using hrest
      subst hb
      exact ⟨rfl, rfl⟩
  rw [literalPiece, List.takeWhile_append_of_pos hall, List.dropWhile_append_of_pos hall, hhead.1,
    hhead.2, List.append_nil]

/-- Literal text from a byte that is not a percent sign. -/
theorem refPiece_literal {c : UInt8} (hc : c ≠ '%'.toUInt8) (rest : List UInt8)
    (args : List Arg) : refPiece (c :: rest) args = some (literalPiece c rest args) := by
  cases rest with
  | nil => rfl
  | cons k rest => exact if_pos hc

/-- A conversion of the format language puts out its reference text. -/
theorem passes_conversion {put : Sink} {fmt : CString} {s : FmtState} {k : UInt8}
    {l : List UInt8} {args argsLeft : List Arg} (hargs : s.args = args)
    (hnext : fmt.object.load (s.format + 1) = some k) (hk : k ∈ ascii "csdx")
    (href : refConv k args = some (l, argsLeft)) :
    (convPiece k l args argsLeft).Passes put s (s.format + 2) (conversion put fmt s) := by
  have hmem : ascii "csdx" = ['c'.toUInt8, 's'.toUInt8, 'd'.toUInt8, 'x'.toUInt8] := rfl
  simp only [hmem, List.mem_cons, List.not_mem_nil, or_false] at hk
  apply passes_place (s.format + 2)
  rw [conversion, hnext]
  unfold convPiece
  rcases hk with rfl | rfl | rfl | rfl
  · rw [convCalls_of_ne (by decide)]
    match args, href with
    | .int i :: args, href =>
      cases href
      exact passes_convC hargs
  · rw [convCalls_of_ne (by decide)]
    match args, href with
    | .str str :: args, href =>
      cases href
      exact passes_convS hargs
  · match args, href with
    | .int i :: args, href =>
      cases href
      exact passes_convD hargs
  · rw [convCalls_of_ne (by decide)]
    match args, href with
    | .int i :: args, href =>
      cases href
      exact passes_convX hargs

/-- Any other byte behind a percent sign, or none: the rest of the format is put out. -/
theorem passes_conversion_other {put : Sink} {fmt : CString} {s : FmtState} {k : UInt8}
    {pre rest : List UInt8} (hnext : fmt.object.load (s.format + 1) = some k)
    (hk : k ∉ ascii "csdx") (hfmt : fmt.bytes = pre ++ rest) (hpre : s.format = pre.length) :
    Piece.Passes ⟨rest, [], s.args, true, false⟩ put s fmt.bytes.length
      (conversion put fmt s) := by
  have hmem : ascii "csdx" = ['c'.toUInt8, 's'.toUInt8, 'd'.toUInt8, 'x'.toUInt8] := rfl
  simp only [hmem, List.mem_cons, List.not_mem_nil, or_false, not_or] at hk
  rcases hk with ⟨hc, hs, hd, hx⟩
  simp only [conversion, hnext, Option.bind_eq_bind, Option.bind_some, hc, hs, hd, hx, if_false]
  exact passes_convOther hfmt hpre

/-- What the next pass is, at a place where `rest` is left of the format and the reference
makes the text `text` of it. The pass uses the part `used`, and the text `out` comes after
it. -/
structure NextPiece (fmt : CString) (pre rest : List UInt8) (args : List Arg) (text : List UInt8)
    (argsLeft : List Arg) (p : Piece) (used rest' out : List UInt8) : Prop where
  piece : refPiece rest args = some (p, rest')
  split : rest = used ++ rest'
  moves : used ≠ []
  text : text = p.text ++ out
  ref : refFormat rest' p.args = some (out, argsLeft)
  calls : itoaCalls rest args = p.calls ++ itoaCalls rest' p.args
  hex : hasHex rest = (p.reports || hasHex rest')
  passes : ∀ (put : Sink) (s : FmtState), s.format = pre.length → s.args = args →
    p.Passes put s (pre ++ used).length (formatBody put fmt s)

section
variable {fmt : CString} {pre rest : List UInt8} {args argsLeft : List Arg} {text : List UInt8}

/-- A run of literal text, from a byte that is not a percent sign. -/
theorem nextPiece_literal {c : UInt8} (hc : c ≠ '%'.toUInt8)
    (hfmt : fmt.bytes = pre ++ c :: rest)
    (href : refFormat (c :: rest) args = some (text, argsLeft)) :
    ∃ p used rest' out, NextPiece fmt pre (c :: rest) args text argsLeft p used rest' out := by
  obtain ⟨lit, rest', rfl, hlit, hrest⟩ := literal_split rest
  have hlit' : '%'.toUInt8 ∉ c :: lit := List.not_mem_cons_of_ne_of_not_mem (Ne.symm hc) hlit
  rw [← List.cons_append, refFormat_literal (c :: lit) hlit'] at href
  obtain ⟨out, hout, rfl⟩ := prepend_eq_some href
  refine ⟨⟨c :: lit, [], args, true, false⟩, c :: lit, rest', out, ?_, rfl, List.cons_ne_nil c lit,
    rfl, hout, itoaCalls_literal (c :: lit) hlit' rest' args, hasHex_literal (c :: lit) hlit' rest',
    ?_⟩
  · rw [refPiece_literal hc, literalPiece_append c hlit hrest]
  rintro put s hformat rfl
  have hload := CString.load_object hfmt hformat
  have hc0 : c ≠ 0 := fmt.nonzero c (by simp [hfmt])
  simp only [formatBody, hload, Option.bind_eq_bind, Option.bind_some, if_neg hc0, if_pos hc]
  exact passes_literalRun (by simpa using hfmt) hformat hlit hrest

/-- Two percent signs: literal text from the second one on. -/
theorem nextPiece_percent (hfmt : fmt.bytes = pre ++ '%'.toUInt8 :: '%'.toUInt8 :: rest)
    (href : refFormat ('%'.toUInt8 :: '%'.toUInt8 :: rest) args = some (text, argsLeft)) :
    ∃ p used rest' out, NextPiece fmt pre ('%'.toUInt8 :: '%'.toUInt8 :: rest) args text argsLeft
      p used rest' out := by
  obtain ⟨lit, rest', rfl, hlit, hrest⟩ := literal_split rest
  have href' : prepend ('%'.toUInt8 :: lit) (refFormat rest' args) = some (text, argsLeft) := by
    rw [← href, ← List.singleton_append, prepend_append, ← refFormat_literal lit hlit]
    rfl
  obtain ⟨out, hout, rfl⟩ := prepend_eq_some href'
  refine ⟨⟨'%'.toUInt8 :: lit, [], args, true, false⟩, '%'.toUInt8 :: '%'.toUInt8 :: lit, rest',
    out, ?_, rfl, List.cons_ne_nil _ _, rfl, hout, itoaCalls_literal lit hlit rest' args,
    hasHex_literal lit hlit rest', ?_⟩
  · rw [← literalPiece_append _ hlit hrest]
    rfl
  rintro put s hformat rfl
  have hfmt₂ : fmt.bytes = (pre ++ ['%'.toUInt8]) ++ '%'.toUInt8 :: (lit ++ rest') := by
    simpa using hfmt
  have hload := CString.load_object hfmt hformat
  have hnext := CString.load_object hfmt₂ (p := s.format + 1) (by simp [hformat])
  simp only [formatBody, hload, hnext, Option.bind_eq_bind, Option.bind_some]
  apply passes_place (s.format + 1)
  have hplace : (pre ++ '%'.toUInt8 :: '%'.toUInt8 :: lit).length
      = ((pre ++ ['%'.toUInt8]) ++ '%'.toUInt8 :: lit).length := by simp
  rw [hplace]
  exact passes_literalRun (s := { s with format := s.format + 1 }) (by simpa using hfmt₂)
    (by simp [hformat]) hlit hrest

/-- A conversion. -/
theorem nextPiece_conversion {k : UInt8} (hk : k ∈ ascii "csdx")
    (hfmt : fmt.bytes = pre ++ '%'.toUInt8 :: k :: rest)
    (href : refFormat ('%'.toUInt8 :: k :: rest) args = some (text, argsLeft)) :
    ∃ p used rest' out, NextPiece fmt pre ('%'.toUInt8 :: k :: rest) args text argsLeft
      p used rest' out := by
  have hpercent : k ≠ '%'.toUInt8 := by
    rintro rfl
    exact absurd hk (by decide)
  have hfirst : ¬ '%'.toUInt8 ≠ '%'.toUInt8 := fun h => h rfl
  rw [refFormat, if_neg hfirst, if_neg hpercent, if_pos hk] at href
  rcases Option.bind_eq_some_iff.mp href with ⟨⟨l, argsLeft'⟩, hconv, href⟩
  obtain ⟨out, hout, rfl⟩ := prepend_eq_some href
  refine ⟨convPiece k l args argsLeft', ['%'.toUInt8, k], rest, out, ?_, rfl,
    List.cons_ne_nil _ _, rfl, hout, ?_, ?_, ?_⟩
  · rw [refPiece, if_neg hfirst, if_neg hpercent, if_pos hk, hconv]
    rfl
  · rw [itoaCalls, if_neg hfirst, if_neg hpercent, if_pos hk, hconv]
    rfl
  · rw [hasHex, if_neg hfirst, if_neg hpercent, if_pos hk]
    rfl
  · intro put s hformat hargs
    have hfmt₂ : fmt.bytes = (pre ++ ['%'.toUInt8]) ++ k :: rest := by simpa using hfmt
    have hload := CString.load_object hfmt hformat
    have hnext := CString.load_object hfmt₂ (p := s.format + 1) (by simp [hformat])
    have hplace : (pre ++ ['%'.toUInt8, k]).length = s.format + 2 := by simp [hformat]
    simp only [formatBody, hload, hnext, Option.bind_eq_bind, Option.bind_some, if_neg hpercent]
    rw [hplace]
    exact passes_conversion hargs hnext hk hconv

/-- Any other byte behind a percent sign, or none: the rest of the format is literal. -/
theorem nextPiece_other (hk : ∀ k ∈ rest.head?, k ≠ '%'.toUInt8 ∧ k ∉ ascii "csdx")
    (hfmt : fmt.bytes = pre ++ '%'.toUInt8 :: rest)
    (href : refFormat ('%'.toUInt8 :: rest) args = some (text, argsLeft)) :
    ∃ p used rest' out, NextPiece fmt pre ('%'.toUInt8 :: rest) args text argsLeft
      p used rest' out := by
  have hfirst : ¬ '%'.toUInt8 ≠ '%'.toUInt8 := fun h => h rfl
  have hwhole : refFormat ('%'.toUInt8 :: rest) args = some ('%'.toUInt8 :: rest, args) ∧
      refPiece ('%'.toUInt8 :: rest) args
        = some (⟨'%'.toUInt8 :: rest, [], args, true, false⟩, []) ∧
      itoaCalls ('%'.toUInt8 :: rest) args = [] ∧ hasHex ('%'.toUInt8 :: rest) = false := by
    cases rest with
    | nil => exact ⟨rfl, rfl, rfl, rfl⟩
    | cons k rest =>
      rcases hk k rfl with ⟨hpercent, hk⟩
      rw [refFormat, refPiece, itoaCalls, hasHex, if_neg hfirst, if_neg hpercent, if_neg hk,
        if_neg hfirst, if_neg hpercent, if_neg hk, if_neg hfirst, if_neg hpercent, if_neg hk,
        if_neg hfirst, if_neg hpercent, if_neg hk]
      exact ⟨rfl, rfl, rfl, rfl⟩
  rcases hwhole with ⟨hwhole, hpiece, hcalls, hhex⟩
  rw [hwhole] at href
  cases href
  refine ⟨⟨'%'.toUInt8 :: rest, [], args, true, false⟩, '%'.toUInt8 :: rest, [], [], hpiece,
    (List.append_nil _).symm, List.cons_ne_nil _ _, (List.append_nil _).symm, rfl, hcalls, hhex, ?_⟩
  rintro put s hformat rfl
  have hload := CString.load_object hfmt hformat
  obtain ⟨k, hnext, hpercent, hk⟩ : ∃ k, fmt.object.load (s.format + 1) = some k ∧
      k ≠ '%'.toUInt8 ∧ k ∉ ascii "csdx" := by
    cases rest with
    | nil => exact ⟨0, fmt.load_object_end (by simp [hfmt, hformat]), by decide, by decide⟩
    | cons k rest =>
      have hfmt₂ : fmt.bytes = (pre ++ ['%'.toUInt8]) ++ k :: rest := by simpa using hfmt
      exact ⟨k, CString.load_object hfmt₂ (by simp [hformat]), hk k rfl⟩
  simp only [formatBody, hload, hnext, Option.bind_eq_bind, Option.bind_some, if_neg hpercent]
  rw [← hfmt]
  exact passes_conversion_other hnext hk hfmt hformat

/-- At every place before the end of the format there is a next piece. -/
theorem exists_nextPiece (hfmt : fmt.bytes = pre ++ rest) (hrest : rest ≠ [])
    (href : refFormat rest args = some (text, argsLeft)) :
    ∃ p used rest' out, NextPiece fmt pre rest args text argsLeft p used rest' out := by
  match rest, hrest with
  | c :: rest, _ =>
    by_cases hc : c = '%'.toUInt8
    · subst hc
      match rest with
      | [] => exact nextPiece_other nofun hfmt href
      | k :: rest =>
        by_cases hpercent : k = '%'.toUInt8
        · subst hpercent
          exact nextPiece_percent hfmt href
        · by_cases hk : k ∈ ascii "csdx"
          · exact nextPiece_conversion hk hfmt href
          · refine nextPiece_other (fun k' hk' => ?_) hfmt href
            cases hk'
            exact ⟨hpercent, hk⟩
    · exact nextPiece_literal hc hfmt href

/-- A pass with a result. -/
theorem formatPass_eq {put : Sink} {s : FmtState} {pass : Pass FmtState FmtResult}
    (h : formatBody put fmt s = some pass) : formatPass put fmt s = pass := by
  rw [formatPass, h, Option.getD_some]

/-- At the end of the format the loop exits. -/
theorem formatPass_end (put : Sink) {s : FmtState} (hend : s.format = fmt.bytes.length) :
    formatPass put fmt s = .exit ⟨s.written, s.args, s.out⟩ := by
  have hload := fmt.load_object_end hend
  simp only [formatPass, formatBody, hload, Option.bind_eq_bind, Option.bind_some, if_true,
    Option.getD_some]

end

end Chuckles.Proofs
