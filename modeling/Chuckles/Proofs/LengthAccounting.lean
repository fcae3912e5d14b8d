import Chuckles.Proofs.Formatters

/-!
# `Chuckles.Proofs.LengthAccounting`: the counter of the formatters

`printf` and `serial_printf` count what they put out in a signed `written`, and compute the
room that is left from it. `Accounted` is what the counter is for: at each head of the loop it
is the number of the bytes put out so far, and an element of the format for which there is no
room ends the call with -1 before any byte of it.

The branches for literal text, `%c` and `%s` compare the length of their text with the room.
Those for `%d` and `%x` do not. So the counter wraps when the output passes `INT_MAX` in one
of these two (`not_accounted`).

* `pieces`: the elements of a format with its arguments. `Crossing` is the first one that does
  not fit.
* `Accounting`: the invariant of the loop. `accounting_step` is its step lemma.
* `accounted_iff`: the accounting is right exactly when the element that does not fit is one
  with a comparison, or is not reached because the sink refuses a byte before it.
* `length_accounting_iff`: the result for the two sinks.
-/

set_option autoImplicit false

namespace Chuckles.Proofs

open Lib Lib.Loop

/-! ### The elements of a format -/

/-- The elements of a format with its arguments, at most `n` of them. -/
def pieces : Nat → List UInt8 → List Arg → List Piece
  | 0, _, _ => []
  | n + 1, fmt, args =>
    match refPiece fmt args with
    | none => []
    | some (p, rest) => p :: pieces n rest p.args

/-- All elements: each uses at least one byte of the format. -/
def allPieces (fmt : CString) (args : List Arg) : List Piece :=
  pieces (fmt.bytes.length + 1) fmt.bytes args

/-- The text of some elements. -/
def textOf (ps : List Piece) : List UInt8 := ps.flatMap Piece.text

/-- The text of pieces behind pieces. -/
@[simp] theorem textOf_append (ps ps' : List Piece) :
    textOf (ps ++ ps') = textOf ps ++ textOf ps' :=
  List.flatMap_append

/-- The text of the first piece, then the others. -/
@[simp] theorem textOf_cons (p : Piece) (ps : List Piece) :
    textOf (p :: ps) = p.text ++ textOf ps :=
  List.flatMap_cons

/-- No piece, no text. -/
@[simp] theorem textOf_nil : textOf [] = [] := rfl

/-- The first element that `written` has no room for: the text before it has at most `INT_MAX`
bytes, and the text with it has more. -/
structure Crossing (ps before : List Piece) (p : Piece) (after : List Piece) : Prop where
  split : ps = before ++ p :: after
  fits : (textOf before).length ≤ INT_MAX
  crosses : INT_MAX < (textOf before).length + p.text.length

/-- Elements with no more than `INT_MAX` bytes of text come before it. -/
theorem Crossing.isPrefix {ps before after done todo : List Piece} {p : Piece}
    (h : Crossing ps before p after) (hps : ps = done ++ todo)
    (hdone : (textOf done).length ≤ INT_MAX) : done <+: before := by
  rcases List.prefix_or_prefix_of_prefix (h.split ▸ List.prefix_append before (p :: after))
    (hps ▸ List.prefix_append done todo) with hfront | hfront
  · -- What comes behind the first of the two starts with the element that crosses.
    rcases hfront with ⟨between, rfl⟩
    cases between with
    | nil => simp
    | cons q between =>
      have hsplit := h.split.symm.trans hps
      rw [List.append_assoc, List.append_cancel_left_eq, List.cons_append,
        List.cons.injEq] at hsplit
      rcases hsplit with ⟨rfl, -⟩
      have hcrosses := h.crosses
      simp only [textOf_append, textOf_cons, List.length_append] at hdone
      omega
  · exact hfront

/-- Text of more than `INT_MAX` bytes has such an element. The induction is on the elements
behind those that fit. -/
theorem exists_crossing (ps : List Piece) :
    ∀ done : List Piece, (textOf done).length ≤ INT_MAX →
      INT_MAX < (textOf (done ++ ps)).length →
      ∃ before p after, Crossing (done ++ ps) before p after := by
  induction ps with
  | nil =>
      intro done hdone hmax
      rw [List.append_nil] at hmax
      omega
  | cons p ps ih =>
      intro done hdone hmax
      by_cases hfits : ((textOf (done ++ [p])).length : Int) ≤ INT_MAX
      · have happend : done ++ p :: ps = (done ++ [p]) ++ ps := by
          rw [List.append_assoc, List.singleton_append]
        rw [happend] at hmax ⊢
        exact ih (done ++ [p]) hfits hmax
      · refine ⟨done, p, ps, rfl, hdone, ?_⟩
        simp only [textOf_append, textOf_cons, textOf_nil, List.append_nil,
          List.length_append] at hfits
        omega

/-- The elements have the text of the reference formatter. The induction is on their number. -/
theorem textOf_pieces {fmt : CString} {argsLeft : List Arg} (n : Nat) :
    ∀ (pre rest text : List UInt8) (args : List Arg), fmt.bytes = pre ++ rest →
      refFormat rest args = some (text, argsLeft) → rest.length < n →
      textOf (pieces n rest args) = text := by
  induction n with
  | zero =>
      intro pre rest text args _ _ hlen
      exact absurd hlen (Nat.not_lt_zero _)
  | succ n ih =>
      intro pre rest text args hfmt href hlen
      by_cases hrest : rest = []
      · subst hrest
        rw [refFormat, Option.some.injEq, Prod.mk.injEq] at href
        rw [pieces, refPiece, ← href.1]
        rfl
      · obtain ⟨p, used, rest', out, hnext⟩ := exists_nextPiece hfmt hrest href
        have hfmt' : fmt.bytes = (pre ++ used) ++ rest' := by
          rw [hfmt, hnext.split, List.append_assoc]
        rw [pieces, hnext.piece, hnext.text]
        show textOf (p :: pieces n rest' p.args) = _
        rw [textOf_cons, ih _ rest' out p.args hfmt' hnext.ref (length_rest_lt hnext hlen)]

/-- All the pieces are the whole text. -/
theorem textOf_allPieces {fmt : CString} {args argsLeft : List Arg} {text : List UInt8}
    (hmatch : refFormat fmt.bytes args = some (text, argsLeft)) :
    textOf (allPieces fmt args) = text :=
  textOf_pieces _ [] _ text args (List.nil_append _).symm hmatch (Nat.lt_succ_self _)

/-- The elements without a comparison are numerals: they are short, and have no byte 0xFF. -/
theorem unchecked_text {rest rest' : List UInt8} {args : List Arg} {p : Piece}
    (h : refPiece rest args = some (p, rest')) (hp : p.checked = false) :
    p.text.length ≤ 11 ∧ 0xFF ∉ p.text := by
  match rest, h with
  | [c], h =>
    cases h
    cases hp
  | c :: k :: rest, h =>
    rw [refPiece] at h
    split at h
    · cases h
      cases hp
    split at h
    · cases h
      cases hp
    split at h
    · rename_i hk
      rcases Option.map_eq_some_iff.mp h with ⟨⟨l, argsLeft⟩, hconv, hpiece⟩
      cases hpiece
      have hchecked : ¬(k = 'c'.toUInt8 ∨ k = 's'.toUInt8) := of_decide_eq_false hp
      rw [not_or] at hchecked
      unfold refConv at hconv
      rw [if_neg hchecked.1, if_neg hchecked.2] at hconv
      -- What is left of the conversions: `%d`, and `%x`.
      split at hconv
      · split at hconv
        · cases hconv
          exact ⟨length_decimal_le _, eof_notMem_decimal _⟩
        · cases hconv
      · split at hconv
        · cases hconv
          exact ⟨(length_hexText_le _).trans (by omega), eof_notMem_hexText _⟩
        · cases hconv
    · cases h
      cases hp

/-! ### The invariant -/

/-- The accounting of a call whose whole output is `text`: the counter at the heads of the loop,
and the result. -/
structure Accounted (put : Sink) (fmt : CString) (args : List Arg) (text : List UInt8)
    (m : Machine) : Prop where
  heads : ∀ n s, passes (formatPass put fmt) n ⟨0, 0, args, ⟨m, []⟩⟩ = .again s →
    0 ≤ s.written ∧ s.written ≤ INT_MAX ∧ s.written = s.out.sent.length
  returns : ∃ r, format put fmt args m = .exit r ∧ (r.ret = -1 ∨ 0 ≤ r.ret) ∧
    (INT_MAX < text.length → r.ret = -1 ∧
      ∃ before p after, Crossing (allPieces fmt args) before p after ∧
        r.out.sent <+: textOf before)

/-- The invariant: the elements `done` have been put out, they fit, and the sink has taken
them. -/
structure Accounting (put : Sink) (fmt : CString) (argsLeft : List Arg) (ps done : List Piece)
    (s : FmtState) : Prop where
  place : ∃ pre rest text n, fmt.bytes = pre ++ rest ∧ s.format = pre.length ∧
    refFormat rest s.args = some (text, argsLeft) ∧ rest.length < n ∧
    ps = done ++ pieces n rest s.args
  sent : s.out.sent = textOf done
  taken : put.Accepts (textOf done)
  written : s.written = (textOf done).length
  room : (textOf done).length ≤ INT_MAX

/-- A sink that refuses bytes, if any, whatever the machine. -/
def Sink.Decided (put : Sink) : Prop := ∀ l, put.Accepts l ∨ ∃ taken, put.Refuses l taken

/-- The sink takes the numerals. -/
def Sink.TakesNumerals (put : Sink) : Prop := ∀ l : List UInt8, 0xFF ∉ l → put.Accepts l

section
variable {put : Sink} {fmt : CString} {args argsLeft : List Arg} {ps done : List Piece}
  {s : FmtState} {m : Machine} {text : List UInt8}

/-- The start. -/
theorem accounting_start (hmatch : refFormat fmt.bytes args = some (text, argsLeft)) :
    Accounting put fmt argsLeft (allPieces fmt args) [] ⟨0, 0, args, ⟨m, []⟩⟩ where
  place := ⟨[], fmt.bytes, text, _, rfl, rfl, hmatch, Nat.lt_succ_self _, rfl⟩
  sent := rfl
  taken := by
    intro b hb
    cases hb
  written := rfl
  room := by
    show (0 : Int) ≤ 2147483647
    omega

/-- What the next pass is: the exit at the end of the format, or a pass for the next element.
When it goes on behind an element that fits, the invariant holds for one element more. -/
theorem accounting_next (h : Accounting put fmt argsLeft ps done s) :
    (ps = done ∧ formatPass put fmt s = .exit ⟨s.written, s.args, s.out⟩) ∨
      ∃ p after place, ps = done ++ p :: after ∧ s.format < place ∧ place ≤ fmt.bytes.length ∧
        p.Passes put s place (formatBody put fmt s) ∧
        (p.checked = false → p.text.length ≤ 11 ∧ 0xFF ∉ p.text) ∧
        ∀ out, out.sent = s.out.sent ++ p.text → put.Accepts (textOf (done ++ [p])) →
          ((textOf (done ++ [p])).length : Int) ≤ INT_MAX →
          Accounting put fmt argsLeft ps (done ++ [p])
            ⟨place, wrapInt (s.written + p.text.length), p.args, out⟩ := by
  rcases h.place with ⟨pre, rest, text, n, hfmt, hformat, href, hlen, hps⟩
  obtain ⟨n, rfl⟩ : ∃ k, n = k + 1 := ⟨n - 1, by omega⟩
  by_cases hrest : rest = []
  · subst hrest
    left
    rw [List.append_nil] at hfmt
    have hend : ps = done := by rw [hps, pieces, refPiece, List.append_nil]
    exact ⟨hend, formatPass_end put (by rw [hformat, hfmt])⟩
  · right
    obtain ⟨p, used, rest', out, hnext⟩ := exists_nextPiece hfmt hrest href
    have hmoves := List.length_pos_iff.mpr hnext.moves
    have hsplit : ps = done ++ p :: pieces n rest' p.args := by rw [hps, pieces, hnext.piece]
    have hfmt' : fmt.bytes = (pre ++ used) ++ rest' := by
      rw [hfmt, hnext.split, List.append_assoc]
    refine ⟨p, _, (pre ++ used).length, hsplit, ?_, ?_, hnext.passes put s hformat rfl,
      unchecked_text hnext.piece, ?_⟩
    · rw [List.length_append, hformat]
      omega
    · rw [hfmt']
      exact (List.prefix_append (pre ++ used) rest').length_le
    · intro out' hsent htaken hroom
      have htext : textOf (done ++ [p]) = textOf done ++ p.text := by simp
      refine ⟨⟨pre ++ used, rest', out, n, hfmt', rfl, hnext.ref, length_rest_lt hnext hlen, ?_⟩,
        ?_, htaken, ?_, hroom⟩
      · rw [hsplit, List.append_assoc, List.singleton_append]
      · rw [hsent, h.sent, htext]
      · have hlength : ((textOf (done ++ [p])).length : Int)
            = (textOf done).length + p.text.length := by
          rw [htext, List.length_append, Int.natCast_add]
        rw [hlength] at hroom ⊢
        show wrapInt (s.written + p.text.length) = _
        rw [h.written, wrapInt_eq (by omega) hroom]

/-- An element fits when the text with it has at most `INT_MAX` bytes. -/
theorem fits_iff (h : Accounting put fmt argsLeft ps done s) {p : Piece} (hp : p.checked = true) :
    p.Fits s.written ↔ ((textOf done).length + p.text.length : Int) ≤ INT_MAX := by
  have hroom := h.room
  rw [h.written, Piece.Fits, maxrem_eq (by omega) hroom]
  constructor
  · intro hfits
    have hle := hfits hp
    omega
  · intro hle _
    omega

/-- There is room for an element behind which there is still room. -/
theorem fits_of_room (h : Accounting put fmt argsLeft ps done s) {p : Piece}
    (hroom : ((textOf (done ++ [p])).length : Int) ≤ INT_MAX) : p.Fits s.written := by
  by_cases hp : p.checked = true
  · rw [fits_iff h hp]
    simp only [textOf_append, textOf_cons, textOf_nil, List.append_nil,
      List.length_append] at hroom
    omega
  · exact Piece.fits_of_not_checked (Bool.eq_false_iff.mpr hp) s.written

/-- An element that fits and that the sink takes: the pass goes on. -/
theorem accounting_again (h : Accounting put fmt argsLeft ps done s) {p : Piece}
    {after : List Piece} (hps : ps = done ++ p :: after)
    (hroom : (textOf (done ++ [p])).length ≤ INT_MAX)
    (htaken : put.Accepts (textOf (done ++ [p]))) :
    ∃ s', formatPass put fmt s = .again s' ∧ Accounting put fmt argsLeft ps (done ++ [p]) s' := by
  rcases accounting_next h with ⟨hend, -⟩ | ⟨q, after', place, hps', -, -, hpass, -, hnext⟩
  · rw [hend] at hps
    exact absurd (List.append_cancel_left ((List.append_nil done).trans hps)).symm
      (List.cons_ne_nil p after)
  · rw [hps, List.append_cancel_left_eq, List.cons.injEq] at hps'
    rcases hps' with ⟨rfl, -⟩
    have htext : textOf (done ++ [p]) = textOf done ++ p.text := by simp
    have haccepts : put.Accepts p.text := fun b hb =>
      htaken b (by rw [htext]; exact List.mem_append_right _ hb)
    rcases hpass.accepted (fits_of_room h hroom) haccepts with ⟨out, hagain, hsends⟩
    exact ⟨_, formatPass_eq hagain, hnext out hsends.sent htaken hroom⟩

/-- Elements that fit and that the sink takes: a pass for each of them. The induction is on
these elements. -/
theorem accounting_passes (todo : List Piece) :
    ∀ {done : List Piece} {s : FmtState} {after : List Piece},
      Accounting put fmt argsLeft ps done s → ps = done ++ (todo ++ after) →
      (textOf (done ++ todo)).length ≤ INT_MAX → put.Accepts (textOf (done ++ todo)) →
      ∃ s', passes (formatPass put fmt) todo.length s = .again s' ∧
        Accounting put fmt argsLeft ps (done ++ todo) s' := by
  induction todo with
  | nil =>
      intro done s after h _ _ _
      exact ⟨s, rfl, by rw [List.append_nil]; exact h⟩
  | cons p todo ih =>
      intro done s after h hps hroom htaken
      have happend : done ++ p :: todo = (done ++ [p]) ++ todo := by
        rw [List.append_assoc, List.singleton_append]
      rw [happend] at hroom htaken ⊢
      have hfirst : (textOf (done ++ [p]) ++ textOf todo) = textOf ((done ++ [p]) ++ todo) :=
        (textOf_append _ _).symm
      have hroom₁ : (textOf (done ++ [p])).length ≤ INT_MAX := by
        rw [← hfirst, List.length_append] at hroom
        omega
      have htaken₁ : put.Accepts (textOf (done ++ [p])) := fun b hb =>
        htaken b (hfirst ▸ List.mem_append_left _ hb)
      rcases accounting_again h hps hroom₁ htaken₁ with ⟨s₁, hagain, hs₁⟩
      have hps₁ : ps = (done ++ [p]) ++ (todo ++ after) := by
        rw [hps, List.append_assoc, List.singleton_append, List.cons_append]
      rcases ih hs₁ hps₁ hroom htaken with ⟨s', hpasses, hs'⟩
      exact ⟨s', (passes_succ_of_again _ hagain).trans hpasses, hs'⟩

/-! ### The condition -/

/-- The element that does not fit, if the sink takes the text before it, is one whose branch
compares its length with the room. -/
def Compared (put : Sink) (ps : List Piece) : Prop :=
  ∀ before p after, Crossing ps before p after → put.Accepts (textOf before) → p.checked = true

/-- The result of an accounted call. -/
def Settled (ps : List Piece) (r : FmtResult) : Prop :=
  (r.ret = -1 ∨ 0 ≤ r.ret) ∧
    ∀ before p after, Crossing ps before p after → r.ret = -1 ∧ r.out.sent <+: textOf before

/-- The end of the format: all elements fit. -/
theorem settled_at_end (h : Accounting put fmt argsLeft ps done s) (hend : ps = done) :
    Settled ps ⟨s.written, s.args, s.out⟩ := by
  refine ⟨Or.inr ?_, fun before p after hcrossing => ?_⟩
  · show 0 ≤ s.written
    rw [h.written]
    omega
  · have hfront := hcrossing.isPrefix (hend.trans (List.append_nil done).symm) h.room
    have hlength := hfront.length_le
    rw [← hend, hcrossing.split, List.length_append, List.length_cons] at hlength
    omega

/-- The sink refuses a byte of an element that comes before the one that crosses. -/
theorem settled_refused (h : Accounting put fmt argsLeft ps done s) {p : Piece}
    {after : List Piece} (hps : ps = done ++ p :: after)
    (hroom : (textOf (done ++ [p])).length ≤ INT_MAX) {taken : List UInt8}
    (hrefuses : put.Refuses p.text taken) {r : FmtResult} (hret : r.ret = -1)
    (hsent : r.out.sent = s.out.sent ++ taken) : Settled ps r := by
  refine ⟨Or.inl hret, fun before q after' hcrossing => ⟨hret, ?_⟩⟩
  have hps' : ps = (done ++ [p]) ++ after := by
    rw [hps, List.append_assoc, List.singleton_append]
  rcases hcrossing.isPrefix hps' hroom with ⟨between, rfl⟩
  rcases hrefuses with ⟨l, b, l', hsplit, rfl, -⟩
  rw [hsent, h.sent, textOf_append, textOf_append, textOf_cons, hsplit]
  exact ⟨l' ++ textOf between, by simp⟩

/-- The element that crosses ends the call, and none of its bytes is put out. -/
theorem settled_crossing (h : Accounting put fmt argsLeft ps done s) {p : Piece}
    {after : List Piece} (hps : ps = done ++ p :: after) {r : FmtResult} (hret : r.ret = -1)
    (hsent : r.out.sent = s.out.sent) : Settled ps r := by
  refine ⟨Or.inl hret, fun before q after' hcrossing => ⟨hret, ?_⟩⟩
  rcases hcrossing.isPrefix hps h.room with ⟨between, rfl⟩
  rw [hsent, h.sent, textOf_append]
  exact List.prefix_append _ _

/-- The step lemma: a pass for an element that fits goes on, or the sink refuses a byte. A pass
for one that does not fit ends the call. -/
theorem accounting_step (hput : Sink.Decided put) (hcompared : Compared put ps) (s : FmtState)
    (hs : ∃ done, Accounting put fmt argsLeft ps done s) :
    (formatPass put fmt s).Good (fun s => ∃ done, Accounting put fmt argsLeft ps done s)
      (Settled ps) (fun s => fmt.bytes.length - s.format) (fmt.bytes.length - s.format) := by
  rcases hs with ⟨done, h⟩
  rcases accounting_next h with ⟨hend, hexit⟩ | ⟨p, after, place, hps, hmoves, hplace, hpass,
    hnumeral, hnext⟩
  · rw [hexit]
    exact settled_at_end h hend
  have htext : textOf (done ++ [p]) = textOf done ++ p.text := by simp
  by_cases hroom : ((textOf (done ++ [p])).length : Int) ≤ INT_MAX
  · have hfits : p.Fits s.written := fits_of_room h hroom
    rcases hput p.text with haccepts | ⟨taken, hrefuses⟩
    · have htaken : put.Accepts (textOf (done ++ [p])) := by
        intro b hb
        rw [htext, List.mem_append] at hb
        exact hb.elim (h.taken b) (haccepts b)
      rcases hpass.accepted hfits haccepts with ⟨out, hagain, hsends⟩
      rw [formatPass_eq hagain]
      refine ⟨⟨done ++ [p], hnext out hsends.sent htaken hroom⟩, ?_⟩
      show fmt.bytes.length - place < _
      omega
    · rcases hpass.refused hfits taken hrefuses with ⟨out, hexit, hsent, -⟩
      rw [formatPass_eq hexit]
      exact settled_refused h hps hroom hrefuses rfl hsent
  · -- The element crosses, so its branch compares its length with the room.
    have hcrosses : INT_MAX < (textOf done).length + p.text.length := by
      rw [htext, List.length_append] at hroom
      omega
    have hchecked := hcompared done p after ⟨hps, h.room, hcrosses⟩ h.taken
    have hfits : ¬p.Fits s.written := by
      rw [fits_iff h hchecked]
      omega
    rw [formatPass_eq (hpass.overflow hfits)]
    exact settled_crossing h hps rfl rfl

/-- A call whose element that crosses is compared. -/
theorem accounted_of_compared (hput : Sink.Decided put)
    (hmatch : refFormat fmt.bytes args = some (text, argsLeft))
    (hcompared : Compared put (allPieces fmt args)) : Accounted put fmt args text m := by
  have hstart : ∃ done, Accounting put fmt argsLeft (allPieces fmt args) done
      ⟨0, 0, args, ⟨m, []⟩⟩ := ⟨[], accounting_start hmatch⟩
  constructor
  · intro n s hpasses
    rcases invariant_of_again _ _ _ (accounting_step hput hcompared) hstart hpasses
      with ⟨done, hs⟩
    have hroom := hs.room
    rw [hs.written, hs.sent]
    exact ⟨by omega, hroom, rfl⟩
  · rcases exit_of_variant (n := fmt.bytes.length + 1) _ _ _ (accounting_step hput hcompared)
      hstart (by simp) with ⟨r, hexit, hret, hcrossing⟩
    refine ⟨r, hexit, hret, fun hmax => ?_⟩
    rw [← textOf_allPieces hmatch] at hmax
    rcases exists_crossing (allPieces fmt args) [] (by decide) hmax with ⟨before, p, after, h⟩
    have hr := hcrossing before p after h
    exact ⟨hr.1, before, p, after, h, hr.2⟩

/-- An element that crosses without a comparison wraps the counter. -/
theorem not_accounted (hnumerals : Sink.TakesNumerals put)
    (hmatch : refFormat fmt.bytes args = some (text, argsLeft)) {before after : List Piece}
    {p : Piece} (h : Crossing (allPieces fmt args) before p after)
    (htaken : put.Accepts (textOf before)) (hp : p.checked = false) :
    ¬Accounted put fmt args text m := by
  intro haccounted
  have hstart : Accounting put fmt argsLeft (allPieces fmt args) [] ⟨0, 0, args, ⟨m, []⟩⟩ :=
    accounting_start hmatch
  rcases accounting_passes before hstart h.split h.fits htaken with ⟨s, hpasses, hs⟩
  rcases accounting_next hs with ⟨hend, -⟩ | ⟨q, after', place, hps, -, -, hpass, hnumeral, -⟩
  · have hlength := congrArg List.length (h.split.symm.trans hend)
    rw [List.nil_append, List.length_append, List.length_cons] at hlength
    omega
  have hsame := h.split.symm.trans hps
  rw [List.nil_append, List.append_cancel_left_eq, List.cons.injEq] at hsame
  rcases hsame with ⟨rfl, -⟩
  rcases hnumeral hp with ⟨hshort, heof⟩
  rcases hpass.accepted (Piece.fits_of_not_checked hp _) (hnumerals _ heof) with ⟨out, hagain, -⟩
  have hhead := passes_add 1 hpasses
  rw [passes_succ_of_again 0 (formatPass_eq hagain)] at hhead
  -- The counter at the head behind it.
  have hwrap : wrapInt (s.written + p.text.length) < 0 := by
    have hfits := h.fits
    have hcrosses := h.crosses
    have hmax : INT_MAX = 2147483647 := rfl
    rw [hs.written, List.nil_append, wrapInt, Int.bmod_def]
    split
    · omega
    · omega
  exact absurd (haccounted.heads _ _ hhead).1 (Int.not_le.mpr hwrap)

/-- The accounting is right exactly when the element that crosses is compared. -/
theorem accounted_iff (hput : Sink.Decided put) (hnumerals : Sink.TakesNumerals put)
    (hmatch : refFormat fmt.bytes args = some (text, argsLeft)) :
    Accounted put fmt args text m ↔ Compared put (allPieces fmt args) := by
  constructor
  · intro haccounted before p after hcrossing htaken
    by_contra hp
    exact not_accounted hnumerals hmatch hcrossing htaken (Bool.eq_false_iff.mpr hp) haccounted
  · exact accounted_of_compared hput hmatch

end

/-! ### The two sinks -/

/-- `putchar` takes every byte. -/
theorem putcharSink_decided : Sink.Decided putcharSink := fun l => Or.inl (putcharSink_accepts l)

/-- `serial_writec` takes the texts without the byte 0xFF. -/
theorem serialSink_accepts_iff (l : List UInt8) : Sink.Accepts serialSink l ↔ 0xFF ∉ l := by
  constructor
  · intro haccepts hmem
    exact haccepts 0xFF hmem Machine.boot ((serialSink_eof_iff 0xFF Machine.boot).mpr rfl)
  · exact serialSink_accepts

/-- It refuses the others. -/
theorem serialSink_decided : Sink.Decided serialSink := by
  intro l
  by_cases hmem : 0xFF ∈ l
  · exact Or.inr ⟨_, serialSink_refuses hmem⟩
  · exact Or.inl (serialSink_accepts hmem)

/-- **When the length accounting is right.** For `printf`, exactly when the element with which
the output passes `INT_MAX` is no `%d` and no `%x`. For `serial_printf`, exactly when it is none
of these or a byte 0xFF comes before it. -/
theorem length_accounting_iff (fmt : CString) (args argsLeft : List Arg) (text : List UInt8)
    (m : Machine) (hmatch : refFormat fmt.bytes args = some (text, argsLeft)) :
    (Accounted putcharSink fmt args text m ↔
      ∀ before p after, Crossing (allPieces fmt args) before p after → p.checked = true) ∧
    (Accounted serialSink fmt args text m ↔
      ∀ before p after, Crossing (allPieces fmt args) before p after →
        0xFF ∉ textOf before → p.checked = true) := by
  constructor
  · rw [accounted_iff putcharSink_decided (fun l _ => putcharSink_accepts l) hmatch]
    exact ⟨fun h before p after hcrossing => h before p after hcrossing (putcharSink_accepts _),
      fun h before p after hcrossing _ => h before p after hcrossing⟩
  · rw [accounted_iff serialSink_decided (fun l hl => serialSink_accepts hl) hmatch]
    unfold Compared
    simp only [serialSink_accepts_iff]

/-- The result for a decimal conversion. -/
theorem length_accounting_iff_decimal :
    (Accounted putcharSink ⟨ascii "n=%d", forall_ne_of_not_mem (by decide)⟩ [.int (-40)]
        (ascii "n=-40") Machine.boot ↔
      ∀ before p after, Crossing (allPieces ⟨ascii "n=%d", forall_ne_of_not_mem (by decide)⟩
        [.int (-40)]) before p after → p.checked = true) ∧
    (Accounted serialSink ⟨ascii "n=%d", forall_ne_of_not_mem (by decide)⟩ [.int (-40)]
        (ascii "n=-40") Machine.boot ↔
      ∀ before p after, Crossing (allPieces ⟨ascii "n=%d", forall_ne_of_not_mem (by decide)⟩
        [.int (-40)]) before p after → 0xFF ∉ textOf before → p.checked = true) :=
  length_accounting_iff _ _ [] _ Machine.boot rfl

/-- A string of `INT_MAX` bytes. -/
def longString : CString where
  bytes := List.replicate 2147483647 'a'.toUInt8
  nonzero := by
    intro b hb
    rw [List.eq_of_mem_replicate hb]
    decide

/-- The format `%s%d`. -/
def stringDecimal : CString := ⟨ascii "%s%d", forall_ne_of_not_mem (by decide)⟩

/-- A decimal number behind a string that leaves no room. -/
theorem stringDecimal_not_accounted {put : Sink} (hnumerals : Sink.TakesNumerals put)
    (m : Machine) {str : CString} (hlen : str.bytes.length = INT_MAX) (heof : 0xFF ∉ str.bytes) :
    ¬Accounted put stringDecimal [.str str, .int 5] (str.bytes ++ ascii "5") m := by
  have hmatch : refFormat stringDecimal.bytes [.str str, .int 5]
      = some (str.bytes ++ (ascii "5" ++ []), []) := rfl
  have hpieces : allPieces stringDecimal [.str str, .int 5]
      = [convPiece 's'.toUInt8 str.bytes [.str str, .int 5] [.int 5]]
        ++ convPiece 'd'.toUInt8 (ascii "5") [.int 5] [] :: [] := rfl
  have htext : textOf [convPiece 's'.toUInt8 str.bytes [.str str, .int 5] [.int 5]] = str.bytes :=
    List.append_nil str.bytes
  rw [List.append_nil] at hmatch
  refine not_accounted hnumerals hmatch ⟨hpieces, ?_, ?_⟩ ?_ rfl
  · rw [htext, hlen]
  · rw [htext, hlen]
    decide
  · rw [htext]
    exact hnumerals _ heof

/-- `printf("%s%d", str, 5)` with a string of `INT_MAX` bytes: the counter wraps, in both
functions. -/
theorem counter_wraps_at_decimal :
    ¬Accounted putcharSink stringDecimal [.str longString, .int 5]
        (longString.bytes ++ ascii "5") Machine.boot ∧
      ¬Accounted serialSink stringDecimal [.str longString, .int 5]
        (longString.bytes ++ ascii "5") Machine.boot := by
  have hlen : longString.bytes.length = INT_MAX := by
    rw [longString, List.length_replicate]
    rfl
  have heof : 0xFF ∉ longString.bytes := by
    intro hmem
    exact absurd (List.eq_of_mem_replicate hmem) (by decide)
  exact ⟨stringDecimal_not_accounted (fun l _ => putcharSink_accepts l) _ hlen heof,
    stringDecimal_not_accounted (fun l hl => serialSink_accepts hl) _ hlen heof⟩

end Chuckles.Proofs
