import Mathlib.Data.Finset.Basic
import Mathlib.Data.Fintype.Basic
import Mathlib.Tactic.FinCases

/-!
# `Chuckles.Lib.Pic`: the 8259 interrupt controller, alone and in a cascade

`Chip` is one controller with eight request lines: the levels of the lines, the registers for
requests, for lines in service and for masked lines, and what the initialisation words have set.
`Chip.writeCommand` and `Chip.writeData` are writes to its two addresses, with the sequence of the
initialisation words and all operation commands. The reads of its registers are left out.

`Chip.next` is the line that the controller asks the processor to serve, and `Chip.ack` the first
half of the acknowledgement. A request that is withdrawn before it leaves no line to serve. The
controller then answers with its line 7, and puts nothing in service.

`Pair` is a master with a slave at one of its lines. The processor acknowledges in two pulses, and
the lines may change in between: `Pair.ack₁` is the answer of the master, and `Pair.ack₂` ends with
the vector.

`Chip.Plain` is the mode of most systems: fixed priorities, an end of interrupt from the
processor, edges. `Chip.eoi_of_subset` is the rule for code that serves one line at a time: one
non-specific end of interrupt empties the register of the lines in service.
-/

set_option autoImplicit false

namespace Lib.Pic

/-- A request line of one controller. -/
abbrev Line := Fin 8

/-- The line of a number. -/
def line (n : Nat) : Line := ⟨n % 8, Nat.mod_lt n (by decide)⟩

/-- The lines of the one bits of a byte. -/
def bits (v : UInt8) : Finset Line :=
  Finset.univ.filter fun i => v.toBitVec.getLsbD i.val = true

/-! ### Priorities -/

/-- The lines from the highest priority to the lowest, when `low` has the lowest. -/
def order (low : Line) : List Line := (List.finRange 8).map fun k => low + line 1 + k

/-- The place of a line in the order. -/
def rank (low i : Line) : Fin 8 := i - (low + line 1)

/-- The line of the highest priority in a set. -/
def first (low : Line) (s : Finset Line) : Option Line := (order low).find? fun i => i ∈ s

/-- Every line is somewhere in the order. -/
theorem mem_order : ∀ low i : Line, i ∈ order low := by decide

/-- There is none only when the set is empty. -/
theorem first_eq_none_iff {low : Line} {s : Finset Line} : first low s = none ↔ s = ∅ := by
  rw [first, List.find?_eq_none]
  constructor
  · intro h
    refine Finset.eq_empty_of_forall_notMem fun i hi => ?_
    exact h i (mem_order low i) (decide_eq_true hi)
  · rintro rfl i - hi
    simp at hi

/-- It is in the set. -/
theorem mem_of_first {low i : Line} {s : Finset Line} (h : first low s = some i) : i ∈ s := by
  have hi := List.find?_some h
  simpa using hi

/-- No line of the set comes before it. -/
theorem rank_le_of_first {low i : Line} {s : Finset Line} (h : first low s = some i) (j : Line)
    (hj : j ∈ s) : rank low i ≤ rank low j := by
  obtain ⟨-, as, bs, horder, hbefore⟩ := List.find?_eq_some_iff_append.mp h
  -- The ranks ascend along the order.
  have hsorted : ∀ low : Line, (order low).Pairwise fun a b => rank low a < rank low b := by
    decide
  have hall := hsorted low
  have hmem := mem_order low j
  rw [horder] at hall hmem
  rcases List.mem_append.mp hmem with hj' | hj'
  · exact absurd hj (by simpa using hbefore j hj')
  · rcases List.mem_cons.mp hj' with rfl | hj'
    · exact le_rfl
    · have := (List.pairwise_append.mp hall).2.1
      exact le_of_lt ((List.pairwise_cons.mp this).1 j hj')

/-- A line alone is the first one. -/
theorem first_singleton (low i : Line) : first low {i} = some i := by
  cases h : first low {i} with
  | none => exact absurd (first_eq_none_iff.mp h) (Finset.singleton_ne_empty i)
  | some j => rw [Finset.mem_singleton.mp (mem_of_first h)]

/-! ### One controller -/

/-- What the next write to the odd address is. -/
inductive Stage where
  | ready
  | icw2
  | icw3
  | icw4
  deriving DecidableEq

/-- The state of a controller. -/
structure Chip where
  lines : Finset Line
  irr : Finset Line
  isr : Finset Line
  imr : Finset Line
  stage : Stage
  base : UInt8
  cascade : UInt8
  lowest : Line
  needs4 : Bool
  single : Bool
  level : Bool
  x86 : Bool
  autoEoi : Bool
  rotating : Bool
  specialMask : Bool
  specialNested : Bool
  deriving DecidableEq

namespace Chip

/-- The requests that are not masked. -/
def waiting (c : Chip) : Finset Line := c.irr \ c.imr

/-- The lines in service that hold back others. -/
def blocking (c : Chip) : Finset Line := if c.specialMask then c.isr \ c.imr else c.isr

/-- The line may interrupt the service of the lines that block. In the special fully nested mode a
slave is not held back by itself. -/
def beats (c : Chip) (i : Line) : Bool :=
  match first c.lowest c.blocking with
  | none => true
  | some j =>
    decide (rank c.lowest i < rank c.lowest j)
      || (c.specialNested && decide (i = j) && decide (i ∈ bits c.cascade))

/-- The line that the controller asks to be served. -/
def next (c : Chip) : Option Line :=
  match first c.lowest c.waiting with
  | none => none
  | some i => if c.beats i then some i else none

/-- The interrupt output. -/
def int (c : Chip) : Bool := c.next.isSome

/-- A line goes high or low. A rising edge is remembered as long as the line stays high. -/
def setLine (c : Chip) (i : Line) (high : Bool) : Chip :=
  if high then
    { c with
      lines := insert i c.lines
      irr := if c.level = true ∨ i ∉ c.lines then insert i c.irr else c.irr }
  else { c with lines := c.lines.erase i, irr := c.irr.erase i }

/-- The service of a line begins. With automatic end of interrupt it has ended with the
acknowledgement. -/
def take (c : Chip) (i : Line) : Chip :=
  let c := if c.level then c else { c with irr := c.irr.erase i }
  if c.autoEoi then { c with lowest := if c.rotating then i else c.lowest }
  else { c with isr := insert i c.isr }

/-- The answer to an acknowledgement. -/
def ack (c : Chip) : Line × Chip :=
  match c.next with
  | none => (line 7, c)
  | some i => (i, c.take i)

/-- The vector of a line. -/
def vector (c : Chip) (i : Line) : Option UInt8 :=
  if c.x86 then some (c.base ||| UInt8.ofNat i.val) else none

/-- The end of the service of a line. -/
def endOf (c : Chip) (i : Line) (rotate : Bool) : Chip :=
  { c with isr := c.isr.erase i, lowest := if rotate then i else c.lowest }

/-- The non-specific end of interrupt: the line of the highest priority in service. -/
def eoi (c : Chip) (rotate : Bool) : Chip :=
  match first c.lowest c.blocking with
  | none => c
  | some i => c.endOf i rotate

/-- The first initialisation word. It also forgets the edges and the lines in service. -/
def start (c : Chip) (v : UInt8) : Chip :=
  { c with
    irr := if v &&& 0x08 ≠ 0 then c.lines else ∅
    isr := ∅, imr := ∅
    stage := .icw2
    lowest := line 7
    needs4 := v &&& 0x01 ≠ 0
    single := v &&& 0x02 ≠ 0
    level := v &&& 0x08 ≠ 0
    x86 := false, autoEoi := false, rotating := false
    specialMask := false, specialNested := false }

/-- The line that a command names. -/
def named (v : UInt8) : Line := line v.toNat

/-- A write to the even address: the first initialisation word, or an operation command. -/
def writeCommand (c : Chip) (v : UInt8) : Chip :=
  if v &&& 0x10 ≠ 0 then c.start v
  else if v &&& 0x08 ≠ 0 then
    if v &&& 0x40 ≠ 0 then { c with specialMask := v &&& 0x20 ≠ 0 } else c
  else
    match v >>> 5 with
    | 0 => { c with rotating := false }
    | 1 => c.eoi false
    | 3 => c.endOf (named v) false
    | 4 => { c with rotating := true }
    | 5 => c.eoi true
    | 6 => { c with lowest := named v }
    | 7 => c.endOf (named v) true
    | _ => c

/-- The stage behind the third initialisation word, or behind the second one without it. -/
def after3 (c : Chip) : Stage := if c.needs4 then .icw4 else .ready

/-- A write to the odd address: the next initialisation word, or the mask. -/
def writeData (c : Chip) (v : UInt8) : Chip :=
  match c.stage with
  | .ready => { c with imr := bits v }
  | .icw2 => { c with base := v &&& 0xF8, stage := if c.single then c.after3 else .icw3 }
  | .icw3 => { c with cascade := v, stage := c.after3 }
  | .icw4 =>
    { c with
      x86 := v &&& 0x01 ≠ 0
      autoEoi := v &&& 0x02 ≠ 0
      specialNested := v &&& 0x10 ≠ 0
      stage := .ready }

/-! ### The plain mode -/

/-- The initialisation is over, and the controller is in the plain mode. -/
structure Plain (c : Chip) : Prop where
  stage : c.stage = .ready
  x86 : c.x86 = true
  level : c.level = false
  autoEoi : c.autoEoi = false
  specialMask : c.specialMask = false
  specialNested : c.specialNested = false

/-- What a write cannot change in an initialised controller without an initialisation word. -/
structure SameMode (c c' : Chip) : Prop where
  stage : c'.stage = c.stage
  x86 : c'.x86 = c.x86
  level : c'.level = c.level
  autoEoi : c'.autoEoi = c.autoEoi
  specialMask : c'.specialMask = c.specialMask
  specialNested : c'.specialNested = c.specialNested
  base : c'.base = c.base
  cascade : c'.cascade = c.cascade
  imr : c'.imr = c.imr
  lowest : c'.lowest = c.lowest

/-- The mode is the plain one on both sides. -/
theorem SameMode.plain {c c' : Chip} (h : SameMode c c') (hc : c.Plain) : c'.Plain :=
  ⟨h.stage.trans hc.stage, h.x86.trans hc.x86, h.level.trans hc.level,
    h.autoEoi.trans hc.autoEoi, h.specialMask.trans hc.specialMask,
    h.specialNested.trans hc.specialNested⟩

/-- Nothing has been changed. -/
theorem SameMode.refl (c : Chip) : SameMode c c :=
  ⟨rfl, rfl, rfl, rfl, rfl, rfl, rfl, rfl, rfl, rfl⟩

/-- Two changes, one after the other. -/
theorem SameMode.trans {c c' c'' : Chip} (h : SameMode c c') (h' : SameMode c' c'') :
    SameMode c c'' :=
  ⟨h'.stage.trans h.stage, h'.x86.trans h.x86, h'.level.trans h.level,
    h'.autoEoi.trans h.autoEoi, h'.specialMask.trans h.specialMask,
    h'.specialNested.trans h.specialNested, h'.base.trans h.base, h'.cascade.trans h.cascade,
    h'.imr.trans h.imr, h'.lowest.trans h.lowest⟩

/-- A line changes nothing of it. -/
theorem setLine_sameMode (c : Chip) (i : Line) (high : Bool) : SameMode c (c.setLine i high) := by
  cases high with
  | false => exact ⟨rfl, rfl, rfl, rfl, rfl, rfl, rfl, rfl, rfl, rfl⟩
  | true => exact ⟨rfl, rfl, rfl, rfl, rfl, rfl, rfl, rfl, rfl, rfl⟩

/-- A line puts nothing in service. -/
@[simp] theorem setLine_isr (c : Chip) (i : Line) (high : Bool) :
    (c.setLine i high).isr = c.isr := by
  cases high with
  | false => rfl
  | true => rfl

/-- The levels behind a change of a line. -/
@[simp] theorem setLine_lines (c : Chip) (i : Line) (high : Bool) :
    (c.setLine i high).lines = if high then insert i c.lines else c.lines.erase i := by
  cases high with
  | false => rfl
  | true => rfl

/-- The requests for other lines stay. -/
theorem mem_irr_setLine {c : Chip} {i k : Line} (hne : k ≠ i) (high : Bool) :
    k ∈ (c.setLine i high).irr ↔ k ∈ c.irr := by
  cases high with
  | false => exact Finset.mem_erase.trans (and_iff_right hne)
  | true =>
    show k ∈ (if c.level = true ∨ i ∉ c.lines then insert i c.irr else c.irr) ↔ k ∈ c.irr
    split
    · exact Finset.mem_insert.trans (or_iff_right hne)
    · exact Iff.rfl

/-- A line has the level that it was given. -/
theorem mem_lines_setLine (c : Chip) (i k : Line) (high : Bool) :
    k ∈ (c.setLine i high).lines ↔ if k = i then high = true else k ∈ c.lines := by
  rw [setLine_lines]
  cases high with
  | false => by_cases h : k = i <;> simp [h]
  | true => by_cases h : k = i <;> simp [h]

/-- With edges, a request is new when the line was low. -/
theorem mem_irr_setLine_self {c : Chip} (h : c.level = false) (i : Line) (high : Bool) :
    i ∈ (c.setLine i high).irr ↔ high = true ∧ (i ∈ c.irr ∨ i ∉ c.lines) := by
  cases high with
  | false => simp [setLine]
  | true =>
    show i ∈ (if c.level = true ∨ i ∉ c.lines then insert i c.irr else c.irr) ↔ _
    rw [h]
    by_cases hi : i ∈ c.lines <;> simp [hi]

/-- A request is kept as long as its line is high, and no longer. -/
theorem setLine_held {c : Chip} (h : c.irr ⊆ c.lines) (i : Line) (high : Bool) :
    (c.setLine i high).irr ⊆ (c.setLine i high).lines := by
  cases high with
  | false => exact Finset.erase_subset_erase i h
  | true =>
    show (if c.level = true ∨ i ∉ c.lines then insert i c.irr else c.irr) ⊆ insert i c.lines
    split
    · exact Finset.insert_subset_insert i h
    · exact h.trans (Finset.subset_insert i c.lines)

/-- A write to the data port adds no request. -/
theorem writeData_held {c : Chip} (h : c.irr ⊆ c.lines) (v : UInt8) :
    (c.writeData v).irr ⊆ (c.writeData v).lines := by
  unfold writeData
  split <;> exact h

section
variable {c : Chip}

/-- Without the special mask, everything in service blocks. -/
theorem Plain.blocking_eq (h : c.Plain) : c.blocking = c.isr := by
  rw [blocking, h.specialMask]
  rfl

/-- In the plain mode the service of a line begins with its bit. -/
theorem Plain.take_eq (h : c.Plain) (i : Line) :
    c.take i = { c with irr := c.irr.erase i, isr := insert i c.isr } := by
  unfold take
  rw [h.level]
  show (if c.autoEoi then _ else _ : Chip) = _
  rw [h.autoEoi]
  rfl

/-- The service of a line begins in the mode in which it was. -/
theorem Plain.take_sameMode (h : c.Plain) (i : Line) : SameMode c (c.take i) := by
  rw [h.take_eq]
  exact ⟨rfl, rfl, rfl, rfl, rfl, rfl, rfl, rfl, rfl, rfl⟩

/-- With no line in service, the controller asks for the first request that is not masked. -/
theorem Plain.next_of_idle (h : c.Plain) (hisr : c.isr = ∅) :
    c.next = first c.lowest c.waiting := by
  have hbeats (i : Line) : c.beats i = true := by
    rw [beats, h.blocking_eq, hisr, first_eq_none_iff.mpr rfl]
  unfold next
  cases hfirst : first c.lowest c.waiting with
  | none => rfl
  | some i =>
    show (if c.beats i then some i else none) = some i
    rw [if_pos (hbeats i)]

/-- So its output is high exactly when there is one. -/
theorem Plain.int_of_idle (h : c.Plain) (hisr : c.isr = ∅) :
    c.int = true ↔ c.waiting.Nonempty := by
  rw [int, h.next_of_idle hisr, Finset.nonempty_iff_ne_empty, Ne, ← first_eq_none_iff,
    Option.isSome_iff_ne_none]

/-- The acknowledgement in the plain mode puts at most the line that it answers in service. -/
theorem Plain.ack_cases (h : c.Plain) :
    (c.next = none ∧ c.ack = (line 7, c)) ∨
      ∃ i, c.next = some i ∧
        c.ack = (i, { c with irr := c.irr.erase i, isr := insert i c.isr }) := by
  unfold ack
  cases hnext : c.next with
  | none => exact Or.inl ⟨rfl, rfl⟩
  | some i =>
    refine Or.inr ⟨i, rfl, ?_⟩
    show (i, c.take i) = _
    rw [h.take_eq]

/-- With nothing in service before, at most the line that is answered is in service. -/
theorem Plain.ack_isr_subset (h : c.Plain) (hisr : c.isr = ∅) : c.ack.2.isr ⊆ {c.ack.1} := by
  rcases h.ack_cases with ⟨-, hack⟩ | ⟨i, -, hack⟩
  · rw [hack, hisr]
    exact Finset.empty_subset _
  · rw [hack]
    show insert i c.isr ⊆ {i}
    rw [hisr, insert_empty_eq]

/-- An acknowledgement keeps the mode. -/
theorem Plain.ack_sameMode (h : c.Plain) : SameMode c c.ack.2 := by
  unfold ack
  split
  · exact SameMode.refl c
  · exact h.take_sameMode _

/-- And the levels of the lines. -/
theorem Plain.ack_lines (h : c.Plain) : c.ack.2.lines = c.lines := by
  rcases h.ack_cases with ⟨-, hack⟩ | ⟨i, -, hack⟩
  · rw [hack]
  · rw [hack]

/-- An acknowledgement takes the request that it answers, and no other one. -/
theorem Plain.mem_irr_ack (h : c.Plain) (hisr : c.isr = ∅) (himr : c.imr = ∅) (i : Line) :
    i ∈ c.ack.2.irr ↔ i ∈ c.irr ∧ i ≠ c.ack.1 := by
  rcases h.ack_cases with ⟨hnext, hack⟩ | ⟨j, -, hack⟩
  · -- Nothing is asked for, so there is no request.
    rw [h.next_of_idle hisr, first_eq_none_iff, waiting, himr, Finset.sdiff_empty] at hnext
    rw [hack, hnext]
    simp
  · rw [hack]
    exact Finset.mem_erase.trans and_comm

/-- The line that is asked for has a request. -/
theorem mem_of_next {i : Line} (h : c.next = some i) : i ∈ c.waiting := by
  unfold next at h
  split at h
  · cases h
  · rename_i j hfirst
    split at h
    · cases h
      exact mem_of_first hfirst
    · cases h

/-- The lines that no other request comes before. -/
theorem rank_le_of_next {i : Line} (h : c.next = some i) (j : Line) (hj : j ∈ c.waiting) :
    rank c.lowest i ≤ rank c.lowest j := by
  unfold next at h
  split at h
  · cases h
  · rename_i k hfirst
    split at h
    · cases h
      exact rank_le_of_first hfirst j hj
    · cases h

/-- With no line in service or masked, the controller answers the first request, or the line 7
when there is none. -/
theorem Plain.ack_first (h : c.Plain) (hisr : c.isr = ∅) (himr : c.imr = ∅) :
    (c.ack.1 ∈ c.irr ∧ ∀ j ∈ c.irr, rank c.lowest c.ack.1 ≤ rank c.lowest j) ∨
      (c.ack.1 = 7 ∧ c.irr = ∅) := by
  have hwaiting : c.waiting = c.irr := by rw [waiting, himr, Finset.sdiff_empty]
  rcases h.ack_cases with ⟨hnext, hack⟩ | ⟨i, hnext, hack⟩
  · rw [h.next_of_idle hisr, first_eq_none_iff, hwaiting] at hnext
    exact Or.inr ⟨congrArg Prod.fst hack, hnext⟩
  · have hmem := mem_of_next hnext
    rw [hwaiting] at hmem
    rw [hack]
    exact Or.inl ⟨hmem, fun j hj => rank_le_of_next hnext j (by rw [hwaiting]; exact hj)⟩

/-- An end of interrupt keeps the mode. -/
theorem eoi_sameMode (c : Chip) : SameMode c (c.eoi false) := by
  unfold eoi
  split
  · exact SameMode.refl c
  · exact ⟨rfl, rfl, rfl, rfl, rfl, rfl, rfl, rfl, rfl, rfl⟩

/-- And the requests. -/
@[simp] theorem eoi_irr (c : Chip) : (c.eoi false).irr = c.irr := by
  unfold eoi
  split
  · rfl
  · rfl

/-- And the levels of the lines. -/
@[simp] theorem eoi_lines (c : Chip) : (c.eoi false).lines = c.lines := by
  unfold eoi
  split
  · rfl
  · rfl

/-- When at most one line is in service, the end of interrupt leaves none. -/
theorem Plain.eoi_of_subset (h : c.Plain) {i : Line} (hisr : c.isr ⊆ {i}) :
    (c.eoi false).isr = ∅ := by
  unfold eoi
  rw [h.blocking_eq]
  rcases Finset.subset_singleton_iff.mp hisr with hisr | hisr
  · rw [hisr, first_eq_none_iff.mpr rfl]
    exact hisr
  · rw [hisr, first_singleton]
    show c.isr.erase i = ∅
    rw [hisr, Finset.erase_singleton]

end

/-- After the acknowledgement nothing that waits comes before the line in service. -/
theorem Plain.int_of_ack {c : Chip} (h : c.Plain) (hisr : c.isr = ∅) : c.ack.2.int = false := by
  have hmode := h.ack_sameMode
  rcases h.ack_cases with ⟨hnext, hack⟩ | ⟨i, hnext, hack⟩
  · rw [hack, int, hnext]
    rfl
  · have hplain := hmode.plain h
    rw [hack] at hplain ⊢
    generalize hc' : ({ c with irr := c.irr.erase i, isr := insert i c.isr } : Chip) = c' at *
    have hlow : c'.lowest = c.lowest := by rw [← hc']
    have hblock : first c'.lowest c'.blocking = some i := by
      rw [hplain.blocking_eq, ← hc']
      show first _ (insert i c.isr) = _
      rw [hisr, insert_empty_eq, first_singleton]
    have hnested : c'.specialNested = false := hplain.specialNested
    unfold int next
    cases hfirst : first c'.lowest c'.waiting with
    | none => rfl
    | some j =>
      -- The line `j` waited before, so it does not come before `i`.
      have hj : j ∈ c.waiting := by
        have := mem_of_first hfirst
        rw [← hc', waiting, Finset.mem_sdiff] at this
        exact Finset.mem_sdiff.mpr ⟨(Finset.mem_erase.mp this.1).2, this.2⟩
      have hrank := rank_le_of_next hnext j hj
      have hbeats : c'.beats j = false := by
        rw [beats, hblock, hnested, hlow]
        simp only [Bool.false_and, Bool.or_false, decide_eq_false_iff_not]
        exact not_lt.mpr hrank
      show (if c'.beats j then some j else none).isSome = false
      rw [hbeats]
      rfl

end Chip

/-! ### Two controllers -/

/-- A master, and a slave. -/
structure Pair where
  master : Chip
  slave : Chip
  deriving DecidableEq

/-- The addresses of the two. -/
inductive Port where
  | masterCommand
  | masterData
  | slaveCommand
  | slaveData
  deriving DecidableEq

namespace Pair

/-- The output of the slave is the line `k` of the master. -/
def sync (k : Line) (p : Pair) : Pair := { p with master := p.master.setLine k p.slave.int }

/-- A write to one of the addresses. -/
def write (k : Line) (p : Pair) (port : Port) (v : UInt8) : Pair :=
  match port with
  | .masterCommand => { p with master := p.master.writeCommand v }
  | .masterData => { p with master := p.master.writeData v }
  | .slaveCommand => sync k { p with slave := p.slave.writeCommand v }
  | .slaveData => sync k { p with slave := p.slave.writeData v }

/-- A line from outside goes high or low: a line of the master, or one of the slave. -/
def setInput (k : Line) (p : Pair) (n : Line ⊕ Line) (high : Bool) : Pair :=
  match n with
  | .inl i => { p with master := p.master.setLine i high }
  | .inr j => sync k { p with slave := p.slave.setLine j high }

/-- The first pulse: the line that the master answers. -/
def ack₁ (p : Pair) : Line × Pair := (p.master.ack.1, { p with master := p.master.ack.2 })

/-- The second pulse, behind the answer `i` of the master. For a line with a slave, the slave with
the number of the line gives the vector. -/
def ack₂ (k : Line) (p : Pair) (i : Line) : Option UInt8 × Pair :=
  if i ∈ bits p.master.cascade then
    if i = k ∧ p.slave.cascade &&& 0x07 = UInt8.ofNat k.val then
      (p.slave.vector p.slave.ack.1, sync k { p with slave := p.slave.ack.2 })
    else (none, p)
  else (p.master.vector i, p)

/-- The line of the slave is high when its output is. It makes no request when it is low. -/
structure Linked (k : Line) (p : Pair) : Prop where
  level : k ∈ p.master.lines ↔ p.slave.int = true
  edge : k ∈ p.master.irr → k ∈ p.master.lines

/-- Both controllers are in the plain mode, and know about each other. -/
structure Ready (k : Line) (p : Pair) : Prop where
  master : p.master.Plain
  slave : p.slave.Plain
  cascade : bits p.master.cascade = {k}
  number : p.slave.cascade &&& 0x07 = UInt8.ofNat k.val
  linked : Linked k p

/-- The master remembers the request of the slave. -/
def Latched (k : Line) (p : Pair) : Prop := p.slave.int = true → k ∈ p.master.irr

/-- Both controllers are in the mode in which they were. -/
structure SameMode (p p' : Pair) : Prop where
  master : Chip.SameMode p.master p'.master
  slave : Chip.SameMode p.slave p'.slave

/-- Nothing has been changed. -/
theorem SameMode.refl (p : Pair) : SameMode p p := ⟨.refl _, .refl _⟩

/-- Two changes, one after the other. -/
theorem SameMode.trans {p p' p'' : Pair} (h : SameMode p p') (h' : SameMode p' p'') :
    SameMode p p'' := ⟨h.master.trans h'.master, h.slave.trans h'.slave⟩

/-- The line between the controllers is nothing to the slave. -/
@[simp] theorem sync_slave (k : Line) (p : Pair) : (sync k p).slave = p.slave := rfl

/-- And it puts nothing in service. -/
@[simp] theorem sync_master_isr (k : Line) (p : Pair) :
    (sync k p).master.isr = p.master.isr := Chip.setLine_isr _ _ _

/-- The line of the slave is its output. -/
theorem sync_linked (k : Line) (p : Pair) : Linked k (sync k p) := by
  have hlines := Chip.setLine_lines p.master k p.slave.int
  constructor
  · show k ∈ (p.master.setLine k p.slave.int).lines ↔ p.slave.int = true
    rw [hlines]
    cases p.slave.int with
    | false => simp
    | true => simp
  · show k ∈ (p.master.setLine k p.slave.int).irr → k ∈ (p.master.setLine k p.slave.int).lines
    rw [hlines]
    cases p.slave.int with
    | false => exact fun h => absurd rfl (Finset.mem_erase.mp h).1
    | true => exact fun _ => Finset.mem_insert_self _ _

/-- A new request of the slave is an edge. One that lasts is remembered if it was before. -/
theorem sync_latched {k : Line} {p : Pair} (h : k ∈ p.master.lines → k ∈ p.master.irr) :
    Latched k (sync k p) := by
  intro hint
  have hint : p.slave.int = true := hint
  show k ∈ (p.master.setLine k p.slave.int).irr
  rw [hint]
  show k ∈ (if p.master.level = true ∨ k ∉ p.master.lines then insert k p.master.irr
    else p.master.irr)
  split
  · exact Finset.mem_insert_self _ _
  · rename_i hlines
    exact h (by
      rw [not_or, not_not] at hlines
      exact hlines.2)

section
variable {k : Line} {p : Pair}

/-- A change of the slave, when the master sees it. -/
theorem Linked.latched_sync (h : Linked k p) (hl : Latched k p) (c : Chip) :
    Latched k (sync k { p with slave := c }) :=
  sync_latched fun hk => hl (h.level.mp hk)

/-- A slave without a request is no request of the master. -/
theorem latched_of_int (h : p.slave.int = false) : Latched k p := by
  intro hint
  rw [h] at hint
  cases hint

/-- A change that keeps the mode keeps the pair ready, when the line follows the slave. -/
theorem SameMode.ready {p' : Pair} (h : SameMode p p') (hp : Ready k p)
    (hlinked : Linked k p') : Ready k p' :=
  ⟨h.master.plain hp.master, h.slave.plain hp.slave, by rw [h.master.cascade, hp.cascade],
    by rw [h.slave.cascade, hp.number], hlinked⟩

/-- What a change of the slave leaves, when the master sees it. -/
theorem Ready.sync_slave {c : Chip} (hp : Ready k p) (hc : Chip.SameMode p.slave c) :
    Ready k (sync k { p with slave := c }) := by
  have hmode : SameMode p (sync k { p with slave := c }) :=
    ⟨Chip.setLine_sameMode _ _ _, hc⟩
  exact hmode.ready hp (sync_linked k _)

/-! #### Lines -/

/-- A line from outside keeps the mode. -/
theorem setInput_sameMode (k : Line) (p : Pair) (n : Line ⊕ Line) (high : Bool) :
    SameMode p (p.setInput k n high) := by
  cases n with
  | inl i => exact ⟨Chip.setLine_sameMode _ _ _, .refl _⟩
  | inr j => exact ⟨Chip.setLine_sameMode _ _ _, Chip.setLine_sameMode _ _ _⟩

/-- It puts nothing in service at the master. -/
@[simp] theorem setInput_master_isr (k : Line) (p : Pair) (n : Line ⊕ Line) (high : Bool) :
    (p.setInput k n high).master.isr = p.master.isr := by
  cases n with
  | inl i => exact Chip.setLine_isr _ _ _
  | inr j => exact sync_master_isr _ _

/-- Nor at the slave. -/
@[simp] theorem setInput_slave_isr (k : Line) (p : Pair) (n : Line ⊕ Line) (high : Bool) :
    (p.setInput k n high).slave.isr = p.slave.isr := by
  cases n with
  | inl i => rfl
  | inr j => exact Chip.setLine_isr _ _ _

/-- A line from outside is not the one of the slave. -/
theorem Linked.setInput (h : Linked k p) {n : Line ⊕ Line} (hn : n ≠ .inl k) (high : Bool) :
    Linked k (p.setInput k n high) := by
  cases n with
  | inr j => exact sync_linked k _
  | inl i =>
    have hne : k ≠ i := fun h => hn (congrArg Sum.inl h.symm)
    have hsame : k ∈ (p.master.setLine i high).lines ↔ k ∈ p.master.lines := by
      rw [Chip.setLine_lines]
      cases high with
      | false => simp [hne]
      | true => simp [hne]
    exact ⟨hsame.trans h.level, fun hk =>
      hsame.mpr (h.edge ((Chip.mem_irr_setLine hne high).mp hk))⟩

/-- The master still remembers the request of the slave. -/
theorem Linked.latched_setInput (h : Linked k p) (hl : Latched k p) {n : Line ⊕ Line}
    (hn : n ≠ .inl k) (high : Bool) : Latched k (p.setInput k n high) := by
  cases n with
  | inr j => exact h.latched_sync hl _
  | inl i =>
    have hne : k ≠ i := fun h => hn (congrArg Sum.inl h.symm)
    exact fun hint => (Chip.mem_irr_setLine hne high).mpr (hl hint)

/-- The pair stays ready. -/
theorem Ready.setInput (hp : Ready k p) {n : Line ⊕ Line} (hn : n ≠ .inl k) (high : Bool) :
    Ready k (p.setInput k n high) :=
  (setInput_sameMode k p n high).ready hp (hp.linked.setInput hn high)

/-! #### The acknowledgement -/

/-- The first pulse keeps the mode. -/
theorem Ready.ack₁_sameMode (hp : Ready k p) : SameMode p p.ack₁.2 :=
  ⟨hp.master.ack_sameMode, .refl _⟩

/-- And the pair ready. -/
theorem Ready.ack₁ (hp : Ready k p) : Ready k p.ack₁.2 := by
  refine hp.ack₁_sameMode.ready hp ?_
  have hlines : p.master.ack.2.lines = p.master.lines ∧ p.master.ack.2.irr ⊆ p.master.irr := by
    rcases hp.master.ack_cases with ⟨-, hack⟩ | ⟨i, -, hack⟩
    · rw [hack]
      exact ⟨rfl, Finset.Subset.refl _⟩
    · rw [hack]
      exact ⟨rfl, Finset.erase_subset _ _⟩
  constructor
  · show k ∈ p.master.ack.2.lines ↔ p.slave.int = true
    rw [hlines.1]
    exact hp.linked.level
  · intro hk
    show k ∈ p.master.ack.2.lines
    rw [hlines.1]
    exact hp.linked.edge (hlines.2 hk)

/-- The first pulse puts at most the line that it answers in service. -/
theorem Ready.ack₁_isr (hp : Ready k p) (hisr : p.master.isr = ∅) :
    p.ack₁.2.master.isr ⊆ {p.ack₁.1} := hp.master.ack_isr_subset hisr

/-- It forgets the request of the slave only when it answers it. -/
theorem Ready.latched_ack₁ (hp : Ready k p) (hl : Latched k p) (hk : p.ack₁.1 ≠ k) :
    Latched k p.ack₁.2 := by
  intro hint
  have hmem := hl hint
  show k ∈ p.master.ack.2.irr
  have hk : p.master.ack.1 ≠ k := hk
  rcases hp.master.ack_cases with ⟨-, hack⟩ | ⟨i, -, hack⟩
  · rw [hack]
    exact hmem
  · rw [hack] at hk ⊢
    exact Finset.mem_erase.mpr ⟨hk.symm, hmem⟩

/-- The second pulse for a line of the master. -/
theorem Ready.ack₂_of_ne (hp : Ready k p) {i : Line} (hi : i ≠ k) :
    p.ack₂ k i = (some (p.master.base ||| UInt8.ofNat i.val), p) := by
  unfold ack₂
  rw [hp.cascade, if_neg (by simpa using hi), Chip.vector, hp.master.x86]
  rfl

/-- The second pulse for the slave. -/
theorem Ready.ack₂_self (hp : Ready k p) :
    p.ack₂ k k = (some (p.slave.base ||| UInt8.ofNat p.slave.ack.1.val),
      sync k { p with slave := p.slave.ack.2 }) := by
  unfold ack₂
  rw [hp.cascade, if_pos (Finset.mem_singleton_self k), if_pos ⟨rfl, hp.number⟩, Chip.vector,
    hp.slave.x86]
  rfl

/-! #### The end of interrupt -/

/-- The byte 0x20 at the master is its end of interrupt. -/
theorem write_masterCommand_eoi (k : Line) (p : Pair) :
    p.write k .masterCommand 0x20 = { p with master := p.master.eoi false } := rfl

/-- The pair stays ready. -/
theorem Ready.eoiMaster (hp : Ready k p) : Ready k (p.write k .masterCommand 0x20) := by
  rw [write_masterCommand_eoi]
  have hmode : SameMode p { p with master := p.master.eoi false } :=
    ⟨Chip.eoi_sameMode _, .refl _⟩
  refine hmode.ready hp ⟨?_, ?_⟩
  · show k ∈ (p.master.eoi false).lines ↔ p.slave.int = true
    rw [Chip.eoi_lines]
    exact hp.linked.level
  · show k ∈ (p.master.eoi false).irr → k ∈ (p.master.eoi false).lines
    rw [Chip.eoi_lines, Chip.eoi_irr]
    exact hp.linked.edge

/-- And the master still remembers the request of the slave. -/
theorem Ready.latched_eoiMaster (hl : Latched k p) : Latched k (p.write k .masterCommand 0x20) := by
  rw [write_masterCommand_eoi]
  intro hint
  rw [Chip.eoi_irr]
  exact hl hint

/-- So it does with the byte 0x20 at the slave. -/
theorem Ready.eoiSlave (hp : Ready k p) : Ready k (p.write k .slaveCommand 0x20) :=
  hp.sync_slave (Chip.eoi_sameMode _)

/-! #### One line -/

/-- The level of a line from outside. -/
def High (p : Pair) : Line ⊕ Line → Prop
  | .inl i => i ∈ p.master.lines
  | .inr j => j ∈ p.slave.lines

/-- A line from outside has a request. -/
def Wants (p : Pair) : Line ⊕ Line → Prop
  | .inl i => i ∈ p.master.irr
  | .inr j => j ∈ p.slave.irr

instance (p : Pair) (n : Line ⊕ Line) : Decidable (High p n) := by
  cases n <;> exact inferInstanceAs (Decidable (_ ∈ _))

instance (p : Pair) (n : Line ⊕ Line) : Decidable (Wants p n) := by
  cases n <;> exact inferInstanceAs (Decidable (_ ∈ _))

/-- The line of the slave is none of them. -/
theorem high_sync (p : Pair) {n : Line ⊕ Line} (hn : n ≠ .inl k) :
    High (sync k p) n ↔ High p n := by
  cases n with
  | inr j => exact Iff.rfl
  | inl i =>
    have hne : i ≠ k := fun h => hn (congrArg Sum.inl h)
    exact (Chip.mem_lines_setLine _ _ _ _).trans (by rw [if_neg hne]; exact Iff.rfl)

/-- And it leaves their requests. -/
theorem wants_sync (p : Pair) {n : Line ⊕ Line} (hn : n ≠ .inl k) :
    Wants (sync k p) n ↔ Wants p n := by
  cases n with
  | inr j => exact Iff.rfl
  | inl i =>
    have hne : i ≠ k := fun h => hn (congrArg Sum.inl h)
    exact Chip.mem_irr_setLine hne _

/-- The level of a line behind a change of a line. -/
theorem high_setInput (p : Pair) {n : Line ⊕ Line} (hn : n ≠ .inl k) (m : Line ⊕ Line)
    (high : Bool) :
    High (p.setInput k m high) n ↔ if n = m then high = true else High p n := by
  cases m with
  | inl i =>
    cases n with
    | inl j =>
      simp only [Sum.inl.injEq]
      exact Chip.mem_lines_setLine p.master i j high
    | inr j =>
      rw [if_neg nofun]
      exact Iff.rfl
  | inr i =>
    refine (high_sync _ hn).trans ?_
    cases n with
    | inl j =>
      rw [if_neg nofun]
      exact Iff.rfl
    | inr j =>
      simp only [Sum.inr.injEq]
      exact Chip.mem_lines_setLine p.slave i j high

/-- The request of a line behind a change of a line: a rising edge makes one, and a low line ends
it. -/
theorem Ready.wants_setInput (hp : Ready k p) {n : Line ⊕ Line} (hn : n ≠ .inl k)
    (m : Line ⊕ Line) (high : Bool) :
    Wants (p.setInput k m high) n ↔
      if n = m then high = true ∧ (Wants p n ∨ ¬High p n) else Wants p n := by
  cases m with
  | inl i =>
    cases n with
    | inl j =>
      by_cases hj : j = i
      · rw [if_pos (congrArg Sum.inl hj), hj]
        exact Chip.mem_irr_setLine_self hp.master.level i high
      · rw [if_neg fun h => hj (Sum.inl.inj h)]
        exact Chip.mem_irr_setLine hj high
    | inr j =>
      rw [if_neg nofun]
      exact Iff.rfl
  | inr i =>
    refine (wants_sync _ hn).trans ?_
    cases n with
    | inl j =>
      rw [if_neg nofun]
      exact Iff.rfl
    | inr j =>
      by_cases hj : j = i
      · rw [if_pos (congrArg Sum.inr hj), hj]
        exact Chip.mem_irr_setLine_self hp.slave.level i high
      · rw [if_neg fun h => hj (Sum.inr.inj h)]
        exact Chip.mem_irr_setLine hj high

/-- An acknowledgement takes the request that it answers. -/
theorem Ready.wants_ack₁ (hp : Ready k p) (hisr : p.master.isr = ∅) (himr : p.master.imr = ∅)
    (n : Line ⊕ Line) : Wants p.ack₁.2 n ↔ Wants p n ∧ n ≠ .inl p.ack₁.1 := by
  cases n with
  | inr j => simp [Wants, Pair.ack₁]
  | inl i =>
    show i ∈ p.master.ack.2.irr ↔ i ∈ p.master.irr ∧ Sum.inl i ≠ Sum.inl p.master.ack.1
    simp only [hp.master.mem_irr_ack hisr himr, ne_eq, Sum.inl.injEq]

/-- And it leaves the levels. -/
theorem Ready.high_ack₁ (hp : Ready k p) (n : Line ⊕ Line) : High p.ack₁.2 n ↔ High p n := by
  cases n with
  | inr j => exact Iff.rfl
  | inl i =>
    show i ∈ p.master.ack.2.lines ↔ i ∈ p.master.lines
    rw [hp.master.ack_lines]

/-- The second pulse takes a request of the slave. -/
theorem Ready.wants_ack₂ (hp : Ready k p) (hisr : p.slave.isr = ∅) (himr : p.slave.imr = ∅)
    {n : Line ⊕ Line} (hn : n ≠ .inl k) :
    Wants (sync k { p with slave := p.slave.ack.2 }) n
      ↔ Wants p n ∧ n ≠ .inr p.slave.ack.1 := by
  refine (wants_sync _ hn).trans ?_
  cases n with
  | inl i => simp [Wants]
  | inr j =>
    show j ∈ p.slave.ack.2.irr ↔ j ∈ p.slave.irr ∧ Sum.inr j ≠ Sum.inr p.slave.ack.1
    simp only [hp.slave.mem_irr_ack hisr himr, ne_eq, Sum.inr.injEq]

/-- And it leaves the levels. -/
theorem Ready.high_ack₂ (hp : Ready k p) {n : Line ⊕ Line} (hn : n ≠ .inl k) :
    High (sync k { p with slave := p.slave.ack.2 }) n ↔ High p n := by
  refine (high_sync _ hn).trans ?_
  cases n with
  | inl i => exact Iff.rfl
  | inr j =>
    show j ∈ p.slave.ack.2.lines ↔ j ∈ p.slave.lines
    rw [hp.slave.ack_lines]

/-! #### Requests -/

/-- With nothing in service the master remembers the line of the slave exactly when the slave has
a request that is not masked. -/
theorem Ready.mem_irr_of_idle (hp : Ready k p) (hl : Latched k p) (hslave : p.slave.isr = ∅) :
    k ∈ p.master.irr ↔ p.slave.waiting.Nonempty := by
  rw [← hp.slave.int_of_idle hslave]
  exact ⟨fun hk => hp.linked.level.mp (hp.linked.edge hk), hl⟩

end

end Pair

end Lib.Pic
