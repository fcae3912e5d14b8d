import Chuckles.Lib.Memory
import Chuckles.Lib.Segment
import Mathlib.Tactic.IntervalCases

/-!
# `Chuckles.Lib.Selector`: descriptor tables, and the loads of selectors

The processor reads its two descriptor tables from memory, at the bases and up to the limits
that `lgdt` and `lidt` have loaded (`Tables`). There is no local table, so a selector that asks for
it fails.

`Tables.load` is the check of a selector, and `Tables.loadReg` a load of a segment register or of
the task register at privilege level 0. A load writes to the table: it sets the accessed bit of a
segment for code or data, and the busy bit of a task. `Tables.accepts_of_loadRegs` says what this
changes for the loads that follow: a task that is busy is not accepted again, and nothing else.
-/

set_option autoImplicit false

namespace Lib

/-! ### Tables in memory -/

namespace Memory

/-- The eight bytes from the address `a` on. -/
def read64 (m : Memory) (a : BitVec 32) : BitVec 64 := m.read32 (a + 4) ++ m.read32 a

/-- The memory with eight-byte words from the address `a` on. -/
def place (a : BitVec 32) (words : List (BitVec 64)) (m : Memory) : Memory := fun b =>
  if (b - a).toNat < 8 * words.length then
    (words.getD ((b - a).toNat / 8) 0).extractLsb' (8 * ((b - a).toNat % 8)) 8
  else m b

/-- The bytes of the words. -/
theorem place_add (a : BitVec 32) (words : List (BitVec 64)) (m : Memory) {i k : Nat}
    (hi : i < words.length) (hk : k < 8) (hroom : 8 * words.length ≤ 2 ^ 32) :
    place a words m (a + BitVec.ofNat 32 (8 * i + k))
      = (words.getD i 0).extractLsb' (8 * k) 8 := by
  have hdist : (a + BitVec.ofNat 32 (8 * i + k) - a).toNat = 8 * i + k := by
    rw [BitVec.add_comm, BitVec.add_sub_cancel, BitVec.toNat_ofNat]
    omega
  have hdiv : (8 * i + k) / 8 = i := by omega
  have hmod : (8 * i + k) % 8 = k := by omega
  rw [place, hdist, if_pos (by omega), hdiv, hmod]

/-- A bit of the eight bytes. -/
theorem getLsbD_read64 (m : Memory) (a : BitVec 32) {j : Nat} (hj : j < 64) :
    (m.read64 a).getLsbD j = (m (a + BitVec.ofNat 32 (j / 8))).getLsbD (j % 8) := by
  have hnext (k : Nat) : a + 4 + BitVec.ofNat 32 k = a + BitVec.ofNat 32 (4 + k) := by
    rw [BitVec.add_assoc, BitVec.ofNat_add]
    rfl
  have hword : m.read64 a
      = (m (a + BitVec.ofNat 32 7) ++ (m (a + BitVec.ofNat 32 6) ++ (m (a + BitVec.ofNat 32 5)
        ++ m (a + BitVec.ofNat 32 4)))) ++ (m (a + BitVec.ofNat 32 3)
        ++ (m (a + BitVec.ofNat 32 2) ++ (m (a + BitVec.ofNat 32 1)
        ++ m (a + BitVec.ofNat 32 0)))) := by
    rw [← hnext 3, ← hnext 2, ← hnext 1, BitVec.add_zero]
    rfl
  obtain ⟨k, hk, i, hi, rfl⟩ : ∃ k < 8, ∃ i < 8, j = 8 * k + i :=
    ⟨j / 8, by omega, j % 8, by omega, by omega⟩
  rw [hword, show (8 * k + i) / 8 = k by omega, show (8 * k + i) % 8 = i by omega]
  simp only [BitVec.getLsbD_append]
  interval_cases k <;> grind

/-- The words are read back. -/
theorem read64_place (a : BitVec 32) (words : List (BitVec 64)) (m : Memory) {i : Nat}
    (hi : i < words.length) (hroom : 8 * words.length ≤ 2 ^ 32) :
    (place a words m).read64 (a + BitVec.ofNat 32 (8 * i)) = words.getD i 0 := by
  apply BitVec.eq_of_getLsbD_eq
  intro j hj
  rw [getLsbD_read64 _ _ hj, BitVec.add_assoc, ← BitVec.ofNat_add,
    place_add a words m hi (by omega) hroom, BitVec.getLsbD_extractLsb',
    decide_eq_true (Nat.mod_lt j (by decide)), Bool.true_and, Nat.div_add_mod]

end Memory

/-! ### Segments -/

namespace Segment

/-- A code segment, and not a data segment or a system descriptor. -/
def isCode (s : Segment) : Bool := s.attributes.getLsbD 4 && s.attributes.getLsbD 3

/-- A conforming code segment. -/
def conforming (s : Segment) : Bool := s.attributes.getLsbD 2

/-- A data segment. -/
def isData (s : Segment) : Bool := s.attributes.getLsbD 4 && !s.attributes.getLsbD 3

/-- A data segment can be written, and a code segment can be read. -/
def accessible (s : Segment) : Bool := s.attributes.getLsbD 1

/-- A task state segment of either size that is not in use. -/
def isFreeTask (s : Segment) : Bool :=
  !s.attributes.getLsbD 4 && !s.attributes.getLsbD 2 && !s.attributes.getLsbD 1 &&
    s.attributes.getLsbD 0

def dpl (s : Segment) : BitVec 2 := s.attributes.extractLsb' 5 2

def present (s : Segment) : Bool := s.attributes.getLsbD 7

/-- The parts of a segment that do not depend on the bits that loads set. -/
def kept (s : Segment) : BitVec 32 × Nat × Bool × BitVec 2 × Bool :=
  (s.base, s.lastOffset, s.isCode, s.dpl, s.present)

/-- The segment with bits set in its access byte. -/
def mark (s : Segment) (bits : BitVec 8) : Segment :=
  { s with attributes := s.attributes ||| bits.setWidth 16 }

/-- The access byte is the byte 5 of a descriptor. -/
theorem decode_mark (d : BitVec 64) (bits : BitVec 8) :
    decode (d ||| bits.setWidth 64 <<< 40) = (decode d).mark bits := by
  have hbit (i : Nat) : (d ||| bits.setWidth 64 <<< 40).getLsbD i
      = (d.getLsbD i || decide (40 ≤ i ∧ i < 48) && bits.getLsbD (i - 40)) := by
    simp only [BitVec.getLsbD_or, BitVec.getLsbD_shiftLeft, BitVec.getLsbD_setWidth]
    grind
  apply Segment.ext
  · apply BitVec.eq_of_getLsbD_eq
    intro i hi
    simp only [decode, mark, BitVec.getLsbD_append, BitVec.getLsbD_extractLsb', hbit]
    grind
  · apply BitVec.eq_of_getLsbD_eq
    intro i hi
    simp only [decode, mark, BitVec.getLsbD_append, BitVec.getLsbD_extractLsb', hbit]
    grind
  · apply BitVec.eq_of_getLsbD_eq
    intro i hi
    simp only [decode, mark, BitVec.getLsbD_append, BitVec.getLsbD_extractLsb', BitVec.getLsbD_or,
      BitVec.getLsbD_setWidth, BitVec.getLsbD_zero, hbit]
    grind

end Segment

namespace X86

/-! ### The registers of the tables -/

/-- What `lgdt` and `lidt` load. -/
structure TableReg where
  base : BitVec 32
  limit : BitVec 16
  deriving DecidableEq

/-- The descriptor with an index, when it lies inside the limit. -/
def TableReg.entry (t : TableReg) (mem : Memory) (i : Nat) : Option (BitVec 64) :=
  if 8 * i + 7 ≤ t.limit.toNat then some (mem.read64 (t.base + BitVec.ofNat 32 (8 * i))) else none

/-- The memory holds a table of these descriptors at the base. -/
def Holds (mem : Memory) (base : BitVec 32) {n : Nat} (entries : Fin n → BitVec 64) : Prop :=
  ∀ i : Fin n, mem.read64 (base + BitVec.ofNat 32 (8 * i)) = entries i

/-- The entries of a table that the memory holds, when the limit is right for it. -/
theorem TableReg.entry_of_holds {t : TableReg} {mem : Memory} {n : Nat}
    {entries : Fin n → BitVec 64} (h : Holds mem t.base entries)
    (hlimit : t.limit.toNat + 1 = 8 * n) (i : Nat) :
    t.entry mem i = if hi : i < n then some (entries ⟨i, hi⟩) else none := by
  unfold TableReg.entry
  by_cases hi : i < n
  · rw [if_pos (by omega), dif_pos hi, ← h ⟨i, hi⟩]
  · rw [if_neg (by omega), dif_neg hi]

/-- Words that are placed in memory are a table, wherever they stand among others. -/
theorem holds_place (base : BitVec 32) (pre post : List (BitVec 64)) (mem : Memory) {n : Nat}
    (entries : Fin n → BitVec 64) (hroom : 8 * (pre.length + n + post.length) ≤ 2 ^ 32) :
    Holds (Memory.place base (pre ++ List.ofFn entries ++ post) mem)
      (base + BitVec.ofNat 32 (8 * pre.length)) entries := by
  intro i
  have hlength : (pre ++ List.ofFn entries ++ post).length = pre.length + n + post.length := by
    simp [Nat.add_assoc]
  have hword : (pre ++ List.ofFn entries ++ post).getD (pre.length + i) 0 = entries i := by
    simp [List.getD, List.getElem?_append_left, List.getElem?_append_right]
  rw [BitVec.add_assoc, ← BitVec.ofNat_add, ← Nat.mul_add,
    Memory.read64_place base _ mem (by omega) (by omega), hword]

/-- The two tables. -/
structure Tables where
  gdtr : TableReg
  idtr : TableReg

/-! ### Faults -/

/-- A fault, with its error code. -/
inductive Fault where
  | notPresent (code : BitVec 32)
  | stack (code : BitVec 32)
  | protection (code : BitVec 32)
  deriving DecidableEq

def Fault.vector : Fault → Nat
  | .notPresent _ => 11
  | .stack _ => 12
  | .protection _ => 13

def Fault.code : Fault → BitVec 32
  | .notPresent code => code
  | .stack code => code
  | .protection code => code

/-! ### Selectors -/

/-- The segment that a selector names. -/
def Tables.segment (t : Tables) (mem : Memory) (sel : BitVec 16) : Option Segment :=
  if sel.getLsbD 2 then none else (t.gdtr.entry mem (sel.toNat / 8)).map Segment.decode

/-- The four selectors of the entry 0. -/
def isNull (sel : BitVec 16) : Prop := sel.toNat / 4 = 0

instance (sel : BitVec 16) : Decidable (isNull sel) := inferInstanceAs (Decidable (_ = _))

/-- The privilege level that a selector asks for. -/
def rpl (sel : BitVec 16) : BitVec 2 := sel.setWidth 2

/-- The error code that names a selector. -/
def selectorCode (sel : BitVec 16) : BitVec 32 := (sel &&& 0xFFFC#16).setWidth 32

/-- A load of a selector, for a use that `allows` only some segments. -/
def Tables.load (t : Tables) (mem : Memory) (sel : BitVec 16) (allows : Segment → Bool)
    (absent : BitVec 32 → Fault) : Except Fault Segment :=
  if isNull sel then .error (.protection 0)
  else match t.segment mem sel with
    | none => .error (.protection (selectorCode sel))
    | some s =>
      if allows s = false then .error (.protection (selectorCode sel))
      else if s.present = false then .error (absent (selectorCode sel))
      else .ok s

/-- What a load gives. -/
theorem Tables.load_eq_ok_iff {t : Tables} {mem : Memory} {sel : BitVec 16}
    {allows : Segment → Bool} {absent : BitVec 32 → Fault} {s : Segment} :
    t.load mem sel allows absent = .ok s ↔
      ¬isNull sel ∧ t.segment mem sel = some s ∧ allows s = true ∧ s.present = true := by
  unfold Tables.load
  by_cases hnull : isNull sel
  · simp [hnull]
  · rw [if_neg hnull]
    cases hs : t.segment mem sel with
    | none => simp
    | some s' =>
      by_cases hallows : allows s' = true
      · by_cases hpresent : s'.present = true
        · simp only [hallows, hpresent, Bool.true_eq_false, if_false, Except.ok.injEq]
          constructor
          · rintro rfl
            exact ⟨hnull, rfl, hallows, hpresent⟩
          · rintro ⟨-, hsame, -, -⟩
            exact Option.some.inj hsame
        · simp only [hallows, hpresent]
          grind
      · simp only [hallows]
        grind

/-! ### Loads -/

/-- Where a selector is loaded, at privilege level 0. -/
inductive SelReg where
  /-- CS, with a code segment. A far jump to a task or through a gate is not such a load. -/
  | cs
  | ss
  /-- DS, ES, FS or GS. -/
  | ds
  /-- The task register, with `ltr`. -/
  | tr
  deriving DecidableEq

/-- The segments that can be loaded there, with a selector that asks for the level `rpl`. -/
def SelReg.allows (rpl : BitVec 2) (s : Segment) : SelReg → Bool
  | .cs => s.isCode && s.dpl == 0 && (s.conforming || rpl == 0)
  | .ss => s.isData && s.accessible && s.dpl == 0 && rpl == 0
  | .ds => (s.isData || s.isCode && s.accessible) &&
      (s.isCode && s.conforming || decide (rpl ≤ s.dpl))
  | .tr => s.isFreeTask

/-- The fault of a segment that is not present. -/
def SelReg.absent : SelReg → BitVec 32 → Fault
  | .ss => .stack
  | _ => .notPresent

/-- What a load sets in the access byte: the bit that tells of an access, or in the descriptor of
a task the one that tells that it is busy. -/
def SelReg.mark : SelReg → BitVec 8
  | .tr => 0x02
  | _ => 0x01

/-- The memory with bits set in the access byte of a descriptor. -/
def Tables.mark (t : Tables) (mem : Memory) (sel : BitVec 16) (bits : BitVec 8) : Memory := fun b =>
  if b = t.gdtr.base + BitVec.ofNat 32 (8 * (sel.toNat / 8) + 5) then mem b ||| bits else mem b

/-- A load of a selector: the segment that has been loaded, and the memory after it. The registers
for data take a null selector without a check. -/
def Tables.loadReg (t : Tables) (mem : Memory) (r : SelReg) (sel : BitVec 16) :
    Except Fault (Option Segment × Memory) :=
  if r = .ds ∧ isNull sel then .ok (none, mem)
  else (t.load mem sel (fun s => r.allows (rpl sel) s) r.absent).map fun s =>
    (some s, t.mark mem sel r.mark)

/-- Loads one after the other. -/
def Tables.loadRegs (t : Tables) (mem : Memory) : List (SelReg × BitVec 16) → Except Fault Memory
  | [] => .ok mem
  | (r, sel) :: loads =>
    match t.loadReg mem r sel with
    | .error f => .error f
    | .ok (_, mem') => t.loadRegs mem' loads

/-- The processor loads this selector without a fault. -/
def Tables.Accepts (t : Tables) (mem : Memory) (r : SelReg) (sel : BitVec 16) : Prop :=
  ∃ loaded, t.loadReg mem r sel = .ok loaded

/-- What the registers take. -/
theorem Tables.accepts_iff {t : Tables} {mem : Memory} {r : SelReg} {sel : BitVec 16} :
    t.Accepts mem r sel ↔ (r = .ds ∧ isNull sel) ∨
      (¬isNull sel ∧ ∃ s, t.segment mem sel = some s ∧ r.allows (rpl sel) s = true ∧
        s.present = true) := by
  unfold Tables.Accepts Tables.loadReg
  by_cases hnull : r = .ds ∧ isNull sel
  · simp [hnull]
  · rw [if_neg hnull, or_iff_right hnull]
    constructor
    · rintro ⟨loaded, h⟩
      cases hload : t.load mem sel (fun s => r.allows (rpl sel) s) r.absent with
      | error f =>
        rw [hload] at h
        cases h
      | ok s =>
        obtain ⟨hsel, hs⟩ := Tables.load_eq_ok_iff.mp hload
        exact ⟨hsel, s, hs⟩
    · rintro ⟨hsel, s, hs⟩
      rw [Tables.load_eq_ok_iff.mpr ⟨hsel, hs⟩]
      exact ⟨_, rfl⟩

/-- What a load that is accepted does. -/
theorem Tables.loadReg_ok {t : Tables} {mem mem' : Memory} {r : SelReg} {sel : BitVec 16}
    {o : Option Segment} (h : t.loadReg mem r sel = .ok (o, mem')) :
    (o = none ∧ mem' = mem ∧ r = .ds) ∨
      ∃ s, o = some s ∧ mem' = t.mark mem sel r.mark ∧
        t.load mem sel (fun s => r.allows (rpl sel) s) r.absent = .ok s := by
  unfold Tables.loadReg at h
  split at h
  · rename_i hnull
    cases h
    exact Or.inl ⟨rfl, rfl, hnull.1⟩
  · cases hload : t.load mem sel (fun s => r.allows (rpl sel) s) r.absent with
    | error f =>
      rw [hload] at h
      cases h
    | ok s =>
      rw [hload] at h
      cases h
      exact Or.inr ⟨s, rfl, rfl, rfl⟩

/-! ### What a load changes -/

/-- The descriptors after bits have been set in one of them. -/
theorem Tables.read64_mark (t : Tables) (mem : Memory) (sel : BitVec 16) (bits : BitVec 8)
    {i : Nat} (hi : i < 2 ^ 13) :
    (t.mark mem sel bits).read64 (t.gdtr.base + BitVec.ofNat 32 (8 * i))
      = if i = sel.toNat / 8 then
          mem.read64 (t.gdtr.base + BitVec.ofNat 32 (8 * i)) ||| bits.setWidth 64 <<< 40
        else mem.read64 (t.gdtr.base + BitVec.ofNat 32 (8 * i)) := by
  have hsel := sel.isLt
  have hbyte (k : Nat) (hk : k < 8) :
      t.mark mem sel bits (t.gdtr.base + BitVec.ofNat 32 (8 * i) + BitVec.ofNat 32 k)
        = if i = sel.toNat / 8 ∧ k = 5 then
            mem (t.gdtr.base + BitVec.ofNat 32 (8 * i) + BitVec.ofNat 32 k) ||| bits
          else mem (t.gdtr.base + BitVec.ofNat 32 (8 * i) + BitVec.ofNat 32 k) := by
    have hsame : t.gdtr.base + BitVec.ofNat 32 (8 * i) + BitVec.ofNat 32 k
        = t.gdtr.base + BitVec.ofNat 32 (8 * (sel.toNat / 8) + 5)
          ↔ i = sel.toNat / 8 ∧ k = 5 := by
      rw [BitVec.add_assoc, ← BitVec.ofNat_add, BitVec.add_right_inj, ← BitVec.toNat_inj,
        BitVec.toNat_ofNat, BitVec.toNat_ofNat, Nat.mod_eq_of_lt (by omega),
        Nat.mod_eq_of_lt (by omega)]
      omega
    rw [Tables.mark, if_congr hsame rfl rfl]
  apply BitVec.eq_of_getLsbD_eq
  intro j hj
  rw [Memory.getLsbD_read64 _ _ hj, hbyte _ (by omega)]
  by_cases hsame : i = sel.toNat / 8
  · rw [if_pos hsame, BitVec.getLsbD_or, Memory.getLsbD_read64 _ _ hj, BitVec.getLsbD_shiftLeft,
      BitVec.getLsbD_setWidth]
    by_cases hfive : j / 8 = 5
    · rw [if_pos ⟨hsame, hfive⟩, BitVec.getLsbD_or, show j % 8 = j - 40 by omega]
      grind
    · rw [if_neg fun h => hfive h.2]
      grind
  · rw [if_neg hsame, if_neg fun h => hsame h.1, Memory.getLsbD_read64 _ _ hj]

/-- The segments after it. -/
theorem Tables.segment_mark (t : Tables) (mem : Memory) (sel : BitVec 16) (bits : BitVec 8)
    (sel' : BitVec 16) : t.segment (t.mark mem sel bits) sel'
      = if sel'.toNat / 8 = sel.toNat / 8 then (t.segment mem sel').map (Segment.mark · bits)
        else t.segment mem sel' := by
  have hsel := sel'.isLt
  unfold Tables.segment TableReg.entry
  rw [Tables.read64_mark t mem sel bits (by omega)]
  by_cases hsame : sel'.toNat / 8 = sel.toNat / 8
  · rw [if_pos hsame, if_pos hsame]
    split
    · rfl
    · split
      · rw [Option.map_some, Option.map_some, Option.map_some, Segment.decode_mark]
      · rfl
  · rw [if_neg hsame, if_neg hsame]

/-- The bits of a segment after a load. -/
theorem SelReg.getLsbD_mark (r : SelReg) (s : Segment) (i : Nat) :
    (s.mark r.mark).attributes.getLsbD i
      = (s.attributes.getLsbD i || decide (i = if r = .tr then 1 else 0)) := by
  have hsmall (k : Nat) (hk : k < 16) : ((2 : BitVec 8).setWidth 16).getLsbD k = decide (k = 1) ∧
      ((1 : BitVec 8).setWidth 16).getLsbD k = decide (k = 0) := by
    interval_cases k <;> decide
  rw [Segment.mark, BitVec.getLsbD_or]
  by_cases hi : i < 16
  · cases r with
    | tr =>
      show (_ || ((2 : BitVec 8).setWidth 16).getLsbD i) = _
      rw [(hsmall i hi).1]
      rfl
    | _ =>
      show (_ || ((1 : BitVec 8).setWidth 16).getLsbD i) = _
      rw [(hsmall i hi).2]
      rfl
  · rw [BitVec.getLsbD_of_ge _ i (by omega), BitVec.getLsbD_of_ge _ i (by omega)]
    grind

/-- The privilege level stays. -/
theorem SelReg.dpl_mark (r : SelReg) (s : Segment) : (s.mark r.mark).dpl = s.dpl := by
  apply BitVec.eq_of_getLsbD_eq
  intro i hi
  rw [Segment.dpl, Segment.dpl, BitVec.getLsbD_extractLsb', BitVec.getLsbD_extractLsb',
    r.getLsbD_mark]
  grind

/-- So does the presence. -/
theorem SelReg.present_mark (r : SelReg) (s : Segment) : (s.mark r.mark).present = s.present := by
  rw [Segment.present, Segment.present, r.getLsbD_mark]
  grind

/-- A code segment stays one. -/
theorem SelReg.isCode_mark (r : SelReg) (s : Segment) : (s.mark r.mark).isCode = s.isCode := by
  simp only [Segment.isCode, r.getLsbD_mark]
  grind

/-- The segment stays as long as it is. -/
theorem SelReg.lastOffset_mark (r : SelReg) (s : Segment) :
    (s.mark r.mark).lastOffset = s.lastOffset := by
  have hgranular : (s.mark r.mark).granular = s.granular := by
    simp only [Segment.granular, r.getLsbD_mark]
    grind
  rw [Segment.lastOffset, Segment.lastOffset, hgranular]
  rfl

/-- What loads leave of a segment. -/
theorem SelReg.kept_mark (r : SelReg) (s : Segment) : (s.mark r.mark).kept = s.kept := by
  rw [Segment.kept, Segment.kept, r.lastOffset_mark, r.isCode_mark, r.dpl_mark, r.present_mark]
  rfl

/-- After a load the segment is taken as before, but a task that has been loaded is busy. -/
theorem SelReg.allows_mark {r₀ : SelReg} {rpl₀ : BitVec 2} {s : Segment}
    (h : r₀.allows rpl₀ s = true) (r : SelReg) (rpl : BitVec 2) :
    r.allows rpl (s.mark r₀.mark) = (r.allows rpl s && !decide (r = .tr ∧ r₀ = .tr)) := by
  have hcode := r₀.isCode_mark s
  have hdata : (s.mark r₀.mark).isData = s.isData := by
    simp only [Segment.isData, r₀.getLsbD_mark]
    grind
  have hconforming : (s.mark r₀.mark).conforming = s.conforming := by
    simp only [Segment.conforming, r₀.getLsbD_mark]
    grind
  by_cases htask : r₀ = .tr
  · subst htask
    have hfree : s.isFreeTask = true := h
    have hsystem : s.attributes.getLsbD 4 = false := by
      simp only [Segment.isFreeTask] at hfree
      grind
    have hbusy : (s.mark SelReg.tr.mark).isFreeTask = false := by
      simp only [Segment.isFreeTask, SelReg.getLsbD_mark]
      grind
    have hnocode : s.isCode = false := by simp only [Segment.isCode, hsystem, Bool.false_and]
    have hnodata : s.isData = false := by simp only [Segment.isData, hsystem, Bool.false_and]
    cases r <;> simp [SelReg.allows, hcode, hdata, hnocode, hnodata, hbusy]
  · have haccess : (s.mark r₀.mark).accessible = s.accessible := by
      simp only [Segment.accessible, r₀.getLsbD_mark, if_neg htask]
      grind
    have hmemory : s.attributes.getLsbD 4 = true := by
      cases r₀ with
      | tr => exact absurd rfl htask
      | _ =>
        simp only [SelReg.allows, Segment.isCode, Segment.isData] at h
        grind
    have hfree : (s.mark r₀.mark).isFreeTask = s.isFreeTask := by
      simp only [Segment.isFreeTask, r₀.getLsbD_mark, hmemory]
      grind
    cases r <;>
      simp [SelReg.allows, hcode, hdata, hconforming, haccess, hfree, htask, r₀.dpl_mark]

/-- Two selectors of one entry name the same segment, unless one asks for a local table. -/
theorem Tables.segment_congr {t : Tables} {mem : Memory} {sel sel' : BitVec 16}
    (hsame : sel'.toNat / 8 = sel.toNat / 8) (h : sel.getLsbD 2 = false)
    (h' : sel'.getLsbD 2 = false) : t.segment mem sel' = t.segment mem sel := by
  rw [Tables.segment, Tables.segment, h, h', hsame]

section
variable {t : Tables} {mem mem' : Memory}

/-- After a load the processor accepts what it accepted before, but for the task that has been
loaded. -/
theorem Tables.accepts_of_loadReg {r₀ : SelReg} {sel₀ : BitVec 16} {o : Option Segment}
    (h : t.loadReg mem r₀ sel₀ = .ok (o, mem')) (r : SelReg) (sel : BitVec 16) :
    t.Accepts mem' r sel ↔ t.Accepts mem r sel ∧
      (r = .tr → r₀ = .tr → sel₀.toNat / 8 ≠ sel.toNat / 8) := by
  rcases Tables.loadReg_ok h with ⟨-, rfl, rfl⟩ | ⟨s₀, -, rfl, hload⟩
  · simp
  obtain ⟨-, hs₀, hallows, -⟩ := Tables.load_eq_ok_iff.mp hload
  have hlocal₀ : sel₀.getLsbD 2 = false := by
    by_contra hti
    rw [Tables.segment, if_pos (by simpa using hti)] at hs₀
    cases hs₀
  have hdata : r = .ds → r = .tr → r₀ = .tr → sel₀.toNat / 8 ≠ sel.toNat / 8 := by
    rintro rfl ⟨⟩
  rw [Tables.accepts_iff, Tables.accepts_iff, Tables.segment_mark]
  by_cases hsame : sel.toNat / 8 = sel₀.toNat / 8
  · rw [if_pos hsame]
    cases hlocal : sel.getLsbD 2 with
    | true =>
      have hnone : t.segment mem sel = none := by rw [Tables.segment, if_pos hlocal]
      rw [hnone]
      grind
    | false =>
      rw [Tables.segment_congr hsame hlocal₀ hlocal, hs₀]
      have hbusy := SelReg.allows_mark hallows r (rpl sel)
      simp only [Option.map_some, Option.some.injEq, exists_eq_left', hbusy,
        SelReg.present_mark, Bool.and_eq_true, Bool.not_eq_true', decide_eq_false_iff_not]
      grind
  · rw [if_neg hsame]
    grind

/-- Over any loads: what the processor accepts after them is what it accepted before, but for the
tasks that they have made busy. -/
theorem Tables.accepts_of_loadRegs {loads : List (SelReg × BitVec 16)}
    (h : t.loadRegs mem loads = .ok mem') (r : SelReg) (sel : BitVec 16) :
    t.Accepts mem' r sel ↔ t.Accepts mem r sel ∧
      (r = .tr → ∀ l ∈ loads, l.1 = .tr → l.2.toNat / 8 ≠ sel.toNat / 8) := by
  induction loads generalizing mem with
  | nil =>
      cases h
      simp
  | cons l loads ih =>
      obtain ⟨r₀, sel₀⟩ := l
      rw [Tables.loadRegs] at h
      split at h
      · cases h
      · rename_i hload
        rw [ih h, Tables.accepts_of_loadReg hload, and_assoc, List.forall_mem_cons]
        grind

/-- The loads of a run were accepted before it. -/
theorem Tables.accepts_of_mem {loads : List (SelReg × BitVec 16)}
    (h : t.loadRegs mem loads = .ok mem') {l : SelReg × BitVec 16} (hl : l ∈ loads) :
    t.Accepts mem l.1 l.2 := by
  induction loads generalizing mem with
  | nil => cases hl
  | cons l₀ loads ih =>
      obtain ⟨r₀, sel₀⟩ := l₀
      rw [Tables.loadRegs] at h
      split at h
      · cases h
      · rename_i hload
        rcases List.mem_cons.mp hl with rfl | hl
        · exact ⟨_, hload⟩
        · exact ((Tables.accepts_of_loadReg hload _ _).mp (ih h hl)).1

/-- Loads go through when each of them is accepted at the start and no task is loaded twice. -/
theorem Tables.exists_loadRegs {loads : List (SelReg × BitVec 16)}
    (h : ∀ l ∈ loads, t.Accepts mem l.1 l.2)
    (htask : loads.Pairwise fun l l' => l'.1 = .tr → l.1 = .tr → l.2.toNat / 8 ≠ l'.2.toNat / 8) :
    ∃ mem', t.loadRegs mem loads = .ok mem' := by
  induction loads generalizing mem with
  | nil => exact ⟨mem, rfl⟩
  | cons l loads ih =>
      obtain ⟨r, sel⟩ := l
      obtain ⟨⟨o, mem₁⟩, hload⟩ := h _ List.mem_cons_self
      obtain ⟨hfirst, hrest⟩ := List.pairwise_cons.mp htask
      rw [Tables.loadRegs, hload]
      refine ih (fun l hl => ?_) hrest
      exact (Tables.accepts_of_loadReg hload l.1 l.2).mpr
        ⟨h l (List.mem_cons_of_mem _ hl), hfirst l hl⟩

/-- The segments of two memories are the same, but for the bits that loads set. -/
def Tables.SameSegments (t : Tables) (mem mem' : Memory) : Prop :=
  ∀ sel, (t.segment mem' sel).map Segment.kept = (t.segment mem sel).map Segment.kept

/-- A load keeps this. -/
theorem Tables.sameSegments_of_loadReg {r : SelReg} {sel₀ : BitVec 16} {o : Option Segment}
    (h : t.loadReg mem r sel₀ = .ok (o, mem')) : t.SameSegments mem mem' := by
  intro sel
  rcases Tables.loadReg_ok h with ⟨-, rfl, -⟩ | ⟨s, -, rfl, -⟩
  · rfl
  · rw [Tables.segment_mark]
    split
    · rw [Option.map_map]
      exact congrArg (fun f => (t.segment mem sel).map f) (funext r.kept_mark)
    · rfl

/-- So do loads one after the other. -/
theorem Tables.sameSegments_of_loadRegs {loads : List (SelReg × BitVec 16)}
    (h : t.loadRegs mem loads = .ok mem') : t.SameSegments mem mem' := by
  induction loads generalizing mem with
  | nil =>
      cases h
      exact fun _ => rfl
  | cons l loads ih =>
      obtain ⟨r, sel₀⟩ := l
      rw [Tables.loadRegs] at h
      split at h
      · cases h
      · rename_i hload
        exact fun sel => (ih h sel).trans (Tables.sameSegments_of_loadReg hload sel)

end

end X86

end Lib
