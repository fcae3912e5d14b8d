import Chuckles.Lib.Selector
import Chuckles.Lib.X86

/-!
# `Chuckles.Lib.Delivery`: how an interrupt finds its handler

`Tables.gate` is the lookup of a vector in the interrupt table, with the checks of the processor
in their order, for code that runs at privilege level 0. A check that fails raises a fault, which
is a vector of its own. `Tables.arrive` is the whole story of a vector: it ends in a handler, or
the processor shuts down.

`Tables.arrive_of_gate` and `Tables.arrive_of_fault` are the two ways into a handler that code
relies on: the vector has a gate, or its lookup fails and the fault has a gate.
`Tables.arrive_of_loadRegs`: the bits that loads set in the segment table make no difference here.
-/

set_option autoImplicit false

namespace Lib.X86

/-- Where an interrupt comes from. Bit 0 of an error code tells. -/
inductive Source where
  /-- An interrupt line or a fault. -/
  | external
  /-- An `int` instruction. -/
  | software
  deriving DecidableEq

def Source.ext : Source → BitVec 32
  | .external => 1
  | .software => 0

/-! ### Gates -/

/-- The kinds of gates. -/
inductive GateKind where
  | task
  | interrupt16
  | trap16
  | interrupt32
  | trap32
  deriving DecidableEq

/-- The kind, from the type of the descriptor. -/
def GateKind.ofType (type : BitVec 5) : Option GateKind :=
  if type = 0x5 then some .task
  else if type = 0x6 then some .interrupt16
  else if type = 0x7 then some .trap16
  else if type = 0xE then some .interrupt32
  else if type = 0xF then some .trap32
  else none

/-- The fields of a descriptor of the interrupt table. -/
@[ext]
structure GateDesc where
  offset : BitVec 32
  selector : BitVec 16
  type : BitVec 5
  dpl : BitVec 2
  present : Bool
  deriving DecidableEq

/-- The fields that the processor reads. -/
def GateDesc.decode (d : BitVec 64) : GateDesc where
  offset := d.extractLsb' 48 16 ++ d.extractLsb' 0 16
  selector := d.extractLsb' 16 16
  type := d.extractLsb' 40 5
  dpl := d.extractLsb' 45 2
  present := d.getLsbD 47

/-- The error code that names a vector. -/
def vectorCode (v : Nat) : BitVec 32 := BitVec.ofNat 32 (8 * v + 2)

/-- The code segment of a gate. The privilege level that its selector asks for is ignored. -/
def Tables.gateCode (t : Tables) (mem : Memory) (src : Source) (sel : BitVec 16) :
    Except Fault Segment :=
  if isNull sel then .error (.protection src.ext)
  else match t.segment mem sel with
    | none => .error (.protection (selectorCode sel + src.ext))
    | some s =>
      if s.isCode = false ∨ s.dpl ≠ 0 then .error (.protection (selectorCode sel + src.ext))
      else if s.present = false then .error (.notPresent (selectorCode sel + src.ext))
      else .ok s

/-- The lookup of a vector: the kind of its gate, and where the gate leads. -/
def Tables.gate (t : Tables) (mem : Memory) (src : Source) (v : Nat) :
    Except Fault (GateKind × Gate) :=
  match t.idtr.entry mem v with
  | none => .error (.protection (vectorCode v + src.ext))
  | some d =>
    let g := GateDesc.decode d
    match GateKind.ofType g.type with
    | none => .error (.protection (vectorCode v + src.ext))
    | some kind =>
      if g.present = false then .error (.notPresent (vectorCode v + src.ext))
      -- a task gate names a task, and nothing here looks at it
      else if kind = .task then .ok (kind, ⟨g.selector, g.offset⟩)
      else
        match t.gateCode mem src g.selector with
        | .error f => .error f
        | .ok s =>
          if s.lastOffset < g.offset.toNat then .error (.protection src.ext)
          else .ok (kind, ⟨g.selector, g.offset⟩)

/-! ### Arrival -/

/-- What becomes of a vector. -/
inductive Arrival where
  /-- The handler of a vector runs, behind an error code if there is one. -/
  | handler (v : Nat) (code : Option (BitVec 32)) (kind : GateKind) (gate : Gate)
  | shutdown

/-- The vectors during whose delivery a fault becomes a double fault. -/
def Contributory (v : Nat) : Prop := v = 0 ∨ (10 ≤ v ∧ v ≤ 14)

instance (v : Nat) : Decidable (Contributory v) := inferInstanceAs (Decidable (_ ∨ _))

/-- The double fault is the vector 8. Without a gate for it the processor shuts down. -/
def Tables.doubleFault (t : Tables) (mem : Memory) : Arrival :=
  match t.gate mem .external 8 with
  | .ok (kind, gate) => .handler 8 (some 0) kind gate
  | .error _ => .shutdown

/-- What becomes of the vector `v`, which comes with an error code or without. -/
def Tables.arrive (t : Tables) (mem : Memory) (src : Source) (v : Nat)
    (code : Option (BitVec 32)) : Arrival :=
  match t.gate mem src v with
  | .ok (kind, gate) => .handler v code kind gate
  | .error f =>
    if v = 8 then .shutdown
    else if Contributory v then t.doubleFault mem
    else
      match t.gate mem .external f.vector with
      | .ok (kind, gate) => .handler f.vector (some f.code) kind gate
      | .error _ => t.doubleFault mem

/-- A vector with a gate. -/
theorem Tables.arrive_of_gate {t : Tables} {mem : Memory} {src : Source} {v : Nat}
    {kind : GateKind} {gate : Gate} (h : t.gate mem src v = .ok (kind, gate))
    (code : Option (BitVec 32)) : t.arrive mem src v code = .handler v code kind gate := by
  rw [Tables.arrive, h]

/-- A vector without one, whose fault has a gate. -/
theorem Tables.arrive_of_fault {t : Tables} {mem : Memory} {src : Source} {v : Nat} {f : Fault}
    {kind : GateKind} {gate : Gate} (h : t.gate mem src v = .error f) (hv : v ≠ 8)
    (hbenign : ¬Contributory v) (hfault : t.gate mem .external f.vector = .ok (kind, gate))
    (code : Option (BitVec 32)) :
    t.arrive mem src v code = .handler f.vector (some f.code) kind gate := by
  rw [Tables.arrive, h]
  show (if v = 8 then _ else if Contributory v then _ else _ : Arrival) = _
  rw [if_neg hv, if_neg hbenign, hfault]

/-! ### The bits that loads set -/

section
variable {t : Tables} {mem mem' : Memory}

/-- The code segment of a gate. -/
theorem Tables.SameSegments.gateCode (h : t.SameSegments mem mem') (src : Source)
    (sel : BitVec 16) :
    (t.gateCode mem' src sel).map Segment.lastOffset
      = (t.gateCode mem src sel).map Segment.lastOffset := by
  have hview := h sel
  unfold Tables.gateCode
  by_cases hnull : isNull sel
  · rw [if_pos hnull, if_pos hnull]
  · rw [if_neg hnull, if_neg hnull]
    cases hs : t.segment mem sel with
    | none =>
      rw [hs, Option.map_none, Option.map_eq_none_iff] at hview
      rw [hview]
    | some s =>
      rw [hs, Option.map_some, Option.map_eq_some_iff] at hview
      obtain ⟨s', hs', hsame⟩ := hview
      simp only [Segment.kept, Prod.mk.injEq] at hsame
      obtain ⟨-, hlast, hcode, hdpl, hpresent⟩ := hsame
      rw [hs']
      simp only [hcode, hdpl, hpresent]
      split
      · rfl
      · split
        · rfl
        · exact congrArg Except.ok hlast

/-- The lookup of a vector. -/
theorem Tables.SameSegments.gate (h : t.SameSegments mem mem') (src : Source) {v : Nat}
    (hentry : t.idtr.entry mem' v = t.idtr.entry mem v) : t.gate mem' src v = t.gate mem src v := by
  unfold Tables.gate
  rw [hentry]
  cases t.idtr.entry mem v with
  | none => rfl
  | some d =>
    dsimp only
    have hcode := h.gateCode src (GateDesc.decode d).selector
    cases hgate : t.gateCode mem src (GateDesc.decode d).selector with
    | error f =>
      rw [hgate] at hcode
      cases hgate' : t.gateCode mem' src (GateDesc.decode d).selector with
      | error f' =>
        rw [hgate'] at hcode
        cases hcode
        rfl
      | ok s' =>
        rw [hgate'] at hcode
        cases hcode
    | ok s =>
      rw [hgate] at hcode
      cases hgate' : t.gateCode mem' src (GateDesc.decode d).selector with
      | error f' =>
        rw [hgate'] at hcode
        cases hcode
      | ok s' =>
        rw [hgate'] at hcode
        have hlast : s'.lastOffset = s.lastOffset := Except.ok.inj hcode
        simp only [hlast]

/-- Where every vector arrives. -/
theorem Tables.SameSegments.arrive (h : t.SameSegments mem mem')
    (hentry : ∀ v, t.idtr.entry mem' v = t.idtr.entry mem v) (src : Source) (v : Nat)
    (code : Option (BitVec 32)) : t.arrive mem' src v code = t.arrive mem src v code := by
  have hgate (src : Source) (v : Nat) : t.gate mem' src v = t.gate mem src v :=
    h.gate src (hentry v)
  unfold Tables.arrive Tables.doubleFault
  simp only [hgate]

/-- Loads leave it where it is, as long as the interrupt table is apart from the segment table. -/
theorem Tables.arrive_of_loadRegs {loads : List (SelReg × BitVec 16)}
    (h : t.loadRegs mem loads = .ok mem')
    (hentry : ∀ v, t.idtr.entry mem' v = t.idtr.entry mem v) (src : Source) (v : Nat)
    (code : Option (BitVec 32)) : t.arrive mem' src v code = t.arrive mem src v code :=
  (Tables.sameSegments_of_loadRegs h).arrive hentry src v code

end

end Lib.X86
