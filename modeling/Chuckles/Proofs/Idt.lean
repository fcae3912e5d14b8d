import Chuckles.Kernel.Idt
import Chuckles.Proofs.Gdt

/-!
# `Chuckles.Proofs.Idt`: the gates of the kernel, and where every vector goes

`decode_idtGate` reads back what `idt_set_gate` stored. `idt_gates_after` says this of every
history of calls: a gate is what the last call about its number stored.

`SegmentTable` is what the register of the segment table and the memory are after
`gdt_initialise`, and `GateTable` the same for the interrupt table after `idt_init`,
`isrs_install` and `irq_install`. `SystemTables` is both. From there:

* `arrive_installed`: every vector below 48 goes through its own gate, and every other one ends in
  the handler of the general protection fault. The processor never shuts down.
* `selectors_exact`: which selectors can be loaded into the registers for code, for the stack, for
  data and for the task, over all of them, at the start and after any other loads. It is about the
  segment table alone.

Both are about the words as they are stored. `arrive_after_loads` says that the accessed and busy
bits, which loads set in them later, make no difference to the first one.
-/

set_option autoImplicit false

namespace Chuckles.Proofs

open Lib Lib.X86

/-! ### One gate -/

/-- The offset is cut into its halves. -/
theorem idtGate_offset (base : BitVec 32) (sel : BitVec 16) (flags : BitVec 8) :
    (idtGate base sel flags).offsetHi ++ (idtGate base sel flags).offsetLo = base := by
  apply BitVec.eq_of_getLsbD_eq
  intro i hi
  have hmask (k : Nat) : (0xFFFF#32).getLsbD k = decide (0 ≤ k ∧ k < 16) :=
    getLsbD_of_range 0 16 (by decide) (by decide) k
  simp only [idtGate, BitVec.getLsbD_append, BitVec.getLsbD_setWidth, BitVec.getLsbD_and,
    BitVec.getLsbD_ushiftRight, hmask]
  grind

/-- The processor reads the fields of the packed structure. -/
theorem decode_word (g : IdtGate) :
    GateDesc.decode g.word
      = ⟨g.offsetHi ++ g.offsetLo, g.selector, g.typeAttr.extractLsb' 0 5,
          g.typeAttr.extractLsb' 5 2, g.typeAttr.getLsbD 7⟩ := by
  have hbit (i : Nat) : g.word.getLsbD i
      = if i < 16 then g.offsetLo.getLsbD i
        else if i < 32 then g.selector.getLsbD (i - 16)
        else if i < 40 then g.zero.getLsbD (i - 32)
        else if i < 48 then g.typeAttr.getLsbD (i - 40)
        else g.offsetHi.getLsbD (i - 48) := by
    simp only [IdtGate.word, BitVec.getLsbD_append]
    grind
  apply GateDesc.ext
  · apply BitVec.eq_of_getLsbD_eq
    intro i hi
    simp only [GateDesc.decode, BitVec.getLsbD_append, BitVec.getLsbD_extractLsb', hbit]
    grind
  · apply BitVec.eq_of_getLsbD_eq
    intro i hi
    simp only [GateDesc.decode, BitVec.getLsbD_extractLsb', hbit]
    grind
  · apply BitVec.eq_of_getLsbD_eq
    intro i hi
    simp only [GateDesc.decode, BitVec.getLsbD_extractLsb', hbit]
    grind
  · apply BitVec.eq_of_getLsbD_eq
    intro i hi
    simp only [GateDesc.decode, BitVec.getLsbD_extractLsb', hbit]
    grind
  · simp only [GateDesc.decode, hbit]
    rfl

/-- The gate that a call stores, as the processor reads it. -/
def callDesc (c : IdtCall) : GateDesc :=
  ⟨c.base, c.sel, c.flags.extractLsb' 0 5, c.flags.extractLsb' 5 2, c.flags.getLsbD 7⟩

/-- What `idt_set_gate` stores decodes to its arguments. -/
theorem decode_idtGate (c : IdtCall) :
    GateDesc.decode (idtGate c.base c.sel c.flags).word = callDesc c := by
  rw [decode_word, idtGate_offset]
  rfl

/-! ### Any calls -/

/-- The last call about a vector, if there is one. -/
def lastGate (calls : List IdtCall) (v : Fin 256) : Option IdtCall :=
  calls.reverse.find? fun c => c.num.toNat = v.val

/-- One more call. -/
theorem lastGate_concat (calls : List IdtCall) (c : IdtCall) (v : Fin 256) :
    lastGate (calls ++ [c]) v = if c.num.toNat = v.val then some c else lastGate calls v := by
  rw [lastGate, List.reverse_append, List.reverse_singleton, List.singleton_append,
    List.find?_cons]
  by_cases hv : c.num.toNat = v.val
  · rw [decide_eq_true hv, if_pos hv]
  · rw [decide_eq_false hv, if_neg hv]
    rfl

/-- After any calls of `idt_set_gate`, from any table, the processor reads in each entry the
arguments of the last call about it, and otherwise what was there. -/
theorem idt_gates_after (idt : Idt) (calls : List IdtCall) (v : Fin 256) :
    GateDesc.decode (idtWords (calls.foldl IdtCall.run idt) v)
      = (lastGate calls v).elim (GateDesc.decode (idtWords idt v)) callDesc := by
  induction calls using List.reverseRecOn with
  | nil => rfl
  | append_singleton calls c ih =>
      rw [List.foldl_append, lastGate_concat]
      show GateDesc.decode (((c.run (calls.foldl IdtCall.run idt)).get v).word) = _
      rw [IdtCall.get_run]
      by_cases hv : c.num.toNat = v.val
      · rw [if_pos hv, if_pos hv, decode_idtGate]
        rfl
      · rw [if_neg hv, if_neg hv]
        exact ih

/-! ### The table of the kernel -/

/-- The table after `idt_init`, `isrs_install` and `irq_install`. -/
def idtInstalled (stubAt : Fin 48 → BitVec 32) : Idt :=
  (isrGateCalls stubAt ++ irqGateCalls stubAt).foldl IdtCall.run
    (Vector.replicate 256 IdtGate.cleared)

/-- The calls of the kernel are one for each vector below 48, in order. -/
theorem isrCalls_append_irqCalls (stubAt : Fin 48 → BitVec 32) :
    isrGateCalls stubAt ++ irqGateCalls stubAt
      = (List.finRange 48).map fun v : Fin 48 => stubCall v (stubAt v) := rfl

/-- The processor reads in each of them a 32-bit interrupt gate of privilege level 0, which is
present. -/
theorem callDesc_stubCall (v : Nat) (base : BitVec 32) :
    callDesc (stubCall v base) = ⟨base, 0x08, 0xE, 0, true⟩ := by
  have htype : (0x8E#8).extractLsb' 0 5 = 0xE#5 := by decide
  have hdpl : (0x8E#8).extractLsb' 5 2 = 0#2 := by decide
  have hpresent : (0x8E#8).getLsbD 7 = true := by decide
  show (⟨base, 0x08, (0x8E#8).extractLsb' 0 5, (0x8E#8).extractLsb' 5 2, (0x8E#8).getLsbD 7⟩ :
    GateDesc) = _
  rw [htype, hdpl, hpresent]
  rfl

/-- The last of them about a vector is its own. -/
theorem lastGate_installed (stubAt : Fin 48 → BitVec 32) (v : Fin 256) :
    lastGate (isrGateCalls stubAt ++ irqGateCalls stubAt) v
      = if h : v.val < 48 then some (stubCall v (stubAt ⟨v, h⟩)) else none := by
  have hnum (w : Fin 48) (base : BitVec 32) : (stubCall w base).num.toNat = w.val := by
    show (BitVec.ofNat 8 w.val).toNat = w.val
    rw [BitVec.toNat_ofNat]
    omega
  rw [isrCalls_append_irqCalls, lastGate, ← List.map_reverse]
  by_cases hv : v.val < 48
  · rw [dif_pos hv]
    -- There is one call with this number, so it is the one that is found.
    rw [List.find?_map, Option.map_eq_some_iff]
    refine ⟨⟨v, hv⟩, ?_, rfl⟩
    have hsome : ((List.finRange 48).reverse.find?
        fun w : Fin 48 => decide ((stubCall w (stubAt w)).num.toNat = v.val)).isSome := by
      rw [List.find?_isSome]
      exact ⟨⟨v, hv⟩, by simp, by rw [hnum]; simp⟩
    rcases Option.isSome_iff_exists.mp hsome with ⟨w, hw⟩
    have hval := List.find?_some hw
    rw [hnum, decide_eq_true_eq] at hval
    rw [← Fin.ext (a := w) (b := ⟨v, hv⟩) hval]
    exact hw
  · rw [dif_neg hv, List.find?_eq_none]
    intro c hc
    rcases List.mem_map.mp hc with ⟨w, -, rfl⟩
    rw [hnum]
    simp only [decide_eq_true_eq]
    omega

/-! ### The tables of the system -/

/-- The segment table is set up at the address `gdt`, with the task state at `tss`, and the memory
holds it as it was stored. -/
structure SegmentTable (gdt tss : BitVec 32) (g : Gdt) (t : Tables) (mem : Memory) : Prop where
  made : ∃ g₀ m₀ m, gdtInitialise gdt tss g₀ m₀ = some (g, m)
  gdtr : t.gdtr = gdtPtr g
  segments : Holds mem t.gdtr.base (gdtWords g)

/-- The interrupt table is set up at the address `idt`, and the memory holds it. -/
structure GateTable (idt : BitVec 32) (stubAt : Fin 48 → BitVec 32) (t : Tables) (mem : Memory) :
    Prop where
  idtr : t.idtr = idtPtr idt
  gates : Holds mem t.idtr.base (idtWords (idtInstalled stubAt))

/-- Both tables. -/
structure SystemTables (gdt tss idt : BitVec 32) (stubAt : Fin 48 → BitVec 32) (g : Gdt)
    (t : Tables) (mem : Memory) : Prop where
  segmentTable : SegmentTable gdt tss g t mem
  gateTable : GateTable idt stubAt t mem

/-- The tables that `gdt_initialise` leaves. -/
def gdtInstalled (gdt tss : BitVec 32) : Gdt where
  gdt := #v[descriptor 0 0 0, descriptor 0 0xFFFFFFFF GDT_CODE_PL0,
    descriptor 0 0xFFFFFFFF GDT_DATA_PL0, descriptor 0 0xFFFFFFFF GDT_CODE_PL3,
    descriptor 0 0xFFFFFFFF GDT_DATA_PL3,
    descriptor tss (tss + BitVec.ofNat 32 sizeofTss) GDT_TSS]
  gp := ⟨BitVec.ofNat 16 (8 * NUM_GDT_ENTRIES - 1), gdt⟩
  tss := { TssEntry.zero with
    ss0 := 0x10
    cs := 0x0b
    ss := 0x13
    ds := 0x13
    es := 0x13
    fs := 0x13
    gs := 0x13
    iomapBase := BitVec.ofNat 16 sizeofTss }

/-- They do not depend on what was there before: it writes to each entry. -/
theorem gdtInitialise_eq {gdt tss : BitVec 32} {g g' : Gdt} {m m' : Machine}
    (h : gdtInitialise gdt tss g m = some (g', m')) : g' = gdtInstalled gdt tss := by
  obtain ⟨m₁, -, h⟩ := Option.bind_eq_some_iff.mp h
  cases h
  unfold gdtInstalled
  congr 1
  apply Vector.ext
  intro i hi
  have hi : i < 6 := hi
  interval_cases i <;> simp

/-- The pointer after `gdt_initialise`. -/
theorem gdtInitialise_gp {gdt tss : BitVec 32} {g g' : Gdt} {m m' : Machine}
    (h : gdtInitialise gdt tss g m = some (g', m')) :
    g'.gp = ⟨BitVec.ofNat 16 (8 * NUM_GDT_ENTRIES - 1), gdt⟩ := by
  rw [gdtInitialise_eq h]
  rfl

/-- The segments that `gdt_initialise` leaves. -/
def systemSegments (tss : BitVec 32) : Fin NUM_GDT_ENTRIES → Segment :=
  ![⟨0, 0, 0⟩, flatSegment GDT_CODE_PL0, flatSegment GDT_DATA_PL0, flatSegment GDT_CODE_PL3,
    flatSegment GDT_DATA_PL3, tssSegment tss]

section
variable {gdt tss idt : BitVec 32} {stubAt : Fin 48 → BitVec 32} {g : Gdt} {t : Tables}
  {mem : Memory}

/-- The segment that a selector names. -/
theorem SegmentTable.segment (h : SegmentTable gdt tss g t mem) (sel : BitVec 16) :
    t.segment mem sel
      = if sel.toNat / 4 % 2 = 1 then none
        else if hi : sel.toNat / 8 < NUM_GDT_ENTRIES then some (systemSegments tss ⟨_, hi⟩)
        else none := by
  obtain ⟨g₀, m₀, m, hmade⟩ := h.made
  obtain ⟨g', m', hspec, hsegments, -⟩ := gdtInitialise_spec gdt tss g₀ m₀
  rw [hmade] at hspec
  cases hspec
  have hlimit : t.gdtr.limit.toNat + 1 = 8 * NUM_GDT_ENTRIES := by
    rw [h.gdtr, gdtPtr, gdtInitialise_gp hmade]
    rfl
  have hbit : sel.getLsbD 2 = true ↔ sel.toNat / 4 % 2 = 1 := by
    rw [BitVec.getLsbD, Nat.testBit, Nat.shiftRight_eq_div_pow, Nat.one_and_eq_mod_two]
    simp
  unfold Tables.segment
  rw [TableReg.entry_of_holds h.segments hlimit]
  by_cases hti : sel.toNat / 4 % 2 = 1
  · rw [if_pos (hbit.mpr hti), if_pos hti]
  · rw [if_neg (fun hb => hti (hbit.mp hb)), if_neg hti]
    by_cases hi : sel.toNat / 8 < NUM_GDT_ENTRIES
    · rw [dif_pos hi, dif_pos hi]
      exact congrArg some (congrFun hsegments ⟨_, hi⟩)
    · rw [dif_neg hi, dif_neg hi]
      rfl

/-- The segment of the gates: the first flat one. -/
theorem SegmentTable.gateCode (h : SegmentTable gdt tss g t mem) (src : Source) :
    t.gateCode mem src 0x08 = .ok (flatSegment GDT_CODE_PL0) := by
  have hsegment : t.segment mem 0x08 = some (flatSegment GDT_CODE_PL0) := h.segment 0x08
  unfold Tables.gateCode
  rw [hsegment, if_neg (by decide)]
  rfl

/-- The descriptor of a vector. -/
theorem GateTable.entry (h : GateTable idt stubAt t mem) (v : Fin 256) :
    ∃ d, t.idtr.entry mem v = some d ∧ GateDesc.decode d
      = if hv : v.val < 48 then ⟨stubAt ⟨v, hv⟩, 0x08, 0xE, 0, true⟩ else ⟨0, 0, 0, 0, false⟩ := by
  have hlimit : t.idtr.limit.toNat + 1 = 8 * 256 := by
    rw [h.idtr]
    rfl
  refine ⟨idtWords (idtInstalled stubAt) v, ?_, ?_⟩
  · rw [TableReg.entry_of_holds h.gates hlimit, dif_pos v.isLt]
  · rw [idtInstalled, idt_gates_after, lastGate_installed]
    by_cases hv : v.val < 48
    · rw [dif_pos hv, dif_pos hv]
      exact callDesc_stubCall v (stubAt ⟨v, hv⟩)
    · rw [dif_neg hv, dif_neg hv]
      show GateDesc.decode ((Vector.replicate 256 IdtGate.cleared)[v.val]).word = _
      rw [Vector.getElem_replicate]
      rfl

/-- A vector that has a stub. -/
theorem SystemTables.gate_of_lt (h : SystemTables gdt tss idt stubAt g t mem) (src : Source)
    (v : Fin 48) : t.gate mem src v = .ok (.interrupt32, ⟨0x08, stubAt v⟩) := by
  obtain ⟨d, hentry, hdesc⟩ := h.gateTable.entry (v.castLE (by decide))
  have hentry : t.idtr.entry mem v = some d := hentry
  have hlast : ¬(flatSegment GDT_CODE_PL0).lastOffset < (stubAt v).toNat := by
    rw [flatSegment_lastOffset (by decide)]
    have := (stubAt v).isLt
    omega
  rw [dif_pos (show (v.castLE (by decide) : Fin 256).val < 48 from v.isLt)] at hdesc
  unfold Tables.gate
  rw [hentry]
  simp only [hdesc, show GateKind.ofType 0xE = some .interrupt32 by decide, h.segmentTable.gateCode]
  rw [if_neg (by decide), if_neg (by decide)]
  exact if_neg hlast

/-- A vector without one. -/
theorem SystemTables.gate_of_ge (h : SystemTables gdt tss idt stubAt g t mem) (src : Source)
    (v : Fin 256) (hv : 48 ≤ v.val) :
    t.gate mem src v = .error (.protection (vectorCode v + src.ext)) := by
  obtain ⟨d, hentry, hdesc⟩ := h.gateTable.entry v
  rw [dif_neg (by omega)] at hdesc
  unfold Tables.gate
  rw [hentry]
  simp only [hdesc, show GateKind.ofType 0 = none by decide]

/-- A vector with a stub arrives at it. -/
theorem SystemTables.arrive_of_lt (h : SystemTables gdt tss idt stubAt g t mem) (src : Source)
    (v : Fin 48) (code : Option (BitVec 32)) :
    t.arrive mem src v code = .handler v code .interrupt32 ⟨0x08, stubAt v⟩ :=
  Tables.arrive_of_gate (h.gate_of_lt src v) code

/-- Any other vector arrives as a general protection fault. -/
theorem SystemTables.arrive_of_ge (h : SystemTables gdt tss idt stubAt g t mem) (src : Source)
    (v : Fin 256) (hv : 48 ≤ v.val) (code : Option (BitVec 32)) :
    t.arrive mem src v code
      = .handler 13 (some (vectorCode v + src.ext)) .interrupt32 ⟨0x08, stubAt 13⟩ := by
  have hbenign : ¬Contributory v := by
    unfold Contributory
    omega
  exact Tables.arrive_of_fault (h.gate_of_ge src v hv) (by omega) hbenign
    (h.gate_of_lt .external 13) code

/-- With the tables of the kernel, every vector from 0 to 255, from inside or outside, arrives at a
handler: a vector below 48 at its own stub, through a 32-bit interrupt gate into the flat code
segment of privilege level 0, and any other one at the stub of the general protection fault, with
the error code that names the vector. -/
theorem arrive_installed (h : SystemTables gdt tss idt stubAt g t mem) (src : Source)
    (v : Fin 256) (code : Option (BitVec 32)) :
    t.arrive mem src v code
      = if hv : v.val < 48 then .handler v code .interrupt32 ⟨0x08, stubAt ⟨v, hv⟩⟩
        else .handler 13 (some (vectorCode v + src.ext)) .interrupt32 ⟨0x08, stubAt 13⟩ := by
  by_cases hv : v.val < 48
  · rw [dif_pos hv]
    exact h.arrive_of_lt src ⟨v, hv⟩ code
  · rw [dif_neg hv]
    exact h.arrive_of_ge src v (by omega) code

end

/-- The two tables in memory, one behind the other. -/
theorem holds_both (gates : Fin 256 → BitVec 64) (segments : Fin NUM_GDT_ENTRIES → BitVec 64) :
    ∃ mem : Memory, Holds mem 0x1000 gates ∧ Holds mem 0x1800 segments := by
  have hsize : (List.ofFn segments).length = 6 := List.length_ofFn
  have hgates : (List.ofFn gates).length = 256 := List.length_ofFn
  refine ⟨Memory.place 0x1000 (List.ofFn gates ++ List.ofFn segments) fun _ => 0, ?_, ?_⟩
  · have h := holds_place 0x1000 [] (List.ofFn segments) (fun _ => 0) gates (by
      rw [hsize]
      decide)
    rwa [List.nil_append, List.length_nil, Nat.mul_zero, BitVec.add_zero] at h
  · have h := holds_place 0x1000 (List.ofFn gates) [] (fun _ => 0) segments (by
      rw [hgates]
      decide)
    rwa [hgates, List.append_nil] at h

/-- The tables can be placed, wherever the task state and the stubs are. -/
theorem systemTables_exist (tss : BitVec 32) (stubAt : Fin 48 → BitVec 32) :
    ∃ g t mem, SystemTables 0x1800 tss 0x1000 stubAt g t mem := by
  obtain ⟨g, m, hmade, -, -⟩ := gdtInitialise_spec 0x1800 tss Gdt.boot Machine.boot
  have hgp := gdtInitialise_gp hmade
  obtain ⟨mem, hgates, hsegments⟩ := holds_both (idtWords (idtInstalled stubAt)) (gdtWords g)
  refine ⟨g, ⟨gdtPtr g, idtPtr 0x1000⟩, mem,
    ⟨⟨⟨Gdt.boot, Machine.boot, m, hmade⟩, rfl, ?_⟩, ⟨rfl, hgates⟩⟩⟩
  show Holds mem g.gp.base (gdtWords g)
  rw [hgp]
  exact hsegments

/-- The vector 0x80, which no stub serves, from an `int` instruction. -/
theorem arrive_installed_unserved :
    ∃ g t mem, SystemTables 0x1800 0x3000 0x1000 (fun v => BitVec.ofNat 32 (0x2000 + v)) g t mem ∧
      t.arrive mem .software 0x80 none
        = .handler 13 (some 0x402) .interrupt32 ⟨0x08, 0x200D⟩ := by
  obtain ⟨g, t, mem, h⟩ := systemTables_exist 0x3000 fun v => BitVec.ofNat 32 (0x2000 + v)
  exact ⟨g, t, mem, h, arrive_installed h .software 0x80 none⟩

/-! ### Selectors -/

/-- The attributes of the six segments. -/
def systemAttributes : Vector (BitVec 16) NUM_GDT_ENTRIES :=
  #v[0, GDT_CODE_PL0, GDT_DATA_PL0, GDT_CODE_PL3, GDT_DATA_PL3, GDT_TSS]

/-- These are the attributes that are stored. -/
theorem systemSegments_attributes (tss : BitVec 32) (n : Fin NUM_GDT_ENTRIES) :
    (systemSegments tss n).attributes = systemAttributes.get n := by
  fin_cases n <;> rfl

/-- The segment in an entry, with nothing but its attributes. -/
def systemKind (n : Nat) (h : n < 48) : Segment :=
  ⟨0, 0, systemAttributes.get ⟨n / 8, Nat.div_lt_of_lt_mul h⟩⟩

/-- The selectors that a register takes, as numbers. -/
def Loadable : SelReg → Nat → Prop
  | .cs, n => n = 0x08
  | .ss, n => n = 0x10
  | .ds, n => n ≤ 3 ∨ n = 0x08 ∨ n = 0x10 ∨ (0x18 ≤ n ∧ n ≤ 0x1B) ∨ (0x20 ≤ n ∧ n ≤ 0x23)
  | .tr, n => 0x28 ≤ n ∧ n ≤ 0x2B

instance (r : SelReg) (n : Nat) : Decidable (Loadable r n) := by
  cases r <;> unfold Loadable <;> infer_instance

/-- The selectors that the registers take, among those of the entries 1 to 5. -/
theorem systemKind_accept : ∀ n : Fin 48, n.val / 4 ≠ 0 → n.val / 4 % 2 ≠ 1 →
    ∀ r ∈ [SelReg.cs, .ss, .ds, .tr],
      (r.allows (rpl (BitVec.ofNat 16 n)) (systemKind n n.isLt) && (systemKind n n.isLt).present)
        = decide (Loadable r n) := by
  decide

/-- A check reads the attributes alone. -/
theorem allows_attributes (r : SelReg) (rpl : BitVec 2) (s : Segment) :
    r.allows rpl s = r.allows rpl ⟨0, 0, s.attributes⟩ := by
  cases r <;> rfl

section
variable {gdt tss idt : BitVec 32} {stubAt : Fin 48 → BitVec 32} {g : Gdt} {t : Tables}
  {mem mem' : Memory}

/-- What the registers take of the table as it was stored. -/
theorem SegmentTable.accepts_iff (h : SegmentTable gdt tss g t mem) (r : SelReg)
    (sel : BitVec 16) : t.Accepts mem r sel ↔ Loadable r sel.toNat := by
  have hsize : NUM_GDT_ENTRIES = 6 := rfl
  rw [Tables.accepts_iff, h.segment, isNull]
  by_cases hnull : sel.toNat / 4 = 0
  · -- the four null selectors
    cases r <;> simp only [Loadable] <;> grind
  · by_cases hti : sel.toNat / 4 % 2 = 1
    · rw [if_pos hti]
      cases r <;> simp only [Loadable] <;> grind
    · rw [if_neg hti]
      by_cases hi : sel.toNat / 8 < NUM_GDT_ENTRIES
      · have hn : sel.toNat < 48 := by omega
        have hkind := systemKind_accept ⟨sel.toNat, hn⟩ hnull hti r (by cases r <;> simp)
        have hattr := systemSegments_attributes tss ⟨sel.toNat / 8, hi⟩
        have hpresent : (systemSegments tss ⟨sel.toNat / 8, hi⟩).present
            = (systemKind sel.toNat hn).present := by
          rw [Segment.present, hattr]
          rfl
        have hallows : r.allows (rpl sel) (systemSegments tss ⟨sel.toNat / 8, hi⟩)
            = r.allows (rpl sel) (systemKind sel.toNat hn) := by
          rw [allows_attributes, hattr]
          rfl
        rw [dif_pos hi, ← decide_eq_true_iff (p := Loadable r sel.toNat), ← hkind, Bool.and_eq_true,
          BitVec.ofNat_toNat, BitVec.setWidth_eq, ← hallows, ← hpresent]
        simp [hnull]
      · rw [dif_neg hi]
        cases r <;> simp only [Loadable] <;> grind

/-- A segment for code, for the stack or for data is flat. -/
theorem SegmentTable.flat_of_load (h : SegmentTable gdt tss g t mem)
    {loads : List (SelReg × BitVec 16)} (hloads : t.loadRegs mem loads = .ok mem') {r : SelReg}
    {sel : BitVec 16} {s : Segment} {mem'' : Memory}
    (hload : t.loadReg mem' r sel = .ok (some s, mem'')) (hr : r ≠ .tr) :
    s.base = 0 ∧ s.lastOffset = 2 ^ 32 - 1 := by
  have hall : ∀ n : Fin NUM_GDT_ENTRIES, n.val ≠ 0 → n.val ≠ 5 →
      (systemSegments tss n).base = 0 ∧ (systemSegments tss n).lastOffset = 2 ^ 32 - 1 := by
    intro n h0 h5
    match n with
    | 0 => exact absurd rfl h0
    | 1 => exact ⟨rfl, @flatSegment_lastOffset GDT_CODE_PL0 (by decide)⟩
    | 2 => exact ⟨rfl, @flatSegment_lastOffset GDT_DATA_PL0 (by decide)⟩
    | 3 => exact ⟨rfl, @flatSegment_lastOffset GDT_CODE_PL3 (by decide)⟩
    | 4 => exact ⟨rfl, @flatSegment_lastOffset GDT_DATA_PL3 (by decide)⟩
    | 5 => exact absurd rfl h5
  have hbefore := ((Tables.accepts_of_loadRegs hloads r sel).mp ⟨_, hload⟩).1
  have hselector := (h.accepts_iff r sel).mp hbefore
  rcases Tables.loadReg_ok hload with ⟨hnone, -, -⟩ | ⟨s', hsame, -, hs'⟩
  · cases hnone
  cases hsame
  obtain ⟨hnull, hsegment, -, -⟩ := Tables.load_eq_ok_iff.mp hs'
  -- The segment is the one that was stored, but for the bits that loads have set.
  have hkept := Tables.sameSegments_of_loadRegs hloads sel
  have hentry : sel.toNat / 4 % 2 ≠ 1 ∧ sel.toNat / 8 ≠ 0 ∧ sel.toNat / 8 ≠ 5 ∧
      sel.toNat / 8 < 6 := by
    unfold isNull at hnull
    cases r <;> simp only [Loadable] at hselector <;> first | omega | exact absurd rfl hr
  obtain ⟨hti, h0, h5, hi⟩ := hentry
  rw [hsegment, h.segment, if_neg hti, dif_pos hi, Option.map_some, Option.map_some,
    Option.some.injEq, Segment.kept, Segment.kept, Prod.mk.injEq, Prod.mk.injEq] at hkept
  rw [hkept.1, hkept.2.1]
  exact hall ⟨sel.toNat / 8, hi⟩ h0 h5

/-- After `gdt_initialise`, and after any loads that the processor has accepted since, over all
selectors: CS takes the selector 0x08 only, and SS the selector 0x10 only, which are the ones that
`gdt_flush` loads. A register for data takes the null selectors and the flat segments with the
privilege level that they ask for. `ltr` takes the selectors of the entry 5, and nothing any more
once it has been executed. All code, stack and data segments reach over the whole address space. -/
theorem selectors_exact (h : SegmentTable gdt tss g t mem) {loads : List (SelReg × BitVec 16)}
    (hloads : t.loadRegs mem loads = .ok mem') (sel : BitVec 16) :
    (t.Accepts mem' .cs sel ↔ sel.toNat = 0x08) ∧
    (t.Accepts mem' .ss sel ↔ sel.toNat = 0x10) ∧
    (t.Accepts mem' .ds sel ↔ sel.toNat ≤ 3 ∨ sel.toNat = 0x08 ∨ sel.toNat = 0x10 ∨
      (0x18 ≤ sel.toNat ∧ sel.toNat ≤ 0x1B) ∨ (0x20 ≤ sel.toNat ∧ sel.toNat ≤ 0x23)) ∧
    (t.Accepts mem' .tr sel ↔
      (0x28 ≤ sel.toNat ∧ sel.toNat ≤ 0x2B) ∧ ∀ l ∈ loads, l.1 ≠ .tr) ∧
    ∀ r s mem'', t.loadReg mem' r sel = .ok (some s, mem'') → r ≠ .tr →
      s.base = 0 ∧ s.lastOffset = 2 ^ 32 - 1 := by
  have haccept (r : SelReg) (hr : r ≠ .tr) : t.Accepts mem' r sel ↔ Loadable r sel.toNat := by
    rw [Tables.accepts_of_loadRegs hloads, h.accepts_iff]
    exact and_iff_left fun htask => absurd htask hr
  refine ⟨haccept .cs nofun, haccept .ss nofun, haccept .ds nofun, ?_,
    fun r s mem'' hload hr => h.flat_of_load hloads hload hr⟩
  rw [Tables.accepts_of_loadRegs hloads, h.accepts_iff]
  constructor
  · rintro ⟨hsel, hbusy⟩
    refine ⟨hsel, fun l hl htask => ?_⟩
    -- Every task that is loaded is the one of the entry 5.
    have hearlier := (h.accepts_iff l.1 l.2).mp (Tables.accepts_of_mem hloads hl)
    rw [htask] at hearlier
    have hentry := hbusy rfl l hl htask
    simp only [Loadable] at hsel hearlier
    omega
  · rintro ⟨hsel, hfree⟩
    exact ⟨hsel, fun _ l hl htask => absurd htask (hfree l hl)⟩

/-- The bits that loads set make no difference to where a vector arrives, as long as they do not
meet the interrupt table. -/
theorem arrive_after_loads (h : SystemTables gdt tss idt stubAt g t mem)
    {loads : List (SelReg × BitVec 16)} (hloads : t.loadRegs mem loads = .ok mem')
    (hgates : GateTable idt stubAt t mem') (src : Source) (v : Nat) (code : Option (BitVec 32)) :
    t.arrive mem' src v code = t.arrive mem src v code := by
  have hlimit : t.idtr.limit.toNat + 1 = 8 * 256 := by
    rw [hgates.idtr]
    rfl
  refine Tables.arrive_of_loadRegs hloads (fun i => ?_) src v code
  rw [TableReg.entry_of_holds hgates.gates hlimit,
    TableReg.entry_of_holds h.gateTable.gates hlimit]

/-- The loads of `gdt_flush` and `tss_flush` are accepted, one after the other. -/
theorem SegmentTable.flush (h : SegmentTable gdt tss g t mem) :
    ∃ mem', t.loadRegs mem (gdtFlush ++ tssFlush) = .ok mem' := by
  refine Tables.exists_loadRegs (fun l hl => ?_) (by simp [gdtFlush, tssFlush])
  rw [h.accepts_iff]
  simp only [gdtFlush, tssFlush, List.cons_append, List.nil_append, List.mem_cons,
    List.not_mem_nil, or_false] at hl
  rcases hl with rfl | rfl | rfl | rfl | rfl | rfl | rfl <;> decide

end

/-- After `gdt_flush` and `tss_flush` the task that `ltr` has loaded is busy, and the code segment
can still be loaded. -/
theorem selectors_exact_flushed :
    ∃ g t mem mem', SegmentTable 0x1800 0x3000 g t mem ∧
      t.loadRegs mem (gdtFlush ++ tssFlush) = .ok mem' ∧ t.Accepts mem .tr 0x2B ∧
      ¬t.Accepts mem' .tr 0x2B ∧ t.Accepts mem' .cs 0x08 := by
  obtain ⟨g, t, mem, h⟩ := systemTables_exist 0x3000 fun _ => 0x2000
  obtain ⟨mem', hloads⟩ := h.segmentTable.flush
  have hstart : t.loadRegs mem [] = .ok mem := rfl
  have hbefore := (selectors_exact h.segmentTable hstart 0x2B).2.2.2.1
  have hafter := selectors_exact h.segmentTable hloads
  refine ⟨g, t, mem, mem', h.segmentTable, hloads, hbefore.mpr ⟨by decide, nofun⟩, ?_,
    (hafter 0x08).1.mpr (by decide)⟩
  rw [(hafter 0x2B).2.2.2.1]
  exact fun hfree => hfree.2 (.tr, 0x2B) (by simp [gdtFlush, tssFlush]) rfl

end Chuckles.Proofs
