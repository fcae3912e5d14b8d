import Chuckles.Kernel.Tables
import Chuckles.Proofs.Idt

/-!
# `Chuckles.Proofs.Tables`: the bytes in memory are the tables

The functions over the memory refine those over values. `GdtIn`, `WordsIn` and `IdtIn` say that the
memory holds a value of the abstract model, and each function keeps them and changes its own
objects only (`createDescriptorAt_refines`, `writeTssAt_refines`, `runAt_refines`).

`installTables_holds` puts the parts together: whatever the memory held before, the stores of the
kernel leave the tables that `SystemTables` asks for, and the registers that are loaded on the way
name them.
-/

set_option autoImplicit false

namespace Chuckles.Proofs

open Lib Lib.X86 Lib.Memory

/-! ### Words and registers -/

/-- One byte is itself. -/
theorem bytesLE_one (b : BitVec 8) : bytesLE 1 b = [b] := by
  have hbyte : b.extractLsb' 0 8 = b := by
    apply BitVec.eq_of_getLsbD_eq
    intro i hi
    simp [hi]
  show [b.extractLsb' 0 8] = [b]
  rw [hbyte]

/-- A word of two halves. -/
theorem bytesLE_read64 {m : Memory} {a : BitVec 32} (lo hi : BitVec 32)
    (h : HasBytes m a (bytesLE 8 (hi ++ lo))) : m.read64 a = hi ++ lo := by
  have hbytes : bytesLE 8 (hi ++ lo) = bytesLE 4 lo ++ bytesLE 4 hi :=
    bytesLE_append (k := 4) 4 hi lo
  rw [hbytes] at h
  have hhi := h.right
  rw [length_bytesLE] at hhi
  show m.read32 (a + BitVec.ofNat 32 4) ++ m.read32 a = hi ++ lo
  rw [read32_of_hasBytes h.left, read32_of_hasBytes hhi]

/-- The word in eight bytes. -/
theorem read64_of_hasBytes {m : Memory} {a : BitVec 32} {v : BitVec 64}
    (h : HasBytes m a (bytesLE 8 v)) : m.read64 a = v := by
  have hv : v = v.extractLsb' 32 32 ++ v.extractLsb' 0 32 := by
    apply BitVec.eq_of_getLsbD_eq
    intro i hi
    simp only [BitVec.getLsbD_append, BitVec.getLsbD_extractLsb']
    grind
  rw [hv] at h ⊢
  exact bytesLE_read64 _ _ h

/-- The operand of `lgdt` and of `lidt`. -/
theorem readTableReg_of_hasBytes {m : Memory} {p : BitVec 32} {limit : BitVec 16}
    {base : BitVec 32} (h : HasBytes m p (bytesLE 2 limit ++ bytesLE 4 base)) :
    readTableReg m p = ⟨base, limit⟩ := by
  have hbase := h.right
  rw [length_bytesLE] at hbase
  have h0 := h 0 (by simp)
  have h1 := h 1 (by simp)
  rw [BitVec.add_zero] at h0
  have hlimit : m (p + 1) ++ m p = limit := by
    show m (p + BitVec.ofNat 32 1) ++ m p = limit
    rw [h0, h1]
    show limit.extractLsb' 8 8 ++ limit.extractLsb' 0 8 = limit
    apply BitVec.eq_of_getLsbD_eq
    intro i hi
    simp only [BitVec.getLsbD_append, BitVec.getLsbD_extractLsb']
    grind
  unfold readTableReg
  rw [hlimit]
  exact congrArg (TableReg.mk · limit) (read32_of_hasBytes hbase)

/-- What `gp` and `IDTp` are after their two assignments. -/
theorem setTablePtr_spec (p : BitVec 32) (limit : BitVec 16) (base : BitVec 32) (mem : Memory) :
    HasBytes (setTablePtr p limit base mem) p (bytesLE 2 limit ++ bytesLE 4 base) ∧
      Within [⟨p, sizeofPtr⟩] mem (setTablePtr p limit base mem) := by
  unfold setTablePtr
  constructor
  · have h := store_append p (bytesLE 2 limit) (bytesLE 4 base) mem (by simp)
    rw [length_bytesLE] at h
    rw [h]
    exact hasBytes_store p _ mem (by simp)
  · exact (within_store_base ⟨p, sizeofPtr⟩ mem (by simp [sizeofPtr])).trans
      (within_store ⟨p, sizeofPtr⟩ _ (by simp [sizeofPtr]) (by simp [sizeofPtr]))

/-! ### The interrupt table -/

/-- The bytes of a gate, field by field. -/
theorem bytesLE_word (g : IdtGate) :
    bytesLE 8 g.word = bytesLE 2 g.offsetLo ++ (bytesLE 2 g.selector ++ (bytesLE 1 g.zero ++
      (bytesLE 1 g.typeAttr ++ bytesLE 2 g.offsetHi))) := by
  have h₁ : bytesLE 4 (g.selector ++ g.offsetLo) = bytesLE 2 g.offsetLo ++ bytesLE 2 g.selector :=
    bytesLE_append (k := 2) 2 _ _
  have h₂ : bytesLE 5 (g.zero ++ (g.selector ++ g.offsetLo))
      = bytesLE 4 (g.selector ++ g.offsetLo) ++ bytesLE 1 g.zero := bytesLE_append (k := 4) 1 _ _
  have h₃ : bytesLE 6 (g.typeAttr ++ (g.zero ++ (g.selector ++ g.offsetLo)))
      = bytesLE 5 (g.zero ++ (g.selector ++ g.offsetLo)) ++ bytesLE 1 g.typeAttr :=
    bytesLE_append (k := 5) 1 _ _
  have h₄ : bytesLE 8 g.word = bytesLE 6 (g.typeAttr ++ (g.zero ++ (g.selector ++ g.offsetLo)))
      ++ bytesLE 2 g.offsetHi := bytesLE_append (k := 6) 2 _ _
  rw [h₄, h₃, h₂, h₁]
  simp only [List.append_assoc]

/-- Stores to the five parts of a gate, in the order of `idt_set_gate`. -/
theorem store_gate (gate : BitVec 32) (m : Memory) {lo sel zero flags hi : List (BitVec 8)}
    (hlo : lo.length = 2) (hsel : sel.length = 2) (hzero : zero.length = 1)
    (hflags : flags.length = 1) (hhi : hi.length = 2) :
    store (gate + BitVec.ofNat 32 5) flags (store (gate + BitVec.ofNat 32 4) zero
        (store (gate + BitVec.ofNat 32 2) sel (store (gate + BitVec.ofNat 32 6) hi
          (store gate lo m))))
      = store gate (lo ++ (sel ++ (zero ++ (flags ++ hi)))) m := by
  -- The upper half of the offset is stored second, and goes to the end.
  rw [store_comm gate _ (by omega : 2 + sel.length ≤ 6) (by omega),
    store_comm gate _ (by omega : 4 + zero.length ≤ 6) (by omega),
    store_comm gate _ (by omega : 5 + flags.length ≤ 6) (by omega)]
  have hlength₂ : (lo ++ sel).length = 4 := by simp [hlo, hsel]
  have hlength₃ : (lo ++ sel ++ zero).length = 5 := by simp [hlo, hsel, hzero]
  have hlength₄ : (lo ++ sel ++ zero ++ flags).length = 6 := by simp [hlo, hsel, hzero, hflags]
  have h₁ := store_append gate lo sel m (by omega)
  have h₂ := store_append gate (lo ++ sel) zero m (by omega)
  have h₃ := store_append gate (lo ++ sel ++ zero) flags m (by omega)
  have h₄ := store_append gate (lo ++ sel ++ zero ++ flags) hi m (by omega)
  rw [hlo] at h₁
  rw [hlength₂] at h₂
  rw [hlength₃] at h₃
  rw [hlength₄] at h₄
  rw [h₁, h₂, h₃, h₄]
  simp only [List.append_assoc]

/-- The five assignments of `idt_set_gate` are one store. -/
theorem idtSetGateAt_eq (idt : BitVec 32) (num : BitVec 8) (base : BitVec 32) (sel : BitVec 16)
    (flags : BitVec 8) (mem : Memory) :
    idtSetGateAt idt num base sel flags mem
      = store (idt + BitVec.ofNat 32 (sizeofIdtGate * num.toNat))
          (bytesLE 8 (idtGate base sel flags).word) mem := by
  rw [bytesLE_word]
  exact store_gate _ mem (length_bytesLE 2 _) (length_bytesLE 2 _) (length_bytesLE 1 _)
    (length_bytesLE 1 _) (length_bytesLE 2 _)

/-- The memory holds this interrupt table. -/
def IdtIn (mem : Memory) (idt : BitVec 32) (t : Idt) : Prop :=
  Records mem idt sizeofIdtGate fun v : Fin 256 => bytesLE 8 (idtWords t v)

/-- A call of `idt_set_gate` in the memory is the call in the table. -/
theorem runAt_refines {mem : Memory} {idt : BitVec 32} {t : Idt} (h : IdtIn mem idt t)
    (c : IdtCall) :
    IdtIn (c.runAt idt mem) idt (c.run t) ∧
      Within [⟨idt, sizeofIdtGate * 256⟩] mem (c.runAt idt mem) := by
  have hset := Records.set (e := fun g : IdtGate => bytesLE 8 g.word) h
    (fun _ => length_bytesLE 8 _) (by decide) c.num.isLt (idtGate c.base c.sel c.flags)
  rw [← show c.runAt idt mem = _ from idtSetGateAt_eq idt c.num c.base c.sel c.flags mem] at hset
  exact hset

/-- Any calls. -/
theorem foldl_runAt_refines (calls : List IdtCall) {idt : BitVec 32} :
    ∀ {mem : Memory} {t : Idt}, IdtIn mem idt t →
      IdtIn (calls.foldl (IdtCall.runAt idt) mem) idt (calls.foldl IdtCall.run t) ∧
        Within [⟨idt, sizeofIdtGate * 256⟩] mem (calls.foldl (IdtCall.runAt idt) mem) := by
  induction calls with
  | nil => exact fun {mem _} h => ⟨h, Within.refl _ mem⟩
  | cons c calls ih =>
      intro mem t h
      have hcall := runAt_refines h c
      have hrest := ih hcall.1
      exact ⟨hrest.1, hcall.2.trans hrest.2⟩

/-- `memset` leaves a table of gates that are not present. -/
theorem memset_idt (idt : BitVec 32) (mem : Memory) :
    IdtIn (memset idt 0 (BitVec.ofNat 32 (sizeofIdtGate * 256)) mem).2 idt
        (Vector.replicate 256 IdtGate.cleared) ∧
      Within [⟨idt, sizeofIdtGate * 256⟩] mem
        (memset idt 0 (BitVec.ofNat 32 (sizeofIdtGate * 256)) mem).2 := by
  have hsize : (BitVec.ofNat 32 (sizeofIdtGate * 256)).toNat = sizeofIdtGate * 256 := rfl
  have hzero : ucharOfInt 0 = 0 := rfl
  rw [memset_eq, hsize, hzero]
  constructor
  · have h : Records _ idt sizeofIdtGate fun _ : Fin 256 => List.replicate sizeofIdtGate 0 :=
      records_replicate (hasBytes_store idt (List.replicate (sizeofIdtGate * 256) 0) mem
        (by rw [List.length_replicate]; decide))
    intro v
    have hword : idtWords (Vector.replicate 256 IdtGate.cleared) v = 0 := by
      show ((Vector.replicate 256 IdtGate.cleared)[v.val]).word = 0
      rw [Vector.getElem_replicate]
      rfl
    show HasBytes _ _ (bytesLE 8 (idtWords (Vector.replicate 256 IdtGate.cleared) v))
    rw [hword]
    exact h v
  · exact within_store_base ⟨idt, sizeofIdtGate * 256⟩ mem (by rw [List.length_replicate])

/-! ### The segment table -/

/-- The memory holds this segment table. -/
def GdtIn (mem : Memory) (gdt : BitVec 32) (g : Gdt) : Prop :=
  Records mem gdt 8 fun n : Fin NUM_GDT_ENTRIES => bytesLE 8 (gdtWords g n)

/-- Any eight bytes are a word. -/
theorem hasBytes_read64 (mem : Memory) (a : BitVec 32) :
    HasBytes mem a (bytesLE 8 (mem.read64 a)) := by
  have hread32 (p : BitVec 32) : bytesLE 4 (mem.read32 p)
      = [mem p, mem (p + 1), mem (p + 2), mem (p + 3)] := by
    have h₁ : bytesLE 2 (mem (p + 1) ++ mem p) = bytesLE 1 (mem p) ++ bytesLE 1 (mem (p + 1)) :=
      bytesLE_append (k := 1) 1 _ _
    have h₂ : bytesLE 3 (mem (p + 2) ++ (mem (p + 1) ++ mem p))
        = bytesLE 2 (mem (p + 1) ++ mem p) ++ bytesLE 1 (mem (p + 2)) :=
      bytesLE_append (k := 2) 1 _ _
    have h₃ : bytesLE 4 (mem.read32 p) = bytesLE 3 (mem (p + 2) ++ (mem (p + 1) ++ mem p))
        ++ bytesLE 1 (mem (p + 3)) := bytesLE_append (k := 3) 1 _ _
    rw [h₃, h₂, h₁, bytesLE_one, bytesLE_one, bytesLE_one, bytesLE_one]
    rfl
  have hhas (p : BitVec 32) : HasBytes mem p (bytesLE 4 (mem.read32 p)) := by
    rw [hread32]
    intro k hk
    have hk : k < 4 := hk
    interval_cases k
    · rw [BitVec.add_zero]
      rfl
    · rfl
    · rfl
    · rfl
  have hsplit : bytesLE 8 (mem.read64 a)
      = bytesLE 4 (mem.read32 a) ++ bytesLE 4 (mem.read32 (a + 4)) := bytesLE_append (k := 4) 4 _ _
  rw [hsplit]
  exact hasBytes_append (hhas a) (by rw [length_bytesLE]; exact hhas (a + 4))

/-- Whatever is in the memory, it is some table. -/
theorem exists_gdtIn (mem : Memory) (gdt : BitVec 32) : ∃ g, GdtIn mem gdt g := by
  refine ⟨{ Gdt.boot with
    gdt := Vector.ofFn fun n => mem.read64 (gdt + BitVec.ofNat 32 (8 * n)) }, ?_⟩
  intro n
  have hword : gdtWords { Gdt.boot with
      gdt := Vector.ofFn fun n => mem.read64 (gdt + BitVec.ofNat 32 (8 * n)) } n
      = mem.read64 (gdt + BitVec.ofNat 32 (8 * n)) := by
    show (Vector.ofFn _)[n.val] = _
    rw [Vector.getElem_ofFn]
  show HasBytes mem _ (bytesLE 8 (gdtWords _ n))
  rw [hword]
  exact hasBytes_read64 mem _

/-- `create_descriptor` in the memory is `create_descriptor` in the table. -/
theorem createDescriptorAt_refines {mem : Memory} {gdt : BitVec 32} {g g' : Gdt}
    (h : GdtIn mem gdt g) {num : Int} {base limit : BitVec 32} {flag : BitVec 16}
    (hg : createDescriptor num base limit flag g = some g') :
    ∃ mem', createDescriptorAt gdt num base limit flag mem = some mem' ∧ GdtIn mem' gdt g' ∧
      Within [⟨gdt, 8 * NUM_GDT_ENTRIES⟩] mem mem' := by
  unfold createDescriptor at hg
  split at hg
  · rename_i hnum
    cases hg
    exact ⟨_, if_pos hnum, Records.set h (length_bytesLE 8) (by decide) (by omega) _⟩
  · cases hg

/-! ### The task state -/

/-- The task state as words. The last one has the two fields of 16 bits. -/
def tssWords (t : TssEntry) : Vector (BitVec 32) 26 :=
  #v[t.prevTss, t.esp0, t.ss0, t.esp1, t.ss1, t.esp2, t.ss2, t.cr3, t.eip, t.eflags, t.eax, t.ecx,
    t.edx, t.ebx, t.esp, t.ebp, t.esi, t.edi, t.es, t.cs, t.ss, t.ds, t.fs, t.gs, t.ldt,
    t.iomapBase ++ t.trap]

/-- The memory holds these words from the address on. -/
def WordsIn (mem : Memory) (tss : BitVec 32) (ws : Vector (BitVec 32) 26) : Prop :=
  Records mem tss 4 fun n => bytesLE 4 (ws.get n)

/-- An assignment to a field of 32 bits. -/
theorem tssField_refines {mem : Memory} {tss : BitVec 32} {ws : Vector (BitVec 32) 26}
    (h : WordsIn mem tss ws) {n : Nat} (hn : n < 26) (value : BitVec 32) :
    WordsIn (tssField tss n value mem) tss (ws.set n value) ∧
      Within [⟨tss, sizeofTss⟩] mem (tssField tss n value mem) :=
  Records.set h (length_bytesLE 4) (by decide) hn value

/-- Any such assignments. -/
theorem foldl_tssField_refines {tss : BitVec 32} (fields : List (Fin 26 × BitVec 32)) :
    ∀ {mem : Memory} {ws : Vector (BitVec 32) 26}, WordsIn mem tss ws →
      WordsIn (fields.foldl (fun m f => tssField tss f.1 f.2 m) mem) tss
          (fields.foldl (fun ws f => ws.set f.1 f.2) ws) ∧
        Within [⟨tss, sizeofTss⟩] mem (fields.foldl (fun m f => tssField tss f.1 f.2 m) mem) := by
  induction fields with
  | nil => exact fun {mem _} h => ⟨h, Within.refl _ mem⟩
  | cons f fields ih =>
      intro mem ws h
      have hfield := tssField_refines h f.1.isLt f.2
      have hrest := ih hfield.1
      exact ⟨hrest.1, hfield.2.trans hrest.2⟩

/-- The assignment to `iomap_base`, when the last word is 0. -/
theorem iomap_refines {mem : Memory} {tss : BitVec 32} {ws : Vector (BitVec 32) 26}
    (h : WordsIn mem tss ws) (hzero : ws[25] = 0) (value : BitVec 16) :
    WordsIn (store (tss + BitVec.ofNat 32 102) (bytesLE 2 value) mem) tss
        (ws.set 25 (value ++ 0#16)) ∧
      Within [⟨tss, sizeofTss⟩] mem (store (tss + BitVec.ofNat 32 102) (bytesLE 2 value) mem) := by
  have haddr : tss + BitVec.ofNat 32 102 = tss + BitVec.ofNat 32 (4 * 25) + BitVec.ofNat 32 2 := by
    rw [BitVec.add_assoc, ← BitVec.ofNat_add]
  -- `trap` keeps its two bytes, so they can be stored with the others.
  have htrap : HasBytes mem (tss + BitVec.ofNat 32 (4 * 25)) (bytesLE 2 0#16) := by
    have hlast : HasBytes mem (tss + BitVec.ofNat 32 (4 * 25)) (bytesLE 4 (ws.get 25)) := h 25
    have hword : ws.get 25 = 0#16 ++ 0#16 := hzero
    have hbytes : bytesLE 4 (0#16 ++ 0#16) = bytesLE 2 0#16 ++ bytesLE 2 0#16 :=
      bytesLE_append (k := 2) 2 _ _
    rw [hword, hbytes] at hlast
    exact hlast.left
  have hboth := store_append (tss + BitVec.ofNat 32 (4 * 25)) (bytesLE 2 0#16) (bytesLE 2 value) mem
    (by simp)
  have hbytes : bytesLE 4 (value ++ 0#16) = bytesLE 2 0#16 ++ bytesLE 2 value :=
    bytesLE_append (k := 2) 2 _ _
  rw [store_self htrap, length_bytesLE, ← hbytes] at hboth
  rw [haddr, hboth]
  exact Records.set h (length_bytesLE 4) (by decide) (by decide) (value ++ 0#16)

/-- The task state after `memset`. -/
theorem memset_tss (tss : BitVec 32) (mem : Memory) :
    WordsIn (memset tss 0 (BitVec.ofNat 32 sizeofTss) mem).2 tss (Vector.replicate 26 0) ∧
      Within [⟨tss, sizeofTss⟩] mem (memset tss 0 (BitVec.ofNat 32 sizeofTss) mem).2 := by
  have hsize : (BitVec.ofNat 32 sizeofTss).toNat = 4 * 26 := rfl
  have hzero : ucharOfInt 0 = 0 := rfl
  rw [memset_eq, hsize, hzero]
  constructor
  · have h : Records _ tss 4 fun _ : Fin 26 => List.replicate 4 0 :=
      records_replicate (hasBytes_store tss (List.replicate (4 * 26) 0) mem
        (by rw [List.length_replicate]; decide))
    intro n
    show HasBytes _ _ (bytesLE 4 (Vector.replicate 26 (0 : BitVec 32))[n.val])
    rw [Vector.getElem_replicate]
    exact h n
  · exact within_store_base ⟨tss, sizeofTss⟩ mem (by rw [List.length_replicate]; rfl)

/-- `write_tss` in the memory. -/
theorem writeTssAt_refines {s : TableSymbols} {mem : Memory} {g g' : Gdt}
    (hapart : s.gdtRegion.Apart s.tssRegion) (h : GdtIn mem s.gdt g) {num : BitVec 32}
    {ss0 : BitVec 16} {esp0 : BitVec 32} (hg : writeTss s.tss num ss0 esp0 g = some g') :
    ∃ mem', writeTssAt s num ss0 esp0 mem = some mem' ∧ GdtIn mem' s.gdt g' ∧
      WordsIn mem' s.tss (tssWords g'.tss) ∧ Within [s.gdtRegion, s.tssRegion] mem mem' := by
  unfold writeTss at hg
  obtain ⟨g₁, hg₁, hg⟩ := Option.bind_eq_some_iff.mp hg
  obtain ⟨mem₁, hmem₁, hgdt₁, hwithin₁⟩ := createDescriptorAt_refines h hg₁
  cases hg
  have hclear := memset_tss s.tss mem₁
  generalize hmem₂ : (memset s.tss 0 (BitVec.ofNat 32 sizeofTss) mem₁).2 = mem₂ at hclear
  -- The assignments to fields of 32 bits, in the order of the source.
  have hfields := foldl_tssField_refines [(2, ss0.setWidth 32), (1, esp0), (19, 0x0b), (20, 0x13),
    (21, 0x13), (18, 0x13), (22, 0x13), (23, 0x13)] hclear.1
  generalize hmem₃ : List.foldl (fun m (f : Fin 26 × BitVec 32) => tssField s.tss f.1 f.2 m) mem₂
    [(2, ss0.setWidth 32), (1, esp0), (19, 0x0b), (20, 0x13), (21, 0x13), (18, 0x13), (22, 0x13),
      (23, 0x13)] = mem₃ at hfields
  have hlast := iomap_refines hfields.1 rfl (BitVec.ofNat 16 sizeofTss)
  have hgdt : Within [s.gdtRegion] mem mem₁ := hwithin₁
  have htss : Within [s.tssRegion] mem₁ _ := hclear.2.trans (hfields.2.trans hlast.2)
  refine ⟨_, ?_, ?_, hlast.1, (hgdt.mono (by simp)).trans (htss.mono (by simp))⟩
  · unfold writeTssAt
    rw [hmem₁, ← hmem₃, ← hmem₂]
    rfl
  · refine Records.of_within hgdt₁ (fun _ => length_bytesLE 8 _) (by decide) htss ?_
    intro r hr
    rw [List.mem_singleton] at hr
    rw [hr]
    exact hapart

/-! ### The tables of the kernel -/

/-- `gdt_initialise` in the memory, from whatever was there. -/
theorem gdtInitialiseAt_refines {s : TableSymbols} (mem : Memory)
    (hgp : s.gpRegion.Apart s.gdtRegion) (hgptss : s.gpRegion.Apart s.tssRegion)
    (hgdttss : s.gdtRegion.Apart s.tssRegion) :
    ∃ g mem', (∃ g₀ m₀ m, gdtInitialise s.gdt s.tss g₀ m₀ = some (g, m)) ∧
      gdtInitialiseAt s mem = some (gdtPtr g, mem') ∧ GdtIn mem' s.gdt g ∧
      WordsIn mem' s.tss (tssWords g.tss) ∧
      Within [s.gdtRegion, s.gpRegion, s.tssRegion] mem mem' := by
  -- The abstract run starts from the table that the memory holds by chance.
  obtain ⟨hptr, hwithin⟩ := setTablePtr_spec s.gp (BitVec.ofNat 16 (8 * NUM_GDT_ENTRIES - 1)) s.gdt
    mem
  generalize hmem₀ : setTablePtr s.gp (BitVec.ofNat 16 (8 * NUM_GDT_ENTRIES - 1)) s.gdt mem = mem₀
    at hptr hwithin
  obtain ⟨g, hg⟩ := exists_gdtIn mem₀ s.gdt
  obtain ⟨g', m', hmade, -, -⟩ := gdtInitialise_spec s.gdt s.tss g Machine.boot
  have hgp' := gdtInitialise_gp hmade
  obtain ⟨m₁, -, h⟩ := Option.bind_eq_some_iff.mp hmade
  obtain ⟨g₀, h₀, h⟩ := Option.bind_eq_some_iff.mp h
  obtain ⟨g₁, h₁, h⟩ := Option.bind_eq_some_iff.mp h
  obtain ⟨g₂, h₂, h⟩ := Option.bind_eq_some_iff.mp h
  obtain ⟨g₃, h₃, h⟩ := Option.bind_eq_some_iff.mp h
  obtain ⟨g₄, h₄, h⟩ := Option.bind_eq_some_iff.mp h
  obtain ⟨g₅, h₅, h⟩ := Option.bind_eq_some_iff.mp h
  cases h
  have hstart : GdtIn mem₀ s.gdt
      { g with gp := ⟨BitVec.ofNat 16 (8 * NUM_GDT_ENTRIES - 1), s.gdt⟩ } := hg
  obtain ⟨mem₁, e₁, hin₁, hw₁⟩ := createDescriptorAt_refines hstart h₀
  obtain ⟨mem₂, e₂, hin₂, hw₂⟩ := createDescriptorAt_refines hin₁ h₁
  obtain ⟨mem₃, e₃, hin₃, hw₃⟩ := createDescriptorAt_refines hin₂ h₂
  obtain ⟨mem₄, e₄, hin₄, hw₄⟩ := createDescriptorAt_refines hin₃ h₃
  obtain ⟨mem₅, e₅, hin₅, hw₅⟩ := createDescriptorAt_refines hin₄ h₄
  obtain ⟨mem₆, e₆, hin₆, hwords, hw₆⟩ := writeTssAt_refines hgdttss hin₅ h₅
  have hptrOnly : Within [s.gpRegion] mem mem₀ := hwithin
  have hgdt : Within [s.gdtRegion] mem₀ mem₅ :=
    hw₁.trans (hw₂.trans (hw₃.trans (hw₄.trans hw₅)))
  have hall : Within [s.gdtRegion, s.tssRegion] mem₀ mem₆ := (hgdt.mono (by simp)).trans hw₆
  -- `gp` is apart from the objects of the other stores.
  have hptr' := hptr.of_within hall (by simp) (hgp.pair hgptss)
  refine ⟨g', mem₆, ⟨g, Machine.boot, _, hmade⟩, ?_, hin₆, hwords, ?_⟩
  · have hrun : gdtInitialiseAt s mem = some (readTableReg mem₆ s.gp, mem₆) := by
      unfold gdtInitialiseAt
      rw [hmem₀]
      exact Option.bind_eq_some_iff.mpr ⟨_, e₁, Option.bind_eq_some_iff.mpr ⟨_, e₂,
        Option.bind_eq_some_iff.mpr ⟨_, e₃, Option.bind_eq_some_iff.mpr ⟨_, e₄,
        Option.bind_eq_some_iff.mpr ⟨_, e₅, Option.bind_eq_some_iff.mpr ⟨_, e₆, rfl⟩⟩⟩⟩⟩⟩
    rw [hrun, readTableReg_of_hasBytes hptr', gdtPtr, hgp']
  · exact (hptrOnly.mono (by simp)).trans (hall.mono (by simp))


/-- `idt_init` in the memory. -/
theorem idtInitAt_refines {s : TableSymbols} (mem : Memory)
    (hapart : s.idtpRegion.Apart s.idtRegion) :
    ∃ mem', idtInitAt s mem = (idtPtr s.idt, mem') ∧
      IdtIn mem' s.idt (Vector.replicate 256 IdtGate.cleared) ∧
      Within [s.idtRegion, s.idtpRegion] mem mem' := by
  obtain ⟨hptr, hwithin⟩ := setTablePtr_spec s.idtp (BitVec.ofNat 16 (sizeofIdtGate * 256 - 1))
    s.idt mem
  generalize hmem₁ : setTablePtr s.idtp (BitVec.ofNat 16 (sizeofIdtGate * 256 - 1)) s.idt mem = mem₁
    at hptr hwithin
  obtain ⟨hclear, hw⟩ := memset_idt s.idt mem₁
  generalize hmem₂ : (memset s.idt 0 (BitVec.ofNat 32 (sizeofIdtGate * 256)) mem₁).2 = mem₂
    at hclear hw
  have hptr' := hptr.of_within hw (by simp) (by
    intro r hr
    rw [List.mem_singleton] at hr
    rw [hr]
    exact hapart)
  have hptrOnly : Within [s.idtpRegion] mem mem₁ := hwithin
  have hidtOnly : Within [s.idtRegion] mem₁ mem₂ := hw
  refine ⟨mem₂, ?_, hclear, (hptrOnly.mono (by simp)).trans (hidtOnly.mono (by simp))⟩
  unfold idtInitAt
  dsimp only
  rw [hmem₁, hmem₂, readTableReg_of_hasBytes hptr', idtPtr]

/-- The stores of `gdt_initialise`, `idt_init` and the calls of `isrs_install` and `irq_install`
leave the table that `gdt_initialise` makes of values, and the interrupt table, with the registers
that name them. -/
theorem installTables_refines {s : TableSymbols} (hapart : s.regions.Pairwise Region.Apart)
    (stubAt : Fin 48 → BitVec 32) {g₀ g : Gdt} {m₀ m : Machine}
    (hmade : gdtInitialise s.gdt s.tss g₀ m₀ = some (g, m)) (mem : Memory) :
    ∃ mem', installTablesAt s stubAt mem = some (⟨gdtPtr g, idtPtr s.idt⟩, mem') ∧
      SystemTables s.gdt s.tss s.idt stubAt g ⟨gdtPtr g, idtPtr s.idt⟩ mem' ∧
      WordsIn mem' s.tss (tssWords g.tss) ∧ Within s.regions mem mem' := by
  obtain ⟨⟨hgdtgp, hgdttss, hgdtidt, hgdtidtp⟩, ⟨hgptss, -, -⟩, ⟨htssidt, htssidtp⟩, hidtidtp⟩ := by
    simpa [TableSymbols.regions] using hapart
  obtain ⟨g', mem₁, ⟨g₁, m₁, m', hmade'⟩, hgdtr, hin, hwords, hw₁⟩ :=
    gdtInitialiseAt_refines mem hgdtgp.symm hgptss hgdttss
  -- The table does not depend on what was there before.
  have hsame : g' = g := (gdtInitialise_eq hmade').trans (gdtInitialise_eq hmade).symm
  subst hsame
  obtain ⟨mem₂, hidtr, hclear, hw₂⟩ := idtInitAt_refines mem₁ hidtidtp.symm
  obtain ⟨hgates, hw₃⟩ := foldl_runAt_refines (isrGateCalls stubAt ++ irqGateCalls stubAt) hclear
  generalize hmem₃ : (isrGateCalls stubAt ++ irqGateCalls stubAt).foldl (IdtCall.runAt s.idt) mem₂
    = mem₃ at hgates hw₃
  -- The second half leaves the segment table and the task state.
  have hidtOnly : Within [s.idtRegion] mem₂ mem₃ := hw₃
  have hidt : Within [s.idtRegion, s.idtpRegion] mem₁ mem₃ := hw₂.trans (hidtOnly.mono (by simp))
  have hsegments : GdtIn mem₃ s.gdt g' :=
    Records.of_within hin (fun _ => length_bytesLE 8 _) (by decide) hidt (hgdtidt.pair hgdtidtp)
  have htask : WordsIn mem₃ s.tss (tssWords g'.tss) :=
    Records.of_within hwords (fun _ => length_bytesLE 4 _) (by decide) hidt (htssidt.pair htssidtp)
  have hbase : (gdtPtr g').base = s.gdt := by
    rw [gdtPtr, gdtInitialise_gp hmade]
  have hrun : installTablesAt s stubAt mem = some (⟨gdtPtr g', idtPtr s.idt⟩, mem₃) := by
    unfold installTablesAt
    apply Option.bind_eq_some_iff.mpr
    refine ⟨_, hgdtr, ?_⟩
    dsimp only
    rw [hidtr]
    dsimp only
    rw [hmem₃]
  have hsegmentWords : Holds mem₃ (gdtPtr g').base (gdtWords g') := by
    rw [hbase]
    exact fun n => read64_of_hasBytes (hsegments n)
  have hgateWords : Holds mem₃ (idtPtr s.idt).base (idtWords (idtInstalled stubAt)) :=
    fun v => read64_of_hasBytes (hgates v)
  exact ⟨mem₃, hrun, ⟨⟨⟨g₀, m₀, m, hmade⟩, rfl, hsegmentWords⟩, rfl, hgateWords⟩, htask,
    (hw₁.mono (by simp [TableSymbols.regions])).trans (hidt.mono (by simp [TableSymbols.regions]))⟩

/-- Whatever is in the memory at first, `gdt_initialise`, `idt_init` and the calls of
`isrs_install` and `irq_install` leave the tables of the system there, with the registers that name
them. They change nothing but the five objects, which the linker has put apart. -/
theorem installTables_holds (s : TableSymbols) (hapart : s.regions.Pairwise Region.Apart)
    (stubAt : Fin 48 → BitVec 32) (mem : Memory) :
    ∃ g t mem', installTablesAt s stubAt mem = some (t, mem') ∧
      SystemTables s.gdt s.tss s.idt stubAt g t mem' ∧ WordsIn mem' s.tss (tssWords g.tss) ∧
      Within s.regions mem mem' := by
  obtain ⟨g, m, hmade, -⟩ := gdtInitialise_spec s.gdt s.tss Gdt.boot Machine.boot
  obtain ⟨mem', hrun, hholds⟩ := installTables_refines hapart stubAt hmade mem
  exact ⟨g, _, mem', hrun, hholds⟩

/-- Five objects that follow one another. -/
def sampleTables : TableSymbols := ⟨0x1000, 0x1100, 0x1200, 0x2000, 0x3000⟩

/-- They are apart. -/
theorem sampleTables_apart : sampleTables.regions.Pairwise Region.Apart := by
  have hordered : sampleTables.regions.Pairwise fun r r' =>
      r.base.toNat + r.size ≤ r'.base.toNat ∧ r'.base.toNat + r'.size ≤ 2 ^ 32 := by
    simp [TableSymbols.regions, TableSymbols.gdtRegion, TableSymbols.gpRegion,
      TableSymbols.tssRegion, TableSymbols.idtRegion, TableSymbols.idtpRegion, sampleTables,
      sizeofPtr, sizeofTss, sizeofIdtGate, NUM_GDT_ENTRIES]
  exact hordered.imp fun h => apart_of_end_le h.1 h.2

/-- The tables of these objects. -/
theorem installTables_holds_sample :
    sampleTables.regions.Pairwise Region.Apart ∧
      ∃ g t mem', installTablesAt sampleTables (fun _ => 0x100000) (fun _ => 0) = some (t, mem') ∧
        SystemTables 0x1000 0x1200 0x2000 (fun _ => 0x100000) g t mem' ∧
        WordsIn mem' 0x1200 (tssWords g.tss) ∧ Within sampleTables.regions (fun _ => 0) mem' :=
  ⟨sampleTables_apart, installTables_holds sampleTables sampleTables_apart _ _⟩

end Chuckles.Proofs
