import Mathlib.Data.Fin.VecNotation
import Mathlib.Tactic.FinCases
import Chuckles.Kernel.Gdt

/-!
# `Chuckles.Proofs.Gdt`: the descriptors of the kernel, and the task state segment

`getLsbD_descriptor` says which bit of which argument each of the 64 bits of a descriptor
is. With it `decode_descriptor` reads the fields back: the base exactly, the limit modulo
`2 ^ 20`, and the flags in the mask `0xF0FF`. `createDescriptor_roundTrip` says this of the
stored entries, and that after any calls each entry holds what the last call for it stored.

`tssCovered_iff` is the main result. The descriptor that `write_tss` stores covers exactly
the object `tss` only at the link addresses that are `2 ^ 20 - 1` modulo `2 ^ 20`. The
limit that `write_tss` passes is the address after the object, and not the offset of the
last byte in it.
-/

set_option autoImplicit false

namespace Chuckles.Proofs

open Lib

/-! ### The bits of a descriptor -/

/-- The bits of the two masks for the limit. -/
theorem getLsbD_limit_masks (i : Nat) :
    (0x000F0000#32).getLsbD i = decide (16 ≤ i ∧ i < 20)
      ∧ (0x0000FFFF#32).getLsbD i = decide (0 ≤ i ∧ i < 16) :=
  ⟨getLsbD_of_range 16 20 (by decide) (by decide) i,
    getLsbD_of_range 0 16 (by decide) (by decide) i⟩

/-- The bits of the two masks for the base. -/
theorem getLsbD_base_masks (i : Nat) :
    (0x000000FF#32).getLsbD i = decide (0 ≤ i ∧ i < 8)
      ∧ (0xFF000000#32).getLsbD i = decide (24 ≤ i ∧ i < 32) :=
  ⟨getLsbD_of_range 0 8 (by decide) (by decide) i,
    getLsbD_of_range 24 32 (by decide) (by decide) i⟩

/-- The bits of the mask for the flags, after their shift by 8: the access byte and the four
flags above it. -/
theorem getLsbD_flag_mask (i : Nat) :
    (0x00F0FF00#32).getLsbD i = (decide (8 ≤ i ∧ i < 16) || decide (20 ≤ i ∧ i < 24)) := by
  have hsplit : (0x00F0FF00#32) = 0x0000FF00#32 ||| 0x00F00000#32 := by decide
  rw [hsplit, BitVec.getLsbD_or,
    getLsbD_of_range 8 16 (by decide) (by decide) i,
    getLsbD_of_range 20 24 (by decide) (by decide) i]

/-- The bits of the flags that a descriptor keeps. -/
theorem getLsbD_attribute_mask (i : Nat) :
    (0xF0FF#16).getLsbD i = (decide (0 ≤ i ∧ i < 8) || decide (12 ≤ i ∧ i < 16)) := by
  have hsplit : (0xF0FF#16) = 0x00FF#16 ||| 0xF000#16 := by decide
  rw [hsplit, BitVec.getLsbD_or,
    getLsbD_of_range 0 8 (by decide) (by decide) i,
    getLsbD_of_range 12 16 (by decide) (by decide) i]

/-- Each bit of a descriptor is one bit of one argument. -/
theorem getLsbD_descriptor (base limit : BitVec 32) (flag : BitVec 16) (i : Nat) :
    (descriptor base limit flag).getLsbD i =
      if i < 16 then limit.getLsbD i
      else if i < 40 then base.getLsbD (i - 16)
      else if i < 48 then flag.getLsbD (i - 40)
      else if i < 52 then limit.getLsbD (i - 32)
      else if i < 56 then flag.getLsbD (i - 40)
      else if i < 64 then base.getLsbD (i - 32)
      else false := by
  -- a shift of the base to the right brings in no bit
  have hbase (k : Nat) (hk : 32 ≤ k) : base.getLsbD k = false := BitVec.getLsbD_of_ge _ _ hk
  simp only [descriptor, BitVec.getLsbD_or, BitVec.getLsbD_shiftLeft, BitVec.getLsbD_and,
    BitVec.getLsbD_setWidth, BitVec.getLsbD_ushiftRight, getLsbD_limit_masks,
    getLsbD_base_masks, getLsbD_flag_mask]
  split_ifs with h0 h1 h2 h3 h4 h5
  all_goals grind

/-- The processor reads back the base. -/
theorem decode_descriptor_base (base limit : BitVec 32) (flag : BitVec 16) :
    (Segment.decode (descriptor base limit flag)).base = base := by
  apply BitVec.eq_of_getLsbD_eq
  intro i hi
  simp only [Segment.decode, BitVec.getLsbD_append, BitVec.getLsbD_extractLsb',
    getLsbD_descriptor]
  grind

/-- The processor reads back the limit modulo `2 ^ 20`. -/
theorem decode_descriptor_limit (base limit : BitVec 32) (flag : BitVec 16) :
    (Segment.decode (descriptor base limit flag)).limit = limit.setWidth 20 := by
  apply BitVec.eq_of_getLsbD_eq
  intro i hi
  simp only [Segment.decode, BitVec.getLsbD_append, BitVec.getLsbD_extractLsb',
    getLsbD_descriptor, BitVec.getLsbD_setWidth]
  grind

/-- The processor reads back the flags, except the four bits where the limit is. -/
theorem decode_descriptor_attributes (base limit : BitVec 32) (flag : BitVec 16) :
    (Segment.decode (descriptor base limit flag)).attributes = flag &&& 0xF0FF#16 := by
  apply BitVec.eq_of_getLsbD_eq
  intro i hi
  simp only [Segment.decode, BitVec.getLsbD_append, BitVec.getLsbD_extractLsb',
    getLsbD_descriptor, BitVec.getLsbD_and, getLsbD_attribute_mask, BitVec.getLsbD_zero]
  grind

/-- The segment that the processor reads from a descriptor. -/
theorem decode_descriptor (base limit : BitVec 32) (flag : BitVec 16) :
    Segment.decode (descriptor base limit flag)
      = ⟨base, limit.setWidth 20, flag &&& 0xF0FF#16⟩ := by
  apply Segment.ext
  · exact decode_descriptor_base base limit flag
  · exact decode_descriptor_limit base limit flag
  · exact decode_descriptor_attributes base limit flag

/-! ### The table -/

/-- The segments of the table, by their entry. -/
def gdtSegments (g : Gdt) (num : Fin NUM_GDT_ENTRIES) : Segment := Segment.decode g.gdt[num]

/-- Inside the table, `create_descriptor` replaces one segment. -/
theorem createDescriptor_spec (num : Int) (n : Fin NUM_GDT_ENTRIES) (hnum : num = n)
    (base limit : BitVec 32) (flag : BitVec 16) (g : Gdt) :
    ∃ g', createDescriptor num base limit flag g = some g'
      ∧ gdtSegments g'
          = Function.update (gdtSegments g) n ⟨base, limit.setWidth 20, flag &&& 0xF0FF#16⟩ := by
  subst hnum
  have hn : (0 : Int) ≤ n ∧ (n : Int) < NUM_GDT_ENTRIES := by omega
  rw [createDescriptor, dif_pos hn]
  refine ⟨_, rfl, ?_⟩
  funext k
  show Segment.decode (g.gdt.set n (descriptor base limit flag))[k] = _
  by_cases hk : k = n
  · subst hk
    rw [Function.update_self, Fin.getElem_fin, Vector.getElem_set_self, decode_descriptor]
  · have hne : n.val ≠ k.val := fun h => hk (Fin.ext h.symm)
    rw [Function.update_of_ne hk, Fin.getElem_fin, Vector.getElem_set_ne _ _ hne]
    rfl

/-- The conversion of `num` from `uint32_t` to `int` keeps an index of the table. -/
theorem toInt_gdt_index (n : Fin NUM_GDT_ENTRIES) : (BitVec.ofNat 32 n).toInt = n := by
  revert n
  decide

/-- The segment that `write_tss` describes: at the task state, and with the address after it
as the limit. -/
def tssSegment (tss : BitVec 32) : Segment :=
  ⟨tss, (tss + BitVec.ofNat 32 sizeofTss).setWidth 20, GDT_TSS⟩

/-- `write_tss` replaces one segment with that one, and sets the base of the permission
bitmap to the size of the task state. -/
theorem writeTss_spec (tss : BitVec 32) (n : Fin NUM_GDT_ENTRIES) (ss0 : BitVec 16)
    (esp0 : BitVec 32) (g : Gdt) :
    ∃ g', writeTss tss (BitVec.ofNat 32 n) ss0 esp0 g = some g'
      ∧ gdtSegments g' = Function.update (gdtSegments g) n (tssSegment tss)
      ∧ g'.tss.iomapBase = BitVec.ofNat 16 sizeofTss := by
  obtain ⟨g', hg, hsegments⟩ := createDescriptor_spec _ n (toInt_gdt_index n) tss
    (tss + BitVec.ofNat 32 sizeofTss) GDT_TSS g
  rw [writeTss, hg]
  exact ⟨_, rfl, hsegments, rfl⟩

/-- The limit of the segment of the task state. -/
theorem tssSegment_limit (tss : BitVec 32) :
    (tssSegment tss).limit.toNat = (tss.toNat + sizeofTss) % 2 ^ 20 := by
  show ((tss + BitVec.ofNat 32 sizeofTss).setWidth 20).toNat = _
  rw [BitVec.toNat_setWidth, BitVec.toNat_add, BitVec.toNat_ofNat]
  unfold sizeofTss
  omega

/-- The segment of the task state counts bytes. -/
theorem tssSegment_granular (tss : BitVec 32) : (tssSegment tss).granular = false := by
  show GDT_TSS.getLsbD 15 = false
  decide

/-- The flat segment of `gdt_initialise`: the base 0 and the largest limit. -/
def flatSegment (flag : BitVec 16) : Segment := ⟨0, 0xFFFFF, flag⟩

/-- A flat segment with the granularity flag reaches over the whole address space. -/
theorem flatSegment_lastOffset {flag : BitVec 16} (h : flag.getLsbD 15 = true) :
    (flatSegment flag).lastOffset = 2 ^ 32 - 1 := by
  have hgran : (flatSegment flag).granular = true := h
  rw [Segment.lastOffset, if_pos hgran]
  show (0xFFFFF#20).toNat * 4096 + 4095 = 2 ^ 32 - 1
  decide

/-- `gdt_initialise` always returns. It makes a null segment, four flat segments and the
segment of the task state, and reports the address of the table and the two flushes. -/
theorem gdtInitialise_spec (gdt tss : BitVec 32) (g : Gdt) (m : Machine) :
    ∃ g' m', gdtInitialise gdt tss g m = some (g', m')
      ∧ gdtSegments g' = ![⟨0, 0, 0⟩, flatSegment GDT_CODE_PL0, flatSegment GDT_DATA_PL0,
          flatSegment GDT_CODE_PL3, flatSegment GDT_DATA_PL3, tssSegment tss]
      ∧ m'.com1 = m.com1 ++ ascii "&GDT: " ++ decimal (Int32.ofBitVec gdt) ++ ascii "\n"
          ++ ascii "GDT flushed\nTSS flushed\n" := by
  obtain ⟨b', hwrite, -⟩ := serialWrited_spec (Int32.ofBitVec gdt) (m.serial (ascii "&GDT: "))
  obtain ⟨g0, h0, hs0⟩ := createDescriptor_spec 0 0 rfl 0 0 0
    { g with gp := ⟨BitVec.ofNat 16 (8 * NUM_GDT_ENTRIES - 1), gdt⟩ }
  obtain ⟨g1, h1, hs1⟩ := createDescriptor_spec 1 1 rfl 0 0xFFFFFFFF GDT_CODE_PL0 g0
  obtain ⟨g2, h2, hs2⟩ := createDescriptor_spec 2 2 rfl 0 0xFFFFFFFF GDT_DATA_PL0 g1
  obtain ⟨g3, h3, hs3⟩ := createDescriptor_spec 3 3 rfl 0 0xFFFFFFFF GDT_CODE_PL3 g2
  obtain ⟨g4, h4, hs4⟩ := createDescriptor_spec 4 4 rfl 0 0xFFFFFFFF GDT_DATA_PL3 g3
  obtain ⟨g5, h5, hs5, -⟩ := writeTss_spec tss 5 0x10 0 g4
  have h5 : writeTss tss 5 0x10 0 g4 = some g5 := h5
  refine ⟨g5, { m with itoaBuf := b', com1 := _ }, ?_, ?_, rfl⟩
  · simp only [gdtInitialise, hwrite, Option.bind_eq_bind, Option.bind_some, h0, h1, h2, h3, h4,
      h5]
    rfl
  · rw [hs5, hs4, hs3, hs2, hs1, hs0]
    funext n
    fin_cases n <;> rfl

/-! ### The table after any calls -/

/-- The arguments of one call of `create_descriptor`, with an index inside the table. -/
structure DescriptorCall where
  num : Fin NUM_GDT_ENTRIES
  base : BitVec 32
  limit : BitVec 32
  flag : BitVec 16

/-- The table after the calls, one after the other. -/
def createDescriptors (calls : List DescriptorCall) (g : Gdt) : Option Gdt :=
  calls.foldlM (fun g c => createDescriptor c.num c.base c.limit c.flag g) g

/-- The last call for an entry, if there is one. -/
def lastCall (k : Fin NUM_GDT_ENTRIES) (calls : List DescriptorCall) : Option DescriptorCall :=
  (calls.filter (fun c => c.num = k)).getLast?

/-- A further call is the last one for its own entry only. -/
theorem lastCall_append_singleton (k : Fin NUM_GDT_ENTRIES) (calls : List DescriptorCall)
    (c : DescriptorCall) :
    lastCall k (calls ++ [c]) = if c.num = k then some c else lastCall k calls := by
  unfold lastCall
  rw [List.filter_append]
  by_cases hk : c.num = k
  · simp [hk]
  · simp [hk]

/-- One call replaces one entry of the table and nothing else. -/
theorem createDescriptor_entries (c : DescriptorCall) (g : Gdt) :
    ∃ g', createDescriptor c.num c.base c.limit c.flag g = some g'
      ∧ ∀ k : Fin NUM_GDT_ENTRIES, g'.gdt[k] =
          if c.num = k then descriptor c.base c.limit c.flag else g.gdt[k] := by
  have hn : (0 : Int) ≤ c.num ∧ (c.num : Int) < NUM_GDT_ENTRIES := by omega
  rw [createDescriptor, dif_pos hn]
  refine ⟨_, rfl, ?_⟩
  intro k
  show (g.gdt.set c.num (descriptor c.base c.limit c.flag))[k] = _
  rw [Fin.getElem_fin, Vector.getElem_set, Fin.getElem_fin]
  simp only [Fin.ext_iff]

/-- Every entry of the table holds what the last call for it stored. -/
theorem createDescriptors_entries (calls : List DescriptorCall) (g : Gdt) :
    ∃ g', createDescriptors calls g = some g'
      ∧ ∀ k : Fin NUM_GDT_ENTRIES, g'.gdt[k] = (lastCall k calls).elim g.gdt[k]
          fun c => descriptor c.base c.limit c.flag := by
  induction calls using List.reverseRecOn with
  | nil => exact ⟨g, rfl, fun _ => rfl⟩
  | append_singleton calls c ih =>
      obtain ⟨g₁, h₁, hentries⟩ := ih
      obtain ⟨g', hc, hset⟩ := createDescriptor_entries c g₁
      refine ⟨g', ?_, ?_⟩
      · show (calls ++ [c]).foldlM _ g = some g'
        rw [List.foldlM_append]
        show (createDescriptors calls g).bind _ = some g'
        rw [h₁]
        show (createDescriptor c.num c.base c.limit c.flag g₁).bind some = some g'
        rw [hc, Option.bind_some]
      · intro k
        rw [hset, lastCall_append_singleton, hentries]
        split_ifs with hk <;> rfl

/-- The stored values differ exactly when a field that the processor reads differs. -/
theorem descriptor_eq_iff (base base' limit limit' : BitVec 32) (flag flag' : BitVec 16) :
    descriptor base limit flag = descriptor base' limit' flag'
      ↔ base = base' ∧ limit.setWidth 20 = limit'.setWidth 20
          ∧ flag &&& 0xF0FF#16 = flag' &&& 0xF0FF#16 := by
  rw [← Segment.decode_injective.eq_iff, decode_descriptor, decode_descriptor,
    Segment.mk.injEq]

/-- What `create_descriptor` stores in an entry decodes to its arguments: the base, the limit
modulo `2 ^ 20` and the flags in the mask. Two calls store the same value exactly when they
agree on the three. After any calls, every entry holds what the last call for it stored. -/
theorem createDescriptor_roundTrip :
    (∀ (c : DescriptorCall) (g : Gdt),
      ∃ g', createDescriptor c.num c.base c.limit c.flag g = some g'
        ∧ g'.gdt[c.num] = descriptor c.base c.limit c.flag
        ∧ (Segment.decode g'.gdt[c.num]).base = c.base
        ∧ (Segment.decode g'.gdt[c.num]).limit.toNat = c.limit.toNat % 2 ^ 20
        ∧ (Segment.decode g'.gdt[c.num]).attributes = c.flag &&& 0xF0FF#16)
      ∧ (∀ c c' : DescriptorCall,
        descriptor c.base c.limit c.flag = descriptor c'.base c'.limit c'.flag
          ↔ c.base = c'.base ∧ c.limit.toNat % 2 ^ 20 = c'.limit.toNat % 2 ^ 20
            ∧ c.flag &&& 0xF0FF#16 = c'.flag &&& 0xF0FF#16)
      ∧ ∀ (calls : List DescriptorCall) (g : Gdt),
        ∃ g', createDescriptors calls g = some g'
          ∧ ∀ k : Fin NUM_GDT_ENTRIES, g'.gdt[k] = (lastCall k calls).elim g.gdt[k]
              fun c => descriptor c.base c.limit c.flag := by
  refine ⟨?stored, ?agree, createDescriptors_entries⟩
  case stored =>
    intro c g
    obtain ⟨g', hg, hentries⟩ := createDescriptor_entries c g
    have hself : g'.gdt[c.num] = descriptor c.base c.limit c.flag := by
      rw [hentries, if_pos rfl]
    refine ⟨g', hg, hself, ?_⟩
    rw [hself, decode_descriptor]
    exact ⟨rfl, BitVec.toNat_setWidth _ _, rfl⟩
  case agree =>
    intro c c'
    rw [descriptor_eq_iff, ← BitVec.toNat_inj (x := c.limit.setWidth 20),
      BitVec.toNat_setWidth, BitVec.toNat_setWidth]

/-! ### The extent of the task state segment -/

/-- The segment covers exactly the task state at the address `tss`, and the permission
bitmap starts beyond it, so the processor reads no bitmap at all. -/
structure TssCovered (tss : BitVec 32) (s : Segment) (iomapBase : BitVec 16) : Prop where
  base : s.base = tss
  bytes : s.granular = false
  limit : s.limit.toNat = sizeofTss - 1
  inside : ∀ off, s.Accepts off → off < sizeofTss
  iomap : iomapBase.toNat = sizeofTss
  noBitmap : ∀ off, iomapBase.toNat ≤ off → ¬ s.Accepts off

/-- The segment of `write_tss` covers exactly the task state at the addresses for which the
sum in the limit argument wraps, modulo `2 ^ 20`, to the offset of the last byte. -/
theorem tssCovered_tssSegment_iff (tss : BitVec 32) :
    TssCovered tss (tssSegment tss) (BitVec.ofNat 16 sizeofTss)
      ↔ tss.toNat % 2 ^ 20 = 2 ^ 20 - 1 := by
  have hlimit := tssSegment_limit tss
  have hlast := Segment.lastOffset_of_bytes (tssSegment_granular tss)
  have hsize : sizeofTss = 104 := rfl
  have hiomap : (BitVec.ofNat 16 sizeofTss).toNat = sizeofTss := by decide
  constructor
  · intro h
    have := h.limit
    omega
  · intro h
    have hoff : (tssSegment tss).lastOffset = sizeofTss - 1 := by omega
    refine ⟨rfl, tssSegment_granular tss, by omega, ?_, hiomap, ?_⟩
    · rw [Segment.accepts_only_iff, hoff]
      decide
    · intro off hle hacc
      have hacc : off ≤ (tssSegment tss).lastOffset := hacc
      omega

/-- The descriptor that `write_tss` stores covers exactly the task state if and only if the
linker places the task state at the last byte of a block of `2 ^ 20` bytes. -/
theorem tssCovered_iff (tss : BitVec 32) (n : Fin NUM_GDT_ENTRIES) (ss0 : BitVec 16)
    (esp0 : BitVec 32) (g : Gdt) :
    (∃ g', writeTss tss (BitVec.ofNat 32 n) ss0 esp0 g = some g'
        ∧ TssCovered tss (Segment.decode g'.gdt[n]) g'.tss.iomapBase)
      ↔ tss.toNat % 2 ^ 20 = 2 ^ 20 - 1 := by
  obtain ⟨g', hg, hsegments, hiomap⟩ := writeTss_spec tss n ss0 esp0 g
  have hdecode : Segment.decode g'.gdt[n] = tssSegment tss := by
    show gdtSegments g' n = _
    rw [hsegments, Function.update_self]
  rw [← tssCovered_tssSegment_iff, ← hdecode, ← hiomap]
  constructor
  · rintro ⟨g'', hg', hcov⟩
    obtain rfl : g' = g'' := Option.some.inj (hg.symm.trans hg')
    exact hcov
  · intro hcov
    exact ⟨g', hg, hcov⟩

/-- With the task state at 1 MiB, the descriptor of the call in `gdt_initialise` accepts the
offset 104, one byte past the task state, and the permission bitmap starts there. -/
theorem tss_limit_past_end :
    ∃ g', writeTss 0x00100000 5 0x10 0 Gdt.boot = some g'
      ∧ ¬ TssCovered 0x00100000 (Segment.decode g'.gdt[5]) g'.tss.iomapBase
      ∧ (Segment.decode g'.gdt[5]).Accepts sizeofTss
      ∧ g'.tss.iomapBase.toNat = sizeofTss := by
  obtain ⟨g', hg, hsegments, hiomap⟩ := writeTss_spec 0x00100000 5 0x10 0 Gdt.boot
  have hdecode : Segment.decode g'.gdt[5] = tssSegment 0x00100000 := by
    show gdtSegments g' 5 = _
    rw [hsegments, Function.update_self]
  refine ⟨g', hg, ?_, ?_, by rw [hiomap]; decide⟩
  · rw [hdecode, hiomap, tssCovered_tssSegment_iff]
    decide
  · rw [hdecode]
    show 104 ≤ (tssSegment 0x00100000).lastOffset
    decide

end Chuckles.Proofs
