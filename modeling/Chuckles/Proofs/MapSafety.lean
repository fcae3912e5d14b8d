import Chuckles.Proofs.MemoryMap

/-!
# `Chuckles.Proofs.MapSafety`: the walk over an arbitrary memory map

`current_test` checks nothing about the map: it divides by the size of the first entry, and
each entry leads to the next one, in wrapping arithmetic. So an empty map, a size of zero, a
truncated entry and a map that leads back to itself are all followed.

`SafeWalk` is what a safe run is: it ends, it does not trap, and it reads inside the map.
`SafeMap` is the condition on the contents of memory, a finite chain of entries.

* `walk_chain`, `chain_of_exit`: the loop ends on a chain, and a loop that ends inside the
  map has followed one.
* `safeWalk_iff`: a run is safe exactly on such a map.
* `safeMap_of_wellFormed`: the maps that a boot loader lays out are safe.
* `currentTest_congr`: the result depends on the bytes of the fields in `testReads` only.
-/

set_option autoImplicit false

namespace Chuckles.Proofs

open Lib Lib.Loop

/-! ### What is safe -/

/-- The four bytes of the field at `a` are between `lo` and `stop`. -/
def FieldInside (lo stop : Nat) (a : BitVec 32) : Prop :=
  ∀ k < 4, lo ≤ (a + BitVec.ofNat 32 k).toNat ∧ (a + BitVec.ofNat 32 k).toNat < stop

/-- A safe run of `current_test`. -/
structure SafeWalk (mem : Memory) (mbi : MultibootInfo) (m : Machine) : Prop where
  ends : ∃ n e, currentTest n mem mbi m = .exit e
  divides : ∀ n r, currentTest n mem mbi m ≠ .exit (.divideError, r)
  inside : ∀ n, ∀ a ∈ testReads n mem mbi m,
    FieldInside mbi.mmapAddr.toNat (mbi.mmapAddr.toNat + mbi.mmapLength.toNat) a

/-- The entries of the list are in memory from the address `a` on, each between `lo` and
`stop`. The size of an entry leads to the next one, and the last one leads out of the map. -/
def ChainAt (mem : Memory) (lo stop : Nat) : BitVec 32 → List MemoryMap → Prop
  | a, [] => stop ≤ a.toNat
  | a, mm :: mms =>
    memoryMapAt mem a = mm ∧ lo ≤ a.toNat ∧ a.toNat + 24 ≤ stop ∧
      ChainAt mem lo stop (a + mm.size + 4) mms

/-- The maps on which the walk is safe. A map over the end of the address space is not
walked, because its end wraps below its start. -/
structure SafeMap (mem : Memory) (mbi : MultibootInfo) : Prop where
  length : 4 ≤ mbi.mmapLength.toNat
  room : mbi.mmapAddr.toNat + 4 ≤ 2 ^ 32
  size : (memoryMapAt mem mbi.mmapAddr).size ≠ 0
  chain : mbi.mmapAddr.toNat + mbi.mmapLength.toNat < 2 ^ 32 →
    ∃ mms, ChainAt mem mbi.mmapAddr.toNat (mbi.mmapAddr.toNat + mbi.mmapLength.toNat)
      mbi.mmapAddr mms

/-- The reads, when the loop starts. -/
theorem testReads_start {mem : Memory} {mbi : MultibootInfo} {m : Machine} {w : Walk}
    (hflag : mbi.flags &&& (1#32 <<< 6) ≠ 0) (hstart : currentTest 0 mem mbi m = .again w)
    (n : Nat) : testReads n mem mbi m
      = mbi.mmapAddr :: walkReads mem (mbi.mmapAddr + mbi.mmapLength) n w := by
  rw [testReads, if_pos hflag, hstart]

/-! ### The loop -/

/-- The fields of an entry, by their number. -/
theorem mem_fieldsAt {a b : BitVec 32} :
    b ∈ fieldsAt a ↔ ∃ j < 6, b = a + BitVec.ofNat 32 (4 * j) := by
  constructor
  · intro h
    simp only [fieldsAt, List.mem_cons, List.not_mem_nil, or_false] at h
    rcases h with rfl | rfl | rfl | rfl | rfl | rfl
    · exact ⟨0, by decide, (BitVec.add_zero b).symm⟩
    · exact ⟨1, by decide, rfl⟩
    · exact ⟨2, by decide, rfl⟩
    · exact ⟨3, by decide, rfl⟩
    · exact ⟨4, by decide, rfl⟩
    · exact ⟨5, by decide, rfl⟩
  · rintro ⟨j, hj, rfl⟩
    match j, hj with
    | 0, _ =>
      rw [BitVec.add_zero]
      exact List.mem_cons_self
    | 1, _ | 2, _ | 3, _ | 4, _ | 5, _ => simp [fieldsAt]

/-- All fields of an entry are inside exactly when the entry is. -/
theorem fieldsInside_iff {lo : Nat} {stop a : BitVec 32} (h : a < stop) :
    (∀ b ∈ fieldsAt a, FieldInside lo stop.toNat b) ↔ lo ≤ a.toNat ∧ a.toNat + 24 ≤ stop.toNat := by
  have hlt : a.toNat < stop.toNat := BitVec.lt_def.mp h
  have hmax := stop.isLt
  constructor
  · intro hall
    have hfirst := (hall a (mem_fieldsAt.mpr ⟨0, by decide, (BitVec.add_zero a).symm⟩) 0
      (by decide)).1
    rw [BitVec.add_zero] at hfirst
    refine ⟨hfirst, Decidable.byContradiction fun hend => ?_⟩
    -- The byte at `stop` would be one of the entry.
    obtain ⟨d, hd⟩ : ∃ d, stop.toNat = a.toNat + d := ⟨stop.toNat - a.toNat, by omega⟩
    have hbyte := (hall _ (mem_fieldsAt.mpr ⟨d / 4, by omega, rfl⟩) (d % 4) (by omega)).2
    rw [BitVec.add_assoc, ← BitVec.ofNat_add, Nat.div_add_mod,
      Memory.toNat_add_ofNat (by omega)] at hbyte
    omega
  · -- The byte `k` of the field `j` is the byte `4 * j + k` of the entry.
    rintro ⟨hlo, hend⟩ b hb k hk
    rcases mem_fieldsAt.mp hb with ⟨j, hj, rfl⟩
    rw [BitVec.add_assoc, ← BitVec.ofNat_add, Memory.toNat_add_ofNat (by omega)]
    omega

/-- On a chain the loop ends, and it returns. -/
theorem walk_chain {mem : Memory} {lo : Nat} {stop : BitVec 32} (mms : List MemoryMap) :
    ∀ (i : Int32) (a : BitVec 32) (r : Report), ChainAt mem lo stop.toNat a mms →
      ∃ r', passes (walkPass mem stop) (mms.length + 1) ⟨i, a, r⟩ = .exit (.returned, r') := by
  induction mms with
  -- The chain has led past the end, so the test of the loop fails.
  | nil =>
    intro i a r hchain
    have hge : ¬a < stop := by
      rw [BitVec.lt_def]
      exact Nat.not_lt.mpr hchain
    exact ⟨r, passes_succ_of_exit 0 (walkPass_of_ge mem hge i r)⟩
  | cons mm mms ih =>
    intro i a r hchain
    rcases hchain with ⟨rfl, -, hend, hrest⟩
    have hlt : a < stop := by
      rw [BitVec.lt_def]
      omega
    obtain ⟨r₁, hpass, -⟩ := walkPass_of_lt mem hlt i r
    obtain ⟨r₂, hexit⟩ := ih (i + 1) _ r₁ hrest
    exact ⟨r₂, by rw [List.length_cons, passes_succ_of_again _ hpass, hexit]⟩

/-- A pass below the end reads the entry, and goes on with the next one. -/
theorem walkReads_of_lt (mem : Memory) {stop a : BitVec 32} (h : a < stop) (i : Int32)
    (r : Report) :
    ∃ r', walkPass mem stop ⟨i, a, r⟩ = .again ⟨i + 1, a + (memoryMapAt mem a).size + 4, r'⟩ ∧
      ∀ n, walkReads mem stop (n + 1) ⟨i, a, r⟩
        = fieldsAt a ++ walkReads mem stop n ⟨i + 1, a + (memoryMapAt mem a).size + 4, r'⟩ := by
  obtain ⟨r', hpass, -⟩ := walkPass_of_lt mem h i r
  refine ⟨r', hpass, fun n => ?_⟩
  rw [walkReads, if_pos h, hpass]

/-- The loop reads nothing past its end. -/
theorem walkReads_of_ge (mem : Memory) {stop : BitVec 32} {w : Walk} (h : ¬w.mm < stop) (n : Nat) :
    walkReads mem stop n w = [] := by
  cases n with
  | zero => rfl
  | succ n => exact if_neg h

/-- On a chain the loop reads inside the map. -/
theorem walkReads_chain {mem : Memory} {lo : Nat} {stop : BitVec 32} (mms : List MemoryMap) :
    ∀ (n : Nat) (i : Int32) (a : BitVec 32) (r : Report), ChainAt mem lo stop.toNat a mms →
      ∀ b ∈ walkReads mem stop n ⟨i, a, r⟩, FieldInside lo stop.toNat b := by
  induction mms with
  | nil =>
    intro n i a r hchain b hb
    have hge : ¬a < stop := by
      rw [BitVec.lt_def]
      exact Nat.not_lt.mpr hchain
    rw [walkReads_of_ge mem hge] at hb
    cases hb
  | cons mm mms ih =>
    intro n i a r hchain b hb
    rcases hchain with ⟨rfl, hlo, hend, hrest⟩
    have hlt : a < stop := by
      rw [BitVec.lt_def]
      omega
    -- Without a pass left nothing is read.
    cases n with
    | zero => cases hb
    | succ n =>
      obtain ⟨r', -, hreads⟩ := walkReads_of_lt mem hlt i r
      rw [hreads n] at hb
      rcases List.mem_append.mp hb with hb | hb
      · exact (fieldsInside_iff hlt).mpr ⟨hlo, hend⟩ b hb
      · exact ih n _ _ _ hrest b hb

/-- An entry that leads back to itself is walked forever. -/
theorem walk_forever {mem : Memory} {stop a : BitVec 32} (hlt : a < stop)
    (hsize : (memoryMapAt mem a).size = 0xFFFFFFFC) (n : Nat) :
    ∀ (i : Int32) (r : Report), ∃ w, passes (walkPass mem stop) n ⟨i, a, r⟩ = .again w := by
  induction n with
  | zero => exact fun i r => ⟨⟨i, a, r⟩, passes.eq_1 _ _⟩
  | succ n ih =>
    intro i r
    obtain ⟨r', hpass, -⟩ := walkPass_of_lt mem hlt i r
    -- `size + 4` wraps to 0, so the next entry is the same one.
    have hnext : a + 0xFFFFFFFC + 4 = a := by
      rw [BitVec.add_assoc]
      exact BitVec.add_zero a
    rw [hsize, hnext] at hpass
    rw [passes_succ_of_again n hpass]
    exact ih _ r'

/-- A loop that ends and reads inside the map has followed a chain. The induction is on the
number of passes. -/
theorem chain_of_exit {mem : Memory} {lo : Nat} {stop : BitVec 32} {e : Ending × Report} (n : Nat) :
    ∀ (i : Int32) (a : BitVec 32) (r : Report),
      passes (walkPass mem stop) n ⟨i, a, r⟩ = .exit e →
      (∀ n', ∀ b ∈ walkReads mem stop n' ⟨i, a, r⟩, FieldInside lo stop.toNat b) →
      ∃ mms, ChainAt mem lo stop.toNat a mms := by
  induction n with
  | zero => exact nofun
  | succ n ih =>
    intro i a r hexit hinside
    by_cases hlt : a < stop
    · obtain ⟨r', hpass, hreads⟩ := walkReads_of_lt mem hlt i r
      -- The reads of the first pass are those of its entry, the others belong to the rest.
      have hentry : ∀ b ∈ fieldsAt a, FieldInside lo stop.toNat b := fun b hb =>
        hinside 1 b (by rw [hreads]; exact List.mem_append_left _ hb)
      rw [passes_succ_of_again n hpass] at hexit
      rcases ih _ _ _ hexit fun n' b hb =>
        hinside (n' + 1) b (by rw [hreads]; exact List.mem_append_right _ hb) with ⟨mms, hchain⟩
      rcases (fieldsInside_iff hlt).mp hentry with ⟨hlo, hend⟩
      exact ⟨memoryMapAt mem a :: mms, rfl, hlo, hend, hchain⟩
    · rw [BitVec.lt_def] at hlt
      exact ⟨[], Nat.not_lt.mp hlt⟩

/-! ### The reads are all the reads -/

/-- Two memories agree on a field. -/
def AgreeOn (mem mem' : Memory) (a : BitVec 32) : Prop :=
  ∀ k < 4, mem (a + BitVec.ofNat 32 k) = mem' (a + BitVec.ofNat 32 k)

/-- A field on which the memories agree has one value. -/
theorem AgreeOn.read32_eq {mem mem' : Memory} {a : BitVec 32} (h : AgreeOn mem mem' a) :
    mem.read32 a = mem'.read32 a := Memory.read32_congr h

/-- An entry on whose fields the memories agree. -/
theorem memoryMapAt_congr {mem mem' : Memory} {a : BitVec 32}
    (h : ∀ b ∈ fieldsAt a, AgreeOn mem mem' b) : memoryMapAt mem a = memoryMapAt mem' a := by
  simp only [fieldsAt, List.forall_mem_cons] at h
  rcases h with ⟨h₀, h₁, h₂, h₃, h₄, h₅, -⟩
  rw [memoryMapAt, memoryMapAt, h₀.read32_eq, h₁.read32_eq, h₂.read32_eq, h₃.read32_eq,
    h₄.read32_eq, h₅.read32_eq]

/-- The loop, on a memory that agrees on the fields it reads. -/
theorem passes_congr {mem mem' : Memory} {stop : BitVec 32} (n : Nat) :
    ∀ w, (∀ b ∈ walkReads mem stop n w, AgreeOn mem mem' b) →
      passes (walkPass mem stop) n w = passes (walkPass mem' stop) n w := by
  induction n with
  | zero =>
    intro w _
    rw [passes, passes]
  | succ n ih =>
    rintro ⟨i, a, r⟩ hagree
    by_cases hlt : a < stop
    · obtain ⟨r', hpass, hreads⟩ := walkReads_of_lt mem hlt i r
      rw [hreads] at hagree
      have hentry : memoryMapAt mem a = memoryMapAt mem' a :=
        memoryMapAt_congr fun b hb => hagree b (List.mem_append_left _ hb)
      have hpass' : walkPass mem' stop ⟨i, a, r⟩ = walkPass mem stop ⟨i, a, r⟩ := by
        unfold walkPass walkBody
        dsimp only
        rw [hentry]
      rw [passes_succ_of_again n hpass, passes_succ_of_again n (hpass'.trans hpass)]
      exact ih _ fun b hb => hagree b (List.mem_append_right _ hb)
    · rw [passes_succ_of_exit n (walkPass_of_ge mem hlt i r),
        passes_succ_of_exit n (walkPass_of_ge mem' hlt i r)]

/-- The result depends on the bytes of the fields in `testReads` only. -/
theorem currentTest_congr {n : Nat} {mem mem' : Memory} {mbi : MultibootInfo} {m : Machine}
    (hagree : ∀ a ∈ testReads n mem mbi m, AgreeOn mem mem' a) :
    currentTest n mem mbi m = currentTest n mem' mbi m := by
  by_cases hflag : mbi.flags &&& (1#32 <<< 6) ≠ 0
  · -- The division reads the first field, and the prints before the loop depend on it only.
    have hfirst : AgreeOn mem mem' mbi.mmapAddr :=
      hagree _ (by rw [testReads, if_pos hflag]; exact List.mem_cons_self)
    have hsize : (memoryMapAt mem mbi.mmapAddr).size = (memoryMapAt mem' mbi.mmapAddr).size := by
      show mem.read32 mbi.mmapAddr = mem'.read32 mbi.mmapAddr
      exact hfirst.read32_eq
    by_cases hzero : (memoryMapAt mem mbi.mmapAddr).size = 0
    · have hmaps : memMaps n mem mbi = memMaps n mem' mbi := by
        funext r
        rw [memMaps, memMaps, if_pos hflag, if_pos hflag]
        dsimp only
        rw [if_pos hzero, if_pos (hsize ▸ hzero)]
      rw [currentTest, currentTest, hmaps]
    · rcases currentTest_start hflag hzero m with ⟨r, -, hstart⟩
      rw [testReads_start hflag (hstart mem rfl 0) n] at hagree
      -- Both loops start from one state.
      rw [hstart mem rfl n, hstart mem' hsize.symm n]
      exact passes_congr n _ fun b hb => hagree b (List.mem_cons_of_mem _ hb)
  · have hmaps : memMaps n mem mbi = memMaps n mem' mbi := by
      funext r
      rw [memMaps, memMaps, if_neg hflag, if_neg hflag]
    rw [currentTest, currentTest, hmaps]

/-! ### The maps of a boot loader -/

/-- The entries of a well-formed map are a chain. -/
theorem chainAt_of_mapAt {mem : Memory} {lo stop : Nat} (hstop : stop < 2 ^ 32)
    (mms : List MemoryMap) :
    ∀ a : BitVec 32, lo ≤ a.toNat → MapAt mem stop a mms → ChainAt mem lo stop a mms := by
  induction mms with
  | nil => exact fun a _ hmap => Nat.le_of_eq hmap.symm
  | cons mm mms ih =>
    intro a hlo hmap
    rcases hmap with ⟨hentry, hsize, hend, hrest⟩
    refine ⟨hentry, hlo, by omega, ih _ ?_ hrest⟩
    rw [BitVec.toNat_add, BitVec.toNat_add]
    show lo ≤ ((a.toNat + mm.size.toNat) % 2 ^ 32 + 4) % 2 ^ 32
    omega

/-- A well-formed map with an entry is safe. -/
theorem safeMap_of_wellFormed {mem : Memory} {mbi : MultibootInfo} {mm : MemoryMap}
    {mms : List MemoryMap} (hmap : WellFormedMap mem mbi (mm :: mms)) : SafeMap mem mbi := by
  have hend := hmap.1
  rcases hmap.2 with ⟨hentry, hsize, hnext, -⟩
  refine ⟨by omega, by omega, ?_, fun _ =>
    ⟨mm :: mms, chainAt_of_mapAt hend _ _ (Nat.le_refl _) hmap.2⟩⟩
  rw [hentry]
  intro hzero
  rw [hzero] at hsize
  exact absurd hsize (by decide)

/-! ### The result -/

/-- The first field is inside the map. -/
theorem firstInside_iff (a len : BitVec 32) :
    FieldInside a.toNat (a.toNat + len.toNat) a ↔ 4 ≤ len.toNat ∧ a.toNat + 4 ≤ 2 ^ 32 := by
  constructor
  · intro h
    have hlast := h 3 (by decide)
    rw [BitVec.toNat_add, BitVec.toNat_ofNat] at hlast
    have hlt := a.isLt
    omega
  · rintro ⟨hlen, hroom⟩ k hk
    rw [Memory.toNat_add_ofNat (by omega)]
    omega

/-- The end of a map that does not reach the end of the address space. -/
theorem toNat_stop {mbi : MultibootInfo}
    (h : mbi.mmapAddr.toNat + mbi.mmapLength.toNat < 2 ^ 32) :
    (mbi.mmapAddr + mbi.mmapLength).toNat = mbi.mmapAddr.toNat + mbi.mmapLength.toNat := by
  rw [BitVec.toNat_add, Nat.mod_eq_of_lt h]

/-- The loop does not run on another map. -/
theorem not_lt_stop {mbi : MultibootInfo}
    (h : ¬mbi.mmapAddr.toNat + mbi.mmapLength.toNat < 2 ^ 32) :
    ¬mbi.mmapAddr < mbi.mmapAddr + mbi.mmapLength := by
  rw [BitVec.lt_def, BitVec.toNat_add]
  have h₁ := mbi.mmapAddr.isLt
  have h₂ := mbi.mmapLength.isLt
  omega

/-- **A run of `current_test` with a memory map is safe exactly when the map is a finite chain
of entries inside its area.** -/
theorem safeWalk_iff (mem : Memory) (mbi : MultibootInfo) (m : Machine)
    (hflag : mbi.flags &&& (1#32 <<< 6) ≠ 0) :
    SafeWalk mem mbi m ↔ SafeMap mem mbi := by
  constructor
  · intro h
    have hsize : (memoryMapAt mem mbi.mmapAddr).size ≠ 0 := by
      intro hzero
      rcases currentTest_zero hflag hzero m with ⟨r, -, htrap⟩
      exact h.divides 0 r (htrap 0)
    rcases currentTest_start hflag hsize m with ⟨r, -, hstart⟩
    replace hstart := hstart mem rfl
    have hinside := h.inside
    simp only [testReads_start hflag (hstart 0), List.forall_mem_cons] at hinside
    rcases (firstInside_iff _ _).mp (hinside 0).1 with ⟨hlength, hroom⟩
    -- A map that does not wrap is walked, and the end of the walk gives the chain.
    refine ⟨hlength, hroom, hsize, fun hend => ?_⟩
    rcases h.ends with ⟨n, e, hexit⟩
    rw [hstart] at hexit
    rw [← toNat_stop hend] at hinside ⊢
    exact chain_of_exit n _ _ _ hexit fun n' => (hinside n').2
  · intro h
    rcases currentTest_start hflag h.size m with ⟨r, -, hstart⟩
    replace hstart := hstart mem rfl
    have hfirst := (firstInside_iff mbi.mmapAddr mbi.mmapLength).mpr ⟨h.length, h.room⟩
    -- A map over the end of the address space has no pass.
    by_cases hend : mbi.mmapAddr.toNat + mbi.mmapLength.toNat < 2 ^ 32
    · rcases h.chain hend with ⟨mms, hchain⟩
      rw [← toNat_stop hend] at hchain hfirst
      obtain ⟨r', hexit⟩ := walk_chain mms 0 _ r hchain
      rw [← hstart] at hexit
      refine ⟨⟨_, _, hexit⟩, fun n r'' htrap => ?_, fun n a ha => ?_⟩
      · cases currentTest_exit_unique hflag hexit htrap
      · rw [testReads_start hflag (hstart 0)] at ha
        rw [← toNat_stop hend]
        rcases List.mem_cons.mp ha with rfl | ha
        · exact hfirst
        · exact walkReads_chain mms n _ _ _ hchain a ha
    · have hexit : currentTest 1 mem mbi m = .exit (.returned, r) := by
        rw [hstart]
        exact passes_succ_of_exit 0 (walkPass_of_ge mem (not_lt_stop hend) 0 r)
      refine ⟨⟨_, _, hexit⟩, fun n r'' htrap => ?_, fun n a ha => ?_⟩
      · cases currentTest_exit_unique hflag hexit htrap
      · rw [testReads_start hflag (hstart 0), walkReads_of_ge mem (not_lt_stop hend)] at ha
        rw [List.mem_singleton.mp ha]
        exact hfirst

/-- The result on the map with one entry. -/
theorem safeWalk_iff_high :
    SafeWalk highMemory highMbi Machine.boot ↔ SafeMap highMemory highMbi :=
  safeWalk_iff highMemory highMbi Machine.boot (by decide)

/-- An empty map, in a memory of zeros. -/
def emptyMbi : MultibootInfo := ⟨0x40, 0, 0, 0, 0x1000⟩

def zeroMemory : Memory := fun _ => 0

/-- A map of one entry whose size leads back to it. -/
def selfMbi : MultibootInfo := ⟨0x40, 0, 0, 24, 0x1000⟩

def selfMemory : Memory := fun a => if a = 0x1000 then 0xFC else 0xFF

/-- Two unsafe runs: the first one traps, and the second one never ends. -/
theorem walk_unsafe :
    ¬SafeWalk zeroMemory emptyMbi Machine.boot ∧ ¬SafeWalk selfMemory selfMbi Machine.boot := by
  constructor
  · intro h
    have hflag : emptyMbi.flags &&& (1#32 <<< 6) ≠ 0 := by decide
    have hzero : (memoryMapAt zeroMemory emptyMbi.mmapAddr).size = 0 := by decide
    rcases currentTest_zero hflag hzero Machine.boot with ⟨r, -, htrap⟩
    exact h.divides 0 r (htrap 0)
  · intro h
    have hflag : selfMbi.flags &&& (1#32 <<< 6) ≠ 0 := by decide
    have hsize : (memoryMapAt selfMemory selfMbi.mmapAddr).size = 0xFFFFFFFC := by decide
    have hlt : selfMbi.mmapAddr < selfMbi.mmapAddr + selfMbi.mmapLength := by decide
    have hne : (0xFFFFFFFC : BitVec 32) ≠ 0 := by decide
    rcases currentTest_start hflag hne Machine.boot with ⟨r, -, hstart⟩
    rcases h.ends with ⟨n, e, hexit⟩
    rw [hstart selfMemory hsize n] at hexit
    rcases walk_forever hlt hsize n 0 r with ⟨w, hagain⟩
    rw [hagain] at hexit
    cases hexit

end Chuckles.Proofs
