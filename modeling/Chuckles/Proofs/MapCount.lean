import Chuckles.Proofs.MemoryMap

/-!
# `Chuckles.Proofs.MapCount`: the number of the maps and the lines for them

`current_test` computes the number of the maps twice. Before the loop it divides the length
of the map by the size of the first entry, and the loop counts the entries it visits. The
field `size` does not count itself: an entry takes `size + 4` bytes. The step of the loop
adds the 4, and the division does not.

`mapCount_iff` is the main result: on a map of `n` entries of one size `s` the two numbers
agree exactly when `4 * n < s`.
-/

set_option autoImplicit false

namespace Chuckles.Proofs

open Lib Lib.Loop

/-! ### What is printed -/

/-- The number that a call of `printf` reports, when it is the line for the number of the
maps. -/
def foundCount (c : PrintfCall) : Option Int :=
  if c.format = foundLine then
    match c.args with
    | [.int i] => some i.toInt
    | _ => none
  else none

/-- The number of the entry, when a call is the line for an entry. -/
def lineNumber (c : PrintfCall) : Option Int :=
  if c.format = mmapLine then
    match c.args with
    | .int i :: _ => some i.toInt
    | _ => none
  else none

/-- The calls report the number of the entries once, and have one line for each entry, in
order and numbered from 0. -/
structure CountsMaps (mms : List MemoryMap) (calls : List PrintfCall) : Prop where
  found : calls.filterMap foundCount = [(mms.length : Int)]
  lines : calls.filter (fun c => c.format = mmapLine) = mmapCalls 0 mms
  numbers : calls.filterMap lineNumber = (List.range mms.length).map Nat.cast

/-- The lines for the entries are lines for entries. -/
theorem format_of_mem_mmapCalls (mms : List MemoryMap) :
    ∀ (i : Int32) (c : PrintfCall), c ∈ mmapCalls i mms → c.format = mmapLine := by
  induction mms with
  | nil =>
      intro i c hc
      cases hc
  | cons mm mms ih =>
      intro i c hc
      cases List.mem_cons.mp hc with
      | inl hc => rw [hc]
      | inr hc => exact ih _ c hc

/-- The lines count up from the number of the first one. -/
theorem lineNumber_mmapCalls (mms : List MemoryMap) :
    ∀ k : Nat, k + mms.length ≤ 2 ^ 31 →
      (mmapCalls (Int32.ofNat k) mms).filterMap lineNumber
        = (List.range' k mms.length).map Nat.cast := by
  induction mms with
  | nil =>
      intro k _
      rfl
  | cons mm mms ih =>
      intro k hk
      rw [List.length_cons] at hk
      have hline : lineNumber ⟨mmapLine, mmapArgs (Int32.ofNat k) mm⟩ = some (k : Int) := by
        rw [lineNumber, if_pos rfl]
        show some (Int32.ofNat k).toInt = some (k : Int)
        rw [Int32.toInt_ofNat_of_lt (by omega)]
      have hnext : Int32.ofNat k + 1 = Int32.ofNat (k + 1) := (Int32.ofNat_add k 1).symm
      rw [mmapCalls, List.filterMap_cons_some hline, hnext, ih (k + 1) (by omega),
        List.length_cons, List.range'_succ, List.map_cons]

/-! ### The length of the map -/

/-- Entries of one size take that size and 4 bytes each. -/
theorem length_of_mapAt {mem : Memory} {stop : Nat} {s : BitVec 32} (hstop : stop < 2 ^ 32)
    (mms : List MemoryMap) :
    ∀ a : BitVec 32, MapAt mem stop a mms → (∀ mm ∈ mms, mm.size = s) →
      a.toNat + mms.length * (s.toNat + 4) = stop := by
  induction mms with
  | nil =>
      intro a hmap _
      rw [List.length_nil, Nat.zero_mul]
      exact hmap
  | cons mm mms ih =>
      intro a hmap hsizes
      obtain ⟨-, -, hend, hrest⟩ := hmap
      obtain rfl : mm.size = s := hsizes mm List.mem_cons_self
      have hlen := ih _ hrest fun mm' hmm' => hsizes mm' (List.mem_cons_of_mem _ hmm')
      -- The next address does not wrap, because the entry ends before `stop`.
      have hnext : (a + mm.size + 4).toNat = a.toNat + mm.size.toNat + 4 := by
        rw [BitVec.toNat_add, BitVec.toNat_add]
        show ((a.toNat + mm.size.toNat) % 2 ^ 32 + 4) % 2 ^ 32 = _
        omega
      rw [List.length_cons, Nat.succ_mul]
      omega

/-- The division is right as long as the forgotten bytes do not make up a further entry. -/
theorem div_size_iff (n s : Nat) (hs : 0 < s) : n * (s + 4) / s = n ↔ 4 * n < s := by
  have hsplit : n * (s + 4) = 4 * n + n * s := by
    rw [Nat.mul_add, Nat.mul_comm n 4, Nat.add_comm]
  rw [hsplit, Nat.add_mul_div_right _ _ hs, ← Nat.div_eq_zero_iff_lt hs]
  omega

/-! ### The result -/

section
variable {mbi : MultibootInfo} {size : BitVec 32} {calls : List PrintfCall}

/-- The opening and the lines report one number, that of the division. -/
theorem Opening.foundCounts (h : Opening mbi size calls) (mms : List MemoryMap) :
    (calls ++ mmapCalls 0 mms).filterMap foundCount
      = [(Int32.ofBitVec (mbi.mmapLength / size)).toInt] := by
  obtain ⟨before, rfl, hother⟩ := h
  have hbefore : before.filterMap foundCount = [] := by
    rw [List.filterMap_eq_nil_iff]
    intro c hc
    exact if_neg (hother c hc).2
  have hlines : (mmapCalls 0 mms).filterMap foundCount = [] := by
    rw [List.filterMap_eq_nil_iff]
    intro c hc
    have hne : mmapLine ≠ foundLine := by decide
    rw [foundCount, if_neg (by rw [format_of_mem_mmapCalls mms 0 c hc]; exact hne)]
  rw [List.filterMap_append, List.filterMap_append, hbefore, hlines, List.append_nil,
    List.nil_append]
  rfl

/-- The lines for the entries are the last calls. -/
theorem Opening.lines (h : Opening mbi size calls) (mms : List MemoryMap) :
    (calls ++ mmapCalls 0 mms).filter (fun c => c.format = mmapLine) = mmapCalls 0 mms := by
  have hcalls : calls.filter (fun c => c.format = mmapLine) = [] := by
    rw [List.filter_eq_nil_iff]
    intro c hc
    simpa using h.format_ne c hc
  have hlines : (mmapCalls 0 mms).filter (fun c => c.format = mmapLine) = mmapCalls 0 mms := by
    rw [List.filter_eq_self]
    intro c hc
    simpa using format_of_mem_mmapCalls mms 0 c hc
  rw [List.filter_append, hcalls, hlines, List.nil_append]

/-- The lines are numbered from 0. -/
theorem Opening.numbers (h : Opening mbi size calls) {mms : List MemoryMap}
    (hmax : mms.length ≤ 2 ^ 31) :
    (calls ++ mmapCalls 0 mms).filterMap lineNumber
      = (List.range mms.length).map Nat.cast := by
  have hcalls : calls.filterMap lineNumber = [] := by
    rw [List.filterMap_eq_nil_iff]
    intro c hc
    exact if_neg (h.format_ne c hc)
  rw [List.filterMap_append, hcalls, List.nil_append, List.range_eq_range']
  exact lineNumber_mmapCalls mms 0 (by omega)

/-- The opening and the lines count the maps exactly when the division does. -/
theorem countsMaps_iff (h : Opening mbi size calls) {mms : List MemoryMap}
    (hmax : mms.length ≤ 2 ^ 31) :
    CountsMaps mms (calls ++ mmapCalls 0 mms)
      ↔ (Int32.ofBitVec (mbi.mmapLength / size)).toInt = mms.length := by
  constructor
  · intro hcount
    exact List.singleton_inj.mp ((h.foundCounts mms).symm.trans hcount.found)
  · intro hcount
    exact ⟨(h.foundCounts mms).trans (by rw [hcount]), h.lines mms, h.numbers hmax⟩

end

/-- The run on a well-formed map with an entry: the calls are the opening and one line for
each entry. -/
theorem currentTest_calls {mem : Memory} {mbi : MultibootInfo} {mm : MemoryMap}
    {mms : List MemoryMap} (hflag : mbi.flags &&& (1#32 <<< 6) ≠ 0)
    (hmap : WellFormedMap mem mbi (mm :: mms)) (m : Machine) :
    ∃ r, currentTest (mms.length + 2) mem mbi m = .exit (.returned, r)
      ∧ r.calls = openingCalls mbi mm.size ++ mmapCalls 0 (mm :: mms) := by
  obtain ⟨hentry, hsize, -⟩ := hmap.2
  have hne : mm.size ≠ 0 := by
    intro hzero
    rw [hzero] at hsize
    exact absurd hsize (by decide)
  obtain ⟨r, hopening, hstart⟩ := currentTest_start hflag hne m
  have hstop : (mbi.mmapAddr + mbi.mmapLength).toNat
      = mbi.mmapAddr.toNat + mbi.mmapLength.toNat := by
    rw [BitVec.toNat_add, Nat.mod_eq_of_lt hmap.1]
  have hmapAt := hmap.2
  rw [← hstop] at hmapAt
  obtain ⟨r', hexit, hcalls⟩ := walk_spec (mm :: mms) 0 mbi.mmapAddr r hmapAt
  rw [hopening] at hcalls
  exact ⟨r', (hstart mem (by rw [hentry]) _).trans hexit, hcalls⟩

/-- **On a well-formed map of entries of one size, the number before the lines is the number
of the lines exactly when four times that number is below the size.** -/
theorem mapCount_iff (mem : Memory) (mbi : MultibootInfo) (mms : List MemoryMap) (s : BitVec 32)
    (m : Machine) (hflag : mbi.flags &&& (1#32 <<< 6) ≠ 0) (hmap : WellFormedMap mem mbi mms)
    (hsome : mms ≠ []) (hsizes : ∀ mm ∈ mms, mm.size = s) :
    (∃ n r, currentTest n mem mbi m = .exit (.returned, r) ∧ CountsMaps mms r.calls)
      ↔ 4 * mms.length < s.toNat := by
  obtain ⟨mm, mms', rfl⟩ := List.exists_cons_of_ne_nil hsome
  obtain ⟨r, hexit, hcalls⟩ := currentTest_calls hflag hmap m
  have hopening := opening_openingCalls mbi s
  obtain ⟨-, hsize, -⟩ := hmap.2
  have hs : mm.size = s := hsizes mm List.mem_cons_self
  rw [hs] at hsize hcalls
  have hlen := length_of_mapAt hmap.1 (mm :: mms') _ hmap.2 hsizes
  have hlt := mbi.mmapLength.isLt
  have hbytes : (mm :: mms').length * (s.toNat + 4) = mbi.mmapLength.toNat := by omega
  have hmax : (mm :: mms').length ≤ 2 ^ 31 := by
    have : (mm :: mms').length * 24 ≤ (mm :: mms').length * (s.toNat + 4) :=
      Nat.mul_le_mul_left _ (by omega)
    omega
  -- The quotient is small, so it is the number that `%d` prints.
  have hquot : (mbi.mmapLength / s).toNat = (mm :: mms').length * (s.toNat + 4) / s.toNat := by
    rw [BitVec.toNat_udiv, hbytes]
  have hfound : (Int32.ofBitVec (mbi.mmapLength / s)).toInt
      = ((mm :: mms').length * (s.toNat + 4) / s.toNat : Nat) := by
    show (mbi.mmapLength / s).toInt = _
    rw [BitVec.toInt_eq_toNat_of_lt, hquot]
    have : (mbi.mmapLength / s).toNat ≤ 2 ^ 32 / 20 := by
      rw [BitVec.toNat_udiv]
      exact Nat.div_le_div (by omega) hsize (by decide)
    omega
  rw [← div_size_iff _ s.toNat (by omega), ← Int.natCast_inj, ← hfound,
    ← countsMaps_iff hopening hmax, ← hcalls]
  constructor
  · rintro ⟨n, r', hexit', hcounts⟩
    have hsame := currentTest_exit_unique hflag hexit hexit'
    rwa [(Prod.mk.inj hsame).2]
  · intro hcounts
    exact ⟨_, r, hexit, hcounts⟩

/-! ### Five entries of the usual size -/

/-- A memory with entries of the size 20 from the address 0x1000 on. -/
def evenMemory : Memory := fun a => if a.toNat % 24 = 0x1000 % 24 then 20 else 0

def fiveMbi : MultibootInfo := ⟨0x40, 0, 0, 120, 0x1000⟩

def evenEntry : MemoryMap := ⟨20, 0, 0, 0, 0, 0⟩

/-- Five entries of the same size, one behind the other. -/
theorem wellFormed_five : WellFormedMap evenMemory fiveMbi (List.replicate 5 evenEntry) := by
  refine ⟨by decide, ?_⟩
  exact ⟨by decide, by decide, by decide, by decide, by decide, by decide, by decide, by decide,
    by decide, by decide, by decide, by decide, by decide, by decide, by decide, rfl⟩

/-- The equivalence on these entries, where neither side holds. -/
theorem mapCount_iff_five :
    (∃ n r, currentTest n evenMemory fiveMbi Machine.boot = .exit (.returned, r)
        ∧ CountsMaps (List.replicate 5 evenEntry) r.calls)
      ↔ 4 * (List.replicate 5 evenEntry).length < (20#32).toNat :=
  mapCount_iff evenMemory fiveMbi (List.replicate 5 evenEntry) 20 Machine.boot (by decide)
    wellFormed_five (by decide) fun _ h => by rw [List.eq_of_mem_replicate h]; rfl

/-- Five entries are announced as six. -/
theorem five_maps_found_as_six :
    (∃ n r, currentTest n evenMemory fiveMbi Machine.boot = .exit (.returned, r)
        ∧ r.calls.filterMap foundCount = [6]
        ∧ (r.calls.filter fun c => c.format = mmapLine).length = 5)
      ∧ ¬ ∃ n r, currentTest n evenMemory fiveMbi Machine.boot = .exit (.returned, r)
        ∧ CountsMaps (List.replicate 5 evenEntry) r.calls := by
  have hopening := opening_openingCalls fiveMbi evenEntry.size
  obtain ⟨r, hexit, hcalls⟩ := currentTest_calls (by decide) wellFormed_five Machine.boot
  have hfound : r.calls.filterMap foundCount = [6] := by
    rw [hcalls]
    exact hopening.foundCounts _
  refine ⟨⟨_, r, hexit, hfound, ?_⟩, ?_⟩
  · rw [hcalls, hopening.lines]
    rfl
  · rintro ⟨n, r', hexit', hcounts⟩
    obtain rfl : r = r' := (Prod.mk.inj (currentTest_exit_unique (by decide) hexit hexit')).2
    have hsame := hfound.symm.trans hcounts.found
    revert hsame
    decide

end Chuckles.Proofs
