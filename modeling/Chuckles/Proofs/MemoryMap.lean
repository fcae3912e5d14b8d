import Chuckles.Kernel.Multiboot
import Chuckles.Proofs.Printf

/-!
# `Chuckles.Proofs.MemoryMap`: the report of the memory map

`MapAt` says that a list of entries is in memory as the boot loader lays them out, one after
the other, up to the end of the map. On such a map the loop of `current_test` prints one line
for each entry, in order (`walk_spec`).

`regions_faithful_iff` is the main result. The lines give the 64-bit base and length of
every entry exactly when the high words of all of them are zero. A high word is shifted by
`sizeof(unsigned int)`, which is 4, and not by the 32 bits of the low word.
-/

set_option autoImplicit false

namespace Chuckles.Proofs

open Lib Lib.Loop

/-! ### The prints -/

/-- A format with matching arguments, and the text that they print. -/
structure PrintsLine (format : List UInt8) (args : List Arg) (text : List UInt8) : Prop where
  zero : 0 ∉ format
  accepted : refFormat format args = some (text, [])
  max : (text.length : Int) ≤ INT_MAX

/-- A print with matching arguments returns, and the call is recorded. -/
theorem report_printf_spec {format : List UInt8} {args : List Arg} {text : List UInt8}
    (h : PrintsLine format args text) (r : Report) :
    ∃ r', r.printf format args = some r' ∧ r'.calls = r.calls ++ [⟨format, args⟩] := by
  obtain ⟨m', hprint, -⟩ := callPrintf_spec format args h.zero r.mach h.accepted h.max
  rw [Report.printf, hprint]
  exact ⟨_, rfl, rfl⟩

/-- A decimal conversion. -/
theorem refFormat_decimal (i : Int32) (rest : List UInt8) (args : List Arg) :
    refFormat (ascii "%d" ++ rest) (.int i :: args)
      = prepend (decimal i) (refFormat rest args) := rfl

/-- A hexadecimal conversion. -/
theorem refFormat_hex (i : Int32) (rest : List UInt8) (args : List Arg) :
    refFormat (ascii "%x" ++ rest) (.int i :: args)
      = prepend (hexText i) (refFormat rest args) := rfl

/-- Literal text up to the end of the format. -/
theorem refFormat_end (lit : List UInt8) (hlit : '%'.toUInt8 ∉ lit)
    (args : List Arg) : refFormat lit args = some (lit, args) := by
  have h := refFormat_literal lit hlit [] args
  rw [List.append_nil] at h
  rw [h]
  simp [refFormat, prepend]

/-- A line with one decimal numeral. -/
theorem printsLine_decimal (format before after : List UInt8)
    (hformat : format = before ++ (ascii "%d" ++ after))
    (hbefore : '%'.toUInt8 ∉ before ∧ 0 ∉ before) (hafter : '%'.toUInt8 ∉ after ∧ 0 ∉ after)
    (hlen : before.length + after.length ≤ 100) (i : Int32) :
    PrintsLine format [.int i] (before ++ (decimal i ++ after)) := by
  constructor
  · rw [hformat, List.mem_append, List.mem_append]
    rintro (h | h | h)
    · exact hbefore.2 h
    · exact absurd h (by decide)
    · exact hafter.2 h
  · rw [hformat, refFormat_literal before hbefore.1, refFormat_decimal,
      refFormat_end after hafter.1]
    rfl
  · have hdec := length_decimal_le i
    have hmax : INT_MAX = 2147483647 := rfl
    rw [List.length_append, List.length_append]
    omega

/-- A line without a numeral. -/
theorem printsLine_literal (text : List UInt8) (htext : '%'.toUInt8 ∉ text ∧ 0 ∉ text)
    (hlen : text.length ≤ 100) : PrintsLine text [] text := by
  have hmax : INT_MAX = 2147483647 := rfl
  exact ⟨htext.2, refFormat_end text htext.1 [], by omega⟩

/-- The text of the line for an entry. -/
def mmapText (i size base length type : Int32) : List UInt8 :=
  ascii "MMAP " ++ (decimal i ++ (ascii ": <S:" ++ (hexText size ++ (ascii ",BASE:" ++
    (hexText base ++ (ascii ",LEN:" ++ (hexText length ++ (ascii ",T:" ++
      (decimal type ++ ascii ">\n")))))))))

/-- The line for five numbers, in the format language. -/
theorem refFormat_mmapLine (i size base length type : Int32) :
    refFormat mmapLine [.int i, .int size, .int base, .int length, .int type]
      = some (mmapText i size base length type, []) := by
  have hsplit : mmapLine = ascii "MMAP " ++ (ascii "%d" ++ (ascii ": <S:" ++ (ascii "%x" ++
      (ascii ",BASE:" ++ (ascii "%x" ++ (ascii ",LEN:" ++ (ascii "%x" ++ (ascii ",T:" ++
        (ascii "%d" ++ ascii ">\n"))))))))) := by decide
  -- The parts of the line, one after the other.
  rw [hsplit, refFormat_literal _ (by decide), refFormat_decimal,
    refFormat_literal _ (by decide), refFormat_hex, refFormat_literal _ (by decide),
    refFormat_hex, refFormat_literal _ (by decide), refFormat_hex,
    refFormat_literal _ (by decide), refFormat_decimal, refFormat_end _ (by decide)]
  rfl

/-- The text of the line for an entry. -/
def mapEntryText (i : Int32) (mm : MemoryMap) : List UInt8 :=
  mmapText i (Int32.ofBitVec mm.size)
    (Int32.ofBitVec (mm.baseAddrLow + mm.baseAddrHigh <<< sizeofUnsigned))
    (Int32.ofBitVec (mm.lengthLow + mm.lengthHigh <<< sizeofUnsigned)) (Int32.ofBitVec mm.type)

/-- The line for an entry. -/
theorem printsLine_mmapLine (i : Int32) (mm : MemoryMap) :
    PrintsLine mmapLine (mmapArgs i mm) (mapEntryText i mm) := by
  refine ⟨by decide, refFormat_mmapLine i _ _ _ _, ?_⟩
  have hmax : INT_MAX = 2147483647 := rfl
  have hdec := length_decimal_le
  have hhex := length_hexText_le
  have hlits : (ascii "MMAP ").length = 5 ∧ (ascii ": <S:").length = 5
      ∧ (ascii ",BASE:").length = 6 ∧ (ascii ",LEN:").length = 5 ∧ (ascii ",T:").length = 3
      ∧ (ascii ">\n").length = 2 := by decide
  simp only [mapEntryText, mmapText, List.length_append, hlits]
  have h1 := hdec i
  have h2 := hhex (Int32.ofBitVec mm.size)
  have h3 := hhex (Int32.ofBitVec (mm.baseAddrLow + mm.baseAddrHigh <<< sizeofUnsigned))
  have h4 := hhex (Int32.ofBitVec (mm.lengthLow + mm.lengthHigh <<< sizeofUnsigned))
  have h5 := hdec (Int32.ofBitVec mm.type)
  omega

/-- The format of the line for the number of the maps. -/
def foundLine : List UInt8 := ascii "MMAPS FOUND: %d\n"

/-- The line for the lower memory, in KiB. -/
theorem printsLine_memLower (i : Int32) : PrintsLine (ascii "MEM LOWER %dKiB;") [.int i]
    (ascii "MEM LOWER " ++ (decimal i ++ ascii "KiB;")) :=
  printsLine_decimal _ _ _ (by decide) (by decide) (by decide) (by decide) i

/-- The line for the upper memory. -/
theorem printsLine_memUpper (i : Int32) : PrintsLine (ascii "MEM UPPER %dKiB") [.int i]
    (ascii "MEM UPPER " ++ (decimal i ++ ascii "KiB")) :=
  printsLine_decimal _ _ _ (by decide) (by decide) (by decide) (by decide) i

/-- The line for the number of the maps. -/
theorem printsLine_found (i : Int32) : PrintsLine foundLine [.int i]
    (ascii "MMAPS FOUND: " ++ (decimal i ++ ascii "\n")) :=
  printsLine_decimal _ _ _ (by decide) (by decide) (by decide) (by decide) i

/-- The prints before the line for the number of the maps. -/
def sizesCalls (mbi : MultibootInfo) : List PrintfCall :=
  if mbi.flags &&& 1 ≠ 0 then
    [⟨ascii "MEM LOWER %dKiB;", [unsignedArg mbi.memLower]⟩,
      ⟨ascii "MEM UPPER %dKiB", [unsignedArg mbi.memUpper]⟩, ⟨ascii "\n", []⟩]
  else []

/-- They are other lines. -/
theorem format_of_mem_sizesCalls {mbi : MultibootInfo} {c : PrintfCall} (hc : c ∈ sizesCalls mbi) :
    c.format ≠ mmapLine ∧ c.format ≠ foundLine := by
  unfold sizesCalls at hc
  split at hc
  · have hformat : c.format ∈ [ascii "MEM LOWER %dKiB;", ascii "MEM UPPER %dKiB", ascii "\n"] :=
      List.mem_map_of_mem hc
    revert hformat
    generalize c.format = format
    revert format
    decide
  · cases hc

/-- `current_test` makes these prints. -/
theorem memSizes_spec (mbi : MultibootInfo) (r : Report) :
    ∃ r', memSizes mbi r = some r' ∧ r'.calls = r.calls ++ sizesCalls mbi := by
  unfold memSizes sizesCalls
  split
  · obtain ⟨r₁, h₁, hcalls₁⟩ := report_printf_spec
      (printsLine_memLower (Int32.ofBitVec mbi.memLower)) r
    obtain ⟨r₂, h₂, hcalls₂⟩ := report_printf_spec
      (printsLine_memUpper (Int32.ofBitVec mbi.memUpper)) r₁
    obtain ⟨r₃, h₃, hcalls₃⟩ := report_printf_spec
      (printsLine_literal (ascii "\n") (by decide) (by decide)) r₂
    refine ⟨r₃, ?_, ?_⟩
    · simp only [unsignedArg, h₁, h₂, h₃, Option.bind_eq_bind, Option.bind_some]
    · rw [hcalls₃, hcalls₂, hcalls₁, List.append_assoc, List.append_assoc]
      rfl
  · exact ⟨r, rfl, by rw [List.append_nil]⟩

/-! ### The map -/

/-- The entries of the list are in memory from the address `a` on, one after the other, and
the last one ends at `stop`. The field `size` does not count itself. -/
def MapAt (mem : Memory) (stop : Nat) : BitVec 32 → List MemoryMap → Prop
  | a, [] => a.toNat = stop
  | a, mm :: mms =>
    memoryMapAt mem a = mm ∧ 20 ≤ mm.size.toNat ∧ a.toNat + mm.size.toNat + 4 ≤ stop ∧
      MapAt mem stop (a + mm.size + 4) mms

/-- What a well-formed map of the loader is: it is not longer than the address space. -/
def WellFormedMap (mem : Memory) (mbi : MultibootInfo) (mms : List MemoryMap) : Prop :=
  mbi.mmapAddr.toNat + mbi.mmapLength.toNat < 2 ^ 32 ∧
    MapAt mem (mbi.mmapAddr.toNat + mbi.mmapLength.toNat) mbi.mmapAddr mms

/-- The calls of `printf` for the entries, from the number `i` on. -/
def mmapCalls : Int32 → List MemoryMap → List PrintfCall
  | _, [] => []
  | i, mm :: mms => ⟨mmapLine, mmapArgs i mm⟩ :: mmapCalls (i + 1) mms

/-- A pass of the loop below its end. -/
theorem walkPass_of_lt (mem : Memory) {stop a : BitVec 32} (h : a < stop) (i : Int32)
    (r : Report) :
    ∃ r', walkPass mem stop ⟨i, a, r⟩ = .again ⟨i + 1, a + (memoryMapAt mem a).size + 4, r'⟩
      ∧ r'.calls = r.calls ++ [⟨mmapLine, mmapArgs i (memoryMapAt mem a)⟩] := by
  obtain ⟨r', hprint, hcalls⟩ := report_printf_spec (printsLine_mmapLine i (memoryMapAt mem a)) r
  refine ⟨r', ?_, hcalls⟩
  rw [walkPass, walkBody, if_pos h]
  simp only [hprint, Option.bind_eq_bind, Option.bind_some, Option.getD_some]
  rfl

/-- The last pass of the loop. -/
theorem walkPass_of_ge (mem : Memory) {stop a : BitVec 32} (h : ¬ a < stop) (i : Int32)
    (r : Report) : walkPass mem stop ⟨i, a, r⟩ = .exit (.returned, r) := by
  rw [walkPass, walkBody, if_neg h]
  rfl

/-- The loop prints one line for each entry, in order. -/
theorem walk_spec {mem : Memory} {stop : BitVec 32} (mms : List MemoryMap) :
    ∀ (i : Int32) (a : BitVec 32) (r : Report), MapAt mem stop.toNat a mms →
      ∃ r', passes (walkPass mem stop) (mms.length + 1) ⟨i, a, r⟩ = .exit (.returned, r')
        ∧ r'.calls = r.calls ++ mmapCalls i mms := by
  induction mms with
  | nil =>
    intro i a r hmap
    have hstop : ¬ a < stop := by
      have : a.toNat = stop.toNat := hmap
      rw [BitVec.lt_def]
      omega
    exact ⟨r, passes_succ_of_exit 0 (walkPass_of_ge mem hstop i r),
      by rw [mmapCalls, List.append_nil]⟩
  | cons mm mms ih =>
    intro i a r hmap
    obtain ⟨rfl, hsize, hend, hrest⟩ := hmap
    -- An entry takes at least 24 bytes, so its address is below the end.
    have hstop : a < stop := by
      rw [BitVec.lt_def]
      omega
    obtain ⟨r₁, hpass, hcalls₁⟩ := walkPass_of_lt mem hstop i r
    obtain ⟨r₂, hexit, hcalls₂⟩ := ih (i + 1) _ r₁ hrest
    refine ⟨r₂, ?_, ?_⟩
    · rw [List.length_cons, passes_succ_of_again _ hpass, hexit]
    · rw [hcalls₂, hcalls₁, mmapCalls, List.append_assoc, List.singleton_append]

/-! ### The regions -/

/-- A region of memory, as the map gives it: 64-bit base and length. -/
@[ext]
structure Region where
  base : Nat
  length : Nat
  type : Nat
  deriving DecidableEq

/-- The region of an entry. -/
def regionOf (mm : MemoryMap) : Region where
  base := mm.baseAddrLow.toNat + 2 ^ 32 * mm.baseAddrHigh.toNat
  length := mm.lengthLow.toNat + 2 ^ 32 * mm.lengthHigh.toNat
  type := mm.type.toNat

/-- The region that a call of `printf` reports, when it is the line for an entry. -/
def lineRegion (c : PrintfCall) : Option Region :=
  if c.format = mmapLine then
    match c.args with
    | [_, _, .int base, .int length, .int type] =>
      some ⟨base.toBitVec.toNat, length.toBitVec.toNat, type.toBitVec.toNat⟩
    | _ => none
  else none

/-- The regions that calls of `printf` report, in order. -/
def regionsOf (calls : List PrintfCall) : List Region := calls.filterMap lineRegion

/-- The region that the line for an entry reports. -/
def printedRegion (mm : MemoryMap) : Region where
  base := (mm.baseAddrLow + (mm.baseAddrHigh <<< sizeofUnsigned)).toNat
  length := (mm.lengthLow + (mm.lengthHigh <<< sizeofUnsigned)).toNat
  type := mm.type.toNat

/-- Only the lines for the entries report a region. -/
theorem regionsOf_append_of_ne {calls calls' : List PrintfCall}
    (h : ∀ c ∈ calls', c.format ≠ mmapLine) :
    regionsOf (calls ++ calls') = regionsOf calls := by
  have hnone : calls'.filterMap lineRegion = [] := by
    rw [List.filterMap_eq_nil_iff]
    intro c hc
    rw [lineRegion, if_neg (h c hc)]
  rw [regionsOf, List.filterMap_append, hnone, List.append_nil, regionsOf]

/-- The lines for the entries report the printed regions. -/
theorem regionsOf_mmapCalls (mms : List MemoryMap) :
    ∀ i : Int32, regionsOf (mmapCalls i mms) = mms.map printedRegion := by
  induction mms with
  | nil => intro i; rfl
  | cons mm mms ih =>
    intro i
    have hline : lineRegion ⟨mmapLine, mmapArgs i mm⟩ = some (printedRegion mm) := by
      rw [lineRegion, if_pos rfl]
      rfl
    rw [mmapCalls, regionsOf, List.filterMap_cons_some hline]
    show printedRegion mm :: regionsOf (mmapCalls (i + 1) mms) = _
    rw [ih, List.map_cons]

/-- A low word and a high word that was shifted by 4 make the 64-bit value exactly when the
high word is zero. -/
theorem shifted_eq_iff (low high : BitVec 32) :
    (low + (high <<< sizeofUnsigned)).toNat = low.toNat + 2 ^ 32 * high.toNat ↔ high = 0 := by
  constructor
  · intro h
    -- A high word of at least 1 would make the right side larger than a word.
    have hlt := (low + (high <<< sizeofUnsigned)).isLt
    apply BitVec.eq_of_toNat_eq
    show high.toNat = 0
    omega
  · rintro rfl
    show (low + (0#32 <<< sizeofUnsigned)).toNat = _
    rw [BitVec.zero_shiftLeft, BitVec.add_zero]
    rfl

/-- The printed region is the region of the entry exactly when its high words are zero. -/
theorem printedRegion_eq_iff (mm : MemoryMap) :
    printedRegion mm = regionOf mm ↔ mm.baseAddrHigh = 0 ∧ mm.lengthHigh = 0 := by
  rw [Region.ext_iff]
  show _ = _ ∧ _ = _ ∧ mm.type.toNat = mm.type.toNat ↔ _
  rw [← shifted_eq_iff mm.baseAddrLow, ← shifted_eq_iff mm.lengthLow]
  simp only [and_true]
  rfl

/-- The reported regions are those of the entries, in order, and two entries with different
bases or lengths are reported with different ones. -/
structure FaithfulReport (mms : List MemoryMap) (regions : List Region) : Prop where
  lines : regions = mms.map regionOf
  apart : ∀ i j : Nat, ∀ mm ∈ mms[i]?, ∀ mm' ∈ mms[j]?, ∀ r ∈ regions[i]?, ∀ r' ∈ regions[j]?,
    ((regionOf mm).base ≠ (regionOf mm').base → r.base ≠ r'.base) ∧
      ((regionOf mm).length ≠ (regionOf mm').length → r.length ≠ r'.length)

/-- The second property follows from the first. -/
theorem faithfulReport_iff (mms : List MemoryMap) (regions : List Region) :
    FaithfulReport mms regions ↔ regions = mms.map regionOf := by
  refine ⟨fun h => h.lines, fun h => ⟨h, ?_⟩⟩
  subst h
  intro i j mm hmm mm' hmm' r hr r' hr'
  rw [List.getElem?_map, Option.mem_def.mp hmm] at hr
  rw [List.getElem?_map, Option.mem_def.mp hmm'] at hr'
  obtain rfl : regionOf mm = r := by simpa using hr
  obtain rfl : regionOf mm' = r' := by simpa using hr'
  exact ⟨id, id⟩

/-! ### The run -/

section
variable {mbi : MultibootInfo}

/-- A size of zero traps, before a line for an entry. -/
theorem currentTest_zero {mem : Memory} (hflag : mbi.flags &&& (1#32 <<< 6) ≠ 0)
    (hzero : (memoryMapAt mem mbi.mmapAddr).size = 0) (m : Machine) :
    ∃ r, regionsOf r.calls = [] ∧ ∀ n, currentTest n mem mbi m = .exit (.divideError, r) := by
  obtain ⟨r, hsizes, hcalls⟩ := memSizes_spec mbi ⟨m, []⟩
  refine ⟨r, ?_, fun n => ?_⟩
  · rw [hcalls, regionsOf_append_of_ne fun c hc => (format_of_mem_sizesCalls hc).1]
    rfl
  · rw [currentTest, hsizes, Option.bind_some, memMaps, if_pos hflag]
    dsimp only
    rw [if_pos hzero]
    rfl

/-- The calls before the loop: some other prints, and then the line for the number of the
maps, for a first entry of the given size. -/
def Opening (mbi : MultibootInfo) (size : BitVec 32) (calls : List PrintfCall) : Prop :=
  ∃ before, calls = before ++ [⟨foundLine, [unsignedArg (mbi.mmapLength / size)]⟩]
    ∧ ∀ c ∈ before, c.format ≠ mmapLine ∧ c.format ≠ foundLine

/-- The calls before the loop. -/
def openingCalls (mbi : MultibootInfo) (size : BitVec 32) : List PrintfCall :=
  sizesCalls mbi ++ [⟨foundLine, [unsignedArg (mbi.mmapLength / size)]⟩]

/-- They are some prints, and then this line. -/
theorem opening_openingCalls (mbi : MultibootInfo) (size : BitVec 32) :
    Opening mbi size (openingCalls mbi size) :=
  ⟨_, rfl, fun _ hc => format_of_mem_sizesCalls hc⟩

/-- The calls before the loop have no line for an entry. -/
theorem Opening.format_ne {size : BitVec 32} {calls : List PrintfCall}
    (h : Opening mbi size calls) : ∀ c ∈ calls, c.format ≠ mmapLine := by
  obtain ⟨before, rfl, hother⟩ := h
  intro c hc
  -- The line for the number of the maps is not one for an entry.
  have hne : foundLine ≠ mmapLine := by decide
  rw [List.mem_append, List.mem_singleton] at hc
  cases hc with
  | inl hc => exact (hother c hc).1
  | inr hc => rw [hc]; exact hne

/-- So they report no region. -/
theorem Opening.regionsOf_eq {size : BitVec 32} {calls : List PrintfCall}
    (h : Opening mbi size calls) : regionsOf calls = [] := by
  show regionsOf ([] ++ calls) = regionsOf []
  exact regionsOf_append_of_ne h.format_ne

/-- With another size the loop starts at the map. The prints before it depend on the memory
through this size only. -/
theorem currentTest_start (hflag : mbi.flags &&& (1#32 <<< 6) ≠ 0) {size : BitVec 32}
    (hsize : size ≠ 0) (m : Machine) :
    ∃ r, r.calls = openingCalls mbi size ∧ ∀ mem, (memoryMapAt mem mbi.mmapAddr).size = size → ∀ n,
      currentTest n mem mbi m
        = passes (walkPass mem (mbi.mmapAddr + mbi.mmapLength)) n ⟨0, mbi.mmapAddr, r⟩ := by
  obtain ⟨r₁, hsizes, hcalls₁⟩ := memSizes_spec mbi ⟨m, []⟩
  obtain ⟨r₂, hprint, hcalls₂⟩ :=
    report_printf_spec (printsLine_found (Int32.ofBitVec (mbi.mmapLength / size))) r₁
  refine ⟨r₂, ?_, fun mem hmem n => ?_⟩
  · rw [hcalls₂, hcalls₁]
    rfl
  · have hprint' : r₁.printf (ascii "MMAPS FOUND: %d\n")
        [.int (Int32.ofBitVec (mbi.mmapLength / size))] = some r₂ := hprint
    rw [currentTest, hsizes, Option.bind_some, memMaps, if_pos hflag]
    dsimp only
    rw [hmem, if_neg hsize]
    simp only [unsignedArg, hprint', Option.bind_eq_bind, Option.bind_some, Option.getD_some]

end

/-- On a well-formed map `current_test` ends, by returning or by the trap of the division,
and the lines it has printed report the printed regions. -/
theorem currentTest_spec {mem : Memory} {mbi : MultibootInfo} {mms : List MemoryMap}
    (hflag : mbi.flags &&& (1#32 <<< 6) ≠ 0) (hmap : WellFormedMap mem mbi mms) (m : Machine) :
    ∃ ending r, currentTest (mms.length + 1) mem mbi m = .exit (ending, r)
      ∧ regionsOf r.calls = mms.map printedRegion := by
  by_cases hzero : (memoryMapAt mem mbi.mmapAddr).size = 0
  · obtain ⟨r, hnone, htrap⟩ := currentTest_zero hflag hzero m
    refine ⟨.divideError, r, htrap _, ?_⟩
    -- Only the empty map can have this size at its start.
    cases mms with
    | nil => exact hnone
    | cons mm mms =>
      obtain ⟨rfl, hsize, -⟩ := hmap.2
      rw [hzero] at hsize
      exact absurd hsize (by decide)
  · obtain ⟨r, hopening, hstart⟩ := currentTest_start hflag hzero m
    have hstop : (mbi.mmapAddr + mbi.mmapLength).toNat
        = mbi.mmapAddr.toNat + mbi.mmapLength.toNat := by
      rw [BitVec.toNat_add, Nat.mod_eq_of_lt hmap.1]
    have hmapAt := hmap.2
    rw [← hstop] at hmapAt
    obtain ⟨r', hexit, hcalls⟩ := walk_spec mms 0 mbi.mmapAddr r hmapAt
    refine ⟨.returned, r', (hstart mem rfl _).trans hexit, ?_⟩
    rw [hcalls, regionsOf, List.filterMap_append]
    show regionsOf r.calls ++ regionsOf (mmapCalls 0 mms) = _
    rw [hopening, (opening_openingCalls mbi _).regionsOf_eq, regionsOf_mmapCalls, List.nil_append]

/-- How `current_test` ends does not depend on the number of passes that are allowed. -/
theorem currentTest_exit_unique {n n' : Nat} {mem : Memory} {mbi : MultibootInfo} {m : Machine}
    {e e' : Ending × Report} (hflag : mbi.flags &&& (1#32 <<< 6) ≠ 0)
    (h : currentTest n mem mbi m = .exit e) (h' : currentTest n' mem mbi m = .exit e') :
    e = e' := by
  by_cases hzero : (memoryMapAt mem mbi.mmapAddr).size = 0
  · obtain ⟨r, -, htrap⟩ := currentTest_zero hflag hzero m
    rw [htrap] at h h'
    exact (Pass.exit.inj h).symm.trans (Pass.exit.inj h')
  · obtain ⟨r, -, hstart⟩ := currentTest_start hflag hzero m
    rw [hstart mem rfl] at h h'
    exact exit_unique h h'

/-- **The lines give the 64-bit regions of a well-formed map, in order, exactly when the
high words of all its entries are zero.** -/
theorem regions_faithful_iff (mem : Memory) (mbi : MultibootInfo) (mms : List MemoryMap)
    (m : Machine) (hflag : mbi.flags &&& (1#32 <<< 6) ≠ 0) (hmap : WellFormedMap mem mbi mms) :
    (∃ n ending r, currentTest n mem mbi m = .exit (ending, r)
        ∧ FaithfulReport mms (regionsOf r.calls))
      ↔ ∀ mm ∈ mms, mm.baseAddrHigh = 0 ∧ mm.lengthHigh = 0 := by
  obtain ⟨ending, r, hexit, hregions⟩ := currentTest_spec hflag hmap m
  have hmaps : mms.map printedRegion = mms.map regionOf
      ↔ ∀ mm ∈ mms, mm.baseAddrHigh = 0 ∧ mm.lengthHigh = 0 := by
    rw [List.map_inj_left]
    exact forall₂_congr fun mm _ => printedRegion_eq_iff mm
  rw [← hmaps, ← hregions, ← faithfulReport_iff]
  constructor
  · rintro ⟨n, ending', r', hexit', hfaithful⟩
    have hsame := currentTest_exit_unique hflag hexit hexit'
    rwa [(Prod.mk.inj hsame).2]
  · intro hfaithful
    exact ⟨_, ending, r, hexit, hfaithful⟩

/-! ### A region at 4 GiB -/

/-- A memory with one entry at 0x1000: 4096 bytes of memory at the base 2 ^ 32. -/
def highMemory : Memory := fun a =>
  if a = 0x1000 then 20 else if a = 0x1008 then 1 else if a = 0x100D then 0x10
  else if a = 0x1014 then 1 else 0

def highMbi : MultibootInfo := ⟨0x40, 0, 0, 24, 0x1000⟩

def highEntry : MemoryMap := ⟨20, 0, 1, 0x1000, 0, 1⟩

/-- Its map has this entry. -/
theorem wellFormed_highMemory : WellFormedMap highMemory highMbi [highEntry] :=
  ⟨by decide, by decide, by decide, by decide, rfl⟩

/-- The equivalence on this map, where neither side holds. -/
theorem regions_faithful_iff_high :
    (∃ n ending r, currentTest n highMemory highMbi Machine.boot = .exit (ending, r)
        ∧ FaithfulReport [highEntry] (regionsOf r.calls))
      ↔ ∀ mm ∈ [highEntry], mm.baseAddrHigh = 0 ∧ mm.lengthHigh = 0 :=
  regions_faithful_iff highMemory highMbi [highEntry] Machine.boot (by decide)
    wellFormed_highMemory

/-- The region at 4 GiB is reported at the address 16. -/
theorem high_region_misreported :
    (∃ n ending r, currentTest n highMemory highMbi Machine.boot = .exit (ending, r)
        ∧ regionsOf r.calls = [⟨16, 4096, 1⟩])
      ∧ ¬ ∃ n ending r, currentTest n highMemory highMbi Machine.boot = .exit (ending, r)
        ∧ FaithfulReport [highEntry] (regionsOf r.calls) := by
  obtain ⟨ending, r, hexit, hregions⟩ := currentTest_spec (by decide) wellFormed_highMemory
    Machine.boot
  refine ⟨⟨_, ending, r, hexit, hregions.trans (by decide)⟩, ?_⟩
  rintro ⟨n, ending', r', hexit', hfaithful⟩
  obtain rfl : r = r' := (Prod.mk.inj (currentTest_exit_unique (by decide) hexit hexit')).2
  have hlines := hregions.symm.trans hfaithful.lines
  revert hlines
  decide

end Chuckles.Proofs
