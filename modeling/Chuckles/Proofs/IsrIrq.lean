import Chuckles.Kernel.IsrIrq

/-!
# `Chuckles.Proofs.IsrIrq`: the frame that interrupt entry builds

`enter_spec` is the specification of a common stub: the words that it puts on the stack.
With it `handlerRegs_eq` says what the C handler reads through its argument.

`frame_iff` is the main result. The frame is the one that the handlers expect, except for
the vector 17, whose stub pushes a second error code, and for the vectors 2 to 9, whose
stubs push the word at the address of the vector and not the number of the vector.
-/

set_option autoImplicit false

namespace Chuckles.Proofs

open Lib Lib.X86

/-! ### The common stubs -/

/-- A field of the frame for a segment register: its low half is the register, and the
whole field is when the processor extends it with zeros. -/
def SegField (mode : SegPush) (field : BitVec 32) (value : BitVec 16) : Prop :=
  field.setWidth 16 = value ∧ (mode = .zeroExtended → field = value.setWidth 32)

/-- A push of a segment register puts such a field on the stack. -/
theorem stacked_pushSeg (mode : SegPush) {s : State} {ws : List (BitVec 32)}
    (h : Stacked s ws) (hroom : ws.length ≤ 100) (r : Seg) :
    ∃ field, SegField mode field (s.seg r) ∧ Stacked (step mode s (.pushSeg r)) (field :: ws) := by
  refine ⟨s.segWord mode r, ⟨segWord_low mode s r, ?_⟩, stacked_push h _ (by omega)⟩
  rintro rfl
  rfl

/-- The state of a common stub after it has pushed all registers. -/
def saved (mode : SegPush) (s : State) : State :=
  run mode [.pusha, .pushSeg .ds, .pushSeg .es, .pushSeg .fs, .pushSeg .gs] s

/-- The registers on the stack, the one that was pushed last on top. -/
theorem stacked_saved (mode : SegPush) {s : State} {ws : List (BitVec 32)} (h : Stacked s ws)
    (hroom : ws.length ≤ 80) :
    ∃ gs fs es ds, SegField mode gs (s.seg .gs) ∧ SegField mode fs (s.seg .fs) ∧
      SegField mode es (s.seg .es) ∧ SegField mode ds (s.seg .ds) ∧
      Stacked (saved mode s) ([gs, fs, es, ds, s.reg .edi, s.reg .esi, s.reg .ebp, s.esp,
        s.reg .ebx, s.reg .edx, s.reg .ecx, s.reg .eax] ++ ws) := by
  have h₀ := stacked_pushAll (pushaOrder.map s.reg) h (by simp [pushaOrder]; omega)
  have hseg := pushAll_seg (pushaOrder.map s.reg) s
  obtain ⟨ds, hds, h₁⟩ := stacked_pushSeg mode h₀ (by simp [pushaOrder]; omega) .ds
  obtain ⟨es, hes, h₂⟩ := stacked_pushSeg mode h₁ (by simp [pushaOrder]; omega) .es
  obtain ⟨fs, hfs, h₃⟩ := stacked_pushSeg mode h₂ (by simp [pushaOrder]; omega) .fs
  obtain ⟨gs, hgs, h₄⟩ := stacked_pushSeg mode h₃ (by simp [pushaOrder]; omega) .gs
  exact ⟨gs, fs, es, ds, hgs, hfs, hes, hds, h₄⟩

/-- A load into `eax` leaves the words on the stack. -/
theorem load_stacked (mode : SegPush) (a : BitVec 32) {s : State} {ws : List (BitVec 32)}
    (h : Stacked s ws) : Stacked (step mode s (.mov .eax (.mem a))) ws := h.congr rfl rfl

/-- The rest of a common stub: it pushes the address of the words on the stack, and the call
pushes its return address. The moves change neither `esp` nor the memory. -/
theorem stacked_call (mode : SegPush) (handler ret : BitVec 32) {s : State}
    {ws : List (BitVec 32)} (h : Stacked s ws) (hroom : ws.length ≤ 100) :
    Stacked (run mode ((enter handler ret).drop 5) s)
      (ret :: ((run mode ((enter handler ret).drop 5) s).esp + 8) :: ws) := by
  have hmoved : Stacked (run mode [.movw .eax 0x10, .movSeg .ds .eax, .movSeg .es .eax,
      .movSeg .fs .eax, .movSeg .gs .eax, .mov .eax (.reg .esp)] s) ws := h.congr rfl rfl
  have harg := stacked_push hmoved s.esp (by omega)
  have hloaded := load_stacked mode handler harg
  have hret := stacked_push hloaded ret (by simp; omega)
  have hesp : (run mode ((enter handler ret).drop 5) s).esp + 8 = s.esp := by
    have hpushed : (run mode ((enter handler ret).drop 5) s).esp = s.esp - 4 - 4 := rfl
    rw [hpushed]
    bv_omega
  rw [hesp]
  exact hret

/-- The words that a common stub puts on the stack. The argument of the handler is the
address of the words above it. -/
theorem enter_spec (mode : SegPush) (handler ret : BitVec 32) {s : State}
    {ws : List (BitVec 32)} (h : Stacked s ws) (hroom : ws.length ≤ 80) :
    ∃ gs fs es ds, SegField mode gs (s.seg .gs) ∧ SegField mode fs (s.seg .fs) ∧
      SegField mode es (s.seg .es) ∧ SegField mode ds (s.seg .ds) ∧
      Stacked (run mode (enter handler ret) s)
        (ret :: ((run mode (enter handler ret) s).esp + 8) ::
          ([gs, fs, es, ds, s.reg .edi, s.reg .esi, s.reg .ebp, s.esp, s.reg .ebx,
            s.reg .edx, s.reg .ecx, s.reg .eax] ++ ws)) := by
  obtain ⟨gs, fs, es, ds, hgs, hfs, hes, hds, hsaved⟩ := stacked_saved mode h hroom
  refine ⟨gs, fs, es, ds, hgs, hfs, hes, hds, ?_⟩
  have hrun : run mode (enter handler ret) s
      = run mode ((enter handler ret).drop 5) (saved mode s) :=
    run_append mode ((enter handler ret).take 5) ((enter handler ret).drop 5) s
  rw [hrun]
  generalize saved mode s = t at hsaved ⊢
  exact stacked_call mode handler ret hsaved (by simp; omega)

/-- The frame that the handler reads, when the words of the frame are on the stack above
the return address and the argument. -/
theorem handlerRegs_eq {s : State} {ret gs fs es ds edi esi ebp esp ebx edx ecx eax n err eip cs
    eflags : BitVec 32} {rest : List (BitVec 32)}
    (h : Stacked s (ret :: (s.esp + 8) :: ([gs, fs, es, ds, edi, esi, ebp, esp, ebx, edx, ecx,
      eax] ++ ([n, err, eip, cs, eflags] ++ rest)))) :
    ∃ useresp ss, handlerRegs s = ⟨gs, fs, es, ds, edi, esi, ebp, esp, ebx, edx, ecx, eax, n, err,
      eip, cs, eflags, useresp, ss⟩ := by
  have harg : s.mem.read32 (s.esp + 4) = s.esp + 8 := h 1 _ rfl
  -- The fields lie above the return address and the argument.
  have hfield (k : Nat) (w : BitVec 32) (hw : ([gs, fs, es, ds, edi, esi, ebp, esp, ebx, edx,
      ecx, eax] ++ ([n, err, eip, cs, eflags] ++ rest))[k]? = some w) :
      s.mem.read32 (s.esp + 8 + BitVec.ofNat 32 (4 * k)) = w := by
    have hk := h (k + 2) w (by simpa using hw)
    rwa [show BitVec.ofNat 32 (4 * (k + 2)) = 8 + BitVec.ofNat 32 (4 * k) by
      rw [Nat.mul_add, BitVec.ofNat_add, BitVec.add_comm]; rfl, ← BitVec.add_assoc] at hk
  refine ⟨s.mem.read32 (s.esp + 8 + 68), s.mem.read32 (s.esp + 8 + 72), ?_⟩
  rw [handlerRegs, harg]
  apply Regs.ext
  · exact hfield 0 gs rfl
  · exact hfield 1 fs rfl
  · exact hfield 2 es rfl
  · exact hfield 3 ds rfl
  · exact hfield 4 edi rfl
  · exact hfield 5 esi rfl
  · exact hfield 6 ebp rfl
  · exact hfield 7 esp rfl
  · exact hfield 8 ebx rfl
  · exact hfield 9 edx rfl
  · exact hfield 10 ecx rfl
  · exact hfield 11 eax rfl
  · exact hfield 12 n rfl
  · exact hfield 13 err rfl
  · exact hfield 14 eip rfl
  · exact hfield 15 cs rfl
  · exact hfield 16 eflags rfl
  · rfl
  · rfl

/-! ### The stubs -/

/-- The vectors for which the processor pushes an error code. -/
def HasErrorCode (v : Fin 48) : Prop := v = 8 ∨ (10 ≤ v ∧ v ≤ 14) ∨ v = 17

instance (v : Fin 48) : Decidable (HasErrorCode v) := by
  unfold HasErrorCode
  infer_instance

/-- The vectors whose stubs push a word of memory. -/
def PushesMemory (v : Fin 48) : Prop := 2 ≤ v ∧ v ≤ 9

instance (v : Fin 48) : Decidable (PushesMemory v) := by
  unfold PushesMemory
  infer_instance

/-- The error code that the processor pushes for the vector. -/
def errorCode (v : Fin 48) (e : BitVec 32) : Option (BitVec 32) :=
  if HasErrorCode v then some e else none

/-- The operand of the second push of a stub. -/
def vectorOperand (v : Fin 48) : Operand :=
  if PushesMemory v then .mem (BitVec.ofNat 32 v) else .imm (BitVec.ofNat 32 v)

/-- All stubs have one of two forms. The stub of the vector 17 is of the wrong one. -/
theorem stub_eq : ∀ v : Fin 48, stub v =
    (if HasErrorCode v ∧ v ≠ 17 then errorStub else noErrorStub) (vectorOperand v)
      (if v.val < 32 then .isr else .irq) := by decide

/-- What the processor and the stub push below the interrupted stack pointer, except for the
number of the vector. -/
def pushedWords (pad : BitVec 16) (v : Fin 48) (e : BitVec 32) (s : State) : List (BitVec 32) :=
  [s.eflags, pad ++ s.cs, s.eip, (errorCode v e).getD 0]

/-- The state of the stub before it pushes the number of its vector. -/
def beforeVector (pad : BitVec 16) (v : Fin 48) (e : BitVec 32) (s : State) : State :=
  s.pushAll (pushedWords pad v e s)

/-- The state in which the processor has delivered the interrupt. -/
def delivered (pad : BitVec 16) (gate : Gate) (v : Fin 48) (e : BitVec 32) (s : State) : State :=
  interrupt pad (errorCode v e) gate s

/-- What a stub leaves for its common stub: the frame on the stack, `k` words below the
interrupted stack pointer, and all other registers as they were. -/
structure StubLeaves (s s' : State) (ws : List (BitVec 32)) : Prop where
  stacked : Stacked s' ws
  esp : s'.esp = s.esp - BitVec.ofNat 32 (4 * ws.length)
  reg : ∀ r, r ≠ .esp → s'.reg r = s.reg r
  seg : s'.seg = s.seg

/-- The delivery of the interrupt. -/
theorem delivered_leaves (pad : BitVec 16) (gate : Gate) (v : Fin 48) (e : BitVec 32)
    (s : State) :
    StubLeaves s (delivered pad gate v e s) (interruptWords pad (errorCode v e) s).reverse := by
  refine ⟨interrupt_stacked pad _ gate s, ?_, fun r hr => pushAll_reg_of_ne _ hr s,
    pushAll_seg _ s⟩
  rw [List.length_reverse]
  exact pushAll_esp _ s

/-- `cli` leaves the frame. -/
theorem StubLeaves.cli {s s' : State} {ws : List (BitVec 32)} (mode : SegPush)
    (h : StubLeaves s s' ws) : StubLeaves s (step mode s' .cli) ws :=
  ⟨h.stacked.congr rfl rfl, h.esp, h.reg, h.seg⟩

/-- A push adds a word to the frame. -/
theorem StubLeaves.push {s s' : State} {ws : List (BitVec 32)} (h : StubLeaves s s' ws)
    (v : BitVec 32) (hroom : ws.length ≤ 100) : StubLeaves s (s'.push v) (v :: ws) := by
  refine ⟨stacked_push h.stacked v (by omega), ?_, fun r hr => ?_, h.seg⟩
  · rw [push_esp, h.esp, List.length_cons]
    bv_omega
  · rw [push_reg_of_ne s' v hr, h.reg r hr]

/-- A stub of the right form leaves the number, the error code and the words of the
processor. -/
theorem stub_leaves (mode : SegPush) (pad : BitVec 16) (gate : Gate) {v : Fin 48}
    (hv : v ≠ 17) (e : BitVec 32) (s : State) :
    StubLeaves s (run mode (stub v).code (delivered pad gate v e s))
      [(beforeVector pad v e s).value (vectorOperand v), (errorCode v e).getD 0, s.eip,
        pad ++ s.cs, s.eflags] := by
  have hcli := (delivered_leaves pad gate v e s).cli mode
  -- The operand may be a word of memory, so the memory at the second push matters.
  have hvalue (s₁ : State) (hmem : s₁.mem = (beforeVector pad v e s).mem) :
      s₁.value (vectorOperand v) = (beforeVector pad v e s).value (vectorOperand v) := by
    unfold vectorOperand
    split
    · rw [State.value, State.value, hmem]
    · rfl
  rw [stub_eq v]
  -- With an error code the processor has pushed the second word, without one the stub.
  by_cases herr : HasErrorCode v
  · have hcode : errorCode v e = some e := if_pos herr
    have hmem : (step mode (delivered pad gate v e s) .cli).mem = (beforeVector pad v e s).mem := by
      rw [delivered, beforeVector, pushedWords, hcode]
      rfl
    rw [delivered, hcode] at hcli
    have h := hcli.push ((beforeVector pad v e s).value (vectorOperand v))
      (by simp [interruptWords])
    rw [if_pos ⟨herr, hv⟩, hcode, ← hvalue _ hmem]
    rw [← hvalue _ hmem, delivered, hcode] at h
    rw [delivered, hcode]
    exact h
  · have hcode : errorCode v e = none := if_neg herr
    have hmem : ((step mode (delivered pad gate v e s) .cli).push 0).mem
        = (beforeVector pad v e s).mem := by
      rw [delivered, beforeVector, pushedWords, hcode]
      rfl
    rw [delivered, hcode] at hcli
    have h := (hcli.push 0 (by simp [interruptWords])).push
      ((beforeVector pad v e s).value (vectorOperand v)) (by simp [interruptWords])
    rw [if_neg fun h => herr h.1, hcode, ← hvalue _ hmem]
    rw [← hvalue _ hmem, delivered, hcode] at h
    rw [delivered, hcode]
    exact h

/-- The stub of the vector 17 pushes a zero on top of the error code. -/
theorem stub_leaves_alignment (mode : SegPush) (pad : BitVec 16) (gate : Gate) (e : BitVec 32)
    (s : State) :
    StubLeaves s (run mode (stub 17).code (delivered pad gate 17 e s))
      [17, 0, e, s.eip, pad ++ s.cs, s.eflags] := by
  have hcli := (delivered_leaves pad gate 17 e s).cli mode
  have hcode : errorCode 17 e = some e := rfl
  rw [hcode] at hcli
  exact (hcli.push 0 (by simp [interruptWords])).push 17 (by simp [interruptWords])

/-- What the handler reads behind a stub. -/
theorem handlerRegs_of_leaves (mode : SegPush) (k : Symbols) (target : CommonStub) {s s' : State}
    {n err eip cs eflags : BitVec 32} (rest : List (BitVec 32))
    (h : StubLeaves s s' ([n, err, eip, cs, eflags] ++ rest)) (hroom : rest.length ≤ 10) :
    ∃ gs fs es ds useresp ss, SegField mode gs (s.seg .gs) ∧ SegField mode fs (s.seg .fs) ∧
      SegField mode es (s.seg .es) ∧ SegField mode ds (s.seg .ds) ∧
      handlerRegs (run mode (k.enter target) s') = ⟨gs, fs, es, ds, s.reg .edi, s.reg .esi,
        s.reg .ebp, s'.esp, s.reg .ebx, s.reg .edx, s.reg .ecx, s.reg .eax, n, err, eip, cs,
        eflags, useresp, ss⟩ := by
  obtain ⟨handler, ret, henter⟩ : ∃ handler ret, k.enter target = enter handler ret := by
    cases target <;> exact ⟨_, _, rfl⟩
  obtain ⟨gs, fs, es, ds, hgs, hfs, hes, hds, hstacked⟩ :=
    enter_spec mode handler ret h.stacked (by simp; omega)
  obtain ⟨useresp, ss, hregs⟩ := handlerRegs_eq hstacked
  rw [h.seg] at hgs hfs hes hds
  rw [h.reg _ (by decide), h.reg _ (by decide), h.reg _ (by decide), h.reg _ (by decide),
    h.reg _ (by decide), h.reg _ (by decide), h.reg _ (by decide)] at hregs
  rw [henter]
  exact ⟨gs, fs, es, ds, useresp, ss, hgs, hfs, hes, hds, hregs⟩

/-! ### The frame -/

/-- The frame that the C handlers expect for the vector `v`: its number, the error code of
the processor or 0, the words that the processor pushed, and the interrupted registers. The
field `esp` is what `pusha` saves: the stack pointer five words below the interrupted one. -/
structure FrameOf (mode : SegPush) (pad : BitVec 16) (v : Fin 48) (e : BitVec 32) (s : State)
    (r : Regs) : Prop where
  intNo : r.intNo = BitVec.ofNat 32 v
  errCode : r.errCode = (errorCode v e).getD 0
  eip : r.eip = s.eip
  cs : r.cs = pad ++ s.cs
  eflags : r.eflags = s.eflags
  edi : r.edi = s.reg .edi
  esi : r.esi = s.reg .esi
  ebp : r.ebp = s.reg .ebp
  esp : r.esp = s.esp - 20
  ebx : r.ebx = s.reg .ebx
  edx : r.edx = s.reg .edx
  ecx : r.ecx = s.reg .ecx
  eax : r.eax = s.reg .eax
  ds : SegField mode r.ds (s.seg .ds)
  es : SegField mode r.es (s.seg .es)
  fs : SegField mode r.fs (s.seg .fs)
  gs : SegField mode r.gs (s.seg .gs)

/-- The operand of the second push is the number of the vector exactly when the stub pushes a
constant, or the word at the address of the vector is its number. -/
theorem value_vectorOperand_iff (pad : BitVec 16) (v : Fin 48) (e : BitVec 32) (s : State) :
    (beforeVector pad v e s).value (vectorOperand v) = BitVec.ofNat 32 v ↔
      (PushesMemory v →
        (beforeVector pad v e s).mem.read32 (BitVec.ofNat 32 v) = BitVec.ofNat 32 v) := by
  unfold vectorOperand
  by_cases hv : PushesMemory v
  · rw [if_pos hv]
    exact ⟨fun h _ => h, fun h => h hv⟩
  · rw [if_neg hv]
    exact ⟨fun _ h => absurd h hv, fun _ => rfl⟩

/-- What the handler reads for a vector whose stub has the right form. -/
theorem handlerRegs_of_ne (mode : SegPush) (k : Symbols) (pad : BitVec 16) (gate : Gate)
    {v : Fin 48} (hv : v ≠ 17) (e : BitVec 32) (s : State) :
    ∃ gs fs es ds useresp ss, SegField mode gs (s.seg .gs) ∧ SegField mode fs (s.seg .fs) ∧
      SegField mode es (s.seg .es) ∧ SegField mode ds (s.seg .ds) ∧
      handlerRegs (enterHandler mode k v (delivered pad gate v e s)) = ⟨gs, fs, es, ds,
        s.reg .edi, s.reg .esi, s.reg .ebp, s.esp - 20, s.reg .ebx, s.reg .edx, s.reg .ecx,
        s.reg .eax, (beforeVector pad v e s).value (vectorOperand v), (errorCode v e).getD 0,
        s.eip, pad ++ s.cs, s.eflags, useresp, ss⟩ := by
  have hleaves := stub_leaves mode pad gate hv e s
  have hregs := handlerRegs_of_leaves mode k (stub v).target [] hleaves (by simp)
  rw [hleaves.esp] at hregs
  rw [enterHandler, run_append]
  exact hregs

/-- The frame of the vector 17 is a word too deep, whatever the words are. -/
theorem not_frameOf_alignment (mode : SegPush) (k : Symbols) (pad : BitVec 16) (gate : Gate)
    (e : BitVec 32) (s : State) :
    ¬ FrameOf mode pad 17 e s
      (handlerRegs (enterHandler mode k 17 (delivered pad gate 17 e s))) := by
  have hleaves := stub_leaves_alignment mode pad gate e s
  obtain ⟨gs, fs, es, ds, useresp, ss, -, -, -, -, hregs⟩ :=
    handlerRegs_of_leaves mode k (stub 17).target [s.eflags] hleaves (by simp)
  rw [enterHandler, run_append, hregs, hleaves.esp]
  intro h
  have hesp : s.esp - BitVec.ofNat 32 24 = s.esp - 20 := h.esp
  bv_omega

/-- **The stub and the common stub of a vector build the frame that its handler expects
exactly when the vector is not 17 and, for a vector from 2 to 9, the word at the address of
the vector is its number.** The memory is the one below which the processor has pushed its
words and the error code or a zero. -/
theorem frame_iff (mode : SegPush) (k : Symbols) (pad : BitVec 16) (gate : Gate) (v : Fin 48)
    (e : BitVec 32) (s : State) :
    FrameOf mode pad v e s (handlerRegs (enterHandler mode k v (delivered pad gate v e s)))
      ↔ v ≠ 17 ∧ (PushesMemory v →
        (beforeVector pad v e s).mem.read32 (BitVec.ofNat 32 v) = BitVec.ofNat 32 v) := by
  -- The vector 17 never gets its frame. For the others only the number can be wrong.
  by_cases hv : v = 17
  · subst hv
    exact ⟨fun h => absurd h (not_frameOf_alignment mode k pad gate e s), fun h => absurd rfl h.1⟩
  · obtain ⟨gs, fs, es, ds, useresp, ss, hgs, hfs, hes, hds, hregs⟩ :=
      handlerRegs_of_ne mode k pad gate hv e s
    rw [hregs, ← value_vectorOperand_iff]
    constructor
    · intro h
      exact ⟨hv, h.intNo⟩
    · rintro ⟨-, hvalue⟩
      exact ⟨hvalue, rfl, rfl, rfl, rfl, rfl, rfl, rfl, rfl, rfl, rfl, rfl, rfl, hds, hes, hfs, hgs⟩

/-- A state with its stack at 0x1000 and nothing in memory. -/
def emptyState : State where
  reg r := if r = .esp then 0x1000 else 0
  seg _ := 0x10
  cs := 0x08
  eip := 0x00100000
  eflags := 0x202
  mem _ := 0

def someSymbols : Symbols := ⟨0x00101000, 0x00102000, 0x00103000, 0x00104000⟩

/-- A breakpoint in this state reaches the handler as a division by zero. -/
theorem breakpoint_as_division :
    (handlerRegs (enterHandler .zeroExtended someSymbols 3
        (delivered 0 ⟨0x08, 0x00105000⟩ 3 0 emptyState))).intNo = 0
      ∧ ¬ FrameOf .zeroExtended 0 3 0 emptyState (handlerRegs (enterHandler .zeroExtended
        someSymbols 3 (delivered 0 ⟨0x08, 0x00105000⟩ 3 0 emptyState))) := by
  obtain ⟨gs, fs, es, ds, useresp, ss, -, -, -, -, hregs⟩ := handlerRegs_of_ne .zeroExtended
    someSymbols 0 ⟨0x08, 0x00105000⟩ (by decide : (3 : Fin 48) ≠ 17) 0 emptyState
  have hvalue : (beforeVector 0 3 0 emptyState).value (vectorOperand 3) = 0 := by decide
  rw [hregs]
  refine ⟨hvalue, fun h => ?_⟩
  have hintNo : (beforeVector 0 3 0 emptyState).value (vectorOperand 3) = BitVec.ofNat 32 3 :=
    h.intNo
  rw [hvalue] at hintNo
  exact absurd hintNo (by decide)

end Chuckles.Proofs
