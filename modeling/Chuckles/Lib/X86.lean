import Chuckles.Lib.Memory

/-!
# `Chuckles.Lib.X86`: a 32-bit x86 machine for interrupt stubs

The registers, the flat memory and the instructions that interrupt stubs are written in:
pushes and pops of registers, segment registers, constants and memory words, `pusha` and
`popa`, moves, `add`, `call`, `cli` and `iret`. The segments are flat, so an offset is an
address. `run` executes straight-line code. It does not advance `eip`, which changes only
when an interrupt is delivered and in `iret`.

A push of a segment register writes either its zero-extended value or, on newer processors,
only the low half of the word, and leaves the high half of the memory as it is. `SegPush`
says which, and every result holds for both.

The rules are about the words on the stack:

* `Stacked s ws`: the words `ws` are on the stack, the first one on top.
* `stacked_push`: a push puts a word on top, as long as the stack does not meet itself in
  the address space.
* `interrupt_stacked`: what the delivery of an interrupt without a change of the privilege
  level pushes.
* `popReg_spec`, `popSeg_spec`, `popa_spec` and `iret_spec`: what is taken off the stack goes
  to its registers, and the rest stays on it. `popa_spec` undoes a `pusha`.

`Pushed s t n` and `Popped s t n` are the frame facts: code that pushes `n` words keeps every
other byte of the memory, and code that pops keeps all of it.
-/

set_option autoImplicit false

namespace Lib.X86

/-- The general registers. -/
inductive Reg where
  | eax | ecx | edx | ebx | esp | ebp | esi | edi
  deriving DecidableEq

/-- The segment registers that code pushes and loads. -/
inductive Seg where
  | ds | es | fs | gs
  deriving DecidableEq

/-- How a segment register is pushed. -/
inductive SegPush where
  | zeroExtended
  | lowHalf
  deriving DecidableEq

/-- The state of the processor and the memory. -/
structure State where
  reg : Reg → BitVec 32
  seg : Seg → BitVec 16
  cs : BitVec 16
  eip : BitVec 32
  eflags : BitVec 32
  mem : Memory

/-- A source operand: a register, a constant, or the word at an address. -/
inductive Operand where
  | reg (r : Reg)
  | imm (i : BitVec 32)
  | mem (a : BitVec 32)
  deriving DecidableEq

/-- The instructions. -/
inductive Instr where
  | cli
  | push (src : Operand)
  | pushSeg (r : Seg)
  | popReg (r : Reg)
  | popSeg (r : Seg)
  | pusha
  | popa
  | movw (r : Reg) (i : BitVec 16)
  | movSeg (r : Seg) (src : Reg)
  | mov (r : Reg) (src : Operand)
  | addImm (r : Reg) (i : BitVec 32)
  | call (ret : BitVec 32)
  | iret
  deriving DecidableEq

namespace State

def esp (s : State) : BitVec 32 := s.reg .esp

/-- The state with another value in a general register. -/
def setReg (s : State) (r : Reg) (v : BitVec 32) : State :=
  { s with reg := Function.update s.reg r v }

/-- The state with another value in a segment register. -/
def setSeg (s : State) (r : Seg) (v : BitVec 16) : State :=
  { s with seg := Function.update s.seg r v }

/-- The value of an operand. -/
def value (s : State) : Operand → BitVec 32
  | .reg r => s.reg r
  | .imm i => i
  | .mem a => s.mem.read32 a

/-- A push of a word. -/
def push (s : State) (v : BitVec 32) : State :=
  { s.setReg .esp (s.esp - 4) with mem := s.mem.write32 (s.esp - 4) v }

/-- The word that a push of a segment register leaves on the stack. -/
def segWord (mode : SegPush) (s : State) (r : Seg) : BitVec 32 :=
  match mode with
  | .zeroExtended => (s.seg r).setWidth 32
  | .lowHalf => (s.mem.read32 (s.esp - 4)).extractLsb' 16 16 ++ s.seg r

/-- The word on top of the stack. -/
def top (s : State) : BitVec 32 := s.mem.read32 s.esp

/-- The state without the word on top of the stack. -/
def drop (s : State) : State := s.setReg .esp (s.esp + 4)

/-- Pushes of words, in order. -/
def pushAll (s : State) (vs : List (BitVec 32)) : State := vs.foldl push s

end State

/-- The order in which `pusha` pushes the registers. -/
def pushaOrder : List Reg := [.eax, .ecx, .edx, .ebx, .esp, .ebp, .esi, .edi]

/-- The status flags of an addition, in the bits of the flags register. -/
def addFlags (a b flags : BitVec 32) : BitVec 32 :=
  let sum := a + b
  let carry := decide (2 ^ 32 ≤ a.toNat + b.toNat)
  let parity := (List.range 8).foldl (fun p i => p ^^ sum.getLsbD i) true
  let auxiliary := decide (16 ≤ a.toNat % 16 + b.toNat % 16)
  let overflow := (a.msb == b.msb) && (a.msb != sum.msb)
  let bit (i : Nat) (set : Bool) : BitVec 32 := if set then 1#32 <<< i else 0
  (flags &&& ~~~(0x8D5#32)) ||| bit 0 carry ||| bit 2 parity ||| bit 4 auxiliary
    ||| bit 6 (sum == 0) ||| bit 7 sum.msb ||| bit 11 overflow

/-- One instruction. -/
def step (mode : SegPush) (s : State) : Instr → State
  | .cli => { s with eflags := s.eflags &&& ~~~(0x200#32) }
  | .push src => s.push (s.value src)
  | .pushSeg r => s.push (s.segWord mode r)
  | .popReg r => s.drop.setReg r s.top
  | .popSeg r => s.drop.setSeg r (s.top.setWidth 16)
  | .pusha => s.pushAll (pushaOrder.map s.reg)
  | .popa =>
    -- the word for `esp` is skipped
    pushaOrder.reverse.foldl
      (fun s r => if r = .esp then s.drop else s.drop.setReg r s.top) s
  | .movw r i => s.setReg r ((s.reg r).extractLsb' 16 16 ++ i)
  | .movSeg r src => s.setSeg r ((s.reg src).setWidth 16)
  | .mov r src => s.setReg r (s.value src)
  | .addImm r i => { s.setReg r (s.reg r + i) with eflags := addFlags (s.reg r) i s.eflags }
  | .call ret => s.push ret
  | .iret =>
    let s₁ := s.drop
    let s₂ := s₁.drop
    { s₂.drop with eip := s.top, cs := s₁.top.setWidth 16, eflags := s₂.top }

/-- Straight-line code. -/
def run (mode : SegPush) (code : List Instr) (s : State) : State := code.foldl (step mode) s

/-- An entry of the interrupt table: the code segment and the address of the stub. -/
structure Gate where
  selector : BitVec 16
  offset : BitVec 32

/-- The words that the processor pushes for an interrupt without a change of the privilege
level. The high half of the word for `cs` is `pad`. -/
def interruptWords (pad : BitVec 16) (code : Option (BitVec 32)) (s : State) :
    List (BitVec 32) :=
  [s.eflags, pad ++ s.cs, s.eip] ++ code.toList

/-- The delivery of an interrupt through an interrupt gate: it also clears the flags `TF`,
`IF`, `NT`, `RF` and `VM`. -/
def interrupt (pad : BitVec 16) (code : Option (BitVec 32)) (gate : Gate) (s : State) : State :=
  { s.pushAll (interruptWords pad code s) with
    cs := gate.selector
    eip := gate.offset
    eflags := s.eflags &&& ~~~(0x34300#32) }

/-! ### Pushes -/

/-- Code after code. -/
theorem run_append (mode : SegPush) (c c' : List Instr) (s : State) :
    run mode (c ++ c') s = run mode c' (run mode c s) := List.foldl_append

/-- A push moves the stack pointer by one word. -/
@[simp] theorem push_esp (s : State) (v : BitVec 32) : (s.push v).esp = s.esp - 4 := by
  simp [State.push, State.esp, State.setReg]

/-- It keeps the segment registers. -/
@[simp] theorem push_seg (s : State) (v : BitVec 32) : (s.push v).seg = s.seg := rfl

/-- And the other general registers. -/
theorem push_reg_of_ne (s : State) (v : BitVec 32) {r : Reg} (h : r ≠ .esp) :
    (s.push v).reg r = s.reg r := by
  simp [State.push, State.setReg, h]

/-- The first push, then the others. -/
theorem pushAll_cons (s : State) (v : BitVec 32) (vs : List (BitVec 32)) :
    s.pushAll (v :: vs) = (s.push v).pushAll vs := rfl

/-- Pushes move the stack pointer down. -/
theorem pushAll_esp (vs : List (BitVec 32)) :
    ∀ s : State, (s.pushAll vs).esp = s.esp - BitVec.ofNat 32 (4 * vs.length) := by
  induction vs with
  | nil => intro s; simp [State.pushAll]
  | cons v vs ih =>
    intro s
    rw [pushAll_cons, ih, push_esp]
    have hfour : (4 : BitVec 32).toNat = 4 := rfl
    apply BitVec.eq_of_toNat_eq
    simp only [List.length_cons, BitVec.toNat_sub, BitVec.toNat_ofNat, hfour]
    omega

/-- Pushes keep the segment registers. -/
theorem pushAll_seg (vs : List (BitVec 32)) : ∀ s : State, (s.pushAll vs).seg = s.seg := by
  induction vs with
  | nil => intro s; rfl
  | cons v vs ih => intro s; rw [pushAll_cons, ih, push_seg]

/-- Pushes keep the other general registers. -/
theorem pushAll_reg_of_ne (vs : List (BitVec 32)) {r : Reg} (h : r ≠ .esp) :
    ∀ s : State, (s.pushAll vs).reg r = s.reg r := by
  induction vs with
  | nil => intro s; rfl
  | cons v vs ih => intro s; rw [pushAll_cons, ih, push_reg_of_ne s v h]

/-! ### The words on the stack -/

/-- The words are on the stack, the first one on top. -/
def Stacked (s : State) (ws : List (BitVec 32)) : Prop :=
  ∀ (i : Nat) (w : BitVec 32), ws[i]? = some w →
    s.mem.read32 (s.esp + BitVec.ofNat 32 (4 * i)) = w

/-- No word is on every stack. -/
theorem stacked_nil (s : State) : Stacked s [] := by
  intro i w h
  simp at h

/-- Only the stack pointer and the memory matter. -/
theorem Stacked.congr {s s' : State} {ws : List (BitVec 32)} (h : Stacked s ws)
    (hesp : s'.esp = s.esp) (hmem : s'.mem = s.mem) : Stacked s' ws := by
  intro i w hw
  rw [hesp, hmem]
  exact h i w hw

/-- A push puts a word on top. -/
theorem stacked_push {s : State} {ws : List (BitVec 32)} (h : Stacked s ws) (v : BitVec 32)
    (hroom : 4 * (ws.length + 1) ≤ 2 ^ 32) : Stacked (s.push v) (v :: ws) := by
  intro i w hw
  rw [push_esp]
  show (s.mem.write32 (s.esp - 4) v).read32 _ = w
  cases i with
  | zero =>
    obtain rfl : v = w := by simpa using hw
    rw [BitVec.add_zero]
    exact Memory.read32_write32 _ _ _
  | succ i =>
    have hi : i < ws.length := by
      rw [List.getElem?_cons_succ] at hw
      exact (List.getElem?_eq_some_iff.mp hw).1
    have hdist : (s.esp - 4 + BitVec.ofNat 32 (4 * (i + 1)) - (s.esp - 4)).toNat
        = 4 * (i + 1) := by
      rw [BitVec.add_comm, BitVec.add_sub_cancel, BitVec.toNat_ofNat]
      omega
    have haddr : s.esp - 4 + BitVec.ofNat 32 (4 * (i + 1))
        = s.esp + BitVec.ofNat 32 (4 * i) := by
      have hfour : (4 : BitVec 32).toNat = 4 := rfl
      apply BitVec.eq_of_toNat_eq
      simp only [BitVec.toNat_add, BitVec.toNat_sub, BitVec.toNat_ofNat, hfour]
      omega
    rw [Memory.read32_write32_of_ne _ _ (by omega) (by omega), haddr]
    exact h i w (by simpa using hw)

/-- Pushes put their words on top, the last one first. -/
theorem stacked_pushAll (vs : List (BitVec 32)) :
    ∀ {s : State} {ws : List (BitVec 32)}, Stacked s ws →
      4 * (ws.length + vs.length) ≤ 2 ^ 32 → Stacked (s.pushAll vs) (vs.reverse ++ ws) := by
  induction vs with
  | nil => intro s ws h _; exact h
  | cons v vs ih =>
    intro s ws h hroom
    rw [List.length_cons] at hroom
    have htop := stacked_push h v (by omega)
    have hrest := ih htop (by rw [List.length_cons]; omega)
    rwa [pushAll_cons, List.reverse_cons, List.append_assoc, List.singleton_append]

/-- The word that a push of a segment register leaves has the register in its low half. -/
theorem segWord_low (mode : SegPush) (s : State) (r : Seg) :
    (s.segWord mode r).setWidth 16 = s.seg r := by
  cases mode with
  | zeroExtended => simp [State.segWord]
  | lowHalf =>
    apply BitVec.eq_of_getLsbD_eq
    intro i hi
    simp only [State.segWord, BitVec.getLsbD_setWidth, BitVec.getLsbD_append]
    grind

/-- The delivery of an interrupt puts its words on the stack. -/
theorem interrupt_stacked (pad : BitVec 16) (code : Option (BitVec 32)) (gate : Gate)
    (s : State) :
    Stacked (interrupt pad code gate s) (interruptWords pad code s).reverse := by
  have h := stacked_pushAll (interruptWords pad code s) (stacked_nil s)
    (by cases code <;> simp [interruptWords])
  rw [List.append_nil] at h
  unfold interrupt
  -- The other fields do not matter, however the pushes come out.
  generalize s.pushAll (interruptWords pad code s) = t at h ⊢
  exact h.congr rfl rfl

/-! ### Pops -/

/-- A word less moves the stack pointer back. -/
@[simp] theorem drop_esp (s : State) : s.drop.esp = s.esp + 4 := by
  simp [State.drop, State.setReg, State.esp]

/-- It keeps the other general registers. -/
theorem drop_reg_of_ne (s : State) {r : Reg} (h : r ≠ .esp) : s.drop.reg r = s.reg r := by
  simp [State.drop, State.setReg, h]

/-- A word that is popped off the stack. -/
theorem stacked_drop {s : State} {w : BitVec 32} {ws : List (BitVec 32)}
    (h : Stacked s (w :: ws)) : s.top = w ∧ Stacked s.drop ws := by
  constructor
  · have htop := h 0 w rfl
    rwa [BitVec.add_zero] at htop
  · intro i v hv
    have hnext := h (i + 1) v (by simpa using hv)
    have haddr : s.drop.esp + BitVec.ofNat 32 (4 * i)
        = s.esp + BitVec.ofNat 32 (4 * (i + 1)) := by
      rw [drop_esp, Nat.mul_add, BitVec.ofNat_add, BitVec.add_comm (BitVec.ofNat 32 (4 * i)),
        BitVec.add_assoc]
      rfl
    rw [haddr]
    exact hnext

/-- What code that pops `n` words into registers leaves: the stack pointer above them, and
the memory. -/
structure Popped (s t : State) (n : Nat) : Prop where
  esp : t.esp = s.esp + BitVec.ofNat 32 (4 * n)
  mem : t.mem = s.mem

/-- Nothing was popped. -/
theorem Popped.refl (s : State) : Popped s s 0 := ⟨by simp, rfl⟩

/-- One word was. -/
theorem Popped.drop (s : State) : Popped s s.drop 1 := ⟨drop_esp s, rfl⟩

/-- Pops after pops. -/
theorem Popped.trans {s t u : State} {m n : Nat} (h : Popped s t m) (h' : Popped t u n) :
    Popped s u (m + n) := by
  refine ⟨?_, h'.mem.trans h.mem⟩
  rw [h'.esp, h.esp, BitVec.add_assoc, ← BitVec.ofNat_add, Nat.mul_add]

/-- A pop into a register. -/
theorem popReg_spec (mode : SegPush) {s : State} {w : BitVec 32} {ws : List (BitVec 32)}
    (h : Stacked s (w :: ws)) {r : Reg} (hr : r ≠ .esp) :
    let t := step mode s (.popReg r)
    Popped s t 1 ∧ Stacked t ws ∧ t.seg = s.seg ∧ t.reg r = w
      ∧ ∀ r', r' ≠ r → r' ≠ .esp → t.reg r' = s.reg r' := by
  intro t
  obtain ⟨htop, hrest⟩ := stacked_drop h
  have hesp : t.esp = s.drop.esp := Function.update_of_ne hr.symm _ _
  refine ⟨⟨hesp.trans (drop_esp s), rfl⟩, hrest.congr hesp rfl, rfl, ?_, ?_⟩
  · rw [← htop]
    exact Function.update_self r s.top s.drop.reg
  · intro r' hne hne'
    exact (Function.update_of_ne hne _ _).trans (drop_reg_of_ne s hne')

/-- A pop into a segment register. -/
theorem popSeg_spec (mode : SegPush) {s : State} {w : BitVec 32} {ws : List (BitVec 32)}
    (h : Stacked s (w :: ws)) (r : Seg) :
    let t := step mode s (.popSeg r)
    Popped s t 1 ∧ Stacked t ws ∧ t.seg = Function.update s.seg r (w.setWidth 16) := by
  intro t
  obtain ⟨htop, hrest⟩ := stacked_drop h
  refine ⟨⟨drop_esp s, rfl⟩, hrest.congr rfl rfl, ?_⟩
  rw [← htop]
  rfl

/-- Pops of words that hold the values of registers. The word for `esp` is skipped. -/
theorem foldl_pop_spec (value : Reg → BitVec 32) (ws : List (BitVec 32)) (rs : List Reg) :
    ∀ s : State, Stacked s (rs.map value ++ ws) →
      let t := rs.foldl (fun s r => if r = .esp then s.drop else s.drop.setReg r s.top) s
      Popped s t rs.length ∧ Stacked t ws ∧ t.seg = s.seg
        ∧ ∀ r, r ≠ .esp → t.reg r = if r ∈ rs then value r else s.reg r := by
  induction rs with
  | nil =>
    intro s h
    exact ⟨Popped.refl s, h, rfl, fun r _ => by simp⟩
  | cons r rs ih =>
    intro s h
    by_cases hr : r = .esp
    · -- The word is dropped, and `esp` is not one of the registers that matter.
      obtain ⟨-, hrest⟩ := stacked_drop h
      obtain ⟨hpopped, hstacked, hseg, hreg⟩ := ih s.drop hrest
      simp only [List.foldl_cons, if_pos hr]
      refine ⟨?_, hstacked, hseg, ?_⟩
      · rw [List.length_cons, Nat.add_comm]
        exact (Popped.drop s).trans hpopped
      · intro r' hr'
        have hne : r' ≠ r := fun heq => hr' (heq.trans hr)
        rw [hreg r' hr', drop_reg_of_ne s hr']
        simp only [List.mem_cons, hne, false_or]
    · obtain ⟨hpop, hrest, hseg₁, hself, hkeep⟩ := popReg_spec .zeroExtended h hr
      obtain ⟨hpopped, hstacked, hseg, hreg⟩ := ih _ hrest
      have hstep : (if r = .esp then s.drop else s.drop.setReg r s.top)
          = step .zeroExtended s (.popReg r) := if_neg hr
      simp only [List.foldl_cons, hstep]
      refine ⟨?_, hstacked, hseg.trans hseg₁, ?_⟩
      · rw [List.length_cons, Nat.add_comm]
        exact hpop.trans hpopped
      · intro r' hr'
        rw [hreg r' hr']
        by_cases hne : r' = r
        · rw [hne, hself]
          simp
        · rw [hkeep r' hne hr']
          simp only [List.mem_cons, hne, false_or]

/-- `popa` undoes `pusha`: it restores all registers but `esp` from the words for them. -/
theorem popa_spec (mode : SegPush) (value : Reg → BitVec 32) {s : State}
    {ws : List (BitVec 32)} (h : Stacked s (pushaOrder.reverse.map value ++ ws)) :
    let t := step mode s .popa
    Popped s t 8 ∧ Stacked t ws ∧ t.seg = s.seg ∧ ∀ r, r ≠ .esp → t.reg r = value r := by
  intro t
  obtain ⟨hpopped, hstacked, hseg, hreg⟩ := foldl_pop_spec value ws pushaOrder.reverse s h
  refine ⟨hpopped, hstacked, hseg, fun r hr => ?_⟩
  have hall : r ∈ pushaOrder.reverse := by
    cases r <;> decide
  exact (hreg r hr).trans (if_pos hall)

/-- Words that are taken off the stack unread. -/
theorem stacked_addEsp (mode : SegPush) {s : State} {v w : BitVec 32} {ws : List (BitVec 32)}
    (h : Stacked s (v :: w :: ws)) :
    let t := step mode s (.addImm .esp 8)
    Popped s t 2 ∧ Stacked t ws ∧ t.seg = s.seg ∧ ∀ r, r ≠ .esp → t.reg r = s.reg r := by
  intro t
  obtain ⟨-, h₁⟩ := stacked_drop h
  obtain ⟨-, h₂⟩ := stacked_drop h₁
  have hesp : t.esp = s.esp + 8 := by simp [t, step, State.setReg, State.esp]
  refine ⟨⟨hesp, rfl⟩, h₂.congr ?_ rfl, rfl, fun r hr => Function.update_of_ne hr _ _⟩
  rw [hesp, drop_esp, drop_esp, BitVec.add_assoc]
  rfl

/-- `iret` resumes with the three words on the stack. -/
theorem iret_spec (mode : SegPush) {s : State} {eip cs eflags : BitVec 32}
    {ws : List (BitVec 32)} (h : Stacked s (eip :: cs :: eflags :: ws)) :
    let t := step mode s .iret
    Popped s t 3 ∧ t.eip = eip ∧ t.cs = cs.setWidth 16 ∧ t.eflags = eflags ∧ t.seg = s.seg
      ∧ ∀ r, r ≠ .esp → t.reg r = s.reg r := by
  intro t
  obtain ⟨heip, h₁⟩ := stacked_drop h
  obtain ⟨hcs, h₂⟩ := stacked_drop h₁
  obtain ⟨heflags, -⟩ := stacked_drop h₂
  have hcs' : t.cs = s.drop.top.setWidth 16 := rfl
  refine ⟨⟨?_, rfl⟩, heip, by rw [hcs', hcs], heflags, rfl, fun r hr => ?_⟩
  · show s.drop.drop.drop.esp = _
    rw [drop_esp, drop_esp, drop_esp, BitVec.add_assoc, BitVec.add_assoc]
    rfl
  · show s.drop.drop.drop.reg r = s.reg r
    rw [drop_reg_of_ne _ hr, drop_reg_of_ne _ hr, drop_reg_of_ne _ hr]

/-! ### The memory that pushes keep -/

/-- What code that pushes `n` words leaves: the stack pointer below them, and every byte that
is not one of them. -/
structure Pushed (s t : State) (n : Nat) : Prop where
  esp : t.esp = s.esp - BitVec.ofNat 32 (4 * n)
  mem : ∀ a, (a - s.esp).toNat < 2 ^ 32 - 4 * n → t.mem a = s.mem a

/-- Nothing was pushed. -/
theorem Pushed.refl (s : State) : Pushed s s 0 := ⟨by simp, fun _ _ => rfl⟩

/-- Only the stack pointer and the memory matter. -/
theorem Pushed.congr {s t t' : State} {n : Nat} (h : Pushed s t n) (hesp : t'.esp = t.esp)
    (hmem : t'.mem = t.mem) : Pushed s t' n := by
  refine ⟨hesp.trans h.esp, ?_⟩
  rw [hmem]
  exact h.mem

/-- One more push. -/
theorem Pushed.push {s t : State} {n : Nat} (h : Pushed s t n) (v : BitVec 32)
    (hroom : 4 * (n + 1) ≤ 2 ^ 32) : Pushed s (t.push v) (n + 1) := by
  have hesp : (t.push v).esp = s.esp - BitVec.ofNat 32 (4 * (n + 1)) := by
    rw [push_esp, h.esp, Nat.mul_add, BitVec.ofNat_add]
    bv_omega
  refine ⟨hesp, fun a ha => ?_⟩
  -- The written word is just below the `n` words.
  have hout : 4 ≤ (a - (t.esp - 4)).toNat := by
    rw [push_esp] at hesp
    rw [hesp]
    bv_omega
  show (t.mem.write32 (t.esp - 4) v) a = _
  rw [Memory.write32_of_le _ v hout]
  exact h.mem a (by omega)

/-- More pushes. -/
theorem Pushed.pushAll {s : State} (vs : List (BitVec 32)) :
    ∀ {t : State} {n : Nat}, Pushed s t n → 4 * (n + vs.length) ≤ 2 ^ 32 →
      Pushed s (t.pushAll vs) (n + vs.length) := by
  induction vs with
  | nil => exact fun h _ => h
  | cons v vs ih =>
    intro t n h hroom
    rw [List.length_cons] at hroom ⊢
    have hrest := ih (h.push v (by omega)) (by omega)
    rwa [pushAll_cons, Nat.add_comm vs.length, ← Nat.add_assoc]

end Lib.X86
