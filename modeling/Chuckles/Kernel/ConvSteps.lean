import Chuckles.Kernel.Irq
import Chuckles.Lib.Run

/-!
# `Chuckles.Kernel.ConvSteps`: the conversion `%d` one step at a time

`printf` converts a number with three calls of `itoa` and prints it byte after byte from the
static buffer. `ConvPc` names the steps, and `convStep` runs the next one, or an interrupt
in front of it. An interrupt is a complete call of `irq_handler`.

`runs_convD` says that the steps, with no interrupt between them, are the branch `convD` of
`printf`.
-/

set_option autoImplicit false

namespace Chuckles

open Lib Lib.Run

/-- The next step of the conversion. -/
inductive ConvPc where
  /-- `itoa(d)`, the first argument of `print`. -/
  | pointer
  /-- `strlen(itoa(d))`, the second argument. -/
  | length (p : Nat)
  /-- The loop of `print`, with its index. -/
  | emit (p n i : Nat)
  /-- `written += strlen(itoa(d))`. -/
  | count
  | done (n : Nat)

/-- The kernel, the next step, and the bytes that the conversion has passed to `putchar`. -/
structure ConvSys where
  kernel : Kernel
  pc : ConvPc
  sent : List UInt8

/-- The conversion goes on, or an interrupt comes. -/
inductive ConvAct where
  | main
  | irq (intNo : UInt32)

/-- The step of the system. `putchar` never returns `EOF` for a byte, so the loop of `print`
goes on. -/
def convStep (d : Int32) (s : ConvSys) : ConvAct → Option ConvSys
  | .main =>
    match s.pc with
    | .pointer => do
      let (m, p) ← s.kernel.kbd.mach.itoa d
      some ⟨s.kernel.withMach m, .length p, s.sent⟩
    | .length p => do
      let (m, q) ← s.kernel.kbd.mach.itoa d
      let n ← strlen m.itoaBuf.cells q
      some ⟨s.kernel.withMach m, .emit p n 0, s.sent⟩
    | .emit p n i =>
      if i < n then do
        let b ← s.kernel.kbd.mach.itoaBuf.cells.load (p + i)
        some ⟨s.kernel.withMach (putcharSink b s.kernel.kbd.mach).2, .emit p n (i + 1),
          s.sent ++ [b]⟩
      else some ⟨s.kernel, .count, s.sent⟩
    | .count => do
      let (m, q) ← s.kernel.kbd.mach.itoa d
      let n ← strlen m.itoaBuf.cells q
      some ⟨s.kernel.withMach m, .done n, s.sent⟩
    | .done _ => none
  | .irq intNo => do
    let k ← irqHandler intNo s.kernel
    some ⟨k, s.pc, s.sent⟩

/-- The string that a call of `itoa` returns. -/
theorem strlen_itoa {d : Int32} {m m' : Machine} {p : Nat} (h : m.itoa d = some (m', p)) :
    p = ITOA_DIGITS + 1 - (decimal d).length ∧
      strlen m'.itoaBuf.cells p = some (decimal d).length := by
  have hroom : ITOA_DIGITS = 19 := rfl
  have hdec := length_decimal_le d
  have hlen := m.itoaBuf.length_eq
  obtain ⟨b', hspec, hcells⟩ := m.itoa_spec d
  rw [hspec, Option.some.injEq, Prod.mk.injEq] at h
  obtain ⟨rfl, rfl⟩ := h
  refine ⟨rfl, ?_⟩
  rw [hcells, stamp]
  exact strlen_eq _ [] (decimal d) (ne_zero_of_mem_decimal d) (by rw [List.length_take]; omega)

/-! ### The steps -/

section
variable {d : Int32} {k : Kernel} {m : Machine} {q : Nat} (sent : List UInt8)

/-- The call of `itoa` for the pointer. -/
theorem convStep_pointer (h : k.kbd.mach.itoa d = some (m, q)) :
    convStep d ⟨k, .pointer, sent⟩ .main
      = some ⟨k.withMach m, .length (ITOA_DIGITS + 1 - (decimal d).length), sent⟩ := by
  rw [← (strlen_itoa h).1]
  simp only [convStep, h, Option.bind_eq_bind, Option.bind_some]

/-- The call for the length to print. -/
theorem convStep_length (p : Nat) (h : k.kbd.mach.itoa d = some (m, q)) :
    convStep d ⟨k, .length p, sent⟩ .main
      = some ⟨k.withMach m, .emit p (decimal d).length 0, sent⟩ := by
  simp only [convStep, h, (strlen_itoa h).2, Option.bind_eq_bind, Option.bind_some]

/-- The call for the length to count. -/
theorem convStep_count (h : k.kbd.mach.itoa d = some (m, q)) :
    convStep d ⟨k, .count, sent⟩ .main
      = some ⟨k.withMach m, .done (decimal d).length, sent⟩ := by
  simp only [convStep, h, (strlen_itoa h).2, Option.bind_eq_bind, Option.bind_some]

/-- The end of the loop of `print`. -/
theorem convStep_last (p n : Nat) :
    convStep d ⟨k, .emit p n n, sent⟩ .main = some ⟨k, .count, sent⟩ := by
  simp [convStep]

/-- One byte of the loop of `print`. -/
theorem convStep_emit {before after : Object UInt8} {b : UInt8} {p n i : Nat}
    (hcells : k.cells = before ++ some b :: after) (hp : p + i = before.length) (hi : i < n) :
    convStep d ⟨k, .emit p n i, sent⟩ .main
      = some ⟨k.withMach (putcharSink b k.kbd.mach).2, .emit p n (i + 1), sent ++ [b]⟩ := by
  have hload : k.kbd.mach.itoaBuf.cells.load (p + i) = some b := by
    rw [show k.kbd.mach.itoaBuf.cells = before ++ some b :: after from hcells]
    exact Object.load_append before after b hp
  simp only [convStep, if_pos hi, hload, Option.bind_eq_bind, Option.bind_some]

end

/-! ### Without interrupts -/

/-- The loop of `print` without interrupts. -/
theorem runs_emit (d : Int32) (l : List UInt8) :
    ∀ (before after : Object UInt8) (k : Kernel) (sent : List UInt8) (p n i : Nat),
      k.cells = before ++ (l.map some ++ after) → p + i = before.length → n = i + l.length →
      Runs (convStep d) Any ⟨k, .emit p n i, sent⟩ (List.replicate l.length .main)
        ⟨k.withMach (Out.pushAll putcharSink ⟨k.kbd.mach, sent⟩ l).mach, .emit p n n,
          sent ++ l⟩ := by
  induction l with
  | nil =>
    intro before after k sent p n i _ _ hn
    have hn' : n = i := by simpa using hn
    rw [List.append_nil, hn']
    exact .start
  | cons b l ih =>
    intro before after k sent p n i hcells hp hn
    rw [List.length_cons] at hn
    have hstep := convStep_emit (d := d) sent hcells hp (by omega : i < n)
    have hrest := ih (before ++ [some b]) after
      (k.withMach (putcharSink b k.kbd.mach).2) (sent ++ [b]) p n (i + 1)
      (by rw [List.append_assoc]; exact hcells) (by simp; omega) (by omega)
    rw [List.append_assoc, List.singleton_append] at hrest
    exact .cons trivial hstep hrest

/-- The steps of the conversion are the branch `convD`. -/
theorem runs_convD (d : Int32) (k : Kernel) (format : Nat) (written : Int) (args : List Arg)
    (sent : List UInt8) :
    ∃ acts k' n, Runs (convStep d) Any ⟨k, .pointer, sent⟩ acts ⟨k', .done n, sent ++ decimal d⟩ ∧
      convD putcharSink ⟨format, written, .int d :: args, ⟨k.kbd.mach, sent⟩⟩
        = some (.again ⟨format, wrapInt (written + n), args,
            ⟨k'.kbd.mach, sent ++ decimal d⟩⟩) := by
  have hroom : ITOA_DIGITS = 19 := rfl
  have hdec := length_decimal_le d
  obtain ⟨b₁, hitoa₁, -⟩ := k.kbd.mach.itoa_spec d
  generalize ({ k.kbd.mach with itoaBuf := b₁ } : Machine) = m₁ at hitoa₁
  obtain ⟨b₂, hitoa₂, hcells₂⟩ := m₁.itoa_spec d
  have hm₂ : ({ m₁ with itoaBuf := b₂ } : Machine).itoaBuf = b₂ := rfl
  generalize ({ m₁ with itoaBuf := b₂ } : Machine) = m₂ at hitoa₂ hm₂
  rw [← hm₂, stamp] at hcells₂
  have hbefore : (m₁.itoaBuf.cells.take (ITOA_DIGITS + 1 - (decimal d).length)).length
      = ITOA_DIGITS + 1 - (decimal d).length := by
    rw [List.length_take, m₁.itoaBuf.length_eq]
    omega
  -- The bytes that the loop of `print` sends.
  have hprint := print_eq putcharSink (decimal d) (putcharSink_accepts _)
    (m₁.itoaBuf.cells.take (ITOA_DIGITS + 1 - (decimal d).length)) [some 0]
    (ITOA_DIGITS + 1 - (decimal d).length) ⟨m₂, sent⟩ hbefore.symm
  have hloop := runs_emit d (decimal d) _ _ (k.withMach m₂) sent
    (ITOA_DIGITS + 1 - (decimal d).length) (decimal d).length 0 hcells₂ (by rw [hbefore]; rfl)
    (by omega)
  have hsent := sent_pushAll putcharSink (decimal d) ⟨m₂, sent⟩
  rw [← hcells₂] at hprint
  rw [Kernel.withMach_mach, Kernel.withMach_withMach] at hloop
  generalize Out.pushAll putcharSink ⟨m₂, sent⟩ (decimal d) = out at hprint hloop hsent
  obtain ⟨b₃, hitoa₃, -⟩ := out.mach.itoa_spec d
  generalize ({ out.mach with itoaBuf := b₃ } : Machine) = m₃ at hitoa₃
  have hrest := (hloop.next trivial (convStep_last _ _ _)).next trivial
    (convStep_count _ (k := k.withMach out.mach) hitoa₃)
  refine ⟨_, k.withMach m₃, (decimal d).length, .cons trivial (convStep_pointer sent hitoa₁)
    (.cons trivial (convStep_length sent _ (k := k.withMach m₁) hitoa₂) hrest), ?_⟩
  simp only [convD, hitoa₁, hitoa₂, (strlen_itoa hitoa₂).2, hprint, hitoa₃,
    (strlen_itoa hitoa₃).2, Option.bind_eq_bind, Option.bind_some, if_true, hsent,
    Kernel.withMach_mach]

end Chuckles
