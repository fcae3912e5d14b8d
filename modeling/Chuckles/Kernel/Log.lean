import Chuckles.Kernel.Tty

/-!
# `Chuckles.Kernel.Log`: the log on the terminal

`log.c` writes a text to the terminal at one of four levels. The table `lldetarr` has the attribute
of each level, and a name for it.
-/

set_option autoImplicit false

namespace Chuckles

/-- `_KERNEL_LOG_LEVEL`. The last member is the number of the others. -/
inductive KernelLogLevel where
  | log
  | info
  | warn
  | error
  | numLevels
  deriving DecidableEq

/-- The value of the member. -/
def KernelLogLevel.toNat : KernelLogLevel → Nat
  | .log => 0
  | .info => 1
  | .warn => 2
  | .error => 3
  | .numLevels => 4

/-- `struct log_level_details`, with its bit-fields. -/
structure LogLevelDetails where
  prefixText : List UInt8
  blink : BitVec 1
  intensity : BitVec 1
  fg : BitVec 4
  bg : BitVec 4

/-- `lldetarr`. -/
def lldetarr : Vector LogLevelDetails 4 := #v[
  ⟨ascii "LOG", 0, 1, 0, 0⟩,
  ⟨ascii "INFO", 0, 1, 0, 0⟩,
  ⟨ascii "WARN", 0, 1, 0, 0⟩,
  ⟨ascii "ERROR", 0, 1, 0, 0⟩]

/-- A bit-field as an operand of `vga_attr`. -/
def ofBitField {w : Nat} (v : BitVec w) : UInt8 := .ofBitVec (v.setWidth 8)

/-- The attribute that `_klogs` computes from the table. -/
def LogLevelDetails.attr (d : LogLevelDetails) : UInt8 :=
  vgaAttr (ofBitField d.blink) (ofBitField d.bg) (ofBitField d.intensity) (ofBitField d.fg)

/-- `_klogs`: the returned number and the terminal. A level outside the table has no result. -/
def klogs (level : KernelLogLevel) (str : CString) (t : Tty) : Option (Int32 × Tty) := do
  let d ← lldetarr[level.toNat]?
  let (t, size) := terminalWritestringAttr t str d.attr
  some (Int32.ofNat size, t)

def klog : CString → Tty → Option (Int32 × Tty) := klogs .log
def kinfo : CString → Tty → Option (Int32 × Tty) := klogs .info
def kwarn : CString → Tty → Option (Int32 × Tty) := klogs .warn
def kerror : CString → Tty → Option (Int32 × Tty) := klogs .error

end Chuckles
