import Chuckles.Lib.Loop
import Chuckles.Lib.Object
import Chuckles.Lib.Page
import Chuckles.Libc.String
import Chuckles.Kernel.Tty
import Chuckles.Proofs.TtyPage
import Chuckles.Proofs.TtyStores
import Chuckles.Lib.Numeral
import Chuckles.Libc.Itoa
import Chuckles.Libc.Stdio
import Chuckles.Libc.Printf
import Chuckles.Proofs.Printf
import Chuckles.Proofs.Hex
import Chuckles.Kernel.TtySteps
import Chuckles.Proofs.TtyInterrupts
import Chuckles.Kernel.Ps2kb
import Chuckles.Proofs.Ps2kb
import Chuckles.Kernel.Irq
import Chuckles.Proofs.ItoaInterrupts
import Chuckles.Kernel.Gdt
import Chuckles.Proofs.Gdt
import Chuckles.Lib.Memory
import Chuckles.Kernel.Multiboot
import Chuckles.Proofs.MemoryMap
import Chuckles.Lib.X86
import Chuckles.Kernel.IsrIrq
import Chuckles.Proofs.IsrIrq
import Chuckles.Kernel.Dispatch
import Chuckles.Proofs.Dispatch
import Chuckles.Kernel.Timer
import Chuckles.Proofs.Timer
import Chuckles.Proofs.MapCount
import Chuckles.Proofs.MapSafety
import Chuckles.Proofs.Formatters
import Chuckles.Proofs.KeyEvents
import Chuckles.Lib.PortIo
import Chuckles.Kernel.Ps2
import Chuckles.Proofs.Ps2Config
import Chuckles.Proofs.Ps2Handshake
import Chuckles.Kernel.Ps2Controller
import Chuckles.Proofs.Ps2Replies
import Chuckles.Proofs.Ps2Events
import Chuckles.Proofs.TtyCells
import Chuckles.Proofs.Memmove
import Chuckles.Proofs.IrqTransparent
import Chuckles.Proofs.SilentKeys
import Chuckles.Proofs.LengthAccounting
import Chuckles.Kernel.Ps2Bus
import Chuckles.Lib.Total
import Chuckles.Proofs.Ps2Bus
import Chuckles.Proofs.Ps2Boot
import Chuckles.Proofs.Ps2Identify
import Chuckles.Proofs.Itoa
import Chuckles.Proofs.Strrev
import Chuckles.Kernel.Idt
import Chuckles.Proofs.Idt
import Chuckles.Lib.Pic
import Chuckles.Kernel.Pic
import Chuckles.Proofs.Pic
import Chuckles.Kernel.Interrupts
import Chuckles.Proofs.Interrupts
import Chuckles.Proofs.Served
import Chuckles.Kernel.Fault
import Chuckles.Proofs.Fault
import Chuckles.Lib.Nested
import Chuckles.Lib.Uart
import Chuckles.Proofs.Serial
import Chuckles.Lib.Pit
import Chuckles.Proofs.TimerPhase
import Chuckles.Kernel.Boot
import Chuckles.Proofs.Boot
import Chuckles.Lib.Region
import Chuckles.Proofs.TimerWait
import Chuckles.Proofs.Mem
import Chuckles.Kernel.Tables
import Chuckles.Proofs.Tables
import Chuckles.Kernel.Log
import Chuckles.Proofs.Log
import Chuckles.Proofs.Main
import Chuckles.Kernel.Clock
import Chuckles.Proofs.Clock
