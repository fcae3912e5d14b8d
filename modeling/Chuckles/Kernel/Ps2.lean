import Chuckles.Lib.PortIo
import Chuckles.Libc.Printf

/-!
# `Chuckles.Kernel.Ps2`: the driver of the PS/2 controller

The model of `kernel/arch/i386/ps2_controller.c`, as programs that read and write ports
(`Lib.PortIo`). The answers to the reads of the ports 0x60 and 0x64 are the controller's.

The calls that print on the serial port are notes with their arguments. `ps2_read` leaves a
note of the byte that it returns. The variable `status` is written before each use, so it is
the value that the last read returned.

`ps2_init` is cut into the parts of its body. Its result is the last value of
`ps2_info.num_ports`, which the source drops.
-/

set_option autoImplicit false

namespace Chuckles.Ps2

open Lib.PortIo

def DATA_PORT : UInt16 := 0x60
def STATUS_PORT : UInt16 := 0x64
def CMD_PORT : UInt16 := 0x64

def WRITE_P2 : UInt8 := 0xD4

def STATUS_OUT_FULL : UInt8 := 1
def STATUS_IN_FULL : UInt8 := (1 : UInt8) <<< 1

/-- A NUL-terminated literal. -/
def literal (s : String) (h : 0 ∉ ascii s) : CString := ⟨ascii s, forall_ne_of_not_mem h⟩

/-- `devices`. -/
def devices : Vector CString 5 := #v[
  literal "PS/2 mouse without scroll wheel" (by decide),
  literal "Mouse with scroll wheel" (by decide),
  literal "5-button mouse" (by decide),
  literal "MF2 keyboard with translation enabled :(" (by decide),
  literal "MF2 keyboard without translation B-)" (by decide)]

/-- What the driver does, besides reading and writing ports. -/
inductive Note where
  /-- `serial_writes`. -/
  | writes (s : List UInt8)
  /-- `serial_writed`. -/
  | writed (i : Int32)
  /-- `serial_printf`. -/
  | printf (format : List UInt8) (args : List Arg)
  /-- `ps2_read` returns a byte. -/
  | got (b : UInt8)

/-- The programs of the driver. -/
abbrev Driver := Prog Note

def writes (s : String) : Driver Unit := note (.writes (ascii s))

def writed (i : Int32) : Driver Unit := note (.writed i)

def printf (format : String) (args : List Arg) : Driver Unit := note (.printf (ascii format) args)

/-! ### Reading and writing -/

/-- `ps2_read`. -/
def ps2Read : Driver UInt8 := do
  let _ ← doWhile (fun status => status &&& STATUS_OUT_FULL = 0) (inb STATUS_PORT)
  let data ← inb DATA_PORT
  -- The last read of the status: its value goes to `status`, and no caller looks at it.
  let _ ← inb STATUS_PORT
  note (.got data)
  pure data

/-- The wait of `ps2_write`, until the input buffer is empty. -/
def waitIn : Driver UInt8 :=
  doWhile (fun status => status &&& STATUS_IN_FULL ≠ 0) (inb STATUS_PORT)

/-- The command of `ps2_write` for port 2. It is written without a wait. -/
def selectPort (port : UInt8) : Driver Unit :=
  if port = 2 then outb CMD_PORT WRITE_P2 else pure ()

/-- `ps2_write`. All values of `port` but 2 stand for port 1. -/
def ps2Write (port data : UInt8) : Driver Unit := do
  selectPort port
  let _ ← waitIn
  outb DATA_PORT data

/-! ### `ps2_init` -/

/-- `ps2_write(CMD_PORT, 0xAD)` and `ps2_write(CMD_PORT, 0xA7)`. The port number `CMD_PORT`
is not 2, so both bytes go to the data port. -/
def disablePorts : Driver Unit := do
  ps2Write CMD_PORT.toUInt8 0xAD
  ps2Write CMD_PORT.toUInt8 0xA7

/-- The loop that flushes the output buffer. -/
def flush : Driver UInt8 := do
  let status ← inb STATUS_PORT
  whileM (fun status => status &&& STATUS_OUT_FULL ≠ 0)
    (fun _ => do
      let _ ← inb DATA_PORT
      inb STATUS_PORT) status

/-- `ps2_init`, up to its first command. -/
def clearPorts : Driver Unit := do
  writes "PS/2 CONTROLLER STILL DOESN'T WORK\n"
  disablePorts
  let _ ← flush
  pure ()

/-- `outb(CMD_PORT, 0x20)`, and the read of the configuration byte. -/
def readConfig : Driver UInt8 := do
  outb CMD_PORT 0x20
  ps2Read

/-- The report of a configuration byte: the line of the source, a text and the byte. -/
def reportConfig (line : Int32) (text : String) (config : UInt8) : Driver Unit := do
  writed line
  writes text
  writed (byteArg config)

/-- Bit 5: the controller has no second port. -/
def singleChannel (config : UInt8) : Prop := config &&& ((1 : UInt8) <<< 5) ≠ 0

instance (config : UInt8) : Decidable (singleChannel config) :=
  inferInstanceAs (Decidable (_ ≠ _))

/-- The number of ports, from the first configuration byte. -/
def countPorts (config : UInt8) : Driver UInt8 := do
  if singleChannel config then
    reportConfig 67 ": config byte = " config
    writes "\nPS/2 single channel\n"
    pure 1
  else pure 2

/-- The configuration byte is masked and written back. The results are the number of ports and
the byte that was written. -/
def storeConfig (config : UInt8) : Driver (UInt8 × UInt8) := do
  let numPorts ← countPorts config
  reportConfig 77 ": before, config byte = " config
  -- "Bits 0,1,6: irqs for 1 and 2, disable translation", says the source.
  let config := config &&& 0x3F
  reportConfig 81 ": after, config byte = " config
  -- The wait of `ps2_write`, written out with a print.
  let _ ← doWhile (fun status => status &&& STATUS_IN_FULL ≠ 0) do
    let status ← inb STATUS_PORT
    writes "poll "
    pure status
  outb CMD_PORT 0x60
  ps2Write 1 config
  pure (numPorts, config)

/-- The second read of the configuration byte. -/
def rereadConfig (config : UInt8) : Driver UInt8 := do
  outb CMD_PORT 0x20
  reportConfig 115 ": before, config byte = " config
  let config ← ps2Read
  reportConfig 119 ": after, config byte = " config
  pure config

/-- The self-test of the controller. -/
def selfTest : Driver Unit := do
  outb CMD_PORT 0xAA
  let status ← ps2Read
  let status ← whileM (fun status => status = 0xFE) (fun _ => ps2Read) status
  if status ≠ 0x55 then
    printf "PS/2 controller self-test failed with code %x\n" [.int (byteArg status)]

/-- The second test for two channels. The result is the number of ports. -/
def channelTest (numPorts : UInt8) : Driver UInt8 := do
  if numPorts = 2 then
    ps2Write 2 0xA8
    let config ← readConfig
    if singleChannel config then
      -- The byte that was just read is not used any more: the source reads it again.
      printf "PS/2 single channel confirmed\n" []
      outb CMD_PORT 0xA7
      pure 1
    else pure numPorts
  else pure numPorts

/-- The test of one port. -/
def portTest (command : UInt8) (text : String) : Driver Unit := do
  outb CMD_PORT command
  let retCode ← ps2Read
  if retCode ≠ 0 then printf text [.int (byteArg retCode)]

/-- The device interface tests. -/
def portTests (numPorts : UInt8) : Driver Unit := do
  portTest 0xAB "PS/2 port 1 test failed with code %x\n"
  if numPorts = 2 then portTest 0xA9 "PS/2 port 2 test failed with code %x\n"

/-- The interrupts are turned on. The result is the byte that was written. -/
def enableIrqs : Driver UInt8 := do
  let config ← readConfig
  let config := config ||| 0x3
  outb CMD_PORT 0x60
  ps2Write 1 config
  pure config

def enableDevices (numPorts : UInt8) : Driver Unit := do
  ps2Write 1 0xAE
  if numPorts = 2 then ps2Write 2 0xA8

/-- The loop over the replies to a reset: the last reply, and the number of retries. -/
def resetReplies : UInt8 × Int32 → Driver (UInt8 × Int32) :=
  whileM (fun (status, retries) => status ≠ 0xFA ∧ retries < 2) fun (status, retries) => do
    printf "Responded %x. Retrying..." [.int (byteArg status)]
    let status ← ps2Read
    pure (status, retries + 1)

def resetDevices (numPorts : UInt8) : Driver Unit := do
  ps2Write 1 0xFF
  let status ← ps2Read
  let (status, _) ← resetReplies (status, 0)
  printf "Response to RESET from port 1: %x\n" [.int (byteArg status)]
  if numPorts = 2 then
    ps2Write 2 0xFF
    let status ← ps2Read
    printf "Response to RESET from port 2: %x\n" [.int (byteArg status)]

/-- `for(status = ps2_read(); status != 0xFA; status = ps2_read())`, with a print of each
byte that is skipped. -/
def readAck (text : String) : Driver UInt8 := do
  let status ← ps2Read
  whileM (fun status => status ≠ 0xFA)
    (fun status => do
      printf text [.int (byteArg status)]
      ps2Read) status

def printDevice (i : Fin 5) : Driver Unit := printf "Device is %s\n" [.str devices[i]]

/-- The switch over the identification. -/
def printDeviceType (status : UInt8) : Driver Unit := do
  if status = 0 then printDevice 0
  else if status = 0x3 then printDevice 1
  else if status = 0x4 then printDevice 2
  else if status = 0xAB then
    -- The inner switch has no default.
    let second ← ps2Read
    if second = 0x41 ∨ second = 0xC1 then printDevice 3
    else if second = 0x83 then printDevice 4
  else printf "Unknown device type %x\n" [.int (byteArg status)]

/-- The identification is one byte or two. -/
def identification (status : UInt8) : Driver UInt8 := do
  if status ≠ 0 ∧ status ≠ 0xAB then
    let status ← ps2Read
    printf "Status: %x\n" [.int (byteArg status)]
    pure status
  else pure status

/-- The detection of the device on port 1. -/
def detectDevice : Driver Unit := do
  printf "Detecting device types\n" []
  ps2Write 1 0xF5
  let _ ← readAck "status: %x "
  ps2Write 1 0xF2
  printf "Request acknowleged\n" []
  let _ ← readAck "status:%x "
  let status ← ps2Read
  printf "Response: %x\n" [.int (byteArg status)]
  let status ← identification status
  printDeviceType status
  ps2Write 1 0xF4
  let status ← ps2Read
  printf "Scanning enabled: %x\n" [.int (byteArg status)]

/-- The last configuration byte is written and read again. -/
def lastConfig (config : UInt8) : Driver Unit := do
  printf "/%d: before, config byte = %x\n" [.int 241, .int (byteArg config)]
  -- 0x35 leaves the bits 0, 2, 4 and 5: bit 1 is cleared.
  let config := config &&& 0x35
  printf "\\%d: after , config byte = %x\n" [.int 243, .int (byteArg config)]
  let _ ← doWhile (fun status => status &&& STATUS_IN_FULL ≠ 0) do
    let status ← inb STATUS_PORT
    printf "poll " []
    pure status
  outb CMD_PORT 0x60
  ps2Write 1 config
  outb CMD_PORT 0x20
  printf "/%d: before, config byte = %x\n" [.int 254, .int (byteArg config)]
  let config ← ps2Read
  printf "\\%d: after,  config byte = %x\n" [.int 256, .int (byteArg config)]

/-- `ps2_init`. -/
def ps2Init : Driver UInt8 := do
  clearPorts
  let config ← readConfig
  let (numPorts, config) ← storeConfig config
  let _ ← rereadConfig config
  selfTest
  let numPorts ← channelTest numPorts
  portTests numPorts
  let config ← enableIrqs
  enableDevices numPorts
  resetDevices numPorts
  detectDevice
  lastConfig config
  pure numPorts

end Chuckles.Ps2
