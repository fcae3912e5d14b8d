import Chuckles.Kernel.Ps2

/-!
# `Chuckles.Proofs.Ps2Events`: what the parts of the PS/2 driver do

Facts about a part of the driver whose order does not matter: everything it does meets some
condition `E`, when `E` holds of the things that all parts do (`Polite`), or also of what most
parts do (`Ordinary`). What is left out are the configuration bytes, which the command 0x60
announces.
-/

set_option autoImplicit false

namespace Chuckles.Proofs

open Lib.PortIo Chuckles.Ps2

/-- The condition allows reads of the status, writes to the data port, and prints. -/
structure Polite (E : Event Note → Prop) : Prop where
  status : ∀ b, E (.inb STATUS_PORT b)
  data : ∀ value, E (.outb DATA_PORT value)
  note : ∀ n, (∀ b, n ≠ .got b) → E (.note n)

/-- And reads of the data port, and all commands but 0x60. -/
structure Ordinary (E : Event Note → Prop) : Prop extends Polite E where
  read : ∀ b, E (.inb DATA_PORT b)
  got : ∀ b, E (.note (.got b))
  command : ∀ value, value ≠ 0x60 → E (.outb CMD_PORT value)

section
variable {E : Event Note → Prop}

/-! ### Reading and writing -/

/-- A text on the serial port. -/
theorem Polite.writes (h : Polite E) (s : String) : Does E (writes s) :=
  does_note (h.note _ fun _ => nofun)

/-- A number on the serial port. -/
theorem Polite.writed (h : Polite E) (i : Int32) : Does E (writed i) :=
  does_note (h.note _ fun _ => nofun)

/-- A line on the screen. -/
theorem Polite.printf (h : Polite E) (format : String) (args : List Arg) :
    Does E (Ps2.printf format args) :=
  does_note (h.note _ fun _ => nofun)

/-- The report of a configuration byte. -/
theorem Polite.reportConfig (h : Polite E) (line : Int32) (text : String) (config : UInt8) :
    Does E (reportConfig line text config) := by
  refine (h.writed line).bind fun _ => ?_
  refine (h.writes text).bind fun _ => ?_
  exact h.writed _

/-- The loops that wait for the input buffer, with a print in each pass. -/
theorem Polite.poll (h : Polite E) {print : Driver Unit} (hprint : Does E print) :
    Does E (doWhile (fun status => status &&& STATUS_IN_FULL ≠ 0) do
      let status ← inb STATUS_PORT
      print
      pure status) := by
  refine Does.doWhile ?_
  refine (does_inb h.status).bind fun status => ?_
  refine hprint.bind fun _ => ?_
  exact does_pure status

/-- The end of `ps2_write`: the wait, and the byte. -/
theorem Polite.sendData (h : Polite E) (data : UInt8) :
    Does E (do
      let _ ← waitIn
      outb DATA_PORT data) := by
  have hwait : Does E waitIn := (does_inb h.status).doWhile
  refine hwait.bind fun _ => ?_
  exact does_outb (h.data data)

/-- `ps2_write`, behind its command for port 2. -/
theorem Polite.ps2Write (h : Polite E) {port : UInt8} (hport : port ≠ 2) (data : UInt8) :
    Does E (ps2Write port data) := by
  have hselect : Does E (selectPort port) := by
    rw [selectPort, if_neg hport]
    exact does_pure _
  exact hselect.bind fun _ => h.sendData data

/-- `ps2_write`, with its command. -/
theorem Ordinary.ps2Write (h : Ordinary E) (port data : UInt8) : Does E (ps2Write port data) := by
  have hcommand : Does E (outb CMD_PORT WRITE_P2) := does_outb (h.command _ (by decide))
  have hselect : Does E (selectPort port) := hcommand.ite (does_pure _) _
  exact hselect.bind fun _ => h.sendData data

/-- `ps2_read`. -/
theorem Ordinary.ps2Read (h : Ordinary E) : Does E Ps2.ps2Read := by
  refine (does_inb h.status).doWhile.bind fun _ => ?_
  refine (does_inb h.read).bind fun b => ?_
  refine (does_inb h.status).bind fun _ => ?_
  refine (does_note (h.got b)).bind fun _ => ?_
  exact does_pure b

/-! ### The parts of `ps2_init` -/

/-- Up to the first command there is no command. -/
theorem Polite.clearPorts (h : Polite E) (hread : ∀ b, E (.inb DATA_PORT b)) :
    Does E clearPorts := by
  have hport : CMD_PORT.toUInt8 ≠ 2 := by decide
  have hdisable : Does E disablePorts := by
    refine (h.ps2Write hport _).bind fun _ => ?_
    exact h.ps2Write hport _
  have hpass : Does E (do
      let _ ← inb DATA_PORT
      inb STATUS_PORT) := by
    refine (does_inb hread).bind fun _ => ?_
    exact does_inb h.status
  have hflush : Does E flush := by
    refine (does_inb h.status).bind fun status => ?_
    exact does_whileM (fun _ => hpass) status
  refine (h.writes _).bind fun _ => ?_
  refine hdisable.bind fun _ => ?_
  refine hflush.bind fun _ => ?_
  exact does_pure _

/-- The first configuration byte is written back behind the command 0x60. -/
theorem Polite.storeConfig (h : Polite E) (hcommand : E (.outb CMD_PORT 0x60)) (config : UInt8) :
    Does E (storeConfig config) := by
  have hsingle : Does E (do
      Ps2.reportConfig 67 ": config byte = " config
      Ps2.writes "\nPS/2 single channel\n"
      pure (1 : UInt8)) := by
    refine (h.reportConfig _ _ _).bind fun _ => ?_
    refine (h.writes _).bind fun _ => ?_
    exact does_pure _
  have hcount : Does E (countPorts config) := hsingle.ite (does_pure _) _
  refine hcount.bind fun _ => ?_
  refine (h.reportConfig _ _ _).bind fun _ => ?_
  refine (h.reportConfig _ _ _).bind fun _ => ?_
  refine (h.poll (h.writes _)).bind fun _ => ?_
  refine (does_outb hcommand).bind fun _ => ?_
  refine (h.ps2Write (by decide) _).bind fun _ => ?_
  exact does_pure _

/-- The command 0x20, and the read of the configuration byte. -/
theorem Ordinary.readConfig (h : Ordinary E) : Does E readConfig := by
  refine (does_outb (h.command _ (by decide))).bind fun _ => ?_
  exact h.ps2Read

/-- The second read of the configuration byte, with its reports. -/
theorem Ordinary.rereadConfig (h : Ordinary E) (config : UInt8) : Does E (rereadConfig config) := by
  refine (does_outb (h.command _ (by decide))).bind fun _ => ?_
  refine (h.reportConfig _ _ _).bind fun _ => ?_
  refine h.ps2Read.bind fun _ => ?_
  refine (h.reportConfig _ _ _).bind fun _ => ?_
  exact does_pure _

/-- The self-test of the controller. -/
theorem Ordinary.selfTest (h : Ordinary E) : Does E selfTest := by
  refine (does_outb (h.command _ (by decide))).bind fun _ => ?_
  refine h.ps2Read.bind fun status => ?_
  refine (does_whileM (fun _ => h.ps2Read) status).bind fun status => ?_
  exact (h.printf _ _).ite (does_pure _) _

/-- The second test for two channels. -/
theorem Ordinary.channelTest (h : Ordinary E) (numPorts : UInt8) :
    Does E (channelTest numPorts) := by
  have hsingle : Does E (do
      Ps2.printf "PS/2 single channel confirmed\n" []
      outb CMD_PORT 0xA7
      pure (1 : UInt8)) := by
    refine (h.printf _ _).bind fun _ => ?_
    refine (does_outb (h.command _ (by decide))).bind fun _ => ?_
    exact does_pure _
  unfold Ps2.channelTest
  refine Does.ite ?_ (does_pure _) _
  refine (h.ps2Write 2 0xA8).bind fun _ => ?_
  refine h.readConfig.bind fun config => ?_
  exact hsingle.ite (does_pure _) _

/-- The tests of the ports. -/
theorem Ordinary.portTests (h : Ordinary E) (numPorts : UInt8) : Does E (portTests numPorts) := by
  have htest {command : UInt8} (hcommand : command ≠ 0x60) (text : String) :
      Does E (portTest command text) := by
    refine (does_outb (h.command _ hcommand)).bind fun _ => ?_
    refine h.ps2Read.bind fun _ => ?_
    exact (h.printf _ _).ite (does_pure _) _
  refine (htest (by decide) _).bind fun _ => ?_
  exact (htest (by decide) _).ite (does_pure _) _

/-- The interrupts are turned on behind the command 0x60. -/
theorem Ordinary.enableIrqs (h : Ordinary E) (hcommand : E (.outb CMD_PORT 0x60)) :
    Does E enableIrqs := by
  refine h.readConfig.bind fun _ => ?_
  refine (does_outb hcommand).bind fun _ => ?_
  refine (h.ps2Write 1 _).bind fun _ => ?_
  exact does_pure _

/-- The bytes that turn the devices on. -/
theorem Ordinary.enableDevices (h : Ordinary E) (numPorts : UInt8) :
    Does E (enableDevices numPorts) := by
  refine (h.ps2Write 1 0xAE).bind fun _ => ?_
  exact (h.ps2Write 2 0xA8).ite (does_pure _) _

/-- The resets, with the loop over the replies. -/
theorem Ordinary.resetDevices (h : Ordinary E) (numPorts : UInt8) :
    Does E (resetDevices numPorts) := by
  have hpass (x : UInt8 × Int32) : Does E (do
      Ps2.printf "Responded %x. Retrying..." [.int (byteArg x.1)]
      let status ← Ps2.ps2Read
      pure (status, x.2 + 1)) := by
    refine (h.printf _ _).bind fun _ => ?_
    refine h.ps2Read.bind fun _ => ?_
    exact does_pure _
  have hsecond : Does E (do
      Ps2.ps2Write 2 0xFF
      let status ← Ps2.ps2Read
      Ps2.printf "Response to RESET from port 2: %x\n" [.int (byteArg status)]) := by
    refine (h.ps2Write 2 0xFF).bind fun _ => ?_
    refine h.ps2Read.bind fun _ => ?_
    exact h.printf _ _
  have hloop (x : UInt8 × Int32) : Does E (resetReplies x) := does_whileM hpass x
  refine (h.ps2Write 1 0xFF).bind fun _ => ?_
  refine h.ps2Read.bind fun status => ?_
  refine (hloop (status, 0)).bind fun _ => ?_
  refine (h.printf _ _).bind fun _ => ?_
  exact hsecond.ite (does_pure _) _

/-- The loop that skips to an acknowledgement. -/
theorem Ordinary.readAck (h : Ordinary E) (text : String) : Does E (readAck text) := by
  have hpass (status : UInt8) : Does E (do
      Ps2.printf text [.int (byteArg status)]
      Ps2.ps2Read) := by
    refine (h.printf _ _).bind fun _ => ?_
    exact h.ps2Read
  refine h.ps2Read.bind fun status => ?_
  exact does_whileM hpass status

/-- The switch over the identification. -/
theorem Ordinary.printDeviceType (h : Ordinary E) (status : UInt8) :
    Does E (printDeviceType status) := by
  have hdevice (i : Fin 5) : Does E (printDevice i) := h.printf _ _
  have hinner (second : UInt8) : Does E (do
      if second = 0x41 ∨ second = 0xC1 then printDevice 3
      else if second = 0x83 then printDevice 4) :=
    (hdevice 3).ite ((hdevice 4).ite (does_pure _) _) _
  have hlong : Does E (do
      let second ← Ps2.ps2Read
      if second = 0x41 ∨ second = 0xC1 then printDevice 3
      else if second = 0x83 then printDevice 4) :=
    h.ps2Read.bind hinner
  refine (hdevice 0).ite ?_ _
  refine (hdevice 1).ite ?_ _
  refine (hdevice 2).ite ?_ _
  exact hlong.ite (h.printf _ _) _

/-- The detection of the device. -/
theorem Ordinary.detectDevice (h : Ordinary E) : Does E detectDevice := by
  have hnext : Does E (do
      let status ← Ps2.ps2Read
      Ps2.printf "Status: %x\n" [.int (byteArg status)]
      pure status) := by
    refine h.ps2Read.bind fun _ => ?_
    refine (h.printf _ _).bind fun _ => ?_
    exact does_pure _
  have hidentification (status : UInt8) : Does E (identification status) :=
    hnext.ite (does_pure _) _
  refine (h.printf _ _).bind fun _ => ?_
  refine (h.ps2Write 1 0xF5).bind fun _ => ?_
  refine (h.readAck _).bind fun _ => ?_
  refine (h.ps2Write 1 0xF2).bind fun _ => ?_
  refine (h.printf _ _).bind fun _ => ?_
  refine (h.readAck _).bind fun _ => ?_
  refine h.ps2Read.bind fun status => ?_
  refine (h.printf _ _).bind fun _ => ?_
  refine (hidentification status).bind fun status => ?_
  refine (h.printDeviceType status).bind fun _ => ?_
  refine (h.ps2Write 1 0xF4).bind fun _ => ?_
  refine h.ps2Read.bind fun _ => ?_
  exact h.printf _ _

/-- The last configuration byte is written behind the command 0x60, and read again. -/
theorem Ordinary.lastConfig (h : Ordinary E) (hcommand : E (.outb CMD_PORT 0x60)) (config : UInt8) :
    Does E (lastConfig config) := by
  refine (h.printf _ _).bind fun _ => ?_
  refine (h.printf _ _).bind fun _ => ?_
  refine (h.poll (h.printf _ _)).bind fun _ => ?_
  refine (does_outb hcommand).bind fun _ => ?_
  refine (h.ps2Write 1 _).bind fun _ => ?_
  refine (does_outb (h.command _ (by decide))).bind fun _ => ?_
  refine (h.printf _ _).bind fun _ => ?_
  refine h.ps2Read.bind fun _ => ?_
  exact h.printf _ _

/-! ### All of `ps2_init` -/

/-- With the command 0x60, everything that `ps2_init` does. -/
theorem Ordinary.ps2Init (h : Ordinary E) (hcommand : E (.outb CMD_PORT 0x60)) :
    Does E ps2Init := by
  refine (h.clearPorts h.read).bind fun _ => ?_
  refine h.readConfig.bind fun config => ?_
  refine (h.storeConfig hcommand config).bind fun _ => ?_
  refine (h.rereadConfig _).bind fun _ => ?_
  refine h.selfTest.bind fun _ => ?_
  refine (h.channelTest _).bind fun numPorts => ?_
  refine (h.portTests numPorts).bind fun _ => ?_
  refine (h.enableIrqs hcommand).bind fun config => ?_
  refine (h.enableDevices numPorts).bind fun _ => ?_
  refine (h.resetDevices numPorts).bind fun _ => ?_
  refine h.detectDevice.bind fun _ => ?_
  refine (h.lastConfig hcommand config).bind fun _ => ?_
  exact does_pure numPorts

end

end Chuckles.Proofs
