import MicroCisc.CommandLine.Folder
import MicroCisc.Main
import MicroCisc.Proofs.Device.Gating
import MicroCisc.Proofs.Device.Noninterference
import MicroCisc.Proofs.Device.Access
import MicroCisc.Proofs.Processor.Execute
import MicroCisc.Proofs.Processor.Discard
import MicroCisc.Proofs.Processor.CommitFrame
import MicroCisc.Proofs.Device.Connect
import MicroCisc.Proofs.Machine.Events
import MicroCisc.Proofs.Machine.Ownership
import MicroCisc.Proofs.Device.Serial.Receive
import MicroCisc.Proofs.Device.Serial.Transmit
import MicroCisc.Proofs.Device.Drained
import MicroCisc.Proofs.Processor.Drained
import MicroCisc.Proofs.Device.Visit
import MicroCisc.Proofs.Processor.Trajectory
import MicroCisc.Proofs.Machine.Sweep
import MicroCisc.Proofs.Machine.Trajectory
import MicroCisc.Proofs.Device.Serial.Sender
import MicroCisc.Proofs.Processor.Sending
import MicroCisc.Proofs.Machine.Delivery
import MicroCisc.Proofs.Debugger.Session
import MicroCisc.Proofs.Debugger.Delivery
import MicroCisc.Proofs.Machine.Collecting
import MicroCisc.Proofs.Device.Ids
import MicroCisc.Proofs.Config.Valid
import MicroCisc.Proofs.Config.Build
import MicroCisc.Proofs.Device.Locations
import MicroCisc.Proofs.Config.Mirror
import MicroCisc.Proofs.Config.Reorder
import MicroCisc.Proofs.Machine.Configured
import MicroCisc.Proofs.Text.Numeral
import MicroCisc.Proofs.Instruction.Text
import MicroCisc.Proofs.Processor.Disassembly
import MicroCisc.Proofs.Memory.BootRom
import MicroCisc.Proofs.Device.Rom
import MicroCisc.Proofs.Processor.Rom
import MicroCisc.Proofs.Debugger.Checked
import MicroCisc.Proofs.Debugger.Transparency
import MicroCisc.Proofs.Processor.OwnSlots
import MicroCisc.Proofs.Device.Time
import MicroCisc.Proofs.Machine.Reset
import MicroCisc.Proofs.Faults.Alu
import MicroCisc.Proofs.Processor.Lifecycle
import MicroCisc.Proofs.Faults.Device
import MicroCisc.Proofs.Faults.Time
import MicroCisc.Proofs.Faults.Processor
import MicroCisc.Proofs.Faults.Machine
import MicroCisc.Proofs.Processor.Stack
import MicroCisc.Proofs.Instruction.Encoding
import MicroCisc.Proofs.Image.RoundTrip
import MicroCisc.Proofs.Machine.Conformance
import MicroCisc.Proofs.Processor.Halting
import MicroCisc.Proofs.Processor.Pop
import MicroCisc.Proofs.Machine.FailedLoad
import MicroCisc.Proofs.Config.RoundTrip
import MicroCisc.Proofs.Alu.Shift
import MicroCisc.Proofs.Alu.Chain
import MicroCisc.Proofs.Processor.Peek
import MicroCisc.Proofs.Device.Serial.Tick
import MicroCisc.Proofs.Device.Window
import MicroCisc.Proofs.Processor.Interrupt
import MicroCisc.Proofs.Device.Terminal
import MicroCisc.Proofs.Program.Concat
import MicroCisc.Proofs.Image.File
