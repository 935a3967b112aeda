import Exec09.Foundation.Word
import Exec09.Foundation.Program
import Exec09.Foundation.Simulation
import Exec09.Foundation.Refinement
import Exec09.Foundation.Cost
import Exec09.Foundation.Radix
import Exec09.Foundation.Stack
import Exec09.Foundation.Overlay
import Exec09.Foundation.Translated
import Exec09.Foundation.Ring
import Exec09.Foundation.Window
import Exec09.Foundation.Blocks
import Exec09.Foundation.CString
import Exec09.Foundation.CText
import Exec09.Foundation.Trim
import Exec09.Foundation.Printf
import Exec09.Foundation.StringBuffer
import Exec09.Foundation.Scanf
import Exec09.Foundation.Pairs
import Exec09.Cpu.State
import Exec09.Cpu.Arithmetic
import Exec09.Cpu.Addressing
import Exec09.Cpu.Interrupt
import Exec09.Cpu.Instruction
import Exec09.Cpu.Run
import Exec09.Cpu.Compounds
import Exec09.Cpu.WidthInvariants
import Exec09.Cpu.Elapsed
import Exec09.Cpu.EmulatedTime
import Exec09.Cpu.InterruptDelivery
import Exec09.Cpu.AddressSafety
import Exec09.Cpu.CodeFetch
import Exec09.Cpu.Cycles
import Exec09.Cpu.ConditionCodes
import Exec09.Cpu.LazyFlags
import Exec09.Cpu.Reset
import Exec09.Cpu.Multiprecision
import Exec09.Cpu.WordArithmetic
import Exec09.Cpu.Comparison
import Exec09.Cpu.Decimal
import Exec09.Cpu.InterruptReturn
import Exec09.Cpu.ReturnAddress
import Exec09.Cpu.StackWrites
import Exec09.Cpu.CwaiFrame
import Exec09.Cpu.PushPull
import Exec09.Cpu.RegisterWidths
import Exec09.Cpu.Footprint
import Exec09.Cpu.NextInsn
import Exec09.Isa.Mpu
import Exec09.Isa.Alu
import Exec09.Isa.Exec
import Exec09.Isa.Refinement
import Exec09.Isa.Instructions
import Exec09.Cpu.CpuExecute
import Exec09.Cpu.IllegalCodes
import Exec09.Cpu.BusSimulation
import Exec09.Cpu.MachineView
import Exec09.Bus.Map
import Exec09.Bus.Access
import Exec09.Bus.Traffic
import Exec09.Bus.Overrun
import Exec09.Bus.Views
import Exec09.Bus.Setup
import Exec09.Devices.Disk
import Exec09.Devices.DiskSectors
import Exec09.Devices.SmallMmu
import Exec09.Devices.SmallMmuUpdate
import Exec09.Devices.Timer
import Exec09.Devices.IoExpand
import Exec09.Devices.ExpanderDispatch
import Exec09.Devices.RomImage
import Exec09.Devices.Serial
import Exec09.Devices.SerialQueue
import Exec09.Devices.Imux
import Exec09.Devices.ImuxLine
import Exec09.Machines.Eon
import Exec09.Machines.EonPaging
import Exec09.Machines.EonReach
import Exec09.Machines.EonBounds
import Exec09.Machines.Eon2
import Exec09.Machines.Eon2Reach
import Exec09.Machines.Wpc
import Exec09.Machines.WpcReach
import Exec09.Machines.WpcPaging
import Exec09.Machines.WpcBounds
import Exec09.Machines.WpcShift
import Exec09.Machines.WpcSwitches
import Exec09.Machines.WpcRegisters
import Exec09.Multicomp.Console
import Exec09.Multicomp.Receive
import Exec09.Multicomp.Lines
import Exec09.Multicomp.Sd
import Exec09.Multicomp.SdTransfers
import Exec09.Multicomp.SdCommands
import Exec09.Multicomp.Termination
import Exec09.Multicomp.Mapper
import Exec09.Multicomp.Translation
import Exec09.Multicomp.ModeLatch
import Exec09.Multicomp.BatchInput
import Exec09.Multicomp.Protection
import Exec09.Multicomp.Reach
import Exec09.Multicomp.Bounds
import Exec09.Machines.RomProtection
import Exec09.Machines.BufferBounds
import Exec09.Debugger.Symtab
import Exec09.Debugger.SymbolIndexes
import Exec09.Debugger.Disassembler
import Exec09.Debugger.InsnLength
import Exec09.Debugger.CodeView
import Exec09.Debugger.BranchTargets
import Exec09.Debugger.Expression
import Exec09.Debugger.Breakpoints
import Exec09.Debugger.Frame
import Exec09.Debugger.TraceBuffer
import Exec09.Debugger.IrqLoad
import Exec09.Debugger.Table
import Exec09.Debugger.Lookup
import Exec09.Debugger.SlotHistory
import Exec09.Debugger.StopRequests
import Exec09.Debugger.Stepping
import Exec09.Debugger.Conditions
import Exec09.Debugger.CommandLine
import Exec09.Debugger.EnabledCount
import Exec09.Debugger.CommandStops
import Exec09.Debugger.ExpressionBuffer
import Exec09.Debugger.ExpressionTexts
import Exec09.Debugger.TableSafety
import Exec09.Loader.ImageFile
import Exec09.Loader.RoundTrip
import Exec09.Loader.Malformed
import Exec09.Loader.Result
import Exec09.Debugger.MapFile
import Exec09.Debugger.InsnText
import Exec09.Debugger.ExpressionTree
import Exec09.Debugger.Incidents
import Exec09.Debugger.Assignments
import Exec09.Debugger.Grouping
import Exec09.Debugger.Chains
import Exec09.Debugger.DeviceTable
import Exec09.Debugger.Inspection
import Exec09.Debugger.QuietDevices
import Exec09.Machines.SingleBoard
import Exec09.Machines.AddressSpace
import Exec09.Machines.SingleBoardTraffic
import Exec09.Machines.ImageRuns
import Exec09.Isa.Boards
import Exec09.Isa.BlockCopy
import Exec09.Machines.WpcMemory
import Exec09.Multicomp.PagedMemory
import Exec09.Main.Arguments
import Exec09.Main.MainLoop
import Exec09.Main.IdleLoop
import Exec09.Hostmon.Hex
import Exec09.Hostmon.Commands
import Exec09.Hostmon.Transceive
import Exec09.Hostmon.Plug
import Exec09.Hostmon.Config
