import Nanoemu.CheckedProgram
import Nanoemu.Width
import Nanoemu.Trap
import Nanoemu.Csr
import Nanoemu.Decode
import Nanoemu.Compress
import Nanoemu.Plic
import Nanoemu.Uart
import Nanoemu.Memory
import Nanoemu.Mmu
import Nanoemu.SoftFloat
import Nanoemu.Cpu
import Nanoemu.AccessFrames
import Nanoemu.Execute
import Nanoemu.Privileged
import Nanoemu.Sbi
import Nanoemu.Step
import Nanoemu.Load
import Nanoemu.StrictMaximum
import Nanoemu.PlicArbitration
import Nanoemu.MemoryAccess
import Nanoemu.PageWalk
import Nanoemu.BitFields
import Nanoemu.TableMemory
import Nanoemu.MemoryPath
import Nanoemu.InstructionPhases
import Nanoemu.StepOutcome
import Nanoemu.PreciseException
import Nanoemu.FreshHart
import Nanoemu.PrivilegeIsolation
import Nanoemu.SupervisorBoot
import Nanoemu.TlbCoherence
import Nanoemu.RedirectedAccesses
import Nanoemu.StoreAtomicity
import Nanoemu.InterruptPriority
import Nanoemu.EnableStack
import Nanoemu.TrapReturn
import Nanoemu.MemoryTouch
import Nanoemu.InstructionEffects
import Nanoemu.CsrWrite
import Nanoemu.StepCourse
import Nanoemu.StepHistory
import Nanoemu.RetiredCounter
import Nanoemu.RegisterWidth
import Nanoemu.AddressWidth
import Nanoemu.DeviceScan
import Nanoemu.ReservationHistory
import Nanoemu.IllegalAccess
import Nanoemu.IllegalEncoding
import Nanoemu.EvenAddresses
import Nanoemu.FloatingContext
import Nanoemu.FloatFormat
import Nanoemu.GridRounding
import Nanoemu.FloatRounding
import Nanoemu.FloatSum
import Nanoemu.FloatProduct
import Nanoemu.FloatQuotient
import Nanoemu.FloatRoot
import Nanoemu.FloatUnderflow
import Nanoemu.FloatToInteger
import Nanoemu.FloatOrder
import Nanoemu.IntegerEncodings
import Nanoemu.SupervisorTimer
import Nanoemu.FetchFaults
import Nanoemu.Rvc
import Nanoemu.CompressedHints
import Nanoemu.CompressedStep
import Nanoemu.RecordLayout
import Nanoemu.LossyUtf8
import Nanoemu.ElfParse
import Nanoemu.ElfFormat
import Nanoemu.ElfFields
import Nanoemu.SegmentLoading
import Nanoemu.ElfReading
import Nanoemu.ElfLoading
import Nanoemu.ElfTable
import Nanoemu.ElfOffsets
import Nanoemu.ElfTruncation
import Nanoemu.IntegerUnits
import Nanoemu.ClintWindow
import Nanoemu.ReadWidth
import Nanoemu.PageOffset
import Nanoemu.PlicCompletion
import Nanoemu.AmoFaults
import Nanoemu.HalfwordFetch
import Nanoemu.EntryWords
import Nanoemu.EntryWalk
import Nanoemu.StoreThenLoad
import Nanoemu.SoundDevices
import Nanoemu.AmoEffects
import Nanoemu.ReachableStores
import Nanoemu.WalkDefects
import Nanoemu.CsrAliases
import Nanoemu.CsrMoves
import Nanoemu.DirtySummary
import Nanoemu.LegalFields
import Nanoemu.CycleCounter
import Nanoemu.MachineInterrupts
import Nanoemu.SelfInterrupt
import Nanoemu.SupervisorCalls
import Nanoemu.TohostReports
import Nanoemu.FormatRoundTrip
import Nanoemu.GuardBit
import Nanoemu.StepReturns
import Nanoemu.ForwardSimulation
import Nanoemu.FlatMachine
import Nanoemu.DirectAccess
import Nanoemu.FlatInstructions
import Nanoemu.FlatRun
import Nanoemu.CommandLine
import Nanoemu.Arguments
import Nanoemu.AddressSpace
import Nanoemu.UserIsolation
import Nanoemu.FloatInstructions
import Nanoemu.FloatAnswers
import Nanoemu.PagedAccess
import Nanoemu.UserRun
import Nanoemu.ConsoleStreams
import Nanoemu.Preemption
import Nanoemu.ConsoleWrites
import Nanoemu.ConsoleAccess
import Nanoemu.ConsoleExchanges
import Nanoemu.ConsoleInterrupt
