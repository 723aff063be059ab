import SnoopDos.Spec.System
import SnoopDos.Proofs.SequentialReads
import SnoopDos.Proofs.Isolation
import SnoopDos.Proofs.Loading
import SnoopDos.Proofs.FdTable
import SnoopDos.Proofs.UserPointers
import SnoopDos.Proofs.Consoles
import SnoopDos.Proofs.CallTrees
import SnoopDos.Proofs.LineDelivery
import SnoopDos.Proofs.ReadData
import SnoopDos.Proofs.ExecuteChecks
import SnoopDos.Proofs.ImageBounds
import SnoopDos.Proofs.LineBuffer
import SnoopDos.Proofs.RtcReads
import SnoopDos.Proofs.HaltExits
import SnoopDos.Proofs.DirectoryListing
import SnoopDos.Proofs.Schedule
import SnoopDos.Proofs.DirectoryLoads
import SnoopDos.Proofs.Buffers
import SnoopDos.Proofs.LineEditing
import SnoopDos.Proofs.TypedCharacters
import SnoopDos.Proofs.ScreenBounds
import SnoopDos.Proofs.BlankScreens
import SnoopDos.Proofs.KeyRuns
import SnoopDos.Proofs.CommandLines
import SnoopDos.Proofs.OpenedFiles
import SnoopDos.Proofs.NameLookup
import SnoopDos.Proofs.RtcRates
import SnoopDos.Proofs.IrqLines
import SnoopDos.Proofs.FormatRendering
import SnoopDos.Proofs.FormatScan
import SnoopDos.Proofs.GrepProgram
import SnoopDos.Proofs.ProgramScreens
import SnoopDos.Proofs.Memory
import SnoopDos.Proofs.Fairness
import SnoopDos.Proofs.BlinkTimes
import SnoopDos.Proofs.PrivateTables
import SnoopDos.Proofs.Gates
import SnoopDos.Proofs.ShellProgram
import SnoopDos.Proofs.Frames
