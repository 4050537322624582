import MipsLab.CommandLine
import MipsLab.Main
import MipsLab.Worker.Handshake
import MipsLab.Proofs.MachineCode
import MipsLab.Proofs.Fetch
import MipsLab.Proofs.Placement
import MipsLab.Proofs.Precision
import MipsLab.Proofs.Runs
import MipsLab.Proofs.Segments
import MipsLab.Proofs.Transfers
import MipsLab.Proofs.Background
import MipsLab.Proofs.Reassembly
import MipsLab.Proofs.Layout
import MipsLab.Proofs.Cancellation
import MipsLab.Proofs.KeptInput
import MipsLab.Proofs.SharedWorker
import MipsLab.Proofs.Handshakes
import MipsLab.Proofs.AcceptedSources
import MipsLab.Proofs.DirectOperands
import MipsLab.Proofs.Reloading
import MipsLab.Proofs.EventLog
import MipsLab.Proofs.LineRecovery
import MipsLab.Proofs.DebuggingAids
import MipsLab.Proofs.SessionModes
import MipsLab.Proofs.PauseReports
import MipsLab.Proofs.StepLimits
import MipsLab.Proofs.PseudoInstructions
import MipsLab.Proofs.CallSteps
import MipsLab.Proofs.LabelTable
import MipsLab.Proofs.ProblemList
import MipsLab.Proofs.ExactArithmetic
import MipsLab.Proofs.LineInput
import MipsLab.Proofs.Tiling
import MipsLab.Proofs.StringLiterals
import MipsLab.Proofs.LineLookups
import MipsLab.Proofs.MemoryOperands
import MipsLab.Proofs.KnownFilling
import MipsLab.Proofs.OutputDelivery
import MipsLab.Proofs.Subscriptions
import MipsLab.Proofs.IntegerLiterals
import MipsLab.Proofs.SegmentCursors
import MipsLab.Proofs.SourcePositions
import MipsLab.Proofs.Immediates
