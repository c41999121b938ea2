import Rebind.CommandLine.LogFormat
import Rebind.Main
import Rebind.Proofs.Splicing
import Rebind.Proofs.StatementEnds
import Rebind.Proofs.DeclaredNames
import Rebind.Proofs.Holes
import Rebind.Proofs.Hoisting
import Rebind.Proofs.Refusals
import Rebind.Proofs.KeptParts
import Rebind.Proofs.Bookkeeping
import Rebind.Proofs.ReporterAnswers
import Rebind.Proofs.IndependentInputs
import Rebind.Proofs.HostNames
import Rebind.Proofs.JsonRecords
import Rebind.Proofs.ReportedErrors
import Rebind.Proofs.Lines
import Rebind.Proofs.Parameters
import Rebind.Proofs.Prologues
import Rebind.Proofs.LoopHeads
import Rebind.Proofs.Excerpts
import Rebind.Proofs.LayoutHistory
import Rebind.Proofs.Indentation
import Rebind.Proofs.ResolvedOptions
import Rebind.Proofs.OptionSpelling
import Rebind.Proofs.RegisteredNames
import Rebind.Proofs.PatternText
