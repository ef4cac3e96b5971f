import X25.Machine.Inspection
import X25.Json.Clock
import X25.Json.Text
import X25.Proofs.Json.Text
import X25.Proofs.Json.Variation
import X25.Proofs.Json.Snapshot
import X25.Main
import X25.Proofs.Executable
import X25.Proofs.Assembly.Canonical
import X25.Proofs.Isa.Defect
import X25.Proofs.Isa.Lens
import X25.Proofs.Machine.Atomicity
import X25.Proofs.Machine.LifeCycle
import X25.Proofs.Machine.MemoryOperand
import X25.Proofs.Machine.Refusal
import X25.Proofs.Machine.Settled
import X25.Proofs.Reset
import X25.Proofs.Workbench
import X25.Proofs.Machine.Selection
import X25.Proofs.Machine.FetchCycle
import X25.Proofs.Machine.Console
import X25.Proofs.Assembly.Lines
import X25.Proofs.Command
import X25.Proofs.Assembly.Literal
import X25.Proofs.Assembly.Grammar
import X25.Proofs.Assembly.RawWords
import X25.Proofs.Assembly.Source
import X25.Proofs.Startup
import X25.Proofs.Clock
import X25.Proofs.Breakpoints
import X25.Proofs.Debugger.Session
import X25.Proofs.Debugger.Window
import X25.Proofs.Debugger.Stepping
import X25.Proofs.Command.Place
import X25.Proofs.Command.FileTree
import X25.Proofs.Command.Output
