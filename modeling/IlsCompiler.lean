import IlsCompiler.Main
import IlsCompiler.Proofs.Assembly.CallAgreement
import IlsCompiler.Proofs.Assembly.Comparisons
import IlsCompiler.Proofs.Assembly.DataAccesses
import IlsCompiler.Proofs.Assembly.FrameSlots
import IlsCompiler.Proofs.Assembly.PoolHistory
import IlsCompiler.Proofs.Assembly.Replacements
import IlsCompiler.Proofs.Assembly.StoredWords
import IlsCompiler.Proofs.Build.ProgressRuns
import IlsCompiler.Proofs.Compilation.Locations
import IlsCompiler.Proofs.IR.Reachability
import IlsCompiler.Proofs.Program.RoundTrip
import IlsCompiler.Proofs.Text.Backquoted
import IlsCompiler.Proofs.Text.TypeNames
import IlsCompiler.Proofs.Trace.Brackets
