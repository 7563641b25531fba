import Bhasha.Analysis
import Bhasha.Bindings
import Bhasha.Builtin
import Bhasha.Command
import Bhasha.Command.Help
import Bhasha.Console
import Bhasha.Diagnostic
import Bhasha.Diagnostic.Catalogue
import Bhasha.Evaluation
import Bhasha.Execution
import Bhasha.Fault
import Bhasha.Folder
import Bhasha.Heap
import Bhasha.Heap.Comparison
import Bhasha.Heap.Printer
import Bhasha.Instr
import Bhasha.Instr.Assembly
import Bhasha.Instr.Lowering
import Bhasha.Machine
import Bhasha.Main
import Bhasha.Number.Arithmetic
import Bhasha.Number.Double
import Bhasha.Number.Reading
import Bhasha.Number.Rounded
import Bhasha.Number.Shortest
import Bhasha.Operators
import Bhasha.Program
import Bhasha.Program.Parser
import Bhasha.Program.Printer
import Bhasha.Proofs.AnalyserBalance
import Bhasha.Proofs.AnalyserNames
import Bhasha.Proofs.CallArguments
import Bhasha.Proofs.CallDepth
import Bhasha.Proofs.CodeComputations
import Bhasha.Proofs.CodeLayout
import Bhasha.Proofs.CodeMachine
import Bhasha.Proofs.CodeSimulation
import Bhasha.Proofs.CodeSize
import Bhasha.Proofs.ControlFlow
import Bhasha.Proofs.CursorMoves
import Bhasha.Proofs.Dialogue
import Bhasha.Proofs.ErrorHandlers
import Bhasha.Proofs.ExprReading
import Bhasha.Proofs.ExprShape
import Bhasha.Proofs.ExprSoundness
import Bhasha.Proofs.ExprTags
import Bhasha.Proofs.Finalizers
import Bhasha.Proofs.ForLoopTurns
import Bhasha.Proofs.Grammar
import Bhasha.Proofs.HeapValues
import Bhasha.Proofs.IllegalCharacters
import Bhasha.Proofs.JumpContainment
import Bhasha.Proofs.JumpPlaces
import Bhasha.Proofs.JumpTargets
import Bhasha.Proofs.LabelPlacement
import Bhasha.Proofs.LoopDepth
import Bhasha.Proofs.LoopTermination
import Bhasha.Proofs.MachinePlace
import Bhasha.Proofs.MachineRelations
import Bhasha.Proofs.NameResolution
import Bhasha.Proofs.OperandRules
import Bhasha.Proofs.PairedExecution
import Bhasha.Proofs.ParserProgress
import Bhasha.Proofs.RunInvariants
import Bhasha.Proofs.ScannerFailures
import Bhasha.Proofs.ScannerPositions
import Bhasha.Proofs.ScopeGains
import Bhasha.Proofs.ScopeLedger
import Bhasha.Proofs.ScopeTree
import Bhasha.Proofs.SealedRuns
import Bhasha.Proofs.SourceConcatenation
import Bhasha.Proofs.SourceLines
import Bhasha.Proofs.SourcePieces
import Bhasha.Proofs.SourceSegments
import Bhasha.Proofs.SpellingVariants
import Bhasha.Proofs.StateRelations
import Bhasha.Proofs.StmtReading
import Bhasha.Proofs.StmtSoundness
import Bhasha.Proofs.SuperDispatch
import Bhasha.Proofs.SyntaxErrorPlaces
import Bhasha.Proofs.SyntaxErrorRecovery
import Bhasha.Proofs.TemporaryNumbering
import Bhasha.Proofs.TokenReading
import Bhasha.Proofs.TokenRendering
import Bhasha.Proofs.TokenScanning
import Bhasha.Proofs.TokensLeft
import Bhasha.Proofs.TokensTaken
import Bhasha.Proofs.TreeInduction
import Bhasha.Proofs.TreeNodes
import Bhasha.Proofs.VariableTags
import Bhasha.Proofs.VettedPrograms
import Bhasha.Proofs.WrittenTokens
import Bhasha.Scalar
import Bhasha.Scope
import Bhasha.Symbol
import Bhasha.Template
import Bhasha.Text.Blank
import Bhasha.Text.Case
import Bhasha.Text.Digit
import Bhasha.Text.Letter
import Bhasha.Text.Matching
import Bhasha.Text.Newline
import Bhasha.Text.Printable
import Bhasha.Text.Quoted
import Bhasha.Text.Range
import Bhasha.Token
import Bhasha.Token.Scanner
import Bhasha.Value
