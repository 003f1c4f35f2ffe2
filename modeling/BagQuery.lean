import BagQuery.FileTree
import BagQuery.Json.Decode
import BagQuery.Main
import BagQuery.Proofs.BagElements
import BagQuery.Proofs.Reference
import BagQuery.Proofs.Attempt
import BagQuery.Proofs.PlanTyping
import BagQuery.Proofs.TypeSoundness
import BagQuery.Proofs.EagerStore
import BagQuery.Proofs.AnalysisEquivalence
import BagQuery.Proofs.Modes
import BagQuery.Proofs.FailedRuns
import BagQuery.Proofs.ExpressionTyping
import BagQuery.Proofs.Grammar
import BagQuery.Proofs.GrammarReading
import BagQuery.Proofs.PairClosure
import BagQuery.Proofs.ClosureProgram
import BagQuery.Proofs.QueryFaults
import BagQuery.Proofs.StoreHistory
import BagQuery.Proofs.RefusedOutputs
import BagQuery.Proofs.RunFaults
import BagQuery.Proofs.LoopOutcomes
import BagQuery.Proofs.LimitedModes
import BagQuery.Proofs.Rewinding
import BagQuery.Proofs.RecordText
import BagQuery.Proofs.TextLines
import BagQuery.Proofs.WrittenFiles
import BagQuery.Proofs.TokenLayout
import BagQuery.Proofs.TokenReading
import BagQuery.Proofs.FailedRestarts
import BagQuery.Proofs.NumberedLines
import BagQuery.Proofs.RefusalPlaces
import BagQuery.Proofs.LoadErrors
import BagQuery.Proofs.BagOperations
import BagQuery.Proofs.ElementOrder
import BagQuery.Proofs.MirroredJoin
import BagQuery.Proofs.JoinColumns
import BagQuery.Proofs.RecordGrammar
import BagQuery.Proofs.Simulation
import BagQuery.Proofs.StoreReads
import BagQuery.Proofs.LazyRuns
import BagQuery.Proofs.MirroredRuns
import BagQuery.Proofs.RunIdentity
import BagQuery.Proofs.AssignmentOrder
import BagQuery.Proofs.RepeatedPairs
import BagQuery.Proofs.ColumnText
import BagQuery.Proofs.ExplanationShape
import BagQuery.Proofs.JsonGrammar
import BagQuery.Proofs.JsonReading
import BagQuery.Proofs.JsonLibrary
import BagQuery.Proofs.TupleComparison
