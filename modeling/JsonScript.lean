import JsonScript.Declaration.Header
import JsonScript.Declaration.Source
import JsonScript.Probe.Workbench
import JsonScript.Proofs.Evaluation
import JsonScript.Proofs.Natives
import JsonScript.Proofs.StackDiscipline
import JsonScript.Proofs.FailureTrail
import JsonScript.Proofs.PanicLifting
import JsonScript.Proofs.Laziness
import JsonScript.Proofs.Confinement
import JsonScript.Proofs.Preservation
import JsonScript.Proofs.HookBrackets
import JsonScript.Proofs.Histories
import JsonScript.Proofs.Composition
import JsonScript.Proofs.ByteOrder
import JsonScript.Proofs.Documents
import JsonScript.Proofs.StandardBox
import JsonScript.Proofs.NestedEvaluation
import JsonScript.Proofs.ReadingOrder
import JsonScript.Proofs.Substitution
import JsonScript.Proofs.PanicTracing
import JsonScript.Proofs.Decimals
import JsonScript.Proofs.Reading
import JsonScript.Proofs.NumberTexts
import JsonScript.Proofs.DisplayedValues
import JsonScript.Proofs.Integers
import JsonScript.Proofs.Course
import JsonScript.Proofs.DispatchLog
import JsonScript.Proofs.FailureOrigin
import JsonScript.Proofs.DataOnly
import JsonScript.Proofs.Conversion
import JsonScript.Proofs.TypeNames
import JsonScript.Proofs.Arguments
import JsonScript.Proofs.TypedCalls
import JsonScript.Proofs.Equality
import JsonScript.Proofs.Relocation
import JsonScript.Proofs.Operands
import JsonScript.Proofs.Connectives
import JsonScript.Proofs.Flattening
import JsonScript.Proofs.Attributes
import JsonScript.Proofs.DocComments
import JsonScript.Proofs.PanicFree
import JsonScript.Proofs.Arithmetic
