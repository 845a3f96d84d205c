import ScriptOps.Arithmetic
import ScriptOps.Assignment
import ScriptOps.BinaryOperation
import ScriptOps.Calendar
import ScriptOps.Coercion
import ScriptOps.Comparison
import ScriptOps.Destructuring
import ScriptOps.Elements
import ScriptOps.Environment
import ScriptOps.Error
import ScriptOps.Evaluation
import ScriptOps.Expr
import ScriptOps.FunctionKind
import ScriptOps.Heap.Basic
import ScriptOps.Heap.Display
import ScriptOps.Interner
import ScriptOps.Lowering
import ScriptOps.Machine
import ScriptOps.Node
import ScriptOps.Number.Binary
import ScriptOps.Number.Decimal
import ScriptOps.Number.Literal
import ScriptOps.Number.Power
import ScriptOps.Number.Residue
import ScriptOps.Number.Text
import ScriptOps.Object
import ScriptOps.Operator
import ScriptOps.Overload.Catalog
import ScriptOps.Overload.Resolver
import ScriptOps.Proofs.Agreement
import ScriptOps.Proofs.ArrayMembership
import ScriptOps.Proofs.MachineRelation
import ScriptOps.Proofs.Simulation
import ScriptOps.Proofs.WorldEffects
import ScriptOps.PropertyAccess
import ScriptOps.Reference
import ScriptOps.Run
import ScriptOps.Scripted
import ScriptOps.Span
import ScriptOps.Table
import ScriptOps.Text.Blank
import ScriptOps.Text.Escape
import ScriptOps.Text.Index
import ScriptOps.Text.Unprintable
import ScriptOps.Text.Utf16
import ScriptOps.Value
import ScriptOps.World
import ScriptOps.Proofs.Folding
import ScriptOps.Proofs.FailedAssignment
import ScriptOps.Proofs.EnvironmentChain
import ScriptOps.Proofs.Invariants
import ScriptOps.Proofs.ReferencePools
import ScriptOps.Proofs.PoolIsolation
import ScriptOps.Proofs.CompoundAssignment
import ScriptOps.Proofs.IntegerDoubles
import ScriptOps.Proofs.IntegerBinaries
import ScriptOps.Proofs.IntegerText
import ScriptOps.Proofs.FastPaths
import ScriptOps.Proofs.NumberRepresentation
import ScriptOps.Proofs.PoolBalance
import ScriptOps.Proofs.TreeFeatures
import ScriptOps.Proofs.Contracts
import ScriptOps.Proofs.PropertyWrites
import ScriptOps.Proofs.NestedConversions
import ScriptOps.Proofs.PrototypeChains
import ScriptOps.Proofs.OverloadCache
import ScriptOps.Proofs.AbsentOverloads
import ScriptOps.Proofs.StrictMode
import ScriptOps.Proofs.ProtectedBindings
import ScriptOps.Proofs.ErrorPlaces
import ScriptOps.Proofs.RunProperties
import ScriptOps.Proofs.CallbackErrors
import ScriptOps.Proofs.SparseArrays
import ScriptOps.Proofs.NameResolution
import ScriptOps.Proofs.PropertyRefusals
import ScriptOps.Proofs.HeapEvolution
import ScriptOps.Proofs.ReadOnlyProperties
import ScriptOps.Proofs.LoweringDefects
import ScriptOps.Proofs.ConversionCallbacks
import ScriptOps.Proofs.InternedNames
import ScriptOps.Proofs.ConversionOrder
import ScriptOps.Proofs.LooseEquality
import ScriptOps.Proofs.RelationalOperators
import ScriptOps.Proofs.EqualityRelations
import ScriptOps.Proofs.DirectAssignment
import ScriptOps.Proofs.LogicalAssignment
import ScriptOps.Proofs.PatternParts
import ScriptOps.Proofs.PatternAssignment
import ScriptOps.Proofs.OverloadChoice
import ScriptOps.Proofs.DoubleOrder
import ScriptOps.Proofs.NearestDouble
import ScriptOps.Proofs.DecimalDoubles
import ScriptOps.Proofs.NumberReading
import ScriptOps.Proofs.RadixLiterals
import ScriptOps.Proofs.NumericLiterals
import ScriptOps.Proofs.NumberRoundTrip
import ScriptOps.Proofs.Residues
import ScriptOps.Proofs.BitwiseOperators
import ScriptOps.Proofs.ArrayText
import ScriptOps.Proofs.PoolHistory
import ScriptOps.Proofs.FoldedTrees
import ScriptOps.Proofs.PropertyMembership
import ScriptOps.Proofs.GregorianCalendar
import ScriptOps.Proofs.RoundedValues
import ScriptOps.Proofs.DateText
import ScriptOps.Proofs.FunctionLiterals
import ScriptOps.Proofs.FunctionNames
import ScriptOps.Proofs.CalendarOrder
import ScriptOps.Proofs.CodeUnitOrder
import ScriptOps.Proofs.IndexTexts
import ScriptOps.Proofs.IndexKeys
