import PointsTo.Builder
import PointsTo.Call.Model
import PointsTo.Call.Models
import PointsTo.Config
import PointsTo.Const
import PointsTo.ConstPool
import PointsTo.Decimal
import PointsTo.Distinct
import PointsTo.Extract.Emission
import PointsTo.Extract.Error
import PointsTo.Extract.Extractor
import PointsTo.Extract.Plan
import PointsTo.Extract.Registration
import PointsTo.Extract.Row
import PointsTo.Extract.Setup
import PointsTo.Extract.Step
import PointsTo.Extract.Tour
import PointsTo.Fact.Files
import PointsTo.Fact.Relation
import PointsTo.Fact.Store
import PointsTo.Fact.Tsv
import PointsTo.Ident
import PointsTo.Ir.Fault
import PointsTo.Ir.Function
import PointsTo.Ir.Instr
import PointsTo.Ir.Module
import PointsTo.Ir.Op
import PointsTo.Ir.Terminator
import PointsTo.Ir.Value
import PointsTo.Notice
import PointsTo.ObjectTable
import PointsTo.PointerMemo
import PointsTo.Proofs.Agreement
import PointsTo.Proofs.Answers
import PointsTo.Proofs.BuiltTables
import PointsTo.Proofs.CallAccounts
import PointsTo.Proofs.CallResolution
import PointsTo.Proofs.Closure
import PointsTo.Proofs.ConstantFacts
import PointsTo.Proofs.ConstantPools
import PointsTo.Proofs.ConstantWalk
import PointsTo.Proofs.ControlFlow
import PointsTo.Proofs.Correspondence
import PointsTo.Proofs.Coverage
import PointsTo.Proofs.Dispatch
import PointsTo.Proofs.EmissionRuns
import PointsTo.Proofs.Export
import PointsTo.Proofs.Extractors
import PointsTo.Proofs.Facts
import PointsTo.Proofs.FreeArguments
import PointsTo.Proofs.GuardedRows
import PointsTo.Proofs.History
import PointsTo.Proofs.InstructionRows
import PointsTo.Proofs.KnownTypes
import PointsTo.Proofs.Layouts
import PointsTo.Proofs.Listing
import PointsTo.Proofs.Mentions
import PointsTo.Proofs.Names
import PointsTo.Proofs.Numbers
import PointsTo.Proofs.ObjectBlocks
import PointsTo.Proofs.ObjectOwners
import PointsTo.Proofs.OperandGuards
import PointsTo.Proofs.Operands
import PointsTo.Proofs.Outline
import PointsTo.Proofs.OwnedObjects
import PointsTo.Proofs.PairedRegistration
import PointsTo.Proofs.PartialRuns
import PointsTo.Proofs.Parts
import PointsTo.Proofs.PlainRows
import PointsTo.Proofs.PlanSteps
import PointsTo.Proofs.PointerGates
import PointsTo.Proofs.PointerValues
import PointsTo.Proofs.PolicyRuns
import PointsTo.Proofs.Principal
import PointsTo.Proofs.Provenance
import PointsTo.Proofs.Registration
import PointsTo.Proofs.RenamedObjects
import PointsTo.Proofs.RenamedRuns
import PointsTo.Proofs.Renaming
import PointsTo.Proofs.RenumberedRuns
import PointsTo.Proofs.Renumbering
import PointsTo.Proofs.Schemas
import PointsTo.Proofs.Shapes
import PointsTo.Proofs.Sites
import PointsTo.Proofs.SpecialObjects
import PointsTo.Proofs.SsaForm
import PointsTo.Proofs.StableObjects
import PointsTo.Proofs.Stores
import PointsTo.Proofs.Subjects
import PointsTo.Proofs.Totality
import PointsTo.Proofs.TypeRequests
import PointsTo.Proofs.TypeTables
import PointsTo.Proofs.TypeTexts
import PointsTo.Proofs.TypingRuns
import PointsTo.Proofs.ValueTypes
import PointsTo.Proofs.Verification
import PointsTo.Sample
import PointsTo.Table
import PointsTo.Text.Quoted
import PointsTo.Text.Shown
import PointsTo.Toml.Document
import PointsTo.Toml.Scalar
import PointsTo.Toml.Text
import PointsTo.Toml.Value
import PointsTo.Ty
import PointsTo.TypeTable
