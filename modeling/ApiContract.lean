import ApiContract.Api.Basic
import ApiContract.Api.Encode
import ApiContract.Api.Module
import ApiContract.Api.Render
import ApiContract.CommandLine.Arguments
import ApiContract.CommandLine.Run
import ApiContract.Contract.Basic
import ApiContract.Contract.Occurrence
import ApiContract.Contract.OfOperation
import ApiContract.Contract.Request
import ApiContract.Contract.Response
import ApiContract.Distinct
import ApiContract.Document.Basic
import ApiContract.Document.Lowering
import ApiContract.Document.Reader
import ApiContract.Error
import ApiContract.Identifier
import ApiContract.Json.Basic
import ApiContract.Json.Build
import ApiContract.Json.Reader
import ApiContract.Json.Record
import ApiContract.Json.Source
import ApiContract.Json.Writer
import ApiContract.Keyed
import ApiContract.Literal
import ApiContract.Main
import ApiContract.MediaType
import ApiContract.Model.Basic
import ApiContract.Model.Resolve
import ApiContract.Names
import ApiContract.Number.Double
import ApiContract.Number.Layout
import ApiContract.Number.Shortest
import ApiContract.Operation.Basic
import ApiContract.Pattern.Basic
import ApiContract.Pattern.Reader
import ApiContract.Pattern.Search
import ApiContract.Pointwise
import ApiContract.Schema.Encode
import ApiContract.Schema.Keywords
import ApiContract.Schema.Lowering
import ApiContract.Schema.Node
import ApiContract.Schema.Reader
import ApiContract.Schema.Size
import ApiContract.Schema.Step
import ApiContract.Scope
import ApiContract.Settings.Basic
import ApiContract.Settings.Reader
import ApiContract.SortedSet
import ApiContract.Status
import ApiContract.Text.CaseFold
import ApiContract.Text.CharClass
import ApiContract.Text.Hex
import ApiContract.Text.Ranges
import ApiContract.Text.Uppercase
import ApiContract.Text.Words
import ApiContract.Traverse
import ApiContract.TypeExpr.Basic
import ApiContract.TypeExpr.Encode
import ApiContract.TypeExpr.OfSchema
import ApiContract.TypeExpr.Render
import ApiContract.TypeExpr.Simplify
import ApiContract.Validator.Basic
import ApiContract.Validator.Check
import ApiContract.Validator.Dispatch
import ApiContract.Validator.Encode
import ApiContract.Validator.Issue
import ApiContract.Validator.OfSchema
import ApiContract.Validator.Render
import ApiContract.Proofs.Collections
import ApiContract.Proofs.Outcomes
import ApiContract.Proofs.ValidatorEquality
import ApiContract.Proofs.Constructors
import ApiContract.Proofs.Inhabitation
import ApiContract.Proofs.UnionMeaning
import ApiContract.Proofs.IntersectionMeaning
import ApiContract.Proofs.Alignment
import ApiContract.Proofs.ResponseLookup
import ApiContract.Proofs.ScopeAssignment
import ApiContract.Proofs.SchemaReferences
import ApiContract.Proofs.ContractReferences
import ApiContract.Proofs.LoadedDescriptions
import ApiContract.Proofs.ModuleImports
import ApiContract.Proofs.ModuleOrder
import ApiContract.Proofs.CheckCalls
import ApiContract.Proofs.CheckErrors
import ApiContract.Proofs.NameResolution
import ApiContract.Proofs.ReducedTypes
import ApiContract.Proofs.CanonicalTypes
import ApiContract.Proofs.DistinctProperties
import ApiContract.Proofs.CanonicalContracts
import ApiContract.Proofs.CompiledSchemas
import ApiContract.Proofs.SiblingKeywords
import ApiContract.Proofs.KeywordParts
import ApiContract.Proofs.ExactUnions
import ApiContract.Proofs.AnswerTypes
import ApiContract.Proofs.ImportOwners
import ApiContract.Proofs.ImportGraph
import ApiContract.Proofs.ReferenceLimits
import ApiContract.Proofs.AnswerValidation
import ApiContract.Proofs.StructuralMeaning
import ApiContract.Proofs.ExactIntersections
import ApiContract.Proofs.SchemaVerdicts
import ApiContract.Proofs.NullSpellings
import ApiContract.Proofs.BoundSpellings
import ApiContract.Proofs.Acceptance
import ApiContract.Proofs.IssuePlaces
import ApiContract.Proofs.RoundedIntegers
import ApiContract.Proofs.SingleResponses
import ApiContract.Proofs.ContainerLimits
import ApiContract.Proofs.ScalarAcceptance
import ApiContract.Proofs.ValidatorReferences
import ApiContract.Proofs.CanonicalValidators
import ApiContract.Proofs.RefusedKeywords
import ApiContract.Proofs.EqualValidators
import ApiContract.Proofs.DiscriminatedBodies
import ApiContract.Proofs.PointerEscapes
import ApiContract.Proofs.CallArguments
import ApiContract.Proofs.ParameterMerging
import ApiContract.Proofs.VoidResults
import ApiContract.Proofs.StatusKeys
import ApiContract.Proofs.QuotedText
import ApiContract.Proofs.SanitizedNames
import ApiContract.Proofs.UniqueReading
import ApiContract.Proofs.TypeTexts
import ApiContract.Proofs.UnambiguousTypes
import ApiContract.Proofs.CamelCase
import ApiContract.Proofs.KeyNames
import ApiContract.Proofs.DeclaredNames
import ApiContract.Proofs.GuardedReferences
import ApiContract.Proofs.LoweringCalls
import ApiContract.Proofs.CanonicalRecursion
import ApiContract.Proofs.PickedNames
