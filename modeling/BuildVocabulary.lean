import BuildVocabulary.Catalog
import BuildVocabulary.CommandLine.Arguments
import BuildVocabulary.CommandLine.Run
import BuildVocabulary.CustomType
import BuildVocabulary.Decimal.Shortest
import BuildVocabulary.Diagnostic
import BuildVocabulary.Encoding
import BuildVocabulary.Entity
import BuildVocabulary.Files.Access
import BuildVocabulary.Files.Path
import BuildVocabulary.Files.Tree
import BuildVocabulary.Json.Basic
import BuildVocabulary.Json.Location
import BuildVocabulary.Json.Number
import BuildVocabulary.Json.Printer
import BuildVocabulary.Json.Reader
import BuildVocabulary.Kind
import BuildVocabulary.Main
import BuildVocabulary.Merge
import BuildVocabulary.Model
import BuildVocabulary.NameMap
import BuildVocabulary.Resources
import BuildVocabulary.Schema.Entry
import BuildVocabulary.Schema.Failure
import BuildVocabulary.Schema.Field
import BuildVocabulary.Schema.Finding
import BuildVocabulary.Schema.Group
import BuildVocabulary.Schema.KindToken
import BuildVocabulary.Schema.Load
import BuildVocabulary.Schema.Loading
import BuildVocabulary.Schema.Resolve
import BuildVocabulary.Schema.Shape
import BuildVocabulary.Schema.TypeDefinition
import BuildVocabulary.Text.Case
import BuildVocabulary.Text.Segments
import BuildVocabulary.Validation
import BuildVocabulary.Yaml.BlockScalar
import BuildVocabulary.Yaml.Document
import BuildVocabulary.Yaml.Implicit
import BuildVocabulary.Yaml.Node
import BuildVocabulary.Yaml.Position
import BuildVocabulary.Yaml.Printer
import BuildVocabulary.Yaml.Scalar
import BuildVocabulary.Yaml.Token
import BuildVocabulary.Proofs.NameMap
import BuildVocabulary.Proofs.Resolve
import BuildVocabulary.Proofs.Merge.Validity
import BuildVocabulary.Proofs.Load.Kind
import BuildVocabulary.Proofs.Load.Entry
import BuildVocabulary.Proofs.Load.Frame
import BuildVocabulary.Proofs.Load.Sections
import BuildVocabulary.Proofs.Load.Group
import BuildVocabulary.Proofs.Load.Soundness
import BuildVocabulary.Proofs.Load.Acceptance
import BuildVocabulary.Proofs.Load.SectionOrder
import BuildVocabulary.Proofs.FirstAppearance
import BuildVocabulary.Proofs.NameMap.Layers
import BuildVocabulary.Proofs.Merge.Layers
import BuildVocabulary.Proofs.Catalog.Acceptance
import BuildVocabulary.Proofs.Merge.Associativity
import BuildVocabulary.Proofs.Merge.Winners
import BuildVocabulary.Proofs.NameMap.Operations
import BuildVocabulary.Proofs.NameMap.Runs
import BuildVocabulary.Proofs.Load.Comments
import BuildVocabulary.Proofs.Load.Typing
import BuildVocabulary.Proofs.Merge.Typing
import BuildVocabulary.Proofs.Load.Phases
import BuildVocabulary.Proofs.Load.Reports
import BuildVocabulary.Proofs.Repetition
import BuildVocabulary.Proofs.Load.Redefinition
import BuildVocabulary.Proofs.CommandLine.Check
import BuildVocabulary.Proofs.Load.Reference
import BuildVocabulary.Proofs.Load.FaultLocation
import BuildVocabulary.Proofs.NameMap.Insertions
import BuildVocabulary.Proofs.Load.Attachment
import BuildVocabulary.Proofs.Load.GroupEffect
import BuildVocabulary.Proofs.Load.FieldMembers
import BuildVocabulary.Proofs.Load.KeyOrder
import BuildVocabulary.Proofs.Merge.Spelling
import BuildVocabulary.Proofs.Merge.GroupLayer
import BuildVocabulary.Proofs.Breach
import BuildVocabulary.Proofs.Merge.Imports
import BuildVocabulary.Proofs.Merge.Idempotence
import BuildVocabulary.Proofs.NameMap.Agreement
import BuildVocabulary.Proofs.Merge.Agreement
import BuildVocabulary.Proofs.Json.Printing
import BuildVocabulary.Proofs.Encoding
import BuildVocabulary.Proofs.Segments
import BuildVocabulary.Proofs.TypeName
import BuildVocabulary.Proofs.Load.TokenCase
import BuildVocabulary.Proofs.Load.TypeValues
import BuildVocabulary.Proofs.Yaml.Scalar
import BuildVocabulary.Proofs.Yaml.Token
import BuildVocabulary.Proofs.Yaml.Document
import BuildVocabulary.Proofs.Catalog.RoundTrip
import BuildVocabulary.Proofs.Resources
