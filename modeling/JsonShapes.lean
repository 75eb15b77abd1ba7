import JsonShapes.Main
import JsonShapes.Proofs.Reader
import JsonShapes.Proofs.Spelling
import JsonShapes.Proofs.CanonicalText
import JsonShapes.Proofs.Acceptance
import JsonShapes.Proofs.Fallible
import JsonShapes.Proofs.Merging
import JsonShapes.Proofs.Records
import JsonShapes.Proofs.UpperBound
import JsonShapes.Proofs.MergeOrder
import JsonShapes.Proofs.Grouping
import JsonShapes.Proofs.Soundness
import JsonShapes.Proofs.Tightness
import JsonShapes.Proofs.WellFormedness
import JsonShapes.Proofs.Rounding
import JsonShapes.Proofs.ShortestDecimal
import JsonShapes.Proofs.NumberText
import JsonShapes.Proofs.Exclusivity
import JsonShapes.Proofs.SchemaSoundness
import JsonShapes.Proofs.Quoting
import JsonShapes.Proofs.Tokens
import JsonShapes.Proofs.ZodReading
import JsonShapes.Proofs.ZodSoundness
import JsonShapes.Proofs.ZodUnambiguity
import JsonShapes.Proofs.Reordering
import JsonShapes.Proofs.TypeScriptReading
import JsonShapes.Proofs.Decoding
import JsonShapes.Proofs.Totality
import JsonShapes.Proofs.Runs
import JsonShapes.Proofs.FileWrites
import JsonShapes.Proofs.FreshNames
import JsonShapes.Proofs.Discovering
import JsonShapes.Proofs.PrintedDocuments
import JsonShapes.Proofs.SchemaText
import JsonShapes.Proofs.Encodability
import JsonShapes.Proofs.FailedWrites
import JsonShapes.Proofs.Outputs
import JsonShapes.Proofs.Outcomes
import JsonShapes.Proofs.Bijection
import JsonShapes.Proofs.EquivalentMerges
import JsonShapes.Proofs.Absorption
import JsonShapes.Proofs.GroupedMerges
import JsonShapes.Proofs.ElementOrder
import JsonShapes.Proofs.OutputLayout
import JsonShapes.Proofs.StringLiterals
import JsonShapes.Proofs.Respacing
import JsonShapes.Proofs.SpacedDocuments
import JsonShapes.Proofs.Loading
import JsonShapes.Proofs.NameAssignment
import JsonShapes.Proofs.Confinement
import JsonShapes.Proofs.TypeNames
import JsonShapes.Proofs.StandardOutput
import JsonShapes.Proofs.FieldTables
