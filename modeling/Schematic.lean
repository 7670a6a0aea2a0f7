import Schematic.FileName
import Schematic.Order
import Schematic.Real.Decimal
import Schematic.Json.Reader
import Schematic.Json.Fields
import Schematic.Document.Basic
import Schematic.Document.Decode
import Schematic.Document.Encode
import Schematic.Diagnostic
import Schematic.Text.Basic
import Schematic.Text.Quoted
import Schematic.Node.Walk
import Schematic.Descriptor.Draft
import Schematic.Summary
import Schematic.Conversion.File
import Schematic.Descriptor.Decode
import Schematic.Descriptor.Encode
import Schematic.Link.File
import Schematic.Catalog
import Schematic.Package.Directory
import Schematic.Package.Lint
import Schematic.Config
import Schematic.Main
import Schematic.Proofs.Acyclic
import Schematic.Proofs.Dict
import Schematic.Proofs.Order
import Schematic.Proofs.Text.Dotted
import Schematic.Proofs.Conversion.Lookup
import Schematic.Proofs.Node.Nesting
import Schematic.Proofs.Link.Symbols
import Schematic.Proofs.Link.Uses
import Schematic.Proofs.Link.Visible
import Schematic.Proofs.Conversion.Declared
import Schematic.Proofs.Conversion.Imports
import Schematic.Proofs.Conversion.Links
import Schematic.Proofs.Conversion.Dependencies
import Schematic.Proofs.Conversion.Origins
import Schematic.Proofs.Node.Named
import Schematic.Proofs.Conversion.Elements
import Schematic.Proofs.Conversion.Exports
import Schematic.Proofs.Node.Owner
import Schematic.Proofs.Conversion.Inline
import Schematic.Proofs.Descriptor.Path
import Schematic.Proofs.Descriptor.Places
import Schematic.Proofs.Conversion.Shape
import Schematic.Proofs.Descriptor.Comments
import Schematic.Proofs.Conversion.Comments
import Schematic.Proofs.Package.Ensures
import Schematic.Proofs.Package.Step
import Schematic.Proofs.Package.Load
import Schematic.Proofs.Package.BuildOrder
import Schematic.Proofs.Package.Circular
import Schematic.Proofs.Package.Depth
import Schematic.Proofs.Package.Invariant
import Schematic.Proofs.Package.Linked
import Schematic.Proofs.Package.WithImports
import Schematic.Proofs.Package.Materialized
import Schematic.Proofs.Package.Twin
import Schematic.Proofs.Package.LintBuild
import Schematic.Proofs.Package.Supply
import Schematic.Proofs.Package.Found
import Schematic.Proofs.Package.ImportCycle
import Schematic.Proofs.Package.TypeFile
import Schematic.Proofs.Package.Flatten
import Schematic.Proofs.Package.Independence
import Schematic.Proofs.Text.Segments
import Schematic.Proofs.Link.Sound
import Schematic.Proofs.Link.Table
import Schematic.Proofs.Link.Shadow
import Schematic.Proofs.Link.Unused
import Schematic.Proofs.Order.Cycle
import Schematic.Proofs.Document.RoundTrip
import Schematic.Proofs.Conversion.Circle
import Schematic.Proofs.Conversion.Messages
import Schematic.Proofs.Conversion.Oneofs
import Schematic.Proofs.Link.Settled
import Schematic.Proofs.Node.Payload
import Schematic.Proofs.Node.Written
import Schematic.Proofs.Conversion.WellKnown
import Schematic.Proofs.Node.EnumValues
import Schematic.Proofs.Node.StatusFilters
import Schematic.Proofs.Conversion.MapEntries
import Schematic.Proofs.Conversion.FieldNumbers
import Schematic.Proofs.Conversion.Diagnostics
import Schematic.Proofs.Conversion.Members
import Schematic.Proofs.Node.Reference
import Schematic.Proofs.Node.Complete
import Schematic.Proofs.Text.Case
import Schematic.Proofs.OptionBody
import Schematic.Proofs.Package.FileNames
import Schematic.Proofs.Package.Folder
