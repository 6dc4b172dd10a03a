import SchemaPlugin.Descriptor.Lookup
import SchemaPlugin.Main
import SchemaPlugin.Wire.ReaderSession
import SchemaPlugin.Proofs.Document.Printer
import SchemaPlugin.Proofs.Plugin.Run
import SchemaPlugin.Proofs.Request.Canonical
import SchemaPlugin.Proofs.Request.Grammar
import SchemaPlugin.Proofs.Wire.WholeFields
import SchemaPlugin.Proofs.MessageType.Basic
import SchemaPlugin.Proofs.MessageType.UnknownFields
import SchemaPlugin.Proofs.MessageType.Truncation
import SchemaPlugin.Proofs.Document.Joined
import SchemaPlugin.Proofs.Document.Literals
import SchemaPlugin.Proofs.Document.ReadBack
import SchemaPlugin.Proofs.Descriptor.Joined
import SchemaPlugin.Proofs.Descriptor.Document
import SchemaPlugin.Proofs.Request.Document
import SchemaPlugin.Proofs.Descriptor.CanonicalTexts
import SchemaPlugin.Proofs.Document.Unpaired
import SchemaPlugin.Proofs.Document.Display
import SchemaPlugin.Proofs.Descriptor.DocumentTexts
import SchemaPlugin.Proofs.Request.Json
import SchemaPlugin.Proofs.Document.Source
import SchemaPlugin.Proofs.CommandLine.Encode
import SchemaPlugin.Proofs.OrderedMap
import SchemaPlugin.Proofs.Request.Concatenation
import SchemaPlugin.Proofs.Request.Agreement
import SchemaPlugin.Proofs.MessageType.Slots
import SchemaPlugin.Proofs.MessageType.FieldOrder
import SchemaPlugin.Proofs.Wire.ReaderSession
import SchemaPlugin.Proofs.Wire.Mirror
import SchemaPlugin.Proofs.Wire.Varint
import SchemaPlugin.Proofs.Plugin.OutputForms
import SchemaPlugin.Proofs.Plugin.Debug
import SchemaPlugin.Proofs.MessageType.Scan
import SchemaPlugin.Proofs.MessageType.Diagnostics
import SchemaPlugin.Proofs.Request.Nesting
import SchemaPlugin.Proofs.Parameters.Collected
import SchemaPlugin.Proofs.Descriptor.Lookup
import SchemaPlugin.Proofs.Outline.Layout
import SchemaPlugin.Proofs.Request.UnknownKeys
import SchemaPlugin.Proofs.Outline.Generate
import SchemaPlugin.Proofs.Path
import SchemaPlugin.Proofs.Outline.OutputName
import SchemaPlugin.Proofs.Request.Targets
import SchemaPlugin.Proofs.CommandLine.JsonFile
import SchemaPlugin.Proofs.Wire.Tag
import SchemaPlugin.Proofs.Text.Sequences
import SchemaPlugin.Proofs.Wire.Text
import SchemaPlugin.Proofs.CommandLine.Toggles
import SchemaPlugin.Proofs.Inspect.Tree
import SchemaPlugin.Proofs.Wire.Locality
