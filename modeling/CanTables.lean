import CanTables.Assembly.Assemble
import CanTables.Assembly.Draft
import CanTables.Assembly.Keys
import CanTables.Assembly.Lineage
import CanTables.Assembly.Mapping
import CanTables.Assembly.Resolve
import CanTables.Assembly.States
import CanTables.CommandLine.Invocation
import CanTables.CommandLine.Option
import CanTables.Compile
import CanTables.Declaration.Bus
import CanTables.Declaration.Command
import CanTables.Declaration.File
import CanTables.Declaration.Message
import CanTables.Declaration.Signal
import CanTables.Document.Overlay
import CanTables.Document.Reader
import CanTables.Document.Token
import CanTables.Document.Value
import CanTables.Emit.Dispatch
import CanTables.Emit.Firmware
import CanTables.Emit.Line
import CanTables.Emit.Script
import CanTables.Fault
import CanTables.Identifier
import CanTables.Journal
import CanTables.Main
import CanTables.Markup.Attribute
import CanTables.Markup.Entry
import CanTables.Markup.Event
import CanTables.Markup.Scope
import CanTables.Markup.Tree
import CanTables.MessageSet.Basic
import CanTables.MessageSet.Check
import CanTables.MessageSet.Derived
import CanTables.Network.Basic
import CanTables.Network.Import
import CanTables.Numeric.Decimal
import CanTables.Numeric.Fixed
import CanTables.Numeric.Floating
import CanTables.Numeric.Rounding
import CanTables.Order.Keyed
import CanTables.Order.Sorting
import CanTables.Payload.Field
import CanTables.Payload.Numbering
import CanTables.Proofs.Assembly.Absent
import CanTables.Proofs.Assembly.Ancestry
import CanTables.Proofs.Assembly.Arrange
import CanTables.Proofs.Assembly.Canonical
import CanTables.Proofs.Assembly.Clashes
import CanTables.Proofs.Assembly.Commands
import CanTables.Proofs.Assembly.Differ
import CanTables.Proofs.Assembly.Drafts
import CanTables.Proofs.Assembly.Enabled
import CanTables.Proofs.Assembly.Enumeration
import CanTables.Proofs.Assembly.Gather
import CanTables.Proofs.Assembly.Groups
import CanTables.Proofs.Assembly.Identify
import CanTables.Proofs.Assembly.Keys
import CanTables.Proofs.Assembly.Layering
import CanTables.Proofs.Assembly.Layers
import CanTables.Proofs.Assembly.Lineage
import CanTables.Proofs.Assembly.Lists
import CanTables.Proofs.Assembly.Merge
import CanTables.Proofs.Assembly.Precedence
import CanTables.Proofs.Assembly.Preorder
import CanTables.Proofs.Assembly.References
import CanTables.Proofs.Assembly.Respell
import CanTables.Proofs.Assembly.Sound
import CanTables.Proofs.Assembly.Speaking
import CanTables.Proofs.Assembly.Spelling
import CanTables.Proofs.Assembly.Stacking
import CanTables.Proofs.Assembly.Stamp
import CanTables.Proofs.Assembly.Statement
import CanTables.Proofs.Assembly.Supplied
import CanTables.Proofs.Assembly.Unique
import CanTables.Proofs.Assembly.Unnoticed
import CanTables.Proofs.Assembly.Versions
import CanTables.Proofs.Declaration.File
import CanTables.Proofs.Document.Foreign
import CanTables.Proofs.Document.Grouping
import CanTables.Proofs.Document.Lookup
import CanTables.Proofs.Document.Ordered
import CanTables.Proofs.Document.Overlay
import CanTables.Proofs.Document.Path
import CanTables.Proofs.Document.Pile
import CanTables.Proofs.Document.Silent
import CanTables.Proofs.Emit.Anonymous
import CanTables.Proofs.Emit.Arrays
import CanTables.Proofs.Emit.Blocks
import CanTables.Proofs.Emit.CodePart
import CanTables.Proofs.Emit.Dispatch
import CanTables.Proofs.Emit.Factors
import CanTables.Proofs.Emit.Forget
import CanTables.Proofs.Emit.Names
import CanTables.Proofs.Emit.Records
import CanTables.Proofs.Emit.Sections
import CanTables.Proofs.Emit.States
import CanTables.Proofs.Identifier
import CanTables.Proofs.Journal
import CanTables.Proofs.MessageSet.Fit
import CanTables.Proofs.MessageSet.Prune
import CanTables.Proofs.MessageSet.Rows
import CanTables.Proofs.MessageSet.Sound
import CanTables.Proofs.Network.Import
import CanTables.Proofs.Network.Layout
import CanTables.Proofs.Network.Spellings
import CanTables.Proofs.Network.Under
import CanTables.Proofs.Numeric.Fixed
import CanTables.Proofs.Numeric.Word
import CanTables.Proofs.Order.Keyed
import CanTables.Proofs.Order.Positions
import CanTables.Proofs.Order.Ranks
import CanTables.Proofs.Order.Sorting
import CanTables.Proofs.Payload.Field
import CanTables.Proofs.Payload.Numbering
import CanTables.Proofs.Payload.Words
import CanTables.Proofs.Schema.Layer
import CanTables.Proofs.Schema.Overlay
import CanTables.Proofs.Schema.Part
import CanTables.Proofs.Store.Directories
import CanTables.Proofs.Store.Edited
import CanTables.Proofs.Store.Files
import CanTables.Proofs.Store.Versions
import CanTables.Proofs.Tables.Agree
import CanTables.Proofs.Tables.AnyOrder
import CanTables.Proofs.Tables.Balance
import CanTables.Proofs.Tables.Commands
import CanTables.Proofs.Tables.Compiled
import CanTables.Proofs.Tables.Enumerated
import CanTables.Proofs.Tables.Fit
import CanTables.Proofs.Tables.Place
import CanTables.Proofs.Tables.Pruned
import CanTables.Proofs.Tables.Refusal
import CanTables.Proofs.Tables.Reported
import CanTables.Proofs.Tables.Scaling
import CanTables.Proofs.Tables.StateIndex
import CanTables.Proofs.Text.Grammar
import CanTables.Proofs.Text.Literal
import CanTables.Proofs.Text.Numeral
import CanTables.Proofs.Text.Reading
import CanTables.RawMode
import CanTables.Schema.Layer
import CanTables.Schema.Reader
import CanTables.Settings
import CanTables.Store.Catalog
import CanTables.Store.Tree
import CanTables.Tables.Plan
import CanTables.Tables.Row
import CanTables.Text.Blank
import CanTables.Text.Digits
import CanTables.Text.Literal
