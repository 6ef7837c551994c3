import Dynval.Action
import Dynval.Binary64.Arith
import Dynval.Binary64.Basic
import Dynval.Clock
import Dynval.CommandLine.Invocation
import Dynval.CommandLine.Perform
import Dynval.Container
import Dynval.Decimal.Basic
import Dynval.Decimal.Text
import Dynval.Event
import Dynval.Fault
import Dynval.Files
import Dynval.Frame.Check
import Dynval.Frame.Shape
import Dynval.Literal
import Dynval.Main
import Dynval.Number.Arith
import Dynval.Number.Basic
import Dynval.Number.Order
import Dynval.Operation.Apply
import Dynval.Operation.Basic
import Dynval.Platform
import Dynval.Proofs.Action.Basic
import Dynval.Proofs.Action.Placed
import Dynval.Proofs.Binary64.Round
import Dynval.Proofs.Binary64.Text
import Dynval.Proofs.CommandLine.Run
import Dynval.Proofs.Container.Map
import Dynval.Proofs.Container.Write
import Dynval.Proofs.Datum.Render
import Dynval.Proofs.Datum.Repr
import Dynval.Proofs.Datum.Text
import Dynval.Proofs.Datum.View
import Dynval.Proofs.Decimal.Layout
import Dynval.Proofs.Decimal.Text
import Dynval.Proofs.Decimal.Value
import Dynval.Proofs.Frame.Check
import Dynval.Proofs.Key.Entries
import Dynval.Proofs.Key.Equality
import Dynval.Proofs.Key.Order
import Dynval.Proofs.Key.Total
import Dynval.Proofs.Literal.Errors
import Dynval.Proofs.Literal.Eval
import Dynval.Proofs.Literal.RoundTrip
import Dynval.Proofs.Number.Division
import Dynval.Proofs.Number.Order
import Dynval.Proofs.Number.Rational
import Dynval.Proofs.Operation.Extremes
import Dynval.Proofs.Operation.Frame
import Dynval.Proofs.Operation.Origin
import Dynval.Proofs.Operation.Placed
import Dynval.Proofs.Operation.Print
import Dynval.Proofs.Platform
import Dynval.Proofs.Run.FailFast
import Dynval.Proofs.Run.Isolation
import Dynval.Proofs.Run.Report
import Dynval.Proofs.Sequence.Bytes
import Dynval.Proofs.Sequence.Elements
import Dynval.Proofs.Sequence.Items
import Dynval.Proofs.Sequence.Product
import Dynval.Proofs.Sequence.Range
import Dynval.Proofs.Sequence.Repeat
import Dynval.Proofs.Store.Above
import Dynval.Proofs.Store.Basic
import Dynval.Proofs.Store.Below
import Dynval.Proofs.Store.Bisimulation
import Dynval.Proofs.Store.Copy
import Dynval.Proofs.Store.CopyBytes
import Dynval.Proofs.Store.Identity
import Dynval.Proofs.Store.Keyed
import Dynval.Proofs.Store.Paths
import Dynval.Proofs.Store.Rename
import Dynval.Proofs.Store.Tree
import Dynval.Proofs.Subscript.Contains
import Dynval.Proofs.Subscript.Policy
import Dynval.Proofs.Subscript.Position
import Dynval.Proofs.Subscript.Slice
import Dynval.Proofs.Subscript.Write
import Dynval.Proofs.Suite.Check
import Dynval.Proofs.Text.Float
import Dynval.Proofs.Text.Numeral
import Dynval.Proofs.Text.Order
import Dynval.Proofs.Text.Quoted
import Dynval.Proofs.Text.Scalars
import Dynval.Proofs.Text.Search
import Dynval.Proofs.Text.Word
import Dynval.Proofs.Toml.Canonical
import Dynval.Proofs.Value.Equality
import Dynval.Proofs.Value.Facet
import Dynval.Proofs.Value.Order
import Dynval.Proofs.Value.Ordered
import Dynval.Proofs.Value.Rename
import Dynval.Proofs.Value.Ties
import Dynval.Run.Basic
import Dynval.Run.Config
import Dynval.Sequence.Basic
import Dynval.Sequence.Items
import Dynval.Store.Basic
import Dynval.Store.Copy
import Dynval.Subscript.Read
import Dynval.Subscript.Write
import Dynval.Suite.Basic
import Dynval.Suite.Core
import Dynval.Text.Basic
import Dynval.Text.Numeral
import Dynval.Toml.Basic
import Dynval.Toml.Document
import Dynval.Toml.Reader
import Dynval.Toml.Schema
import Dynval.Toml.Text
import Dynval.Value.Basic
import Dynval.Value.Coerce
import Dynval.Value.Equality
import Dynval.Value.Key
import Dynval.Value.Text
import Dynval.Word
