import ForestQuery.AncestorField
import ForestQuery.Binary64
import ForestQuery.Binary64.Decimal
import ForestQuery.Binary64.Extended
import ForestQuery.Binary64.Layout
import ForestQuery.Binary64.Nearest
import ForestQuery.Binary64.Scaling
import ForestQuery.Binary64.Shortest
import ForestQuery.Column
import ForestQuery.Compiler
import ForestQuery.Config
import ForestQuery.Config.Reading
import ForestQuery.Database
import ForestQuery.Database.Catalogue
import ForestQuery.Dialect
import ForestQuery.Dialect.Spelling
import ForestQuery.Document.Cursor
import ForestQuery.Document.Meaning
import ForestQuery.Document.Node
import ForestQuery.Document.Scalar
import ForestQuery.Document.Token
import ForestQuery.Document.Tokens
import ForestQuery.Encoding
import ForestQuery.Error
import ForestQuery.Expr
import ForestQuery.Expr.Evaluation
import ForestQuery.Failure
import ForestQuery.FieldType
import ForestQuery.Filter
import ForestQuery.Filter.Evaluation
import ForestQuery.Filter.Predicate
import ForestQuery.Filter.Rendering
import ForestQuery.Identifier
import ForestQuery.Json
import ForestQuery.Json.Decode
import ForestQuery.Json.Encode
import ForestQuery.Json.Number
import ForestQuery.Json.Reader
import ForestQuery.NameMap
import ForestQuery.Navigation
import ForestQuery.Proofs.Acceptance
import ForestQuery.Proofs.Agreement
import ForestQuery.Proofs.AncestorField
import ForestQuery.Proofs.Ancestors
import ForestQuery.Proofs.Apart
import ForestQuery.Proofs.Capture
import ForestQuery.Proofs.Column
import ForestQuery.Proofs.Column.Append
import ForestQuery.Proofs.Column.Integers
import ForestQuery.Proofs.Column.Levels
import ForestQuery.Proofs.Column.Order
import ForestQuery.Proofs.Column.Pieces
import ForestQuery.Proofs.Compiler
import ForestQuery.Proofs.Delivered
import ForestQuery.Proofs.Delivery
import ForestQuery.Proofs.Depth
import ForestQuery.Proofs.Dialect
import ForestQuery.Proofs.Encoding
import ForestQuery.Proofs.Expr
import ForestQuery.Proofs.Expr.Agreement
import ForestQuery.Proofs.Expr.Overflow
import ForestQuery.Proofs.Expr.Pieces
import ForestQuery.Proofs.Expr.Raising
import ForestQuery.Proofs.Expr.Text
import ForestQuery.Proofs.Expr.Width
import ForestQuery.Proofs.Failure
import ForestQuery.Proofs.Failure.Message
import ForestQuery.Proofs.Filter
import ForestQuery.Proofs.Filter.Predicate
import ForestQuery.Proofs.Filter.Rendering
import ForestQuery.Proofs.Forest
import ForestQuery.Proofs.Growth
import ForestQuery.Proofs.Growth.Arithmetic
import ForestQuery.Proofs.Growth.Capacity
import ForestQuery.Proofs.Independence
import ForestQuery.Proofs.Json
import ForestQuery.Proofs.Json.Number
import ForestQuery.Proofs.Json.RoundTrip
import ForestQuery.Proofs.KeyPart
import ForestQuery.Proofs.KeySource
import ForestQuery.Proofs.Navigation.Kinship
import ForestQuery.Proofs.Navigation.Order
import ForestQuery.Proofs.Navigation.Related
import ForestQuery.Proofs.Navigation.Rollup
import ForestQuery.Proofs.Navigation.Sorted
import ForestQuery.Proofs.Navigation.Tally
import ForestQuery.Proofs.Navigation.Walk
import ForestQuery.Proofs.Node
import ForestQuery.Proofs.Outcome
import ForestQuery.Proofs.Place
import ForestQuery.Proofs.Placeholders
import ForestQuery.Proofs.Preorder
import ForestQuery.Proofs.Query
import ForestQuery.Proofs.Quoting
import ForestQuery.Proofs.Rank
import ForestQuery.Proofs.RawKey
import ForestQuery.Proofs.Reading
import ForestQuery.Proofs.Refusal
import ForestQuery.Proofs.Relation
import ForestQuery.Proofs.Relation.Indexing
import ForestQuery.Proofs.Result
import ForestQuery.Proofs.Row
import ForestQuery.Proofs.Row.Checked
import ForestQuery.Proofs.Row.Soundness
import ForestQuery.Proofs.Segment.Clean
import ForestQuery.Proofs.Segment.Comparison
import ForestQuery.Proofs.Segment.Grammar
import ForestQuery.Proofs.Segment.Key
import ForestQuery.Proofs.Segment.Order
import ForestQuery.Proofs.Segment.RoundTrip
import ForestQuery.Proofs.SiblingOrder
import ForestQuery.Proofs.Siblings
import ForestQuery.Proofs.Sorting
import ForestQuery.Proofs.Statement
import ForestQuery.Proofs.Store
import ForestQuery.Proofs.Table.Groups
import ForestQuery.Proofs.Text.Complement
import ForestQuery.Proofs.Text.Decimal
import ForestQuery.Proofs.Text.Hexadecimal
import ForestQuery.Proofs.Text.Marks
import ForestQuery.Proofs.Text.Order
import ForestQuery.Proofs.Text.Pieces
import ForestQuery.Proofs.Text.Utf8
import ForestQuery.Proofs.Traversal
import ForestQuery.Proofs.Uuid
import ForestQuery.Proofs.Value.Order
import ForestQuery.Proofs.Walk
import ForestQuery.Relation
import ForestQuery.Relation.Declaration
import ForestQuery.Request
import ForestQuery.Result
import ForestQuery.Row
import ForestQuery.Segment
import ForestQuery.Segment.Decode
import ForestQuery.Segment.Encode
import ForestQuery.SiblingOrder
import ForestQuery.Statement
import ForestQuery.Store
import ForestQuery.Strategy
import ForestQuery.Table
import ForestQuery.Text.Blank
import ForestQuery.Text.Digits
import ForestQuery.Text.Marks
import ForestQuery.Text.Plain
import ForestQuery.Text.Quoted
import ForestQuery.Text.Search
import ForestQuery.Text.Stored
import ForestQuery.Text.Utf8
import ForestQuery.Traversal
import ForestQuery.Uuid
import ForestQuery.Value
import ForestQuery.Value.Affinity
import ForestQuery.Value.Order
import ForestQuery.Value.Scalar
