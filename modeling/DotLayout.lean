import DotLayout.Exchange.Collaborator
import DotLayout.Main
import DotLayout.Proofs.Text.Boundary
import DotLayout.Proofs.Text.Bytes
import DotLayout.Proofs.Dot.EdgeOperator
import DotLayout.Proofs.Dot.RoundTrip
import DotLayout.Proofs.Dot.Written
import DotLayout.Proofs.Dot.QuotedText
import DotLayout.Proofs.Dot.ClosingBrace
import DotLayout.Proofs.Dot.BehindBrace
import DotLayout.Proofs.Dot.Header
import DotLayout.Proofs.Dot.Labels
import DotLayout.Proofs.Dot.Bytes.Ends
import DotLayout.Proofs.Dot.Bytes.Chunks
import DotLayout.Proofs.Dot.Bytes.Words
import DotLayout.Proofs.Dot.Bytes.Tokens
import DotLayout.Proofs.Dot.Bytes.Comments
import DotLayout.Proofs.Dot.Bytes.Entries
import DotLayout.Proofs.Dot.Bytes.Document
import DotLayout.Proofs.Layout.LongestWalk
import DotLayout.Proofs.Layout.Positions
import DotLayout.Proofs.Layout.Ranks
import DotLayout.Proofs.Layout.Rows
import DotLayout.Proofs.Layout.EdgeOrder
import DotLayout.Proofs.Exchange.Builtin
import DotLayout.Proofs.Layout.Engine.Topology
import DotLayout.Proofs.Layout.Engine.Formula
import DotLayout.Proofs.Layout.Engine.Placer
import DotLayout.Proofs.Layout.Engine.RingTable
import DotLayout.Proofs.Layout.Engine.Simulation
import DotLayout.Proofs.Layout.Independence
import DotLayout.Proofs.Graph.Placement
import DotLayout.Proofs.Exchange.Answers
import DotLayout.Proofs.Exchange.InPlace
import DotLayout.Proofs.Exchange.Runs
import DotLayout.Proofs.Exchange.Dangling
import DotLayout.Proofs.Graph.Calls
import DotLayout.Proofs.Graph.Keyed
import DotLayout.Proofs.Dot.Calls
import DotLayout.Proofs.Text.Quoting
import DotLayout.Proofs.Dot.Lists
import DotLayout.Proofs.Dot.Agreement
import DotLayout.Proofs.Numeric.Packing
import DotLayout.Proofs.Numeric.Order
import DotLayout.Proofs.Numeric.Rounding
import DotLayout.Proofs.Numeric.Positive
import DotLayout.Proofs.Layout.Loops
import DotLayout.Proofs.Layout.Limits
import DotLayout.Proofs.Layout.Checked.Table
import DotLayout.Proofs.Layout.Checked.Formula
import DotLayout.Proofs.Layout.Checked.Levels
import DotLayout.Proofs.Layout.Checked.Placer
import DotLayout.Proofs.Layout.Checked.RingTable
import DotLayout.Proofs.Layout.Checked.Simulation
import DotLayout.Proofs.Layout.Total
import DotLayout.Proofs.Dot.NodeStatement
import DotLayout.Proofs.Dot.Draft
import DotLayout.Proofs.Dot.Severity
import DotLayout.Proofs.Dot.EdgeKinds
import DotLayout.Proofs.Dot.Refusal
import DotLayout.Proofs.Dot.Rounds
import DotLayout.Proofs.Dot.Lexemes
import DotLayout.Proofs.Dot.HashLines
import DotLayout.Proofs.Dot.Edits
import DotLayout.Proofs.Dot.Margin
import DotLayout.Proofs.Dot.Dashes
import DotLayout.Proofs.Dot.OtherOperator
import DotLayout.Proofs.Routing.EveryEdge
import DotLayout.Proofs.Dot.Naming
import DotLayout.Proofs.Dot.Keywords
import DotLayout.Proofs.Dot.Values
import DotLayout.Proofs.Dot.EdgeLists
import DotLayout.Proofs.Dot.Clearance
import DotLayout.Proofs.Dot.ListContent
import DotLayout.Proofs.Dot.Origins
import DotLayout.Proofs.Dot.NothingLost
import DotLayout.Proofs.Command.InPlace
import DotLayout.Proofs.Command.Runs
import DotLayout.Proofs.Layout.Hub
import DotLayout.Proofs.Layout.RingSlots
import DotLayout.Proofs.Numeric.Counts
import DotLayout.Proofs.Layout.Nesting
import DotLayout.Proofs.Dot.ListQuotes
import DotLayout.Proofs.Dot.CommentMarks
import DotLayout.Proofs.Dot.MarkupValue
import DotLayout.Proofs.Numeric.Numbers
import DotLayout.Proofs.Geometry.Points
import DotLayout.Proofs.Layout.Confined
import DotLayout.Proofs.Exchange.LastEntries
import DotLayout.Proofs.Layout.CircleSlots
import DotLayout.Proofs.Routing.Paths
import DotLayout.Proofs.Layout.Cells
import DotLayout.Proofs.Exchange.Mentions
import DotLayout.Proofs.Numeric.Steps
import DotLayout.Proofs.Numeric.Middle
import DotLayout.Proofs.Numeric.Zeros
import DotLayout.Proofs.Routing.Borders
import DotLayout.Proofs.Layout.LoneNode
import DotLayout.Proofs.Layout.GivingWay
