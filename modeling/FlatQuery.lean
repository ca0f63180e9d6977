import FlatQuery.Main
import FlatQuery.Proofs.Condition.Acceptance
import FlatQuery.Proofs.Row.Lines
import FlatQuery.Proofs.Row.Boundaries
import FlatQuery.Proofs.Row.Reader
import FlatQuery.Proofs.Row.Record
import FlatQuery.Proofs.Row.RoundTrip
import FlatQuery.Proofs.Row.Written
import FlatQuery.Proofs.Scan.Pages
import FlatQuery.Proofs.Scan.Rows
import FlatQuery.Proofs.Scan.Window
import FlatQuery.Proofs.Session.Cursors
import FlatQuery.Proofs.Text.Utf8
import FlatQuery.Proofs.Session.Read
import FlatQuery.Proofs.Session.History
import FlatQuery.Proofs.Session.Independence
import FlatQuery.Proofs.Session.Window
import FlatQuery.Proofs.Service.Request
import FlatQuery.Proofs.Json.Printer
import FlatQuery.Proofs.Service.Input
import FlatQuery.Proofs.Service.Serve
import FlatQuery.Proofs.Scan.Stats
import FlatQuery.Proofs.Session.Accounting
import FlatQuery.Proofs.Record.Restriction
import FlatQuery.Proofs.Scan.Views
import FlatQuery.Proofs.Row.Breaks
import FlatQuery.Proofs.Scan.Breaks
import FlatQuery.Proofs.Service.FullSink
import FlatQuery.Proofs.Row.Reads
import FlatQuery.Proofs.Row.Partition
import FlatQuery.Proofs.Scan.Ids
import FlatQuery.Proofs.Scan.Tally
import FlatQuery.Proofs.Condition.Printed
import FlatQuery.Proofs.Query.Grammar
import FlatQuery.Proofs.Condition.Like
import FlatQuery.Proofs.Condition.Search
import FlatQuery.Proofs.Row.LineEnds
import FlatQuery.Proofs.Scan.LineEnds
import FlatQuery.Proofs.Json.Reader
import FlatQuery.Proofs.Json.RoundTrip
import FlatQuery.Proofs.Config.RoundTrip
import FlatQuery.Proofs.Log.Journal
import FlatQuery.Proofs.Session.Logging
import FlatQuery.Proofs.Service.Logging
import FlatQuery.Proofs.Record.Grouping
import FlatQuery.Proofs.Record.Projection
import FlatQuery.Proofs.Path
import FlatQuery.Proofs.Session.TableFiles
import FlatQuery.Proofs.Json.Locality
import FlatQuery.Proofs.Service.FirstLine
import FlatQuery.Proofs.Condition.Comparison
import FlatQuery.Proofs.Condition.Membership
import FlatQuery.Proofs.Text.ByteOrder
import FlatQuery.Proofs.Log.Entry
import FlatQuery.Proofs.Number.Nearest
import FlatQuery.Proofs.Query.Window
