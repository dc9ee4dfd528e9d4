import LvimDb.Lib.Machine
import LvimDb.Lib.History
import LvimDb.Lib.Pull
import LvimDb.Lib.Lines
import LvimDb.Lib.Total
import LvimDb.Lib.Numeral
import LvimDb.Lib.Binary64
import LvimDb.Lib.Rounding
import LvimDb.Lib.Dialogue
import LvimDb.Lib.Replace
import LvimDb.Lib.Traced
import LvimDb.Lib.Pattern
import LvimDb.Lib.Words
import LvimDb.Lib.Cut
import LvimDb.Lib.Display
import LvimDb.Lib.Json
import LvimDb.Lib.Literal
import LvimDb.Lib.Places
import LvimDb.Lib.Taken
import LvimDb.Lib.Gather
import LvimDb.Lib.Decimal
import LvimDb.Lib.Table
import LvimDb.Lib.Nearest
import LvimDb.Engine.Stream
import LvimDb.Engine.Call
import LvimDb.Engine.Paging
import LvimDb.Engine.Server
import LvimDb.Engine.Steps
import LvimDb.Engine.Lifecycle
import LvimDb.Engine.Locks
import LvimDb.Engine.Cancellation
import LvimDb.Engine.FailedCancel
import LvimDb.Engine.Output
import LvimDb.Engine.Disconnect
import LvimDb.Engine.Range
import LvimDb.Engine.More
import LvimDb.Engine.Batches
import LvimDb.Engine.Answers
import LvimDb.Engine.Totals
import LvimDb.Client.Session
import LvimDb.Client.Channel
import LvimDb.Client.Outcomes
import LvimDb.Client.Handles
import LvimDb.Client.Accounts
import LvimDb.Client.Drawer
import LvimDb.Result.State
import LvimDb.Result.Panel
import LvimDb.Result.Inputs
import LvimDb.Result.Frame
import LvimDb.Result.Coherence
import LvimDb.Result.Buffers
import LvimDb.Result.Desk
import LvimDb.Result.Reopened
import LvimDb.Result.Next
import LvimDb.Result.Ledger
import LvimDb.Result.Address
import LvimDb.Result.Confirm
import LvimDb.Result.Tally
import LvimDb.Result.Tickets
import LvimDb.Result.Refresh
import LvimDb.Result.Callbacks
import LvimDb.Result.Guard
import LvimDb.Result.Reports
import LvimDb.Result.Alone
import LvimDb.Result.Save
import LvimDb.Editor.RunAll
import LvimDb.Editor.Order
import LvimDb.Editor.Sends
import LvimDb.Editor.Driver
import LvimDb.Editor.Split
import LvimDb.Editor.Lexemes
import LvimDb.Editor.Destructive
import LvimDb.Editor.Documents
import LvimDb.Editor.Cursor
import LvimDb.Editor.Saved
import LvimDb.Daemon.Client
import LvimDb.Daemon.Steps
import LvimDb.Daemon.Callbacks
import LvimDb.Daemon.Processes
import LvimDb.Daemon.Bursts
import LvimDb.Daemon.Facts
import LvimDb.Daemon.Errors
import LvimDb.Daemon.Owners
import LvimDb.Daemon.Generations
import LvimDb.Net.Context
import LvimDb.Net.Drivers
import LvimDb.Net.Account
import LvimDb.Net.Runs
import LvimDb.Net.Ready
import LvimDb.Net.Works
import LvimDb.Net.Posture
import LvimDb.Net.Route
import LvimDb.Net.Spec
import LvimDb.Store.Backend
import LvimDb.Store.Resolve
import LvimDb.Store.Migration
import LvimDb.Secret.Template
import LvimDb.Secret.Grammar
import LvimDb.Secret.Migrate
import LvimDb.Secret.Preserved
import LvimDb.Secret.Names
import LvimDb.Cell.Value
import LvimDb.Cell.Tags
import LvimDb.Cell.Pretty
import LvimDb.Cell.Edit
import LvimDb.Cell.Accept
import LvimDb.Cell.Guards
import LvimDb.Cell.Integers
import LvimDb.Cell.Meaning
import LvimDb.Form.Spec
import LvimDb.Form.Shown
import LvimDb.Form.Unchanged
import LvimDb.Form.Panel
import LvimDb.Grid.Cells
import LvimDb.Grid.Export
import LvimDb.Grid.Layout
import LvimDb.Grid.Winbar
import LvimDb.Grid.Geometry
import LvimDb.Grid.Slices
import LvimDb.Grid.Columns
import LvimDb.Document.Bson
import LvimDb.Document.Carry
import LvimDb.Document.Kept
import LvimDb.Document.Replace
import LvimDb.Document.Find
import LvimDb.Completion.Source
import LvimDb.Completion.Steps
import LvimDb.Completion.Steady
import LvimDb.Completion.Fresh
import LvimDb.Completion.Get
import LvimDb.Completion.Once
import LvimDb.Completion.Mirror
import LvimDb.Template.Spaces
import LvimDb.Template.Hygiene
import LvimDb.Template.Order
import LvimDb.Template.Form
import LvimDb.Template.Spec
import LvimDb.Driver.Redis
import LvimDb.Driver.Literals
import LvimDb.Driver.Indexes
import LvimDb.Driver.Numeric
import LvimDb.Driver.Intervals
import LvimDb.Driver.Postgres
import LvimDb.Driver.Catalog
import LvimDb.Net.Test
import LvimDb.Net.Url
import LvimDb.Tree.Settled
import LvimDb.Store.Legacy
import LvimDb.Form.Sent
