import LuaEmbed.Bridge.Error
import LuaEmbed.Bridge.Handle
import LuaEmbed.Bridge.Index
import LuaEmbed.Bridge.Panic
import LuaEmbed.Bridge.TypeTag
import LuaEmbed.Bridge.Word32
import LuaEmbed.Engine.Action
import LuaEmbed.Engine.Arith
import LuaEmbed.Engine.Ast
import LuaEmbed.Engine.Builtin
import LuaEmbed.Engine.Chunk
import LuaEmbed.Engine.Code
import LuaEmbed.Engine.Compiler
import LuaEmbed.Engine.Heap
import LuaEmbed.Engine.Operation
import LuaEmbed.Engine.Parser
import LuaEmbed.Engine.Script
import LuaEmbed.Engine.Table
import LuaEmbed.Engine.Thread
import LuaEmbed.Engine.Token
import LuaEmbed.Engine.Value
import LuaEmbed.Host.Call
import LuaEmbed.Host.Coroutine
import LuaEmbed.Host.Drive
import LuaEmbed.Host.Fatal
import LuaEmbed.Host.Loader
import LuaEmbed.Host.Marshal
import LuaEmbed.Host.Module
import LuaEmbed.Host.Owner
import LuaEmbed.Host.Program
import LuaEmbed.Host.Run
import LuaEmbed.Host.Stack
import LuaEmbed.Host.Value
import LuaEmbed.Host.World
import LuaEmbed.Library.Base
import LuaEmbed.Library.CodePoints
import LuaEmbed.Library.Coroutines
import LuaEmbed.Library.Functions
import LuaEmbed.Library.Introspection
import LuaEmbed.Library.Mathematics
import LuaEmbed.Library.Modules
import LuaEmbed.Library.Openers
import LuaEmbed.Library.Pattern
import LuaEmbed.Library.Strings
import LuaEmbed.Library.Tables
import LuaEmbed.Machine.Collector
import LuaEmbed.Machine.Vm
import LuaEmbed.Number.Binary64
import LuaEmbed.Number.Decimal
import LuaEmbed.Number.Format
import LuaEmbed.Number.Numeral
import LuaEmbed.Proofs.Accounting
import LuaEmbed.Proofs.Accounts
import LuaEmbed.Proofs.Address
import LuaEmbed.Proofs.Anchorage
import LuaEmbed.Proofs.Anchoring
import LuaEmbed.Proofs.Applying
import LuaEmbed.Proofs.Atomicity
import LuaEmbed.Proofs.Attendance
import LuaEmbed.Proofs.Balance
import LuaEmbed.Proofs.Bookkeeping
import LuaEmbed.Proofs.CallLaws
import LuaEmbed.Proofs.Calls
import LuaEmbed.Proofs.Callwise
import LuaEmbed.Proofs.Closing
import LuaEmbed.Proofs.Collecting
import LuaEmbed.Proofs.Conservation
import LuaEmbed.Proofs.Conversing
import LuaEmbed.Proofs.Dialogue
import LuaEmbed.Proofs.Disowning
import LuaEmbed.Proofs.Entries
import LuaEmbed.Proofs.ErrorText
import LuaEmbed.Proofs.Failing
import LuaEmbed.Proofs.Faulting
import LuaEmbed.Proofs.Footprint
import LuaEmbed.Proofs.Globals
import LuaEmbed.Proofs.Granting
import LuaEmbed.Proofs.Growth
import LuaEmbed.Proofs.GuardedRun
import LuaEmbed.Proofs.HandingBack
import LuaEmbed.Proofs.Handles
import LuaEmbed.Proofs.History
import LuaEmbed.Proofs.Identity
import LuaEmbed.Proofs.Independence
import LuaEmbed.Proofs.Indexing
import LuaEmbed.Proofs.Interaction
import LuaEmbed.Proofs.Isolation
import LuaEmbed.Proofs.Keeping
import LuaEmbed.Proofs.Leaving
import LuaEmbed.Proofs.Libraries
import LuaEmbed.Proofs.Lifecycle
import LuaEmbed.Proofs.Listing
import LuaEmbed.Proofs.Loading
import LuaEmbed.Proofs.Locality
import LuaEmbed.Proofs.Lookup
import LuaEmbed.Proofs.Making
import LuaEmbed.Proofs.Marking
import LuaEmbed.Proofs.Marshalling
import LuaEmbed.Proofs.Modules
import LuaEmbed.Proofs.Moments
import LuaEmbed.Proofs.Observing
import LuaEmbed.Proofs.Openers
import LuaEmbed.Proofs.Outliving
import LuaEmbed.Proofs.Overrunning
import LuaEmbed.Proofs.Ownership
import LuaEmbed.Proofs.Parking
import LuaEmbed.Proofs.Passing
import LuaEmbed.Proofs.Payloads
import LuaEmbed.Proofs.Progress
import LuaEmbed.Proofs.Protocol
import LuaEmbed.Proofs.Quiet
import LuaEmbed.Proofs.Raising
import LuaEmbed.Proofs.Reading
import LuaEmbed.Proofs.Refusal
import LuaEmbed.Proofs.Registering
import LuaEmbed.Proofs.Registration
import LuaEmbed.Proofs.Releasing
import LuaEmbed.Proofs.Reserving
import LuaEmbed.Proofs.Resting
import LuaEmbed.Proofs.Restraint
import LuaEmbed.Proofs.Resumer
import LuaEmbed.Proofs.Room
import LuaEmbed.Proofs.Rotation
import LuaEmbed.Proofs.RoundTrip
import LuaEmbed.Proofs.Serving
import LuaEmbed.Proofs.Slots
import LuaEmbed.Proofs.Sparing
import LuaEmbed.Proofs.Steady
import LuaEmbed.Proofs.Stocking
import LuaEmbed.Proofs.Succession
import LuaEmbed.Proofs.Sustaining
import LuaEmbed.Proofs.Sweeping
import LuaEmbed.Proofs.TameLibrary
import LuaEmbed.Proofs.TameMachine
import LuaEmbed.Proofs.Taming
import LuaEmbed.Proofs.Traversal
import LuaEmbed.Proofs.Turns
import LuaEmbed.Proofs.Upkeep
import LuaEmbed.Proofs.Watching
import LuaEmbed.Scenario.Expression
import LuaEmbed.Scenario.Performance
import LuaEmbed.Scenario.Place
import LuaEmbed.Scenario.Report
import LuaEmbed.Scenario.Step
import LuaEmbed.Scenario.Task
import LuaEmbed.Text.Ascii
import LuaEmbed.Text.CharTable
import LuaEmbed.Text.Quoted
import LuaEmbed.Text.Utf8
import LuaEmbed.Watch.Run
import LuaEmbed.Watch.Stack
