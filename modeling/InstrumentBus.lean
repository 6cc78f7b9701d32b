import InstrumentBus.Topic
import InstrumentBus.Text.Utf8
import InstrumentBus.Metadata.Validation
import InstrumentBus.Envelope.Pool
import InstrumentBus.Tree.Pooled
import InstrumentBus.Bus.Session
import InstrumentBus.Config.Settings
import InstrumentBus.Proofs.Number.Rounding
import InstrumentBus.Proofs.Number.Exact
import InstrumentBus.Proofs.Json.Numeric
import InstrumentBus.Proofs.Value.Equality
import InstrumentBus.Proofs.Value.Integers
import InstrumentBus.Proofs.Metadata.Check
import InstrumentBus.Proofs.Metadata.Range
import InstrumentBus.Proofs.Metadata.Options
import InstrumentBus.Proofs.Topic.Levels
import InstrumentBus.Proofs.Tree.Arena
import InstrumentBus.Proofs.Tree.Contents
import InstrumentBus.Proofs.Tree.Growth
import InstrumentBus.Proofs.Tree.Preorder
import InstrumentBus.Proofs.Tree.Walk
import InstrumentBus.Proofs.Tree.Operations
import InstrumentBus.Proofs.Envelope.Values
import InstrumentBus.Proofs.PendingCalls.Plain
import InstrumentBus.Proofs.PendingCalls.Indices
import InstrumentBus.Proofs.PendingCalls.Operations
import InstrumentBus.Proofs.PendingCalls.Slots
import InstrumentBus.Proofs.PendingCalls.Refinement
import InstrumentBus.Proofs.PendingCalls.Custody
import InstrumentBus.Proofs.Dispatch.Machine
import InstrumentBus.Proofs.Dispatch.CallFree
import InstrumentBus.Proofs.Dispatch.Quiet
import InstrumentBus.Proofs.Dispatch.ReturnCodes
import InstrumentBus.Proofs.Dispatch.Ownership
import InstrumentBus.Proofs.Dispatch.Submissions
import InstrumentBus.Proofs.Dispatch.Runs
import InstrumentBus.Proofs.Dispatch.Sessions
import InstrumentBus.Proofs.Dispatch.Verdicts
import InstrumentBus.Proofs.Dispatch.Posts
import InstrumentBus.Proofs.Dispatch.Effects
import InstrumentBus.Proofs.Dispatch.Deeds
import InstrumentBus.Proofs.Dispatch.History
import InstrumentBus.Proofs.Dispatch.Shelf
import InstrumentBus.Proofs.Dispatch.Roster
import InstrumentBus.Proofs.Dispatch.Mirror
import InstrumentBus.Proofs.Dispatch.Registrations
import InstrumentBus.Proofs.Dispatch.Forwarding
import InstrumentBus.Proofs.Dispatch.Replays
import InstrumentBus.Proofs.Dispatch.Queues
import InstrumentBus.Proofs.Dispatch.Deadlines
import InstrumentBus.Proofs.Dispatch.Ending
import InstrumentBus.Proofs.Dispatch.Lifecycle
import InstrumentBus.Proofs.Dispatch.Inventory
import InstrumentBus.Proofs.Dispatch.Repeats
import InstrumentBus.Proofs.Dispatch.Alike
import InstrumentBus.Proofs.Dispatch.Statuses
import InstrumentBus.Proofs.Dispatch.Reception
import InstrumentBus.Proofs.Dispatch.Refusals
import InstrumentBus.Proofs.Metadata.Choice
import InstrumentBus.Proofs.Dispatch.Store
import InstrumentBus.Proofs.Dispatch.Ports
import InstrumentBus.Proofs.Dispatch.Census
import InstrumentBus.Proofs.Dispatch.Errors
import InstrumentBus.Proofs.Dispatch.Wakeups
import InstrumentBus.Proofs.Dispatch.Rejections
import InstrumentBus.Proofs.Dispatch.Listing
import InstrumentBus.Proofs.Topic.Grammar
import InstrumentBus.Proofs.Topic.Prefixes
import InstrumentBus.Proofs.Topic.Navigation
import InstrumentBus.Proofs.Dispatch.Limits
import InstrumentBus.Proofs.Envelope.Storage
import InstrumentBus.Proofs.Envelope.Lending
import InstrumentBus.Proofs.Envelope.Accounts
import InstrumentBus.Proofs.Number.Numeral
import InstrumentBus.Proofs.Value.Conversion
import InstrumentBus.Proofs.Value.Equivalence
import InstrumentBus.Proofs.Metadata.Widths
import InstrumentBus.Proofs.Metadata.Shape
