import Cberl.Support.LabelledRun
import Cberl.Support.Observation
import Cberl.Support.SelectiveReceive
import Cberl.Support.TimedReceive
import Cberl.Support.Traverse
import Cberl.Support.KeyedOrder
import Cberl.Support.Lehmer
import Cberl.Support.CallProgram
import Cberl.Support.Override
import Cberl.Support.Ownership
import Cberl.Support.Decimal
import Cberl.Support.Linearization
import Cberl.Support.Settling
import Cberl.Support.VersionedRegister
import Cberl.Erlang.Term
import Cberl.Nifpp.Conversion
import Cberl.Nifpp.Denotation
import Cberl.Nif.Requests
import Cberl.Nif.Functions
import Cberl.Nif.Connect
import Cberl.Nif.Admission
import Cberl.Nif.RequestIds
import Cberl.Connection.Responses
import Cberl.Connection.Operations
import Cberl.Connection.Cookies
import Cberl.Connection.Create
import Cberl.Connection.Options
import Cberl.Connection.Ownership
import Cberl.Connection.FailedConnects
import Cberl.Connection.Strings
import Cberl.Connection.Durability
import Cberl.Nifpp.RoundTrip
import Cberl.Api.Codec
import Cberl.Api.Functions
import Cberl.Api.BulkCalls
import Cberl.Api.SingleKey
import Cberl.Api.Conversion
import Cberl.Api.Contract
import Cberl.Api.Results
import Cberl.Api.Alignment
import Cberl.Api.Isolation
import Cberl.Api.EncoderOutput
import Cberl.Store.Bucket
import Cberl.Store.Reference
import Cberl.Store.Simulation
import Cberl.Store.Refinement
import Cberl.Store.Pieces
import Cberl.Store.Concatenation
import Cberl.Store.Counters
import Cberl.Store.CounterSessions
import Cberl.Store.Service
import Cberl.Store.Commands
import Cberl.Store.CounterCommands
import Cberl.Store.Numbers
import Cberl.Client.Scheduler
import Cberl.Client.Invariant
import Cberl.Client.Progress
import Cberl.Client.Execution
import Cberl.System.Model
import Cberl.System.Conservation
import Cberl.System.Lineage
import Cberl.System.Uniqueness
import Cberl.System.Correlation
import Cberl.System.Order
import Cberl.System.Admission
import Cberl.System.Survival
import Cberl.System.Seeding
import Cberl.System.Hygiene
import Cberl.System.Deadline
import Cberl.System.SharedBucket
import Cberl.System.Linearizable
import Cberl.System.Threads
import Cberl.System.ThreadRefinement
import Cberl.System.Progress
import Cberl.System.Updates
import Cberl.System.Counting
import Cberl.System.Numbers
import Cberl.System.Lifetime
