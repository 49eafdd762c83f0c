import Hf2l.Lib.Table
import Hf2l.Exchange.Store.Json
import Hf2l.Exchange.Store.Rows
import Hf2l.Exchange.Store.Profile
import Hf2l.Exchange.Store.Lifecycle
import Hf2l.Exchange.Python.Transfers
import Hf2l.Exchange.Python.System
import Hf2l.Exchange.Go.Commands
import Hf2l.Exchange.Go.Transfers
import Hf2l.Exchange.Go.System
import Hf2l.Lib.Checked
import Hf2l.Exchange.Ledger.Release
import Hf2l.Exchange.Ledger.Change
import Hf2l.Exchange.Ledger.Sound
import Hf2l.Exchange.Ledger.Accounts
import Hf2l.Exchange.Service.Steps
import Hf2l.Exchange.Service.Effects
import Hf2l.Exchange.Python.Effects
import Hf2l.Exchange.Python.Accounting
import Hf2l.Exchange.Ledger.Evolution
import Hf2l.Exchange.Ledger.Stranding
import Hf2l.Exchange.Python.Projection
import Hf2l.Exchange.Python.Steady
import Hf2l.Exchange.Python.Stranding
import Hf2l.Exchange.Ledger.Admission
import Hf2l.Exchange.Python.Admission
import Hf2l.Exchange.Go.Effects
import Hf2l.Exchange.Go.Accounting
import Hf2l.Exchange.Ledger.Markers
import Hf2l.Exchange.Python.Markers
import Hf2l.Exchange.Python.Deletion
import Hf2l.Exchange.Ledger.Pinned
import Hf2l.Exchange.Python.Pinning
import Hf2l.Exchange.Registry.Registers
import Hf2l.Exchange.Registry.Swaps
import Hf2l.Exchange.Registry.Fencing
import Hf2l.Exchange.Python.Integrity
import Hf2l.Exchange.FedAvg.History
import Hf2l.Exchange.FedAvg.Turns
import Hf2l.Exchange.Python.Lineage
import Hf2l.Exchange.Go.Integrity
import Hf2l.Lib.Forest
import Hf2l.Exchange.Service.Provenance
import Hf2l.Exchange.Runs.Provenance
import Hf2l.Exchange.Service.Workloads
import Hf2l.Exchange.Runs.Workloads
import Hf2l.Lib.Journal
import Hf2l.Exchange.Service.Log
import Hf2l.Exchange.Service.Replays
import Hf2l.Exchange.Runs.Replays
import Hf2l.Exchange.Runs.Events
import Hf2l.Jobs.Scheduler.Accounting
import Hf2l.Lib.Matching
import Hf2l.Jobs.Scheduler.Gpus
import Hf2l.Jobs.Scheduler.Pass
import Hf2l.Jobs.Scheduler.Gangs
import Hf2l.Jobs.Artifacts.Retention
import Hf2l.Jobs.Resources.Ledger
import Hf2l.Jobs.Artifacts.Balance
import Hf2l.Lib.JsonText
import Hf2l.Lib.Utf8
import Hf2l.Exchange.Domain.CanonicalJson
import Hf2l.Exchange.Domain.CanonicalRoundTrip
import Hf2l.Lib.Process
import Hf2l.Listener.Engine
import Hf2l.Listener.Client
import Hf2l.Listener.Owner
import Hf2l.Listener.Runs
import Hf2l.Listener.Validity
import Hf2l.Listener.Fences
import Hf2l.Listener.Once
import Hf2l.Lib.Interleaving
import Hf2l.Node.Ledger
import Hf2l.Node.Agent
import Hf2l.Node.Runs
import Hf2l.Node.Sound
import Hf2l.Node.Calls
import Hf2l.Node.Guards
import Hf2l.Node.Safety
import Hf2l.Exchange.Transfers.Parts
import Hf2l.Jobs.Transfer.Proxy
import Hf2l.Jobs.Transfer.Assertion
import Hf2l.Exchange.Auth.Backend
import Hf2l.Exchange.Schema.EqualityKey
import Hf2l.Exchange.Schema.References
import Hf2l.Jobs.Artifacts.LogConservation
import Hf2l.Jobs.Artifacts.LogSpool
import Hf2l.Backends.Exchange.Discovery
import Hf2l.Jobs.Controller.Publications
import Hf2l.Node.Quarantine
import Hf2l.Backends.Exchange.Rounds
import Hf2l.Exchange.Domain.PythonFloat
