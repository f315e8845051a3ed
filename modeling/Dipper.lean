import Dipper.Concurrent.Prog
import Dipper.Concurrent.System
import Dipper.Registry.Database
import Dipper.Chain
import Dipper.Subgraph
import Dipper.World
import Dipper.CancelDispatch
import Dipper.CancelRetry
import Dipper.Worker
import Dipper.Services
import Dipper.Listener.Reconcile
import Dipper.Listener.Drain
import Dipper.Listener.Sweeps
import Dipper.Reassess
import Dipper.Concurrent.Discipline
import Dipper.System
import Dipper.Registry.Batch
import Dipper.Effects
import Dipper.Registry.StateMachine
import Dipper.Consistency.Invariant
import Dipper.Consistency.Preserved
import Dipper.Results
import Dipper.Consistency.Reads
import Dipper.Consistency.Cancel
import Dipper.Consistency.Jobs
import Dipper.Consistency.Services
import Dipper.Consistency.Reconcile
import Dipper.Consistency.Drain
import Dipper.Consistency.Sweeps
import Dipper.Consistency.Runs
import Dipper.StatusHistory
import Dipper.CancelSafety
import Dipper.Replacement
import Dipper.EventOrder
import Dipper.EndEvents
import Dipper.LiveAgreements
import Dipper.AcceptRecords
import Dipper.Expiry
import Dipper.Registering
import Dipper.Passes
import Dipper.OfferCaps
import Dipper.ActiveAgreements
import Dipper.OutgoingAgreements
import Dipper.OfferHandshake
import Dipper.Admin.Requests
import Dipper.Admin.Calls
import Dipper.Concurrent.Trace
import Dipper.FollowUps
import Dipper.CursorMoves
import Dipper.DrainRuns
import Dipper.ChangesKept
import Dipper.DrainProgress
import Dipper.ReconcileTwice
import Dipper.Registry.BatchRefinement
import Dipper.Registry.RecordedEnds
import Dipper.ChainClient.Client
import Dipper.ChainClient.Contracts
import Dipper.ChainClient.FaultyEndpoint
import Dipper.ChainClient.GasPrice
import Dipper.ChainClient.Nonces
import Dipper.ChainClient.SeenReads
import Dipper.AbandonedSlots
import Dipper.Queue.Jobs
import Dipper.Signing.Offers
import Dipper.Signing.VersionHash
import Dipper.Surplus
import Dipper.EnumerableSet
import Dipper.Escrow.ProviderList
import Dipper.Escrow.RoundRobin
import Dipper.ExpirationClock
import Dipper.Liveness.BoundedGrace
import Dipper.ChainClient.EndpointWalk
import Dipper.DeclinedWindows
import Dipper.Queue.OfferBudget
import Dipper.Alerts
import Dipper.Concurrent.Dialogue
import Dipper.LiveChecks
import Dipper.Admin.Linearizable
import Dipper.DipsInfo.Alerted
import Dipper.EntityCounts
