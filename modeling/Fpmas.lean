import Fpmas.Library.TransitionSystem
import Fpmas.Synchro.Hard.MutexServer
import Fpmas.Synchro.Hard.MutexExclusion
import Fpmas.Synchro.Hard.MutexInvariant
import Fpmas.Synchro.Hard.MutexFreshness
import Fpmas.Synchro.Hard.Termination
import Fpmas.Library.Counting
import Fpmas.Synchro.Hard.TerminationRequests
import Fpmas.Synchro.Hard.TerminationSafety
import Fpmas.Graph.Elements
import Fpmas.Graph.DistributedGraph
import Fpmas.Graph.GraphView
import Fpmas.Graph.Refinement
import Fpmas.Graph.ImportRefinement
import Fpmas.Graph.ClearRefinement
import Fpmas.Graph.LocationAgreement
import Fpmas.Graph.Distribute
import Fpmas.Graph.GlobalGraph
import Fpmas.Graph.Import
import Fpmas.Graph.DistributePhases
import Fpmas.Graph.Redistribution
import Fpmas.Synchro.Ghost.GhostMode
import Fpmas.Synchro.Ghost.DataSync
import Fpmas.Synchro.Ghost.Period
import Fpmas.Synchro.Ghost.Removal
import Fpmas.Synchro.Ghost.Calls
import Fpmas.Synchro.Ghost.CommitLinks
import Fpmas.Synchro.Ghost.CommitRemovals
import Fpmas.Synchro.Ghost.Commit
import Fpmas.Synchro.Ghost.Synchronize
import Fpmas.Synchro.Ghost.Runs
import Fpmas.Synchro.Ghost.RemovalGuarantee
import Fpmas.Synchro.Ghost.LastingRuns
import Fpmas.Synchro.Ghost.LinkCommit
import Fpmas.Synchro.Ghost.Migration
import Fpmas.Library.OrderedMap
import Fpmas.Scheduler.Scheduler
import Fpmas.Scheduler.DueJobs
import Fpmas.Library.Vector
import Fpmas.Model.AgentGroup
import Fpmas.Model.Membership
import Fpmas.Model.GroupScheduling
import Fpmas.Model.SettledGroups
import Fpmas.Model.AgentScheduling
import Fpmas.Library.Superstep
import Fpmas.Model.Spatial.DistributedMoveAlgorithm
import Fpmas.Model.Spatial.CellPhase
import Fpmas.Model.Spatial.AgentPhase
import Fpmas.Model.Spatial.PerceptionPhase
import Fpmas.Model.Spatial.Rounds
import Fpmas.Model.Spatial.MovePhase
import Fpmas.Model.Spatial.Fields
import Fpmas.Model.Spatial.Locations
import Fpmas.Model.Spatial.Perceptions
import Fpmas.Model.Spatial.Residue
import Fpmas.Synchro.Hard.NestedServer
import Fpmas.Synchro.Hard.RequestConservation
import Fpmas.Graph.Breakpoint
import Fpmas.Graph.ScheduledLoadBalancing
import Fpmas.Synchro.Hard.WaitLoop
import Fpmas.Library.Buffer
import Fpmas.Communication.MpiCommunicatorBase
import Fpmas.Communication.Delivery
import Fpmas.Model.Spatial.EndCondition
import Fpmas.Model.Spatial.VonNeumannGrid
import Fpmas.Model.Spatial.GridNetwork
import Fpmas.Model.Spatial.VonNeumannNeighborhood
import Fpmas.Graph.NodeObjects
import Fpmas.Graph.GraphCalls
import Fpmas.Graph.GraphRuns
import Fpmas.Graph.LocationPartition
import Fpmas.Synchro.Hard.MutexRegistry
import Fpmas.Graph.JsonRoundTrip
import Fpmas.Synchro.Ghost.SettledRuns
import Fpmas.Graph.Adjacency
import Fpmas.Graph.Relocation
import Fpmas.Synchro.Ghost.PartitionEntries
import Fpmas.Synchro.Hard.QueueDiscipline
import Fpmas.Graph.DistantClearing
import Fpmas.Model.Spatial.GridRange
import Fpmas.Model.Spatial.GridBuffers
import Fpmas.Model.Spatial.GridAgentMapping
import Fpmas.Library.PartialShuffle
import Fpmas.Graph.GraphBuilder
import Fpmas.Library.NearestItems
import Fpmas.Graph.ClusteredGraphBuilder
import Fpmas.Model.Serializer
import Fpmas.Model.GroupCalls
import Fpmas.Model.MoveAssign
import Fpmas.Graph.StaleReports
import Fpmas.Synchro.Ghost.LostReports
import Fpmas.Synchro.Hard.HardSyncLinker
import Fpmas.Synchro.Hard.LinkProgress
import Fpmas.Library.Simulation
import Fpmas.Synchro.SharedGraph
import Fpmas.Synchro.Ghost.GhostRefinement
import Fpmas.Synchro.Hard.HardRefinement
import Fpmas.Communication.TypedMpi
import Fpmas.Graph.DistributedIdJson
import Fpmas.Graph.ZoltanHypergraph
import Fpmas.Model.Spatial.MoveRuns
import Fpmas.Runtime.Runtime
import Fpmas.Model.Spatial.GridMoves
import Fpmas.Graph.RandomLoadBalancing
import Fpmas.Graph.ScheduledDistribution
