import HumanoidCore.Lib.Machine
import HumanoidCore.Lib.Map
import HumanoidCore.Lib.Custody
import HumanoidCore.Lib.Fifo
import HumanoidCore.Command
import HumanoidCore.CommandQueue
import HumanoidCore.Pipeline
import HumanoidCore.Scheduler
import HumanoidCore.LocoAdapter
import HumanoidCore.SdkWrapper
import HumanoidCore.SafetyValidator
import HumanoidCore.CommandDispatcher
import HumanoidCore.Proofs.SchedulerMoves
import HumanoidCore.Proofs.SchedulerBooks
import HumanoidCore.Proofs.SchedulerRep
import HumanoidCore.Proofs.SchedulerFutures
import HumanoidCore.Proofs.SchedulerFinal
import HumanoidCore.Proofs.QueueMoves
import HumanoidCore.Proofs.QueueLives
import HumanoidCore.Proofs.QueueBooks
import HumanoidCore.Proofs.QueueShutdown
import HumanoidCore.Proofs.QueueFrame
import HumanoidCore.Proofs.DispatcherMoves
import HumanoidCore.Proofs.DispatcherIds
import HumanoidCore.Proofs.DispatcherShutdown
import HumanoidCore.Proofs.DispatcherGate
import HumanoidCore.Proofs.DispatcherForwards
import HumanoidCore.Proofs.PipelineMoves
import HumanoidCore.Proofs.PipelineLives
import HumanoidCore.Proofs.PipelineOnce
import HumanoidCore.Proofs.PipelineTables
import HumanoidCore.Proofs.PipelineHistory
import HumanoidCore.Proofs.PipelineEvents
import HumanoidCore.Proofs.SdkLatch
import HumanoidCore.Lib.Prog
import HumanoidCore.Mission
import HumanoidCore.MissionExecutor
import HumanoidCore.Proofs.MissionBodies
import HumanoidCore.Proofs.MissionMoves
import HumanoidCore.Proofs.MissionCancel
import HumanoidCore.MissionReference
import HumanoidCore.ResourceManager
import HumanoidCore.Proofs.MissionRefines
import HumanoidCore.Proofs.MissionRuns
import HumanoidCore.Proofs.ResourceTable
import HumanoidCore.Proofs.Dequeue
import HumanoidCore.Proofs.SchedulerJobs
import HumanoidCore.Proofs.SchedulerShutdown
import HumanoidCore.BehaviorTreeNodes
import HumanoidCore.Proofs.TreeLeaves
import HumanoidCore.Proofs.TreeWork
import HumanoidCore.Proofs.TreeSteady
import HumanoidCore.Proofs.TreeHalting
import HumanoidCore.BehaviorTree
import HumanoidCore.Proofs.TreeLease
import HumanoidCore.Proofs.TreeReset
import HumanoidCore.Proofs.TreeStable
import HumanoidCore.Proofs.TreeEnds
import HumanoidCore.Proofs.SchedulerPriority
import HumanoidCore.Proofs.MissionCutoff
import HumanoidCore.Proofs.MissionPause
import HumanoidCore.Proofs.MissionAlone
import HumanoidCore.Proofs.ResourceWakeups
import HumanoidCore.Cancellation
import HumanoidCore.Proofs.CancellationMoves
import HumanoidCore.Proofs.CancellationForest
import HumanoidCore.Proofs.CancellationOnce
import HumanoidCore.Proofs.CancellationReach
import HumanoidCore.BehaviorTreeRuntime
import HumanoidCore.Proofs.TreeCallback
import HumanoidCore.DocumentText
import HumanoidCore.JsonParser
import HumanoidCore.MissionValidator
import HumanoidCore.MissionJson
import HumanoidCore.MissionYaml
import HumanoidCore.MissionLoader
import HumanoidCore.Proofs.MissionLoaded
import HumanoidCore.MissionSchema
import HumanoidCore.Proofs.JsonMembers
import HumanoidCore.Proofs.DocumentFields
import HumanoidCore.Proofs.JsonFields
import HumanoidCore.Proofs.YamlFields
import HumanoidCore.Proofs.DocumentStrict
import HumanoidCore.Proofs.YamlOutline
import HumanoidCore.BehaviorTreePlan
import HumanoidCore.Proofs.TreeBigStep
import HumanoidCore.Proofs.TreeStatus
import HumanoidCore.Proofs.SdkMoves
import HumanoidCore.Proofs.SdkConnection
import HumanoidCore.Proofs.SdkFaults
import HumanoidCore.Proofs.SdkThreads
import HumanoidCore.MissionSharing
import HumanoidCore.Proofs.MissionOwners
import HumanoidCore.Proofs.SdkOrder
import HumanoidCore.G1Adapter
import HumanoidCore.G1FactoryAdapter
import HumanoidCore.Proofs.G1Velocity
import HumanoidCore.Lib.Relay
import HumanoidCore.Proofs.G1Moves
import HumanoidCore.Proofs.G1Destruction
import HumanoidCore.Proofs.G1Mirror
import HumanoidCore.Proofs.G1Agreement
import HumanoidCore.Proofs.ExpiryBounds
import HumanoidCore.OtaManager
import HumanoidCore.Proofs.OtaHistory
import HumanoidCore.SensorManager
import HumanoidCore.Proofs.SensorRemoval
import HumanoidCore.Proofs.PlanDispatch
import HumanoidCore.PlanningPipeline
import HumanoidCore.Proofs.PlanningAccounts
import HumanoidCore.Proofs.SchedulerPause
import HumanoidCore.TelemetryService
import HumanoidCore.Proofs.TelemetryLife
import HumanoidCore.InstanceFactory
import HumanoidCore.PlannerFactory
import HumanoidCore.PluginFactory
import HumanoidCore.Proofs.FactoryAccounts
import HumanoidCore.JsonGrammar
import HumanoidCore.Proofs.JsonRecovered
import HumanoidCore.BehaviorTreeParser
import HumanoidCore.BehaviorTreeFormats
import HumanoidCore.Proofs.DocumentTexts
import HumanoidCore.Proofs.TreeYaml
import HumanoidCore.Proofs.TreeJson
import HumanoidCore.Proofs.TreeAgreement
import HumanoidCore.JsonText
import HumanoidCore.Proofs.JsonAccepted
import HumanoidCore.BehaviorTreeLoader
import HumanoidCore.Proofs.TreeRoundTrip
import HumanoidCore.Proofs.ResourceIdentity
import HumanoidCore.Proofs.TreeLoads
import HumanoidCore.Proofs.MissionRetries
import HumanoidCore.CommandAttempts
import HumanoidCore.Proofs.CallsLeft
import HumanoidCore.Proofs.TreeAsks
import HumanoidCore.Proofs.TreeAttempts
import HumanoidCore.MissionRendering
import HumanoidCore.Proofs.MissionLoops
import HumanoidCore.Proofs.MissionRoundTrip
import HumanoidCore.Proofs.StepRoundTrip
import HumanoidCore.Proofs.MissionRendered
import HumanoidCore.MissionLiterals
import HumanoidCore.Proofs.LiteralKinds
import HumanoidCore.Proofs.JsonLiterals
import HumanoidCore.Proofs.JsonIntegers
import HumanoidCore.Proofs.YamlIntegers
import HumanoidCore.Proofs.YamlStored
import HumanoidCore.Proofs.MissionIntegers
import HumanoidCore.Proofs.OtaRollback
import HumanoidCore.Proofs.PlannedIds
import HumanoidCore.Proofs.PlannerPlans
import HumanoidCore.Proofs.SubscriptionIds
import HumanoidCore.Lib.Graph
import HumanoidCore.PerceptionPipeline
import HumanoidCore.Proofs.StageOrder
import HumanoidCore.Proofs.LeafLatches
import HumanoidCore.Proofs.NestedDecorators
import HumanoidCore.Proofs.PayloadTexts
import HumanoidCore.Proofs.BridgeLife
import HumanoidCore.DocumentPositions
import HumanoidCore.Lib.Cursor
import HumanoidCore.Proofs.JsonPositions
import HumanoidCore.BehaviorTreeIndex
import HumanoidCore.MissionYamlIndex
import HumanoidCore.Proofs.DocumentLines
import HumanoidCore.Proofs.YamlIndex
import HumanoidCore.Proofs.TreeIndex
import HumanoidCore.Proofs.DocumentBounds
import HumanoidCore.Proofs.YamlComments
import HumanoidCore.Proofs.YamlNumbers
import HumanoidCore.Proofs.DocumentComments
import HumanoidCore.Proofs.Ipv4Addresses
import HumanoidCore.Blackboard
import HumanoidCore.FleetManager
import HumanoidCore.Lib.History
import HumanoidCore.Lib.Progress
import HumanoidCore.Lib.Totals
import HumanoidCore.ModelManager
import HumanoidCore.Proofs.BlackboardHistory
import HumanoidCore.Proofs.ClientSessions
import HumanoidCore.Proofs.FleetHistory
import HumanoidCore.Proofs.InferenceRuns
import HumanoidCore.Proofs.QueueProgress
import HumanoidCore.Proofs.ResourceProgress
import HumanoidCore.Proofs.SchedulerProgress
