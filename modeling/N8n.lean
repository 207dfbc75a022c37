import N8n.Foundations.Runs
import N8n.Foundations.OrderedMap
import N8n.Foundations.RelatedMaps
import N8n.Foundations.DecimalOrder
import N8n.Foundations.Rotation
import N8n.Foundations.ParentForest
import N8n.Foundations.OpenedParts
import N8n.Foundations.OrderedSet
import N8n.Foundations.StackSearch
import N8n.Foundations.FoldM
import N8n.Foundations.Paths
import N8n.Foundations.Totals
import N8n.Foundations.DepthFirst
import N8n.Workflow.Connections
import N8n.Workflow.RunData
import N8n.Workflow.Node
import N8n.Workflow.Workflow
import N8n.ExecutionEngine.RunState
import N8n.ExecutionEngine.AddNode
import N8n.ExecutionEngine.Deliveries
import N8n.ExecutionEngine.Recreate
import N8n.ExecutionEngine.Resume
import N8n.ExecutionEngine.StackItems
import N8n.ExecutionEngine.WaitingScan
import N8n.ExecutionEngine.WaitingTables
import N8n.ExecutionEngine.TablesInStep
import N8n.ExecutionEngine.DrainOrder
import N8n.ExecutionEngine.RunLoop
import N8n.ExecutionEngine.LoopEnd
import N8n.ExecutionEngine.Deferral
import N8n.Graph.DirectedGraph
import N8n.Graph.RemoveNode
import N8n.Graph.FilterDisabledNodes
import N8n.Graph.WorkflowConversion
import N8n.Graph.FindSubgraph
import N8n.Graph.SubgraphPaths
import N8n.Graph.FindStartNodes
import N8n.Graph.DirtyFrontier
import N8n.Graph.SourceDataGroups
import N8n.Graph.GraphUtils
import N8n.Graph.Extraction
import N8n.Graph.StronglyConnectedComponents
import N8n.Graph.LowLinks
import N8n.Graph.ComponentsFound
import N8n.Graph.HandleCycles
import N8n.Folders.FolderService
import N8n.Folders.FolderForest
import N8n.Folders.FolderRuns
import N8n.Concurrency.ConcurrencyQueue
import N8n.Concurrency.QueueFairness
import N8n.Concurrency.ConcurrencyControl
import N8n.Concurrency.ActiveExecutions
import N8n.Concurrency.LostSlots
import N8n.TaskBroker.Broker
import N8n.TaskBroker.Handshakes
import N8n.TaskBroker.Matching
import N8n.TaskBroker.Effects
import N8n.TaskBroker.Requests
import N8n.TaskBroker.Relay
import N8n.TaskBroker.FinalAnswers
import N8n.TaskBroker.Senders
import N8n.TaskBroker.Grip
import N8n.TaskBroker.Turns
import N8n.TaskRunner.Runner
import N8n.TaskRunner.Offers
import N8n.TaskRunner.Lifecycle
import N8n.TaskRunner.Answers
import N8n.TaskProtocol.Connection
import N8n.TaskProtocol.Agreement
import N8n.Webhooks.DynamicWebhooks
import N8n.Workflows.WorkflowUpdate
import N8n.Workflows.CredentialUsage
import N8n.Workflows.ReplaceCredentials
import N8n.Workflows.SavedCredentials
import N8n.NodeHelpers.DisplayParameter
import N8n.NodeHelpers.ResolveOrder
import N8n.NodeHelpers.NodeParameters
import N8n.NodeHelpers.CollectLoop
import N8n.NodeHelpers.DroppedDefaults
import N8n.NodeHelpers.RestoredDefaults
import N8n.NodeHelpers.KeptValues
import N8n.NodeHelpers.RestoredCollections
import N8n.Foundations.PlainData
import N8n.DataProxies.ObservableObject
import N8n.DataProxies.NoticedChanges
import N8n.DataProxies.AugmentObject
import N8n.DataProxies.AugmentedCopies
import N8n.Foundations.AgreeingBranches
import N8n.Workflow.ItemLinking
import N8n.Workflow.LinkedItems
import N8n.Workflow.ConnectionTables
import N8n.Workflow.AccessPatterns
import N8n.Workflow.NodeReferences
import N8n.Workflow.RenamedParts
import N8n.Workflow.RenamedReferences
import N8n.Workflow.RenamedExpressions
import N8n.Workflow.OnlyReferences
import N8n.Workflow.PlainNames
import N8n.Workflow.ReferencesRenamed
import N8n.Workflow.RenameNode
import N8n.Workflow.RenamedTables
import N8n.Insights.InsightsCollection
import N8n.WaitTracking.WaitTracker
import N8n.Scaling.MultiMainSetup
import N8n.Activation.ActiveWorkflows
import N8n.Activation.QueuedActivations
import N8n.Scaling.QueueRecovery
import N8n.Webhooks.WebhookCache
import N8n.Webhooks.PathSegments
import N8n.Webhooks.WebhookUrls
import N8n.Concurrency.WorkflowRunner
import N8n.ExecutionEngine.InputsPresent
import N8n.Foundations.NestedFrames
import N8n.Graph.ConnectionKeys
import N8n.ExecutionEngine.RetryOnFail
import N8n.ExecutionEngine.ErrorOutput
import N8n.Deduplication.DeduplicationHelper
import N8n.Deduplication.ConcurrentChecks
import N8n.EventBus.LogWriter
import N8n.Caching.CacheService
import N8n.Insights.CompactionTables
import N8n.Insights.InsightsCompaction
import N8n.Foundations.UndoGroups
import N8n.Canvas.WorkflowsStore
import N8n.Canvas.CanvasOperations
import N8n.Canvas.SameWorkflow
import N8n.Canvas.DeletionUndone
import N8n.Canvas.UndoneConnections
import N8n.Canvas.ConnectionsOfOneType
import N8n.Foundations.PathSearch
import N8n.Foundations.SharedSearch
import N8n.Workflow.ConnectedNodes
import N8n.Workflow.ParentOrder
import N8n.Workflow.HighestNodes
import N8n.Workflow.NodesByDepth
import N8n.Foundations.FirstAnswer
import N8n.NodeHelpers.DisplayOrder
import N8n.NodeHelpers.ResolvedOrder
import N8n.Workflow.LinkErrors
import N8n.Foundations.LeastRoutes
import N8n.Foundations.MarkedSearch
import N8n.Graph.Reachability
import N8n.Graph.CleanRunData
import N8n.Foundations.ConsecutiveGroups
import N8n.Graph.IntegerInputs
import N8n.ExecutionEngine.WaitingItems
import N8n.Foundations.Replacing
import N8n.Extensions.ExpressionParser
import N8n.Foundations.DynamicValues
import N8n.NodeParameters.FilterParameter
import N8n.NodeParameters.NegatedOperators
import N8n.NodeParameters.FromAI
import N8n.NodeParameters.QuotedArguments
import N8n.Foundations.ObjectGraph
import N8n.Utils.CircularRefs
import N8n.Utils.RemovedCycles
import N8n.Utils.DeepCopy
import N8n.Utils.CopiedTrees
import N8n.TaskBroker.Disconnects
import N8n.TaskBroker.PendingRequests
import N8n.TaskBroker.HandshakeEnds
import N8n.TaskProtocol.ChunkedInput
import N8n.Insights.ShutdownFlush
import N8n.Foundations.KeyedJoins
import N8n.NodesBase.Merge
import N8n.Foundations.JsonValues
import N8n.NodesBase.FuzzyCompare
import N8n.NodesBase.CompareDatasets
import N8n.Foundations.StableSorts
import N8n.NodesBase.RemoveDuplicates
import N8n.NodesBase.Summarize
import N8n.NodesBase.SummarizedObject
import N8n.Deduplication.LatestValues
import N8n.Executions.ExecutionRecovery
import N8n.ExecutionEngine.ScheduledTasks
import N8n.EventBus.UnfinishedExecutions
import N8n.EventBus.LogFiles
import N8n.Workflows.IndependentReferences
import N8n.Foundations.FilteredPages
import N8n.ExecutionEngine.RoutingNode
import N8n.Utils.RelaxedJson
import N8n.Validation.TypeValidation
import N8n.Foundations.BinaryFloats
import N8n.Extensions.ArrayExtensions
import N8n.Foundations.SplitLists
import N8n.NodeHelpers.SettledDefaults
import N8n.Foundations.MemberAccess
import N8n.Expressions.ExpressionSandboxing
import N8n.Foundations.ModularCounters
import N8n.NodesBase.ScheduleTrigger
import N8n.NodesBase.SplitInBatches
import N8n.Graph.PartialExecution
import N8n.TaskBroker.ReadyMessages
import N8n.Foundations.OpenedCalls
import N8n.TaskRequester.Requester
import N8n.TaskProtocol.Delivery
import N8n.TaskRunner.TaskRequests
