import ContextBroker.Core.LTS
import ContextBroker.Core.StateGraph
import ContextBroker.Core.Workflow
import ContextBroker.Core.Binary64
import ContextBroker.Core.Blend
import ContextBroker.Core.Rows
import ContextBroker.Core.Ranked
import ContextBroker.Core.Spans
import ContextBroker.Core.Cut
import ContextBroker.Core.RunLength
import ContextBroker.Core.Exchanges
import ContextBroker.Core.Substitute
import ContextBroker.Core.Placeholders
import ContextBroker.Core.Positional
import ContextBroker.Core.Paging
import ContextBroker.Core.LineDecoder
import ContextBroker.Core.RankFusion
import ContextBroker.Core.KeyedMerge
import ContextBroker.Core.OnceByKey
import ContextBroker.Core.UniqueInsert
import ContextBroker.Core.ForeignKeys
import ContextBroker.Core.CheckedTable
import ContextBroker.Core.HandlerLoop
import ContextBroker.Core.Gather
import ContextBroker.Core.FileCache
import ContextBroker.Core.Memo
import ContextBroker.Core.FileTree
import ContextBroker.Core.SharedFile
import ContextBroker.Core.ObjectGraph
import ContextBroker.Core.SessionLocks
import ContextBroker.Core.Transactions
import ContextBroker.L1Data.Schema
import ContextBroker.L1Data.Config
import ContextBroker.L1Data.TierBounds
import ContextBroker.L1Data.Tables
import ContextBroker.L1Data.Quality
import ContextBroker.L1Data.Json
import ContextBroker.L1Data.JsonReading
import ContextBroker.L1Data.JsonRoundTrip
import ContextBroker.L1Data.JsonModes
import ContextBroker.L1Data.JsonValues
import ContextBroker.L2Store.MessagePipeline
import ContextBroker.L2Store.Invariant
import ContextBroker.L2Store.Collapse
import ContextBroker.L3Assembly.StandardTiered
import ContextBroker.L3Assembly.Archiving
import ContextBroker.L3Assembly.Passthrough
import ContextBroker.L3Assembly.NodeSpecs
import ContextBroker.L3Assembly.Pass
import ContextBroker.L3Assembly.Runs
import ContextBroker.L3Assembly.Course
import ContextBroker.L3Assembly.SummaryRows
import ContextBroker.L3Assembly.Coverage
import ContextBroker.L3Assembly.FullCompaction
import ContextBroker.L3Assembly.HeaderLineage
import ContextBroker.L3Assembly.LiveZone
import ContextBroker.L3Assembly.Retiering
import ContextBroker.L3Assembly.Tiling
import ContextBroker.L3Assembly.Capacity
import ContextBroker.L3Assembly.Partition
import ContextBroker.L3Assembly.Allocation
import ContextBroker.L3Assembly.Deadband
import ContextBroker.L3Assembly.Unrolled
import ContextBroker.L3Assembly.LockRelease
import ContextBroker.L3Assembly.ConcurrentChunks
import ContextBroker.L3Assembly.Cleaning
import ContextBroker.L3Assembly.CleaningSpans
import ContextBroker.L3Assembly.CleaningFences
import ContextBroker.L3Assembly.CleaningBold
import ContextBroker.L3Assembly.ChunkPieces
import ContextBroker.L3Assembly.ChunkHeaders
import ContextBroker.L4Retrieval.Retrieval
import ContextBroker.L4Retrieval.RetrievalSpecs
import ContextBroker.L4Retrieval.LiveTail
import ContextBroker.L4Retrieval.Archival
import ContextBroker.L4Retrieval.Budget
import ContextBroker.L4Retrieval.GetContext
import ContextBroker.L4Retrieval.CurrentPrompt
import ContextBroker.L4Retrieval.StorePaths
import ContextBroker.L4Retrieval.ToolExchanges
import ContextBroker.L4Retrieval.Totality
import ContextBroker.L4Retrieval.WindowBudget
import ContextBroker.L4Retrieval.TokenUsage
import ContextBroker.L4Retrieval.Recency
import ContextBroker.L4Retrieval.Rerank
import ContextBroker.L4Retrieval.HybridSearch
import ContextBroker.L4Retrieval.ConversationSearch
import ContextBroker.L4Retrieval.ConversationList
import ContextBroker.L5Concurrency.AdvisoryLock
import ContextBroker.L5Concurrency.Wakeup
import ContextBroker.L5Concurrency.StoreTransactions
import ContextBroker.L5Concurrency.Serialisable
import ContextBroker.L5Concurrency.Counters
import ContextBroker.L5Concurrency.SseSessions
import ContextBroker.L5Concurrency.SessionLimits
import ContextBroker.L5Concurrency.ToolCalls
import ContextBroker.L5Concurrency.PassStatements
import ContextBroker.L5Concurrency.ConcurrentPasses
import ContextBroker.L6Knowledge.Deletion
import ContextBroker.L6Knowledge.QualityWrapper
import ContextBroker.L6Knowledge.Expiry
import ContextBroker.L6Knowledge.Dispatch
import ContextBroker.L6Knowledge.DispatchMetadata
import ContextBroker.L6Knowledge.DispatchTwice
import ContextBroker.L6Knowledge.FeedbackDedup
import ContextBroker.L6Knowledge.MemoryQuality
import ContextBroker.L6Knowledge.Ranking
import ContextBroker.L6Knowledge.Enrichment
import ContextBroker.L6Knowledge.EnrichmentBudget
import ContextBroker.L6Knowledge.EnrichmentFeedback
import ContextBroker.L6Knowledge.ExtractionPrompt
import ContextBroker.L6Knowledge.ExtractionOutput
import ContextBroker.L6Knowledge.Strptime
import ContextBroker.L6Knowledge.Temporal
import ContextBroker.L6Knowledge.Mem0Memory
import ContextBroker.L6Workers.EmbeddingWorker
import ContextBroker.L6Workers.PoisonPill
import ContextBroker.L6Workers.BackgroundLoops
import ContextBroker.L6Workers.ExtractionWorker
import ContextBroker.L6Workers.EmbeddingQueue
import ContextBroker.L6Workers.LogEmbedding
import ContextBroker.L6Workers.EmbeddingColumn
import ContextBroker.L6Workers.MigrationRace
import ContextBroker.L6Workers.ColumnType
import ContextBroker.L7Agent.Imperator
import ContextBroker.L7Agent.PromptOrder
import ContextBroker.L7Agent.UserMessage
import ContextBroker.L7Agent.ToolHistory
import ContextBroker.L7Agent.Fallbacks
import ContextBroker.L7Agent.ChatStreaming
import ContextBroker.L7Agent.ChatClient
import ContextBroker.L7Agent.StateManager
import ContextBroker.L7Agent.StateFile
import ContextBroker.L7Agent.RequestBodies
import ContextBroker.L7Agent.FileTools
import ContextBroker.L7Agent.MessageTrimming
import ContextBroker.L8Operations.Migrations
import ContextBroker.L8Operations.TierRename
import ContextBroker.L8Operations.Recovery
import ContextBroker.L8Operations.LogTails
import ContextBroker.L8Operations.LogShipping
import ContextBroker.L8Operations.LogWriter
import ContextBroker.L8Operations.LogLines
import ContextBroker.L8Operations.LogQuery
import ContextBroker.L8Operations.ConfigCache
import ContextBroker.L8Operations.ModelClients
import ContextBroker.L8Operations.KnowledgeClients
import ContextBroker.L8Operations.AlertDedup
import ContextBroker.L8Operations.AlertDeliveries
import ContextBroker.L8Operations.PackageRegistry
import ContextBroker.L8Operations.HotReload
import ContextBroker.L8Operations.ConfigWrite
import ContextBroker.L8Operations.ConfigUpdates
import ContextBroker.L8Operations.Redaction
