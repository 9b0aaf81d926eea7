import SyncBack.Txn.Store
import SyncBack.Txn.Program
import SyncBack.Txn.Interleaving
import SyncBack.Txn.Pending
import SyncBack.Txn.Rows
import SyncBack.Txn.Unique
import SyncBack.Txn.Deletion
import SyncBack.Txn.Serial
import SyncBack.Txn.Alone
import SyncBack.Txn.Owners
import SyncBack.Effects.Program
import SyncBack.Effects.Concurrent
import SyncBack.Effects.Stateful
import SyncBack.Effects.Filtered
import SyncBack.TwoStores.Program
import SyncBack.TwoStores.References
import SyncBack.Strings.Search
import SyncBack.Strings.Lines
import SyncBack.Strings.Pattern
import SyncBack.Strings.PurePath
import SyncBack.Strings.Percent
import SyncBack.Net.IpAddress
import SyncBack.Net.IpNetworks
import SyncBack.Net.Url
import SyncBack.Net.HeaderValue
import SyncBack.Formats.Json
import SyncBack.Formats.JsonScalars
import SyncBack.Formats.JsonTexts
import SyncBack.Formats.JsonReading
import SyncBack.Formats.UuidText
import SyncBack.Formats.EventStream
import SyncBack.Pagination.Keyset
import SyncBack.Pagination.Offsets
import SyncBack.Arith.Rounding
import SyncBack.Calendar.Date
import SyncBack.Retries.Attempts
import SyncBack.Domain.Lifecycle
import SyncBack.Domain.Entities
import SyncBack.Domain.TextNormalization
import SyncBack.Domain.SourceUrl
import SyncBack.Domain.Coupling
import SyncBack.Domain.StorageKeys
import SyncBack.Infrastructure.Database
import SyncBack.Infrastructure.Repositories
import SyncBack.Infrastructure.Exporters
import SyncBack.Infrastructure.Prompt
import SyncBack.Infrastructure.FileTables
import SyncBack.Infrastructure.Redis
import SyncBack.Infrastructure.MarkdownParser
import SyncBack.Workers.SuggestionMapper
import SyncBack.Infrastructure.LlmSchemas
import SyncBack.Infrastructure.UrlConnector
import SyncBack.Infrastructure.SseBroker
import SyncBack.Infrastructure.Listings
import SyncBack.Infrastructure.LlmRequests
import SyncBack.Infrastructure.ParserRegistry
import SyncBack.Infrastructure.DocxParser
import SyncBack.Core.LoggingSetup
import SyncBack.Core.ContentDisposition
import SyncBack.Core.BodySizeLimit
import SyncBack.Scripts.LayerImports
import SyncBack.Services.AnalysisJobService
import SyncBack.Services.DocumentService
import SyncBack.Services.SuggestionService
import SyncBack.Services.SourceService
import SyncBack.Services.StoredFiles
import SyncBack.Services.AuthService
import SyncBack.Services.ReviewExports
import SyncBack.Services.DocumentEvents
import SyncBack.Services.BulkAnalysis
import SyncBack.Infrastructure.SseMessages
import SyncBack.Infrastructure.RedisBroker
import SyncBack.Services.PublishingServices
import SyncBack.Services.ServiceFailures
import SyncBack.Services.ExportPages
import SyncBack.Services.DashboardService
import SyncBack.Workers.AnalysisTasks
import SyncBack.Workers.SourceRetries
import SyncBack.Application.Operations
import SyncBack.Application.Statements
import SyncBack.Application.SessionRules
import SyncBack.Application.ProjectOperations
import SyncBack.Application.SerialRules
import SyncBack.Application.ReviewRules
import SyncBack.Application.ReviewOutcomes
import SyncBack.Application.CouplingRules
import SyncBack.Application.StartRules
import SyncBack.Application.Ownership
import SyncBack.Application.CoupledSessions
import SyncBack.Api.Requests
import SyncBack.Api.DocumentResponses
import SyncBack.Properties.AdditionFrame
import SyncBack.Properties.KeptChanges
import SyncBack.Properties.TerminalJobs
import SyncBack.Properties.FrozenSuggestions
import SyncBack.Properties.StaleWriters
import SyncBack.Properties.IdempotencyKeys
import SyncBack.Properties.ReviewSaves
import SyncBack.Properties.ExactlyOnce
import SyncBack.Properties.ReadyDocuments
import SyncBack.Properties.PromptIsolation
import SyncBack.Properties.FormatAndParser
import SyncBack.Properties.SuggestionRows
import SyncBack.Properties.DocumentDeletion
import SyncBack.Properties.FrozenSources
import SyncBack.Properties.StorageReferences
import SyncBack.Properties.OrphanFiles
import SyncBack.Properties.RefreshRotation
import SyncBack.Properties.LoginLockout
import SyncBack.Properties.NormalizedText
import SyncBack.Properties.IndependentChanges
import SyncBack.Properties.MarkdownHeadings
import SyncBack.Properties.SectionAnchors
import SyncBack.Properties.AppendedText
import SyncBack.Properties.DocxRewrites
import SyncBack.Properties.StorableSuggestions
import SyncBack.Properties.LocatedChanges
import SyncBack.Properties.AtomicReviews
import SyncBack.Properties.TornReviews
import SyncBack.Properties.PinnedRequests
import SyncBack.Properties.RetryBudgets
import SyncBack.Properties.SafeKeys
import SyncBack.Properties.BusyWait
import SyncBack.Properties.EventFeeds
import SyncBack.Properties.PagesOnce
import SyncBack.Properties.LayerViolations
import SyncBack.Properties.LlmRetries
import SyncBack.Properties.RedactedLogs
import SyncBack.Properties.PhantomEvents
import SyncBack.Properties.BulkStarts
import SyncBack.Properties.CoupledStatuses
import SyncBack.Properties.ExportedChanges
import SyncBack.Properties.DocxSections
import SyncBack.Properties.TrendPoints
import SyncBack.Properties.FilenameHeaders
import SyncBack.Properties.EventsOnTheWire
import SyncBack.Properties.BrokerCluster
import SyncBack.Properties.BodyLimits
import SyncBack.Properties.TenantIsolation
import SyncBack.Properties.FailedRequests
import SyncBack.Properties.PublicStatuses
