import AdblockCompiler.Preprocessor
import AdblockCompiler.BooleanSyntax
import AdblockCompiler.Conditions
import AdblockCompiler.BooleanRewriting
import AdblockCompiler.ConditionAgreement
import AdblockCompiler.Downloader
import AdblockCompiler.IncludeGraph
import AdblockCompiler.Header
import AdblockCompiler.HostPatterns
import AdblockCompiler.Rules
import AdblockCompiler.Compress
import AdblockCompiler.Globs
import AdblockCompiler.Optimizer
import AdblockCompiler.Pipeline
import AdblockCompiler.Compilers
import AdblockCompiler.BooleanPrinting
import AdblockCompiler.Payg
import AdblockCompiler.CacheKeys
import AdblockCompiler.CircuitBreaker
import AdblockCompiler.HttpFetcher
import AdblockCompiler.Authentication
import AdblockCompiler.ApiKeys
import AdblockCompiler.WebSocket
import AdblockCompiler.KeyedRows
import AdblockCompiler.RoleCache
import AdblockCompiler.Revocation
import AdblockCompiler.RoutePermissions
import AdblockCompiler.Cors
import AdblockCompiler.RateLimiter
import AdblockCompiler.Pending
import AdblockCompiler.CompileRequest
import AdblockCompiler.CompilationCache
import AdblockCompiler.PatternFilter
import AdblockCompiler.Conflicts
import AdblockCompiler.Deduplicate
import AdblockCompiler.CompressStability
import AdblockCompiler.Merging
import AdblockCompiler.RuleUniqueness
import AdblockCompiler.Queue
import AdblockCompiler.Cancellation
import AdblockCompiler.QueueAccounting
import AdblockCompiler.JobLookup
import AdblockCompiler.Incremental
import AdblockCompiler.Promises
import AdblockCompiler.Validation
import AdblockCompiler.SharedRegistry
import AdblockCompiler.Scheduling
import AdblockCompiler.Hosts
import AdblockCompiler.StorageAgreement
import AdblockCompiler.CachingDownloader
import AdblockCompiler.WorkflowEvents
import AdblockCompiler.HealthMonitoring
import AdblockCompiler.PreprocessorEvaluator
import AdblockCompiler.OutputFormatter
import AdblockCompiler.PluginSystem
import AdblockCompiler.PathResolution
import AdblockCompiler.ConcurrentDownloads
import AdblockCompiler.CliApp
import AdblockCompiler.PatternValidation
import AdblockCompiler.ValidationReport
import AdblockCompiler.PublicSuffixes
import AdblockCompiler.HeaderParsing
import AdblockCompiler.HeaderStripping
import AdblockCompiler.OptimizerStats
import AdblockCompiler.RemoveModifiers
import AdblockCompiler.TransformationHooks
import AdblockCompiler.DiffReport
import AdblockCompiler.Retries
import AdblockCompiler.FetchRetry
import AdblockCompiler.AsyncRetry
import AdblockCompiler.DownloadSteps
import AdblockCompiler.FinishingOrder
import AdblockCompiler.PluginOrder
import AdblockCompiler.EndpointAuth
import AdblockCompiler.RegistrableDomains
import AdblockCompiler.ChunkedProcessing
import AdblockCompiler.Migration
import AdblockCompiler.CacheSync
import AdblockCompiler.AGTreeWalker
import AdblockCompiler.RegExpSequences
import AdblockCompiler.ConfigurationManager
import AdblockCompiler.Wildcards
import AdblockCompiler.Base64
import AdblockCompiler.BatchCompilation
import AdblockCompiler.ChangeLogs
import AdblockCompiler.CleanedRules
import AdblockCompiler.ErrorQueue
import AdblockCompiler.FeatureFlags
import AdblockCompiler.Passwords
import AdblockCompiler.PreFetched
import AdblockCompiler.RuleFilter
import AdblockCompiler.SharedCells
import AdblockCompiler.WorkflowMetrics
import AdblockCompiler.ExpiringRows
import AdblockCompiler.StorageCleanup
import AdblockCompiler.Deliveries
import AdblockCompiler.QueueProvider
import AdblockCompiler.WsHibernation
import AdblockCompiler.Framing
import AdblockCompiler.EventStream
import AdblockCompiler.CompiledRules
import AdblockCompiler.TieredRateLimits
