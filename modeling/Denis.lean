import Denis.Lib.Machine
import Denis.Lib.DomainName
import Denis.Lib.Utf8
import Denis.Lib.TtlMap
import Denis.Lib.WriteLog
import Denis.Lib.ByteOffset
import Denis.Lib.Framing
import Denis.Lib.Indexing
import Denis.Lib.Table
import Denis.Lib.Lines
import Denis.Lib.IpText
import Denis.Lib.Codec
import Denis.Lib.DnsMessage
import Denis.Lib.Hex
import Denis.Lib.Paging
import Denis.Lib.InFlight
import Denis.Config
import Denis.Acl
import Denis.Repo.Cache
import Denis.Repo.Decision
import Denis.Repo.Lists
import Denis.Repo.Snapshot
import Denis.Repo.Edits
import Denis.Repo.Administration
import Denis.Repo.Keys
import Denis.Repo.Store
import Denis.Repo.Accounting
import Denis.Repo.Failures
import Denis.Repo.Reload
import Denis.Repo.Removal
import Denis.Repo.DomainList
import Denis.Repo.Import
import Denis.Handler.Parser
import Denis.Handler.Upstream
import Denis.Handler.Scan
import Denis.Handler.Turns
import Denis.Handler.Pool
import Denis.Handler.Matching
import Denis.Handler.Sockets
import Denis.Handler.Idle
import Denis.Handler.Accepted
import Denis.Handler.Encoding
import Denis.Handler.Names
import Denis.Handler.Accesses
import Denis.Handler.Question
import Denis.Handler.Lifetime
import Denis.Handler.Blocked
import Denis.Dns.Mono
import Denis.Dns.Server
import Denis.Dns.Policy
import Denis.Dns.TransactionId
import Denis.Dns.TcpConn
import Denis.Dns.PanicFree
import Denis.Dns.Access
import Denis.Dns.Freshness
import Denis.Dns.FastPath
import Denis.Dns.Enforcement
import Denis.Dns.Attribution
import Denis.Dns.Classes
import Denis.Dns.Levels
import Denis.Dns.Replayed
import Denis.Dns.Promotion
import Denis.Dns.Letters
import Denis.Dns.ColdPath
import Denis.Dns.Beside
import Denis.Dns.Linked
import Denis.Dns.Misses
import Denis.Dns.Resolving
import Denis.Dns.InOrder
import Denis.Dns.Once
import Denis.Dns.Buffers
import Denis.Api.PatchConfig
import Denis.Api.Bearer
import Denis.Api.Listing
import Denis.Api.Router
import Denis.Api.Authority
import Denis.Api.LostUpdate
import Denis.Api.Persisted
import Denis.Api.Auth
import Denis.Api.Tokens
import Denis.Api.Validation
import Denis.Api.EndedAccess
import Denis.Api.TokenLifetime
import Denis.Api.DefaultCredentials
import Denis.Api.Admission
import Denis.Api.Counts
import Denis.Api.Durable
import Denis.Analytics.Consumer
import Denis.Analytics.AtLeastOnce
import Denis.Analytics.DoubleCount
import Denis.Analytics.Metrics
import Denis.Analytics.Traffic
import Denis.Analytics.Counting
import Denis.Analytics.Lag
import Denis.Analytics.Pipeline
import Denis.Dns.Peers
import Denis.Process
