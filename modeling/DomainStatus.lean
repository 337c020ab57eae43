import DomainStatus.Lib.Anyhow
import DomainStatus.Lib.Ledger
import DomainStatus.Lib.Text
import DomainStatus.Lib.Trace
import DomainStatus.Initialization.RateLimiter
import DomainStatus.Initialization.HostRateLimiter
import DomainStatus.Run.InFlight
import DomainStatus.Run.Scan
import DomainStatus.Run.Accounting
import DomainStatus.Run.Facts
import DomainStatus.Config.Merge
import DomainStatus.Security.UrlValidation
import DomainStatus.Fetch.Http
import DomainStatus.Fetch.Redirects
import DomainStatus.Fetch.PageRequests
import DomainStatus.ErrorHandling.Causes
import DomainStatus.Utils.Process
import DomainStatus.Utils.Cache
import DomainStatus.Lib.Rounds
import DomainStatus.Fingerprint.Incremental
import DomainStatus.Fingerprint.Parity
import DomainStatus.Fingerprint.Supplement
import DomainStatus.Fingerprint.Ruleset
import DomainStatus.Whois.Cache
import DomainStatus.Whois.CacheLimit
import DomainStatus.Whois.CacheSize
import DomainStatus.Whois.Lookup
import DomainStatus.Parse.Secrets
import DomainStatus.Storage.Rescan
import DomainStatus.Fingerprint.OrderFree
import DomainStatus.Fingerprint.FixedPoints
import DomainStatus.Security.AddressRanges
import DomainStatus.Fingerprint.PatternCache
import DomainStatus.Fingerprint.ChannelScan
import DomainStatus.Storage.CoreFaults
import DomainStatus.Parse.SecretContext
import DomainStatus.Security.Hsts
import DomainStatus.Geoip.Loader
import DomainStatus.Geoip.Init
import DomainStatus.Geoip.SourceIsolation
import DomainStatus.Fingerprint.VersionTemplates
import DomainStatus.Fetch.Stream
import DomainStatus.Utils.Sanitize
import DomainStatus.App.Url
import DomainStatus.Export.StringLists
import DomainStatus.Parse.Allowlists
import DomainStatus.Lib.Occurrences
import DomainStatus.Parse.JsonLd
import DomainStatus.Parse.HeaderSecrets
import DomainStatus.Storage.Failure
import DomainStatus.Fetch.MetaRefresh
import DomainStatus.Storage.BatchInserts
import DomainStatus.Fetch.CertNames
import DomainStatus.Fetch.ScriptHosts
import DomainStatus.Fetch.ScriptCoverage
import DomainStatus.Fetch.CspPolicies
import DomainStatus.Parse.Social
import DomainStatus.Fetch.Cookies
import DomainStatus.Parse.Jwt
import DomainStatus.Parse.Contact
import DomainStatus.Fetch.FaviconHash
import DomainStatus.Parse.LineWindow
import DomainStatus.Dns.Records
import DomainStatus.Fingerprint.LiteralNeedle
import DomainStatus.Storage.Frame
import DomainStatus.Storage.Pages
import DomainStatus.Storage.Schema
import DomainStatus.Storage.Composed
import DomainStatus.Storage.Items
import DomainStatus.Lib.Sorter
import DomainStatus.Export.Row
import DomainStatus.Export.RoundTrip
import DomainStatus.Export.Queries
import DomainStatus.Lib.Groups
import DomainStatus.Summary.Agreement
import DomainStatus.Lib.Retry
import DomainStatus.Storage.FailureStore
import DomainStatus.Storage.FailureRecords
import DomainStatus.Security.SafeResolver
import DomainStatus.Tls.Connect
import DomainStatus.Fetch.Connections
import DomainStatus.Fetch.DnsRecords
import DomainStatus.Storage.DnsRows
import DomainStatus.Lib.FieldLines
import DomainStatus.Fetch.WellKnown
import DomainStatus.Storage.WellKnownRows
import DomainStatus.StatusServer.Progress
import DomainStatus.Parse.Structured
import DomainStatus.Storage.StructuredRows
import DomainStatus.Storage.SecretRows
import DomainStatus.Storage.PartialCounts
import DomainStatus.Summary.History
import DomainStatus.Summary.Report
import DomainStatus.Lib.Keyed
import DomainStatus.Parse.Findings
import DomainStatus.Parse.Overrides
import DomainStatus.Parse.Plausibility
