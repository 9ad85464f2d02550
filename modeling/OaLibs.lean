import OaLibs.Auth.ServiceToken
import OaLibs.Auth.Guard
import OaLibs.Base.Runs
import OaLibs.Bus.Client
import OaLibs.Bus.Outbox
import OaLibs.Bus.Drain
import OaLibs.Bus.Drainers
import OaLibs.Base.Ledger
import OaLibs.Bus.Delivery
import OaLibs.Bus.Retry
import OaLibs.Bus.Once
import OaLibs.Bus.Backoff
import OaLibs.Base.FileTree
import OaLibs.Base.PlainTree
import OaLibs.Storage.Key
import OaLibs.Storage.Local
import OaLibs.Storage.Confinement
import OaLibs.Storage.Objects
import OaLibs.Storage.Flat
import OaLibs.Auth.Scopes
import OaLibs.Base.DateTime
import OaLibs.Storage.Download
import OaLibs.Auth.Wire
import OaLibs.Base.Unicode
import OaLibs.Bus.Batch
import OaLibs.Common.Validate
import OaLibs.Base.Percent
import OaLibs.Base.Ancestors
import OaLibs.Storage.Atomic
import OaLibs.Storage.S3
import OaLibs.Base.Slices
import OaLibs.Common.Pagination
import OaLibs.Base.Streams
import OaLibs.Bus.Redis
import OaLibs.Bus.Groups
import OaLibs.Bus.Relay
import OaLibs.Bus.Backlog
import OaLibs.Storage.Exchange
import OaLibs.Auth.Jwks
import OaLibs.Bus.Audit
import OaLibs.Common.Response
import OaLibs.Auth.Access
import OaLibs.Bus.Recovery
import OaLibs.Base.Places
import OaLibs.Storage.Writers
