import Modo.Lib.Machine
import Modo.Lib.Table
import Modo.Time
import Modo.Job.Model
import Modo.Job.Queue
import Modo.Job.Attempts
import Modo.Job.Terminal
import Modo.Job.Shutdown
import Modo.Json
import Modo.Encoding.Hex
import Modo.Session.Token
import Modo.Session.Store
import Modo.Session.Resurrection
import Modo.Session.Cookie.Durability
import Modo.Session.Cookie.Agreement
import Modo.Session.Jwt.Service
import Modo.Session.Jwt.SingleUse
import Modo.TimeOrder
import Modo.Session.Jwt.Lifetime
import Modo.Eligibility
import Modo.Session.Cap
import Modo.Lib.Utf8
import Modo.Job.Unique
import Modo.ApiKey.Token
import Modo.ApiKey.Store
import Modo.ApiKey.Lifecycle
import Modo.Tenant.Domain
import Modo.Tenant.Verification
import Modo.Tenant.Ownership
import Modo.Db.Cursor
import Modo.Db.Pagination
import Modo.Db.Filter
import Modo.Db.Select
import Modo.Db.Alignment
import Modo.Db.Injection
import Modo.Db.Where
import Modo.Db.FilterSemantics
import Modo.Cache.Lru
import Modo.Middleware.RateBound
import Modo.Middleware.KeyCap
import Modo.Cron.Scheduler
import Modo.Db.Migrate
import Modo.Sse.Broadcaster
import Modo.Tenant.Registration
import Modo.Encoding.Base64url
import Modo.Session.Jwt.Codec
import Modo.Http.Cookies
import Modo.Flash.Cookie
import Modo.Flash.Delivery
import Modo.Http.CookieFields
import Modo.Session.Jwt.Source
import Modo.Server.HostRouter
import Modo.Tenant.Strategy
import Modo.Lib.Base64
import Modo.Webhook.Signature
import Modo.Storage.Listing
import Modo.Lib.Url
import Modo.Storage.Client
import Modo.Storage.Signing
import Modo.Email.Frontmatter
import Modo.Email.Mailer
import Modo.Lib.Words
import Modo.Sanitize.Html
import Modo.Lib.IpAddr
import Modo.Ip.Extract
import Modo.Db.Fetch
import Modo.Session.Jwt.Payloads
import Modo.Lib.Forwarded
import Modo.Server.ForwardedHost
import Modo.Lib.WebUrl
import Modo.Db.Pool
import Modo.Db.PoolIdentity
import Modo.Storage.PublicUrl
import Modo.Email.Markdown
import Modo.Email.MarkdownPieces
import Modo.Encoding.Base32
import Modo.Lib.BitCode
import Modo.ApiKey.Parsing
import Modo.Auth.Totp
import Modo.Job.Backoff
import Modo.Lib.EventSource
import Modo.Middleware.Cors
import Modo.Middleware.UserAgent
import Modo.Sanitize.HtmlPlaces
import Modo.Sanitize.HtmlElements
import Modo.Sse.Event
import Modo.Config.Substitute
import Modo.Cron.Duration
import Modo.Cron.Interval
import Modo.Db.Page
import Modo.I18n.AcceptLanguage
import Modo.I18n.Flatten
import Modo.I18n.Interpolate
import Modo.Tenant.DomainName
import Modo.Tenant.PathPrefix
import Modo.Lib.F32
import Modo.Storage.Encoding
import Modo.Storage.Keys
import Modo.Storage.ListingEnds
import Modo.Webhook.SignedContent
import Modo.Id.Short
import Modo.Auth.RandomString
import Modo.Lib.Keeping
import Modo.Validate.Email
import Modo.Email.OtpScan
import Modo.Email.OtpPieces
import Modo.Email.OtpArrival
import Modo.Email.OtpReplaced
import Modo.Email.OtpRendering
import Modo.Email.OtpParser
import Modo.Email.OtpReaches
import Modo.Db.Checksum
import Modo.Lib.Broadcast
import Modo.Sse.Delivery
import Modo.Http.Browser
import Modo.Middleware.Csrf
import Modo.Auth.OAuth
import Modo.Cache.Stack
import Modo.Email.TemplateCache
import Modo.Storage.Uploads
import Modo.Lib.Painting
import Modo.Qrcode.Render
import Modo.Auth.Guard
import Modo.Client.Info
import Modo.Session.Cookie.Binding
import Modo.I18n.Translator
import Modo.Session.Jwt.Access
import Modo.Lib.F64
