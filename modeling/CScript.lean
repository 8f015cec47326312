import CScript.Idempotency.Requests
import CScript.Runtime.Subtyping
import CScript.Runtime.RoundTrip
import CScript.LiveEvents.Requests
import CScript.LiveEvents.Remote
import CScript.Server.Cached
import CScript.Server.Idempotent
import CScript.Storage.Rows
import CScript.Transaction.Block
import CScript.Match.Denotation
import CScript.Match.Disjoint
import CScript.Names.Agreement
import CScript.Runtime.Equality
import CScript.Modules.Merge
import CScript.Server.Unambiguous
import CScript.Mcp.Inclusion
import CScript.LiveEvents.Once
import CScript.Codegen.WasmValid
import CScript.Codegen.ValidatorNames
import CScript.Storage.Upsert
import CScript.Storage.MigrateComplete
import CScript.Auth.Credentials
import CScript.Storage.SelectAgrees
import CScript.Storage.Numeric
import CScript.Runtime.Iso8601
import CScript.Cron.Schedule
import CScript.Server.UrlArgs
import CScript.Lang.BuildSymbols
import CScript.Match.Exhaustive
import CScript.Server.Durations
import CScript.Auth.FailedLogins
import CScript.Background.Jobs
import CScript.Storage.NativeUuid
import CScript.Storage.SqliteSchema
import CScript.Storage.PageAfter
import CScript.Storage.WithRelated
import CScript.LiveEvents.Stripped
import CScript.Storage.Placeholders
import CScript.Server.BodyLimit
import CScript.Server.Admission
import CScript.Server.RateLimit
import CScript.Inference.JsonWrite
import CScript.Lexer.Tokenize
import CScript.Runtime.IntegersLaw
import CScript.Gguf.Total
import CScript.Lockfile.Digest
import CScript.Lockfile.Detects
import CScript.Storage.NativeDates
import CScript.Inference.BlockAccounts
import CScript.Inference.PrefixCache
import CScript.Inference.Streaming
import CScript.Inference.Bpe
import CScript.Inference.SpmKeeps
import CScript.Inference.Batched
import CScript.Inference.ParFor
import CScript.Lsp.Positions
import CScript.Lsp.Framing
