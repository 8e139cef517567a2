import LivekitServer.Bytes
import LivekitServer.Utf8
import LivekitServer.Decimal
import LivekitServer.Json
import LivekitServer.JsonWriter
import LivekitServer.Error
import LivekitServer.Crypto
import LivekitServer.Locale
import LivekitServer.SortedMap
import LivekitServer.Clock
import LivekitServer.AccessToken
import LivekitServer.TokenClaims
import LivekitServer.EscapeJson
import LivekitServer.TokenRoundTrip
import LivekitServer.AssocList
import LivekitServer.Program
import LivekitServer.Struct
import LivekitServer.ReferenceRuntime
import LivekitServer.WebhookReceiver
import LivekitServer.WebhookAuthenticity
import LivekitServer.SignAndVerify
import LivekitServer.TokenLocale
import LivekitServer.Transition
import LivekitServer.WebhookCallbacks
import LivekitServer.TimeScan
import LivekitServer.TimeClaims
import LivekitServer.CApiFields
import LivekitServer.CApiToken
import LivekitServer.Base64
import LivekitServer.TimeBounds
import LivekitServer.ClientContext
import LivekitServer.ClientUrl
import LivekitServer.ClientCredentials
import LivekitServer.DispatchGenerations
import LivekitServer.DispatchLocked
import LivekitServer.DispatchRuns
import LivekitServer.ServiceClients
import LivekitServer.RoomScope
import LivekitServer.CApiInvoke
import LivekitServer.CApiEnvelope
import LivekitServer.CApiReplies
import LivekitServer.JsonUtf8
import LivekitServer.CApiTexts
import LivekitServer.CApiTransport
import LivekitServer.CApiWebhook
import LivekitServer.EscapeScan
import LivekitServer.RequestId
import LivekitServer.CheckedScan
import LivekitServer.UrlNormalForm
import LivekitServer.CurlHeaders
import LivekitServer.CurlResponse
import LivekitServer.Separators
import LivekitServer.WinHttp
import LivekitServer.WinHttpHeaders
import LivekitServer.BufferArena
import LivekitServer.RustInvoke
import LivekitServer.Monitor
import LivekitServer.CurlTransfer
import LivekitServer.WinHttpConnections
import LivekitServer.JsonOrder
import LivekitServer.RustNative
import LivekitServer.RustApi
import LivekitServer.RustToken
import LivekitServer.RustWebhook
import LivekitServer.PhpBinding
import LivekitServer.RemoteCalls
