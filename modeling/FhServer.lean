import FhServer.StreamBoundary
import FhServer.HpackResize
import FhServer.H2Window
import FhServer.H2Budget
import FhServer.H2SendFlow
import FhServer.H2Push
import FhServer.IdempotencyReplay
import FhServer.IdempotencyStable
import FhServer.QueueWorkers
import FhServer.KvStores
import FhServer.DirectWriters
import FhServer.RouteUrl
import FhServer.FormDecoding
import FhServer.StreamWriter
import FhServer.HpackFragments
import FhServer.WebSocketSession
import FhServer.WebSocketReading
import FhServer.SecureRegistration
import FhServer.ClusterLeases
import FhServer.MerkleChain
import FhServer.AuditChain
import FhServer.StructuredRedaction
import FhServer.Envelopes
import FhServer.Coalesce
import FhServer.HttpSignature
import FhServer.SmartCache
import FhServer.ResponseCapture
import FhServer.RequestSignature
import FhServer.StaticHandlers
import FhServer.JsonEcho
import FhServer.Csrf
import FhServer.RealIp
import FhServer.ApiKeys
import FhServer.ClientCache
import FhServer.SharedTarget
import FhServer.Reliability
import FhServer.MemoryQueue
import FhServer.RateLimits
import FhServer.SecurePayload
import FhServer.GzipBodies
import FhServer.Bulkhead
import FhServer.QueryReads
