import CodexLb.AdditionalLimits
import CodexLb.BalancerMapping
import CodexLb.BalancerQuotaBlock
import CodexLb.BalancerRecovery
import CodexLb.BreakerClosing
import CodexLb.BreakerProbes
import CodexLb.BridgeAliasRuns
import CodexLb.BridgeSignature
import CodexLb.BridgeSingleFlight
import CodexLb.ChatParallel
import CodexLb.ChatTermination
import CodexLb.ClientIp
import CodexLb.DurableAliases
import CodexLb.DurableAnchors
import CodexLb.DurableFencing
import CodexLb.InvalidationPoller
import CodexLb.LedgerPricing
import CodexLb.LedgerResets
import CodexLb.LedgerRules
import CodexLb.ModelRegistry
import CodexLb.PublicOutput
import CodexLb.RateLimiter
import CodexLb.RefreshDeactivation
import CodexLb.RequestDecompression
import CodexLb.SseEvents
import CodexLb.SseKeepalive
import CodexLb.StreamSettlement
import CodexLb.ToolOrder
import CodexLb.TotpCodes
import CodexLb.TrafficContinuity
import CodexLb.TrafficTrim
import CodexLb.WebsocketGate
