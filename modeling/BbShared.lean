import BbShared.Sanitiser
import BbShared.Bounds
import BbShared.TunnelDO
import BbShared.Visitor
import BbShared.DeviceKey
import BbShared.ConnectionRecord
import BbShared.WorkerLifecycle
import BbShared.Readiness
import BbShared.Registry
import BbShared.CrossOrigin
import BbShared.SecretRecord
import BbShared.SessionRecord
import BbShared.SessionQueue
import BbShared.SessionStore
import BbShared.Redemptions
import BbShared.Js.Numeral
import BbShared.Js.JsonPath
import BbShared.Bridge
import BbShared.ShareRecord
import BbShared.ShareQueue
import BbShared.ShareDurability
import BbShared.ConnectionStore
import BbShared.PluginRun
import BbShared.Recovery
import BbShared.TunnelRelay
import BbShared.RequestAccounts
import BbShared.Replacement
import BbShared.RecordAuthenticity
import BbShared.Redaction
import BbShared.SharedTunnel
import BbShared.Backoff
import BbShared.Responses
import BbShared.Sidebar
import BbShared.Js.Reference
import BbShared.Redirects
import BbShared.InvitationLinks
import BbShared.Rejections
import BbShared.SessionMessages
import BbShared.TunnelSystem
import BbShared.GuestMessages
import BbShared.ChromeShim
import BbShared.Labels
import BbShared.RecordCrypto
import BbShared.GrantChanges
import BbShared.Hibernation
import BbShared.StreamIds
import BbShared.HttpReply
import BbShared.SessionAnswers
import BbShared.RelayReplies
import BbShared.RequestBodies
import BbShared.HttpRelay
import BbShared.SessionFrames
import BbShared.Conduit
import BbShared.VisitorMessages
import BbShared.Leases
import BbShared.SessionResources
import BbShared.Js.Values
import BbShared.ProofOfWork
import BbShared.Scripts
import BbShared.Deploy
import BbShared.Deployments
import BbShared.RuntimeRule
import BbShared.ReadyProofs
import BbShared.Js.Replace
import BbShared.InvitationCalls
import BbShared.TunnelReports
import BbShared.CrashSafety
import BbShared.Heartbeat
import BbShared.Pairing
import BbShared.ConnectionCalls
import BbShared.TunnelCalls
import BbShared.Supervision
