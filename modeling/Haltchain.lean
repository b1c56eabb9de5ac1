import Haltchain.Consensus.ApplyOnce
import Haltchain.Consensus.Reconciliation
import Haltchain.Consensus.Redelivery
import Haltchain.Consensus.Partition
import Haltchain.Consensus.QuorumVotes
import Haltchain.Consensus.SingleNode
import Haltchain.Signing.Envelope
import Haltchain.Signing.Cose
import Haltchain.Merkle.Witness
import Haltchain.Cache.Key
import Haltchain.Cache.RemoteTrace
import Haltchain.Rules.EvaluationOrder
import Haltchain.Rules.Reload
import Haltchain.Rules.Conflict
import Haltchain.Rules.StoreSteps
import Haltchain.Validator.EmergencyHalt
import Haltchain.Validator.RecipientLimit
import Haltchain.Validator.EvaluatorCache
import Haltchain.Validator.PolicyStage
import Haltchain.Embeddings.GoalStore
import Haltchain.Validator.Improvement
import Haltchain.Validator.Relearning
import Haltchain.Api.RateLimiter
import Haltchain.Api.IngressGate
import Haltchain.Api.ForgedRequests
import Haltchain.Api.AdminAuth
import Haltchain.Api.AuditQuery
import Haltchain.Validator.PiiCount
import Haltchain.Api.Siem
import Haltchain.Capability.Trajectory
import Haltchain.Queue.Retries
import Haltchain.Db.Pool
import Haltchain.McpGuard.LiteGuard
import Haltchain.Tendermint.Bridge
import Haltchain.Ops.Alerting
import Haltchain.Cognitive.StructuralInvariants
import Haltchain.Sdk.OfflineFallback
import Haltchain.Sdk.TypescriptClient
import Haltchain.Ebpf.BlockedComms
import Haltchain.Analytics.Spc
import Haltchain.Cognitive.Calibration
import Haltchain.Validator.Retraining
