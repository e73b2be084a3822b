import AgentPlatform.AcceptedSaves
import AgentPlatform.ApprovalWakeup
import AgentPlatform.EventLog
import AgentPlatform.AtomicWrite
import AgentPlatform.AttemptRelease
import AgentPlatform.ClaimOrder
import AgentPlatform.ContextTurns
import AgentPlatform.DepthFirst
import AgentPlatform.EventRender
import AgentPlatform.ExecutedOnce
import AgentPlatform.FinalPatch
import AgentPlatform.GatewayCapacity
import AgentPlatform.CircuitBreakers
import AgentPlatform.GatewayPolicies
import AgentPlatform.GitRollback
import AgentPlatform.HoldSafety
import AgentPlatform.MemorySource
import AgentPlatform.MemoryVisibility
import AgentPlatform.NodeRegistry
import AgentPlatform.PlanVersions
import AgentPlatform.QueueDeadlock
import AgentPlatform.RecoveredPlan
import AgentPlatform.RemoteRelay
import AgentPlatform.ResultFitting
import AgentPlatform.RunTask
import AgentPlatform.SandboxSlots
import AgentPlatform.SecretScan
import AgentPlatform.SessionOrder
import AgentPlatform.SuspensionSafety
import AgentPlatform.TaskGraph
import AgentPlatform.TenantCap
import AgentPlatform.TenantErasure
import AgentPlatform.TurnAnswers
import AgentPlatform.WorkerSlots
import AgentPlatform.ToolCallColumns
