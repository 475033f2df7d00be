import Yuanlei.AgentRun.Lease
import Yuanlei.AgentRun.Timing
import Yuanlei.Attachment.Updates
import Yuanlei.Audit.Closure
import Yuanlei.Chunking.Book
import Yuanlei.Chunking.CsvRows
import Yuanlei.Chunking.LongQa
import Yuanlei.Chunking.Outline
import Yuanlei.Chunking.Records
import Yuanlei.Chunking.Separator
import Yuanlei.Cli.KbUpload
import Yuanlei.Coding.Decoding
import Yuanlei.Coding.Lifecycle
import Yuanlei.Execution.FinishedAttempt
import Yuanlei.Execution.QueueOrder
import Yuanlei.Execution.RejectPolicy
import Yuanlei.Execution.SubagentScope
import Yuanlei.Execution.TreeClosing
import Yuanlei.Git.DeployKeyLifecycle
import Yuanlei.Git.PushHistory
import Yuanlei.Git.RunPaths
import Yuanlei.Knowledge.EvalMetrics
import Yuanlei.Knowledge.Fencing
import Yuanlei.Knowledge.FindWindows
import Yuanlei.Knowledge.GraphIndexed
import Yuanlei.Knowledge.GraphResidue
import Yuanlei.Knowledge.GraphSeparation
import Yuanlei.Knowledge.ImageLinks
import Yuanlei.Knowledge.MindMapRemoval
import Yuanlei.Knowledge.NotionPage
import Yuanlei.Knowledge.Tree
import Yuanlei.Manifest.Retry
import Yuanlei.Middleware.TokenUsage
import Yuanlei.Middleware.ToolImages
import Yuanlei.Oidc.Logins
import Yuanlei.Provisioner.IdleReaping
import Yuanlei.Provisioner.Removal
import Yuanlei.Provisioner.Reuse
import Yuanlei.Sandbox.Identity
import Yuanlei.Sandbox.Readiness
import Yuanlei.Skill.Closure
import Yuanlei.Skill.Dependency
import Yuanlei.Skill.RootFile
import Yuanlei.Stream.Delivery
import Yuanlei.Task.Capacity
import Yuanlei.Task.Hooks
import Yuanlei.Web.RunEventDelivery
import Yuanlei.Web.StreamSmoother
import Yuanlei.Workspace.Addressing
import Yuanlei.Project.BlueprintArchive
