import SecureMcp.Audit.Accounting
import SecureMcp.Audit.Actor
import SecureMcp.Audit.Closing
import SecureMcp.Collector.Durable
import SecureMcp.Execution.Slots
import SecureMcp.Execution.Verdict
import SecureMcp.Http.Admission
import SecureMcp.Http.Capacity
import SecureMcp.Http.Shutdown
import SecureMcp.Http.Target
import SecureMcp.Runtime.Content
import SecureMcp.Runtime.Terminal
import SecureMcp.Scripts.Comparison
import SecureMcp.Scripts.Evidence
import SecureMcp.Server.Arguments
import SecureMcp.Tools.Api
import SecureMcp.Tools.Confinement
import SecureMcp.Tools.Content
import SecureMcp.Deployment.Stdio
import SecureMcp.Deployment.Order
import SecureMcp.Deployment.Http
import SecureMcp.Collector.Survival
import SecureMcp.Cli.Outcome
import SecureMcp.Cli.Stopping
import SecureMcp.Collector.Faultless
import SecureMcp.Collector.Progress
