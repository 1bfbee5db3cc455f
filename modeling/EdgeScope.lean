import EdgeScope.Agent.StreamRotation
import EdgeScope.Agent.StreamStart
import EdgeScope.Agent.TailStream
import EdgeScope.Agent.StreamBounds
import EdgeScope.Agent.LogFragments
import EdgeScope.Agent.SanitizeReads
import EdgeScope.Agent.ServiceNames
import EdgeScope.Agent.ResponseText
import EdgeScope.Agent.Capabilities
import EdgeScope.Agent.ConfigLines
import EdgeScope.Agent.ConfigNumbers
import EdgeScope.Agent.LineLimit
import EdgeScope.Agent.ProcessStat
import EdgeScope.Agent.ProcessStatus
import EdgeScope.Agent.ProcessTable
import EdgeScope.Agent.TcpRows
import EdgeScope.Agent.BundleContents
import EdgeScope.Agent.DiagnosticLives
import EdgeScope.Agent.ProcessListing
import EdgeScope.Agent.Meminfo
import EdgeScope.Agent.MetricsPacing
import EdgeScope.Agent.NetworkInterfaces
import EdgeScope.Agent.TcpConnections
import EdgeScope.Agent.SystemctlRuns
import EdgeScope.Client.Cli
import EdgeScope.Client.DiagnosticDownload
import EdgeScope.Client.DownloadProgress
import EdgeScope.Client.ProcessDetails
import EdgeScope.Client.OrderRuns
import EdgeScope.Client.SessionRest
import EdgeScope.Client.WindowRest
import EdgeScope.Client.StreamButtons
import EdgeScope.Client.CommandEffects
import EdgeScope.Agent.SamplerRest
