import NiceTerm.Output.FlowControl
import NiceTerm.Output.Conservation
import NiceTerm.Output.Timers
import NiceTerm.Zmodem.Prompt
import NiceTerm.Osc.Chunks
import NiceTerm.Drain.Stalls
import NiceTerm.Capture.Bounded
import NiceTerm.Cloud.AutoPull
import NiceTerm.Cloud.Gc
import NiceTerm.Gate.Replacement
import NiceTerm.Gate.Chunking
import NiceTerm.Telnet.Stripping
import NiceTerm.Telnet.Characters
import NiceTerm.Zmodem.Ending
import NiceTerm.Storage.Indexes
import NiceTerm.Gitee.ObjectMap
import NiceTerm.Ssh.RouteSafety
import NiceTerm.Ssh.Scopes
import NiceTerm.Recording.Chunks
import NiceTerm.Sftp.StagedCopy
import NiceTerm.Sftp.Commands
import NiceTerm.Sftp.Delivery
import NiceTerm.Sftp.DownloadCleanup
import NiceTerm.Sftp.UploadCleanup
import NiceTerm.Sftp.ScpDownload
import NiceTerm.Sftp.Duplicates
import NiceTerm.Session.ExactlyOnce
import NiceTerm.Session.HistoryStore
import NiceTerm.Capabilities.Composition
import NiceTerm.Capabilities.OutputPages
import NiceTerm.Mcp.Cancellation
import NiceTerm.Mcp.Authorisation
import NiceTerm.Sftp.ListedNames
import NiceTerm.Ssh.TunnelStatus
import NiceTerm.Ssh.AgentPolicy
import NiceTerm.Ssh.TunnelList
import NiceTerm.Mcp.Approval
import NiceTerm.Crypto.Recovery
import NiceTerm.Recording.Growth
import NiceTerm.Recording.Matches
import NiceTerm.Sftp.LocalNames
import NiceTerm.Zmodem.SavedNames
import NiceTerm.Ssh.X11Auth
import NiceTerm.Ssh.X11Display
import NiceTerm.Telnet.LateLogin
import NiceTerm.Importer.GroupPaths
import NiceTerm.Screen.AlternateScreen
import NiceTerm.Drain.Delivery
import NiceTerm.Ack.Wakeups
import NiceTerm.Storage.NoteRevisions
import NiceTerm.Storage.KnownHostReplacement
import NiceTerm.Ssh.AgentIdentities
import NiceTerm.Ssh.Socks5
import NiceTerm.Sftp.Inventory
import NiceTerm.Snapshot.Convergence
import NiceTerm.Sftp.RemoteText
import NiceTerm.Workspace.WindowRuns
import NiceTerm.Capabilities.RecentOutput
import NiceTerm.RemoteDesktop.FramePatch
import NiceTerm.Otp.Codes
