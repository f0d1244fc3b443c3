import Cowrie.Pool.Accounting
import Cowrie.Pool.Domains
import Cowrie.Pool.Identity
import Cowrie.Pool.Isolation
import Cowrie.Pool.Bindings
import Cowrie.Pool.Unserved
import Cowrie.Pool.Race
import Cowrie.Pool.Survival
import Cowrie.SshProxy.SftpFraming
import Cowrie.TelnetProxy.Secrecy
import Cowrie.Shell.Substitution
import Cowrie.Shell.Sequence
import Cowrie.Pool.Server
import Cowrie.Pool.ServerInvariant
import Cowrie.Lib.FileContents
import Cowrie.SshProxy.SftpPackets
import Cowrie.SshProxy.Upload
import Cowrie.SshProxy.UploadSessions
import Cowrie.SshProxy.SendPacket
import Cowrie.SshProxy.SftpAttrs
import Cowrie.Shell.FsRun
import Cowrie.Shell.FsPosix
import Cowrie.Shell.FsRename
import Cowrie.Shell.FsSpecial
import Cowrie.Shell.FsMkdir
import Cowrie.Shell.Chmod
import Cowrie.Shell.Captured
import Cowrie.SshProxy.ChannelTable
import Cowrie.SshProxy.Relay
import Cowrie.Shell.Routing
import Cowrie.Shell.RedirectIsolation
import Cowrie.Shell.Redirections
import Cowrie.Shell.RedirectLimit
import Cowrie.Shell.CommandStack
import Cowrie.Shell.Canned
import Cowrie.Shell.Quoting
import Cowrie.Shell.Completion
import Cowrie.Shell.OutputData
import Cowrie.TtyLog
import Cowrie.SshProxy.Duplicates
import Cowrie.SshProxy.Editor
import Cowrie.TelnetProxy.ToBackend
import Cowrie.TelnetProxy.Login
import Cowrie.Tftp.Timeout
import Cowrie.Tftp.Transfer
import Cowrie.Pool.Segments
import Cowrie.SshProxy.Cursor
import Cowrie.Pool.NatRelay
import Cowrie.Telnet.NewEnviron
import Cowrie.Llm.Statistics
import Cowrie.Llm.Recovery
import Cowrie.Core.Network
import Cowrie.Core.RateWindow
import Cowrie.Core.RateMemory
import Cowrie.Core.UserDB
import Cowrie.Core.AuthRandom
import Cowrie.Core.Output
import Cowrie.Core.Ja4
import Cowrie.TtyReplay
import Cowrie.Tftp.Download
import Cowrie.Scripts.FsctlMove
import Cowrie.Scalpel.Splitting
import Cowrie.Scalpel.LookupTable
import Cowrie.TelnetProxy.Backspaces
import Cowrie.Core.Resolve
import Cowrie.Llm.Prompt
import Cowrie.Shell.HeadTail
import Cowrie.Shell.Cut
import Cowrie.Shell.Cat
import Cowrie.Shell.Iptables
import Cowrie.Shell.Scp
import Cowrie.Shell.Fetch
import Cowrie.Llm.CacheKey
import Cowrie.Llm.Conversation
import Cowrie.Llm.Retries
import Cowrie.Core.Tail
import Cowrie.Pool.Connectivity
import Cowrie.Shell.MergeTokens
import Cowrie.SshProxy.Fields
import Cowrie.Pool.Frontends
import Cowrie.Shell.Script
import Cowrie.Output.Dshield
import Cowrie.Output.AbuseIpdb
import Cowrie.Shell.Screen
import Cowrie.Lib.Broadcast
import Cowrie.Lib.Follow
import Cowrie.Scalpel.Dashboard
import Cowrie.Scalpel.Pipeline
import Cowrie.Scalpel.Fidelity
import Cowrie.Lib.Archive
import Cowrie.Insults.Recording
import Cowrie.Insults.Closings
