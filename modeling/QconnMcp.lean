import QconnMcp.Kit.Numeral
import QconnMcp.Kit.Pattern
import QconnMcp.Kit.Peer
import QconnMcp.Qconn.Telnet
import QconnMcp.Qconn.Prompt
import QconnMcp.Qconn.Segmentation
import QconnMcp.Kit.Triple
import QconnMcp.Qconn.Client
import QconnMcp.Qconn.File
import QconnMcp.Qconn.Exchange
import QconnMcp.Qconn.Services
import QconnMcp.Qconn.Sync
import QconnMcp.Mock.Session
import QconnMcp.Mock.Grammar
import QconnMcp.Qconn.OpenLine
import QconnMcp.Mock.Answers
import QconnMcp.Mock.Lockstep
import QconnMcp.Qconn.FileServer
import QconnMcp.Qconn.Transfer
import QconnMcp.Kit.Run
import QconnMcp.Pool.Server
import QconnMcp.Pool.Late
import QconnMcp.Kit.Stuffing
import QconnMcp.Mock.DebugLockstep
import QconnMcp.Qnxdbg.Matching
import QconnMcp.Kit.Scanner
import QconnMcp.Qconn.Negotiation
import QconnMcp.Qnxdbg.Memory
import QconnMcp.Qnxdbg.Stops
import QconnMcp.Debug.Rsp
import QconnMcp.Mock.Rsp
import QconnMcp.Debug.Retransmit
import QconnMcp.Tools.Debug
import QconnMcp.Tools.Signals
import QconnMcp.Tools.Selection
import QconnMcp.Kit.Flags
import QconnMcp.Config.Load
import QconnMcp.Config.Precedence
import QconnMcp.Qnxdbg.Decode
import QconnMcp.Qnxdbg.Fields
import QconnMcp.Qnxdbg.MemoryWrite
import QconnMcp.Qconn.Rounds
import QconnMcp.Qconn.Proc
import QconnMcp.Qconn.Acknowledged
import QconnMcp.Qconn.Launcher
import QconnMcp.Kit.Shell
import QconnMcp.Kit.Quote
import QconnMcp.Tools.Arguments
import QconnMcp.Qconn.CutOff
import QconnMcp.Debug.Acceptance
import QconnMcp.Debug.Session
import QconnMcp.Qnxdbg.Demux
import QconnMcp.Qnxdbg.Launch
import QconnMcp.Qnxdbg.Layout
import QconnMcp.Kit.Grouping
import QconnMcp.Qconn.Sysinfo
import QconnMcp.Qconn.OpenReply
import QconnMcp.Kit.Utf8
import QconnMcp.Mock.Launcher
import QconnMcp.Tools.Files
import QconnMcp.Kit.Store
import QconnMcp.Mock.Store
import QconnMcp.Mock.Uploads
import QconnMcp.Pool.Shared
import QconnMcp.Tools.Registry
import QconnMcp.Proxy.Trace
import QconnMcp.Mock.RspSession
import QconnMcp.Debug.Requests
import QconnMcp.Tools.Restore
import QconnMcp.Tools.Snapshot
import QconnMcp.Tools.Output
import QconnMcp.Mock.DebugTools
