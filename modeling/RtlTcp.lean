import RtlTcp.Lib.Transition
import RtlTcp.Lib.Wire
import RtlTcp.Lib.Keystream
import RtlTcp.Lib.ByteIo
import RtlTcp.Lib.Framing
import RtlTcp.Lib.Broadcast
import RtlTcp.Lib.SharedSlot
import RtlTcp.Lib.LittleEndian
import RtlTcp.Lib.SeekFile
import RtlTcp.Lib.Greedy
import RtlTcp.Lib.Duplex
import RtlTcp.Lib.Pipeline
import RtlTcp.Control
import RtlTcp.Limiter
import RtlTcp.Whitelist
import RtlTcp.Encryption
import RtlTcp.Main.MasterControl
import RtlTcp.Main.SingleControl
import RtlTcp.Main.ProxyControl
import RtlTcp.Stream
import RtlTcp.StreamProgress
import RtlTcp.Alignment
import RtlTcp.Proxy
import RtlTcp.Connect
import RtlTcp.ChainDetect
import RtlTcp.Replay
import RtlTcp.ReplayTool
import RtlTcp.Capture
import RtlTcp.CaptureGrammar
import RtlTcp.CaptureHeader
import RtlTcp.CaptureTool
import RtlTcp.CaptureFlush
import RtlTcp.CaptureCrash
import RtlTcp.ReplayEnd
import RtlTcp.Recordings
import RtlTcp.Main.Pairing
import RtlTcp.Main.Framing
import RtlTcp.Main.CommandChannel
import RtlTcp.Main.Session
import RtlTcp.Main.ServeMulti
import RtlTcp.Main.NonceLock
import RtlTcp.Main.KeystreamLimit
import RtlTcp.Main.Admission
import RtlTcp.Main.AcceptLoop
import RtlTcp.Main.Chain
import RtlTcp.Main.ControlExit
import RtlTcp.Main.ProxyChain
import RtlTcp.Main.Shutdown
import RtlTcp.Main.StopRequest
import RtlTcp.Main.SlaveAcceptor
import RtlTcp.Main.Handshake.System
import RtlTcp.Main.Handshake.Stages
import RtlTcp.Main.Handshake.Server
import RtlTcp.Main.Handshake.Agreement
import RtlTcp.Main.Handshake.Progress
import RtlTcp.Main.SingleAlignment
import RtlTcp.Main.NoncePoison
import RtlTcp.Main.MasterSessions
import RtlTcp.Main.MasterTurns
import RtlTcp.Main.Relay
import RtlTcp.Main.ServeStreams
import RtlTcp.Main.CommandChain
import RtlTcp.Provenance
import RtlTcp.Main.Startup
