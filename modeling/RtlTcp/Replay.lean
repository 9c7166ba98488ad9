import RtlTcp.Lib.Transition
import RtlTcp.Control

/-!
# `bin/replay.rs`: the command reader

The replay tool reads its client's commands on a thread of its own and only logs them.
-/

namespace RtlTcp.Replay
set_option autoImplicit false
open ByteIo Transition

/-- `is_disconnect_err` of `replay.rs`. -/
def isDisconnectErr (e : ErrorKind) : Bool :=
  e == .unexpectedEof || e == .connectionReset || e == .brokenPipe || e == .connectionAborted || e == .notConnected

/-- `hex::encode` -/
def hexEncode (bytes : List UInt8) : String :=
  String.ofList (bytes.flatMap fun b => [Nat.digitChar (b.toNat / 16), Nat.digitChar (b.toNat % 16)])

/-- The log line for a command. -/
def logLine (buf : Frame) : String :=
  let payloadHex := hexEncode buf.payload.toList
  match buf.cmd with
  | cmdSetFrequency =>
    let freq := u32FromBe buf.payload
    s!"client command: SET_FREQUENCY freq={freq}"
  | cmdSetSampleRate =>
    let rate := u32FromBe buf.payload
    s!"client command: SET_SAMPLE_RATE rate={rate}"
  | cmdSetGainMode =>
    let mode := i32FromBe buf.payload
    s!"client command: SET_GAIN_MODE mode={mode}"
  | cmdSetTunerGain =>
    let gain := i32FromBe buf.payload
    s!"client command: SET_TUNER_GAIN gain={gain}"
  | cmdSetPpm =>
    let ppm := i32FromBe buf.payload
    s!"client command: SET_PPM ppm={ppm}"
  | cmdSetAgc =>
    let agc := u32FromBe buf.payload
    s!"client command: SET_AGC agc={agc}"
  | cmdChainDetect => "client command: CHAIN_DETECT"
  | _ => s!"client command: UNKNOWN payload={payloadHex}"

/-- The command reader: its socket and the lines it has logged. -/
structure CmdThread where
  stream : List Arrival
  log : List String

/-- One iteration of `cmd_thread`; `quit` is what `reader_quit` reads on a timeout. -/
def CmdThread.turn (s : CmdThread) (quit : Bool) : Flow × CmdThread :=
  match readExact commandHeaderSize s.stream with
  | (.ok buf, rest) => (.again, { s with stream := rest, log := s.log ++ [logLine buf] })
  | (.error e, rest) =>
    let s := { s with stream := rest }
    if isDisconnectErr e then (.leave, s)
    else if e == .timedOut || e == .wouldBlock then (if quit then .leave else .again, s)
    else (.leave, s)

end RtlTcp.Replay
