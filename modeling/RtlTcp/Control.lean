import RtlTcp.Lib.ByteIo

/-!
# `control.rs`: command codes, validation, rate limiting, access control

The constants and helpers that the control threads share. Instants and durations are
nanoseconds on one clock. Parsing and matching of addresses is `std::net` and `ipnet`, so it
enters as the class `IpLib`.
-/

namespace RtlTcp
set_option autoImplicit false
open ByteIo

/-- `RtlTcpError` -/
inductive RtlTcpError where
  | device (msg : String)
  | network (msg : String)
  | config (msg : String)
  | io (e : ErrorKind)
  deriving DecidableEq, Repr

abbrev commandHeaderSize : Nat := 5
@[match_pattern] def cmdSetFrequency : UInt8 := 0x01
@[match_pattern] def cmdSetSampleRate : UInt8 := 0x02
@[match_pattern] def cmdSetGainMode : UInt8 := 0x03
@[match_pattern] def cmdSetTunerGain : UInt8 := 0x04
@[match_pattern] def cmdSetPpm : UInt8 := 0x05
@[match_pattern] def cmdSetAgc : UInt8 := 0x08
@[match_pattern] def cmdChainDetect : UInt8 := 0xF0

/-- `MAGIC_PACKET`: "RTL0", tuner type 5, maximum gain 0x1d. -/
def magicPacket : Bytes 12 :=
  ⟨[0x52, 0x54, 0x4C, 0x30, 0x00, 0x00, 0x00, 0x05, 0x00, 0x00, 0x00, 0x1D], rfl⟩

/-- The answer of the serve loops to a chain-detect probe. -/
def chainDetectAck : List UInt8 := [cmdChainDetect, 0x00, 0x00, 0x00, 0x00]

def freqMin : UInt32 := 0
def freqMax : UInt32 := 2200000000
def sampleRateMin : UInt32 := 0
def sampleRateMax : UInt32 := 3200000
def ppmMin : Int32 := -200
def ppmMax : Int32 := 200
def tunerGainMin : Int32 := 0
def tunerGainMax : Int32 := 500

/-- `COMMAND_RATE_LIMIT_INTERVAL`, 50 ms. -/
def commandRateLimitInterval : Nat := 50000000

/-! ## Frames -/

/-- A command frame: one opcode byte and a four-byte payload. -/
abbrev Frame := Bytes 5

def Frame.cmd (buf : Frame) : UInt8 := List.Vector.head buf
def Frame.payload (buf : Frame) : Bytes 4 := List.Vector.tail buf

/-- `u32::from_be_bytes` -/
def u32FromBe (payload : Bytes 4) : UInt32 :=
  payload.toList.foldl (fun acc b => acc * 256 + b.toUInt32) 0

/-- `i32::from_be_bytes` -/
def i32FromBe (payload : Bytes 4) : Int32 := (u32FromBe payload).toInt32

/-! ## Validation -/

/-- `RangeInclusive::contains` -/
def contains {α : Type} [LE α] [DecidableLE α] (lo hi x : α) : Bool :=
  decide (lo ≤ x) && decide (x ≤ hi)

/-- The shape of every `validate_*` function: an error message outside the range. -/
def validate {α : Type} [LE α] [DecidableLE α] (lo hi : α) (message : String) (x : α) : Except String Unit :=
  if !contains lo hi x then .error message else .ok ()

def validateFrequency (freq : UInt32) : Except String Unit :=
  validate freqMin freqMax s!"frequency {freq} Hz out of range ({freqMin}-{freqMax})" freq

def validateSampleRate (rate : UInt32) : Except String Unit :=
  validate sampleRateMin sampleRateMax
    s!"sample rate {rate} Hz out of range ({sampleRateMin}-{sampleRateMax})" rate

def validatePpm (ppm : Int32) : Except String Unit :=
  validate ppmMin ppmMax s!"ppm {ppm} out of range ({ppmMin}-{ppmMax})" ppm

def validateTunerGain (gain : Int32) : Except String Unit :=
  validate tunerGainMin tunerGainMax
    s!"tuner gain {gain} out of range ({tunerGainMin}-{tunerGainMax})" gain

theorem validate_ok_iff {α : Type} [LE α] [DecidableLE α] {lo hi x : α} {message : String} :
    validate lo hi message x = .ok () ↔ lo ≤ x ∧ x ≤ hi := by
  simp only [validate, contains]
  by_cases h : lo ≤ x ∧ x ≤ hi
  · simp [h]
  · rcases not_and_or.mp h with h | h <;> simp [h]

/-! ## Locks and the device -/

/-- `std::sync::Mutex`: poisoned once a holder has panicked. -/
structure Mutex (α : Type) where
  value : α
  poisoned : Bool
  deriving DecidableEq

def Mutex.new {α : Type} (value : α) : Mutex α := ⟨value, false⟩

/-- `with_control`: run an operation on the device handle unless the lock is poisoned. -/
def withControl {α : Type} (ctl : Mutex α) (op : α → α) : Mutex α :=
  if ctl.poisoned then ctl else { ctl with value := op ctl.value }

@[simp] theorem withControl_poisoned {α : Type} (ctl : Mutex α) (op : α → α) :
    (withControl ctl op).poisoned = ctl.poisoned := by
  unfold withControl; split <;> rfl

/-- `AgcState`: the last gain mode, kept to suppress repeated log lines. -/
structure AgcState where
  enabled : Bool
  deriving DecidableEq, Repr

def AgcState.new : AgcState := ⟨true⟩

/-- `AgcState::enable`, with whether the state changed. -/
def AgcState.enable (s : AgcState) : Bool × AgcState := (!s.enabled, ⟨true⟩)

/-- `AgcState::disable`, with whether the state changed. -/
def AgcState.disable (s : AgcState) : Bool × AgcState := (s.enabled, ⟨false⟩)

/-- The calls of `rtlsdr_mt::Controller` that the control threads make. -/
inductive DeviceCall where
  | setCenterFreq (freq : UInt32)
  | setSampleRate (rate : UInt32)
  | setTunerGain (gain : Int32)
  | setPpm (ppm : Int32)
  | enableAgc
  | disableAgc
  deriving DecidableEq, Repr

/-- The device handle: the calls made on it, each with whether it succeeded. -/
structure Controller where
  calls : List (DeviceCall × Bool)
  deriving DecidableEq

/-- One call on the device; the callers only log the outcome. -/
def Controller.call (c : DeviceCall) (ok : Bool) (guard : Controller) : Controller :=
  ⟨guard.calls ++ [(c, ok)]⟩

/-! ## Rate limiting -/

structure RateLimiter where
  lastCommand : Nat
  minInterval : Nat
  deriving DecidableEq, Repr

/-- `RateLimiter::new`; `now` and `again` are the two readings of the clock it may take. -/
def RateLimiter.new (minInterval now again : Nat) : RateLimiter :=
  ⟨if minInterval ≤ now then now - minInterval else again, minInterval⟩

/-- `RateLimiter::check` at clock reading `now`; the subtraction saturates. -/
def RateLimiter.check (r : RateLimiter) (now : Nat) : Bool × RateLimiter :=
  if r.minInterval ≤ now - r.lastCommand then (true, { r with lastCommand := now }) else (false, r)

/-! ## Access control -/

/-- Addresses of `std::net` and networks of `ipnet`. -/
class IpLib where
  Addr : Type
  Net : Type
  parseAddr : String → Option Addr
  toCanonical : Addr → Addr
  parseNet : String → Option Net
  contains : Net → Addr → Bool

section
variable [IpLib]

/-- The loop of `is_ip_in_whitelist`: entries that do not parse are skipped. -/
def anyNetworkContains (clientIp : IpLib.Addr) : List String → Bool
  | [] => false
  | cidr :: whitelist =>
    match IpLib.parseNet cidr with
    | some network => if IpLib.contains network clientIp then true else anyNetworkContains clientIp whitelist
    | none => anyNetworkContains clientIp whitelist

/-- `is_ip_in_whitelist` -/
def isIpInWhitelist (clientIp : String) (whitelist : List String) : Bool :=
  match IpLib.parseAddr clientIp with
  | some ip => anyNetworkContains (IpLib.toCanonical ip) whitelist
  | none => false

/-- `check_whitelist` -/
def checkWhitelist (clientIp : String) (whitelist : List String) : Except RtlTcpError Unit :=
  if whitelist.isEmpty then .ok ()
  else if isIpInWhitelist clientIp whitelist then .ok ()
  else .error (.network "connection rejected: IP not in whitelist")

end

end RtlTcp
