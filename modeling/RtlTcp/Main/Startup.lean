import RtlTcp.Control
import RtlTcp.Proxy

/-!
# `main.rs`: from the command line to a running mode

`main` checks the arguments and calls one of three functions, each of which opens, binds and connects
what its mode needs before it starts its threads; every call that fails ends the program with `?`.
`upstream_grammar` says which texts are an upstream, and `startup_spec` when a mode starts, with what,
and in which order the outside world is touched.

What lies outside, the system, the device, `hex` and `listenfd`, is in `Host`.
-/

namespace RtlTcp.Startup
set_option autoImplicit false
open ByteIo

/-! ## Host and port -/

/-- `str::rsplit_once`: what comes before and after the last `sep`. -/
def rsplitOnce (sep : Char) (s : List Char) : Option (List Char × List Char) :=
  match s with
  | [] => none
  | c :: cs =>
    match rsplitOnce sep cs with
    | some (before, after) => some (c :: before, after)
    | none => if c = sep then some ([], cs) else none

/-- The digits of `<u16 as FromStr>::from_str`, with the check for overflow at each of them. -/
def parseDigits (value : Nat) : List Char → Option Nat
  | [] => some value
  | c :: cs =>
    if c.isDigit then
      let value := 10 * value + (c.toNat - '0'.toNat)
      if value < 2 ^ 16 then parseDigits value cs else none
    else none

/-- `<u16 as FromStr>::from_str`: a sign may come first, but not alone. -/
def parseU16 : List Char → Option UInt16
  | [] => none
  | ['+'] => none
  | '+' :: digits => (parseDigits 0 digits).map UInt16.ofNat
  | digits => (parseDigits 0 digits).map UInt16.ofNat

/-- The host and the port of `--upstream`. -/
def parseUpstream (upstream : String) : Except RtlTcpError (String × UInt16) :=
  match rsplitOnce ':' upstream.toList with
  | none => .error (.config s!"invalid upstream: {upstream}")
  | some (host, port) =>
    match parseU16 port with
    | none => .error (.config s!"invalid upstream port: {String.ofList port}")
    | some port => .ok (String.ofList host, port)

/-- `format!("{host}:{port}")` -/
def hostPort (host : String) (port : UInt16) : String := host ++ ":" ++ toString port.toNat

theorem rsplitOnce_none {sep : Char} {s : List Char} : rsplitOnce sep s = none ↔ sep ∉ s := by
  induction s with
  | nil => simp [rsplitOnce]
  | cons c cs ih =>
    simp only [rsplitOnce, List.mem_cons, not_or]
    split
    · rename_i before after found
      have : sep ∈ cs := by
        by_contra missing
        rw [ih.2 missing] at found
        cases found
      simp [this]
    · rename_i missing
      simp [ih.1 missing, eq_comm]

theorem rsplitOnce_some {sep : Char} {s before after : List Char} :
    rsplitOnce sep s = some (before, after) ↔ s = before ++ sep :: after ∧ sep ∉ after := by
  constructor
  · intro found
    induction s generalizing before with
    | nil => cases found
    | cons c cs ih =>
      simp only [rsplitOnce] at found
      split at found
      · rename_i before' after' later
        cases found
        obtain ⟨rfl, last⟩ := ih later
        exact ⟨rfl, last⟩
      · rename_i missing
        split at found
        · rename_i here
          cases found
          exact ⟨by rw [here]; rfl, rsplitOnce_none.1 missing⟩
        · cases found
  · rintro ⟨rfl, last⟩
    induction before with
    | nil => simp [rsplitOnce, rsplitOnce_none.2 last]
    | cons c before ih => simp only [List.cons_append, rsplitOnce, ih]

/-- The check at each digit is a check of the whole number. -/
theorem parseDigits_some {cs : List Char} {value n : Nat} (bound : value < 2 ^ 16) :
    parseDigits value cs = some n ↔
      (∀ c ∈ cs, c.isDigit = true) ∧ Nat.ofDigitChars 10 cs value = n ∧ n < 2 ^ 16 := by
  induction cs generalizing value with
  | nil =>
    simp only [parseDigits, Nat.ofDigitChars_nil, Option.some.injEq, List.not_mem_nil, false_implies, implies_true, true_and]
    constructor
    · rintro rfl
      exact ⟨rfl, bound⟩
    · exact fun h => h.1
  | cons c cs ih =>
    simp only [parseDigits, Nat.ofDigitChars_cons, List.mem_cons, forall_eq_or_imp]
    split
    · rename_i digit
      split
      · rename_i small
        rw [ih small]
        simp [digit]
      · rename_i large
        -- the digits that follow only add to it
        have more : 10 * value + (c.toNat - '0'.toNat) ≤ Nat.ofDigitChars 10 cs (10 * value + (c.toNat - '0'.toNat)) := by
          rw [Nat.ofDigitChars_eq_ofDigitChars_zero]
          have : 10 * value + (c.toNat - '0'.toNat) ≤ 10 ^ cs.length * (10 * value + (c.toNat - '0'.toNat)) :=
            Nat.le_mul_of_pos_left _ (Nat.pow_pos (by decide))
          omega
        constructor
        · intro h
          cases h
        · rintro ⟨-, rfl, small⟩
          omega
    · rename_i other
      simp [other]

/-- The texts of a port: digits, after a sign or not. -/
def IsPort (port : UInt16) (text : List Char) : Prop :=
  ∃ digits, (text = digits ∨ text = '+' :: digits) ∧ digits ≠ [] ∧ (∀ c ∈ digits, c.isDigit = true) ∧
    Nat.ofDigitChars 10 digits 0 = port.toNat

theorem parseDigits_port {digits : List Char} {port : UInt16} :
    (parseDigits 0 digits).map UInt16.ofNat = some port ↔
      (∀ c ∈ digits, c.isDigit = true) ∧ Nat.ofDigitChars 10 digits 0 = port.toNat := by
  rw [Option.map_eq_some_iff]
  simp only [parseDigits_some (show 0 < 2 ^ 16 by decide)]
  constructor
  · rintro ⟨n, ⟨all, value, small⟩, rfl⟩
    exact ⟨all, by rw [value, UInt16.toNat_ofNat_of_lt' small]⟩
  · rintro ⟨all, value⟩
    exact ⟨port.toNat, ⟨all, value, port.toNat_lt⟩, UInt16.ofNat_toNat⟩

theorem parseU16_some {text : List Char} {port : UInt16} : parseU16 text = some port ↔ IsPort port text := by
  have sign : Char.isDigit '+' = false := by decide
  unfold parseU16 IsPort
  split
  · simp
  · simp [sign]
  · rename_i digits more
    rw [parseDigits_port]
    constructor
    · rintro ⟨all, value⟩
      exact ⟨digits, .inr rfl, fun empty => more (by rw [empty]), all, value⟩
    · rintro ⟨digits', same, -, all, value⟩
      rcases same with rfl | same
      · exact absurd (all '+' List.mem_cons_self) (by rw [sign]; decide)
      · cases same
        exact ⟨all, value⟩
  · rename_i nonempty _ unsigned
    rw [parseDigits_port]
    constructor
    · rintro ⟨all, value⟩
      exact ⟨text, .inl rfl, nonempty, all, value⟩
    · rintro ⟨digits, same, -, all, value⟩
      rcases same with rfl | same
      · exact ⟨all, value⟩
      · exact absurd same (unsigned digits)

theorem isPort_toString (port : UInt16) : IsPort port (toString port.toNat).toList := by
  refine ⟨Nat.toDigits 10 port.toNat, .inl Nat.toList_repr, Nat.toDigits_ne_nil, fun c member => ?_,
    Nat.ofDigitChars_ten_toDigits⟩
  exact Nat.isDigit_of_mem_toDigits (by decide) (by decide) member

theorem IsPort.no_colon {port : UInt16} {text : List Char} (isPort : IsPort port text) : ':' ∉ text := by
  obtain ⟨digits, same, -, all, -⟩ := isPort
  have noColon : ':' ∉ digits := fun member => absurd (all ':' member) (by decide)
  rcases same with rfl | rfl
  · exact noColon
  · simpa using noColon

theorem parseUpstream_ok {upstream host : String} {port : UInt16} :
    parseUpstream upstream = .ok (host, port) ↔ ∃ text, upstream.toList = host.toList ++ ':' :: text ∧ IsPort port text := by
  unfold parseUpstream
  constructor
  · intro accepted
    split at accepted
    · cases accepted
    · rename_i before text found
      split at accepted
      · cases accepted
      · rename_i port' parsed
        cases accepted
        rw [String.toList_ofList]
        exact ⟨text, (rsplitOnce_some.1 found).1, parseU16_some.1 parsed⟩
  · rintro ⟨text, split, isPort⟩
    have found : rsplitOnce ':' upstream.toList = some (host.toList, text) := rsplitOnce_some.2 ⟨split, isPort.no_colon⟩
    simp only [found, parseU16_some.2 isPort, String.ofList_toList]

/-- **Which texts are an upstream.** A text is taken for a host and a port exactly when it is the host, a colon
and the digits of the port, with a plus sign in front of them or not and with any number of zeros; the
host may have colons in it. The address that `connect_upstream` makes of the two is such a text again, of
the same host and port. -/
theorem upstream_grammar (upstream host : String) (port : UInt16) :
    (parseUpstream upstream = .ok (host, port) ↔
      ∃ text, upstream = host ++ ":" ++ String.ofList text ∧ IsPort port text) ∧
    parseUpstream (hostPort host port) = .ok (host, port) := by
  constructor
  · rw [parseUpstream_ok]
    refine exists_congr fun text => and_congr_left fun _ => ?_
    rw [← String.toList_inj]
    simp
  · rw [parseUpstream_ok]
    refine ⟨(toString port.toNat).toList, ?_, isPort_toString port⟩
    simp [hostPort]

/-! ## The arguments -/

/-- `Args`, as far as the program reads them before its threads run. -/
structure Args where
  mode : String
  address : String
  masterPort : UInt16
  slavePort : Option UInt16
  upstream : Option String
  key : Option String
  keyFile : Option String
  deviceIndex : UInt32
  buffers : UInt32
  tcpBuffers : Nat
  readTimeout : UInt64
  writeTimeout : UInt64
  whitelist : List String

/-- The checks of `validate_args`, in their order. -/
def validateArgs (args : Args) : Except RtlTcpError Unit :=
  if args.buffers = 0 ∨ args.buffers > 32 then .error (.config "buffers must be between 1 and 32")
  else if args.tcpBuffers = 0 ∨ args.tcpBuffers > 10485760 then
    .error (.config "tcp_buffers must be between 1 and 10485760 (10MB)")
  else if args.readTimeout = 0 then .error (.config "read_timeout must be greater than 0")
  else if args.writeTimeout = 0 then .error (.config "write_timeout must be greater than 0")
  else
    match args.slavePort with
    | some sp => if sp = args.masterPort then .error (.config "slave-port must differ from master-port") else .ok ()
    | none => .ok ()

/-- The arguments are in their ranges. -/
structure InRange (args : Args) : Prop where
  buffers : 0 < args.buffers.toNat ∧ args.buffers.toNat ≤ 32
  tcpBuffers : 0 < args.tcpBuffers ∧ args.tcpBuffers ≤ 10485760
  readTimeout : args.readTimeout ≠ 0
  writeTimeout : args.writeTimeout ≠ 0
  ports : args.slavePort ≠ some args.masterPort

theorem ite_error_ok {p : Prop} [Decidable p] {e : RtlTcpError} {rest : Except RtlTcpError Unit} :
    (if p then .error e else rest) = .ok () ↔ ¬p ∧ rest = .ok () := by
  split <;> simp [*]

theorem validateArgs_ok {args : Args} : validateArgs args = .ok () ↔ InRange args := by
  have zero : args.buffers = 0 ↔ args.buffers.toNat = 0 := by
    rw [← UInt32.toNat_inj]
    rfl
  have large : args.buffers > 32 ↔ 32 < args.buffers.toNat := UInt32.lt_iff_toNat_lt
  simp only [validateArgs, ite_error_ok]
  rw [not_or, not_or, zero, large]
  constructor
  · rintro ⟨buffers, tcpBuffers, readTimeout, writeTimeout, different⟩
    refine ⟨by omega, by omega, readTimeout, writeTimeout, fun same => ?_⟩
    simp [same] at different
  · rintro ⟨buffers, tcpBuffers, readTimeout, writeTimeout, different⟩
    refine ⟨by omega, by omega, readTimeout, writeTimeout, ?_⟩
    cases slave : args.slavePort with
    | none => rfl
    | some sp =>
      have other : ¬sp = args.masterPort := fun same => different (by rw [slave, same])
      simp only [other, if_false]

/-! ## The outside world -/

/-- The fallible calls of `run_serve_single` on its client's socket. -/
inductive ClientCall where
  | setReadTimeout
  | setWriteTimeout
  | cloneForShutdown
  | cloneForControl
  deriving DecidableEq, Repr

/-- What a mode touches before its threads run. -/
inductive Effect where
  | takeListener
  | notify
  | bind (addr : String)
  | setHandler
  | openDevice (index : UInt32)
  | readFile (path : String)
  | accept
  | client (call : ClientCall)
  | connect (addr : String)
  | cloneUpstream
  deriving DecidableEq, Repr

/-- How the calls end. `accepted` is the client's canonical address, `listenFd` whether systemd passes a
listener, and `upstream` what the connection to an address meets. -/
structure Host where
  hexDecode : String → Except String (List UInt8)
  readFile : String → Except String (List UInt8)
  openDevice : UInt32 → Except String Unit
  setHandler : Except String Unit
  listenFd : Except String Bool
  notified : Except ErrorKind Unit
  bind : String → Except ErrorKind Unit
  accepted : Except ErrorKind String
  clientCall : ClientCall → Except ErrorKind Unit
  upstream : String → ConnectEnv × List Arrival
  upstreamCloned : Except ErrorKind Unit

/-- A function that ends with `?` at its first error, and what it has touched so far. -/
abbrev Starting := ExceptT RtlTcpError (StateM (List Effect))

/-- A call on the outside world. -/
def perform {α : Type} (e : Effect) (result : Except RtlTcpError α) : Starting α := fun effects => (result, effects ++ [e])

/-- A call on the socket of the client of `run_serve_single`. -/
def onClient (host : Host) (call : ClientCall) : Starting Unit := perform (.client call) ((host.clientCall call).mapError .io)

/-- A step that stays inside the program. -/
def check {α : Type} (result : Except RtlTcpError α) : Starting α := fun effects => (result, effects)

/-- `bind_master_port`: the listener of systemd, if there is one. -/
def bindMasterPort (host : Host) (args : Args) : Starting Unit := do
  let inherited ← perform .takeListener (host.listenFd.mapError fun e => .config s!"could not get fd from env: {e}")
  if inherited then perform .notify (host.notified.mapError .io)
  else
    let addr := hostPort args.address args.masterPort
    perform (.bind addr) ((host.bind addr).mapError .io)

/-- The length check and the copy into the array. -/
def toKey (bytes : List UInt8) : Except RtlTcpError (Option Key) :=
  if size : bytes.length = 32 then .ok (some ⟨bytes, size⟩) else .error (.config "key must be 32 bytes")

/-- `parse_encryption_key`: `--key` comes before `--key-file`. -/
def parseEncryptionKey (host : Host) (args : Args) : Starting (Option Key) := do
  match args.key with
  | some hexKey =>
    let bytes ← check ((host.hexDecode hexKey).mapError fun e => .config s!"invalid hex key: {e}")
    check (toKey bytes)
  | none =>
    match args.keyFile with
    | some path =>
      let bytes ← perform (.readFile path)
        ((host.readFile path).mapError fun e => .config s!"failed to read key file {path}: {e}")
      check (toKey bytes)
    | none => return none

def openDevice (host : Host) (args : Args) : Starting Unit :=
  perform (.openDevice args.deviceIndex)
    ((host.openDevice args.deviceIndex).mapError fun e => .device s!"could not open RTL-SDR device: {e}")

def setHandler (host : Host) : Starting Unit :=
  perform .setHandler (host.setHandler.mapError fun e => .config s!"could not set signal handler: {e}")

/-- `TcpListener::bind` for the slaves. -/
def bindSlavePort (host : Host) (args : Args) (slavePort : UInt16) : Starting Unit :=
  perform (.bind (hostPort args.address slavePort)) ((host.bind (hostPort args.address slavePort)).mapError .io)

/-- The listener for the slaves of a proxy, if there is to be one. -/
def bindSlaves (host : Host) (args : Args) : Starting Unit :=
  match args.slavePort with
  | some slavePort => bindSlavePort host args slavePort
  | none => pure ()

/-- What the threads of a mode are started with. -/
inductive Service where
  | single (clientIp : String)
  | multi (slavePort : UInt16) (encryptionKey : Option Key)
  | proxy (encryptionKey : Option Key) (conn : UpstreamConnection)

section
variable [IpLib]

/-- `run_serve_single` up to its threads. -/
def runServeSingle (host : Host) (args : Args) : Starting Service := do
  bindMasterPort host args
  let clientIp ← perform .accept (host.accepted.mapError .io)
  check (checkWhitelist clientIp args.whitelist)
  onClient host .setReadTimeout
  onClient host .setWriteTimeout
  onClient host .cloneForShutdown
  openDevice host args
  setHandler host
  onClient host .cloneForControl
  return .single clientIp

/-- `run_serve_multi` up to its threads. -/
def runServeMulti (host : Host) (args : Args) (slavePort : UInt16) : Starting Service := do
  openDevice host args
  let encryptionKey ← parseEncryptionKey host args
  setHandler host
  bindMasterPort host args
  bindSlavePort host args slavePort
  return .multi slavePort encryptionKey

/-- `connect_upstream` on a host and a port. -/
def connectTo (host : Host) (addr : String) (encryptionKey : Option Key) : Except RtlTcpError UpstreamConnection :=
  connectUpstream encryptionKey (host.upstream addr).1 (host.upstream addr).2

/-- The end of that, with the host and the port of the upstream. -/
def connectProxy (host : Host) (args : Args) (upstreamHost : String) (upstreamPort : UInt16) : Starting Service := do
  let encryptionKey ← parseEncryptionKey host args
  let conn ← perform (.connect (hostPort upstreamHost upstreamPort))
    (connectTo host (hostPort upstreamHost upstreamPort) encryptionKey)
  perform .cloneUpstream (host.upstreamCloned.mapError .io)
  return .proxy encryptionKey conn

/-- `run_proxy_multi` up to its threads, with an upstream. -/
def startProxy (host : Host) (args : Args) (upstream : String) : Starting Service := do
  setHandler host
  bindMasterPort host args
  bindSlaves host args
  let pair ← check (parseUpstream upstream)
  connectProxy host args pair.1 pair.2

def runProxyMulti (host : Host) (args : Args) : Starting Service :=
  match args.upstream with
  | some upstream => startProxy host args upstream
  | none => check (.error (.config "--upstream required in proxy mode"))

/-- The `match` of `main`. -/
def runMode (host : Host) (args : Args) : Starting Service :=
  match args.mode with
  | "proxy" => runProxyMulti host args
  | "serve" =>
    match args.slavePort with
    | some slavePort => runServeMulti host args slavePort
    | none => runServeSingle host args
  | mode => check (.error (.config s!"unknown mode: {mode}"))

/-- `main` -/
def main (host : Host) (args : Args) : Starting Service := do
  check (validateArgs args)
  runMode host args

/-! ## What the modes need -/

/-- There is a listener for the masters. -/
def MasterBound (host : Host) (args : Args) : Prop :=
  host.listenFd = .ok true ∧ host.notified = .ok () ∨
    host.listenFd = .ok false ∧ host.bind (hostPort args.address args.masterPort) = .ok ()

/-- The key that the arguments give: none if there is neither a key nor a file, and otherwise 32 bytes. -/
def KeyFrom (host : Host) (args : Args) (key : Option Key) : Prop :=
  match args.key, args.keyFile with
  | some hexKey, _ => ∃ k : Key, key = some k ∧ host.hexDecode hexKey = .ok k.toList
  | none, some path => ∃ k : Key, key = some k ∧ host.readFile path = .ok k.toList
  | none, none => key = none

/-- Everything that a mode needs is there, and `service` is what it gets. -/
def Accepts (host : Host) (args : Args) : Service → Prop
  | .single clientIp => args.mode = "serve" ∧ args.slavePort = none ∧ MasterBound host args ∧ host.accepted = .ok clientIp ∧
      checkWhitelist clientIp args.whitelist = .ok () ∧ (∀ call, host.clientCall call = .ok ()) ∧
      host.openDevice args.deviceIndex = .ok () ∧ host.setHandler = .ok ()
  | .multi slavePort encryptionKey => args.mode = "serve" ∧ args.slavePort = some slavePort ∧
      host.openDevice args.deviceIndex = .ok () ∧ KeyFrom host args encryptionKey ∧ host.setHandler = .ok () ∧
      MasterBound host args ∧ host.bind (hostPort args.address slavePort) = .ok ()
  | .proxy encryptionKey conn => args.mode = "proxy" ∧ host.setHandler = .ok () ∧ MasterBound host args ∧
      (∀ slavePort, args.slavePort = some slavePort → host.bind (hostPort args.address slavePort) = .ok ()) ∧
      KeyFrom host args encryptionKey ∧ host.upstreamCloned = .ok () ∧
      ∃ upstream upstreamHost upstreamPort, args.upstream = some upstream ∧
        parseUpstream upstream = .ok (upstreamHost, upstreamPort) ∧
        connectTo host (hostPort upstreamHost upstreamPort) encryptionKey = .ok conn

def masterPlan (host : Host) (args : Args) : List Effect :=
  [.takeListener, if host.listenFd = .ok true then .notify else .bind (hostPort args.address args.masterPort)]

def keyPlan (args : Args) : List Effect :=
  match args.key, args.keyFile with
  | none, some path => [.readFile path]
  | _, _ => []

def upstreamPlan (args : Args) (upstream : String) : List Effect :=
  match parseUpstream upstream with
  | .ok pair => keyPlan args ++ [.connect (hostPort pair.1 pair.2), .cloneUpstream]
  | .error _ => []

def proxyPlan (host : Host) (args : Args) (upstream : String) : List Effect :=
  .setHandler :: masterPlan host args ++ (args.slavePort.map fun sp => Effect.bind (hostPort args.address sp)).toList ++
    upstreamPlan args upstream

def serveMultiPlan (host : Host) (args : Args) (slavePort : UInt16) : List Effect :=
  .openDevice args.deviceIndex :: keyPlan args ++ .setHandler :: masterPlan host args ++ [.bind (hostPort args.address slavePort)]

def serveSinglePlan (host : Host) (args : Args) : List Effect :=
  masterPlan host args ++ [.accept, .client .setReadTimeout, .client .setWriteTimeout, .client .cloneForShutdown,
    .openDevice args.deviceIndex, .setHandler, .client .cloneForControl]

/-- What a mode touches, in its order. -/
def plan (host : Host) (args : Args) : List Effect :=
  if args.mode = "proxy" then (args.upstream.map (proxyPlan host args)).getD []
  else if args.mode = "serve" then (args.slavePort.map (serveMultiPlan host args)).getD (serveSinglePlan host args)
  else []

/-! ## What a function does -/

section
omit [IpLib]
variable {host : Host} {args : Args} {α β ε : Type}

/-- The call on the outside world succeeds. -/
def Works (host : Host) (args : Args) : Effect → Prop
  | .takeListener => ∃ inherited, host.listenFd = .ok inherited
  | .notify => host.notified = .ok ()
  | .bind addr => host.bind addr = .ok ()
  | .setHandler => host.setHandler = .ok ()
  | .openDevice index => host.openDevice index = .ok ()
  | .readFile path => ∃ bytes, host.readFile path = .ok bytes
  | .accept => ∃ clientIp, host.accepted = .ok clientIp
  | .client call => host.clientCall call = .ok ()
  | .connect addr => ∃ encryptionKey conn, KeyFrom host args encryptionKey ∧ connectTo host addr encryptionKey = .ok conn
  | .cloneUpstream => host.upstreamCloned = .ok ()

/-- `p` touches the world as `plan` says, all of which works, and returns the one value that `R` allows; or
there is none, and it stops somewhere in the plan with an error, at the latest at a call that does not
work. -/
structure Does (host : Host) (args : Args) (p : Starting α) (plan : List Effect) (R : α → Prop) : Prop where
  runs : ∀ effects, (∃ v, R v ∧ p.run effects = (.ok v, effects ++ plan) ∧ ∀ e ∈ plan, Works host args e) ∨
    (∀ v, ¬R v) ∧ ∃ err done, p.run effects = (.error err, effects ++ done) ∧ done <+: plan ∧
      ∀ e ∈ done.dropLast, Works host args e
  unique : ∀ v w, R v → R w → v = w

theorem does_perform (e : Effect) (result : Except RtlTcpError α) (works : ∀ v, result = .ok v → Works host args e) :
    Does host args (perform e result) [e] (result = .ok ·) where
  runs effects := by
    cases result with
    | ok v => exact .inl ⟨v, rfl, rfl, by simpa using works v rfl⟩
    | error err => exact .inr ⟨by simp, err, [e], rfl, List.prefix_refl _, by simp⟩
  unique v w first second := Except.ok.inj (first.symm.trans second)

theorem does_check (result : Except RtlTcpError α) : Does host args (check result) [] (result = .ok ·) where
  runs effects := by
    cases result with
    | ok v => exact .inl ⟨v, rfl, by rw [List.append_nil]; rfl, by simp⟩
    | error err => exact .inr ⟨by simp, err, [], by rw [List.append_nil]; rfl, List.prefix_refl _, by simp⟩
  unique v w first second := Except.ok.inj (first.symm.trans second)

theorem does_pure (v : α) : Does host args (pure v) [] (v = ·) where
  runs effects := .inl ⟨v, rfl, by rw [List.append_nil]; rfl, by simp⟩
  unique _ _ first second := first.symm.trans second

theorem run_bind (p : Starting α) (k : α → Starting β) (effects : List Effect) :
    (p >>= k).run effects = ExceptT.bindCont k (p.run effects).1 (p.run effects).2 := rfl

theorem Does.bind {p : Starting α} {k : α → Starting β} {plan plan' : List Effect} {R : α → Prop} {Q : α → β → Prop}
    (first : Does host args p plan R) (next : ∀ v, R v → Does host args (k v) plan' (Q v)) :
    Does host args (p >>= k) (plan ++ plan') fun w => ∃ v, R v ∧ Q v w where
  runs effects := by
    rcases first.runs effects with ⟨v, holds, ran, works⟩ | ⟨fails, err, done, ran, front, works⟩
    · have ran' : (p >>= k).run effects = (k v).run (effects ++ plan) := by rw [run_bind, ran]; rfl
      rcases (next v holds).runs (effects ++ plan) with ⟨w, holds', then_, works'⟩ | ⟨fails, err, done, then_, front, works'⟩
      · refine .inl ⟨w, ⟨v, holds, holds'⟩, by rw [ran', then_, List.append_assoc], fun e member => ?_⟩
        exact (List.mem_append.1 member).elim (works e) (works' e)
      · refine .inr ⟨?_, err, plan ++ done, by rw [ran', then_, List.append_assoc],
          (List.prefix_append_right_inj _).2 front, fun e member => ?_⟩
        · rintro w ⟨v', holds', later⟩
          rw [first.unique v' v holds' holds] at later
          exact fails w later
        · rw [List.dropLast_append] at member
          split at member
          · exact works e (List.dropLast_subset _ member)
          · exact (List.mem_append.1 member).elim (works e) (works' e)
    · refine .inr ⟨?_, err, done, by rw [run_bind, ran]; rfl, front.trans (List.prefix_append ..), works⟩
      rintro w ⟨v, holds, -⟩
      exact fails v holds
  unique v w := by
    rintro ⟨a, holds, later⟩ ⟨b, holds', later'⟩
    rw [first.unique b a holds' holds] at later'
    exact (next a holds).unique v w later later'

/-- Nothing comes after an error. -/
theorem Does.stop {p : Starting α} {plan : List Effect} {R : α → Prop} (first : Does host args p plan R) (fails : ∀ v, ¬R v)
    (k : α → Starting β) : Does host args (p >>= k) plan fun _ => False where
  runs effects := by
    rcases first.runs effects with ⟨v, holds, -⟩ | ⟨-, err, done, ran, front, works⟩
    · exact absurd holds (fails v)
    · exact .inr ⟨fun _ => id, err, done, by rw [run_bind, ran]; rfl, front, works⟩
  unique _ _ wrong := wrong.elim

theorem Does.congr {p : Starting α} {plan plan' : List Effect} {R R' : α → Prop} (does : Does host args p plan R)
    (same : plan = plan') (iff : ∀ v, R v ↔ R' v) : Does host args p plan' R' := by
  obtain rfl : R = R' := funext fun v => propext (iff v)
  exact same ▸ does

section
variable {p : Starting α} {plan : List Effect} {R : α → Prop}

/-- Nothing is touched after a call that fails. -/
theorem Does.touched (does : Does host args p plan R) :
    (p.run []).2 <+: plan ∧ ∀ e ∈ (p.run []).2.dropLast, Works host args e := by
  rcases does.runs [] with ⟨v, -, ran, works⟩ | ⟨-, err, done, ran, front, works⟩
  · rw [ran]
    exact ⟨List.prefix_refl _, fun e member => works e (List.dropLast_subset _ member)⟩
  · rw [ran]
    exact ⟨front, works⟩

theorem Does.result (does : Does host args p plan R) (v : α) : (p.run []).1 = .ok v ↔ R v := by
  rcases does.runs [] with ⟨v', holds', ran, -⟩ | ⟨never, err, done, ran, -⟩
  · rw [ran]
    constructor
    · intro same
      cases same
      exact holds'
    · intro holds
      rw [does.unique v v' holds holds']
  · rw [ran]
    constructor
    · intro same
      cases same
    · intro holds
      exact absurd holds (never v)

theorem Does.touched_all (does : Does host args p plan R) {v : α} (ok : (p.run []).1 = .ok v) : (p.run []).2 = plan := by
  rcases does.runs [] with ⟨v', -, ran, -⟩ | ⟨-, err, done, ran, -⟩
  · rw [ran, List.nil_append]
  · rw [ran] at ok
    cases ok

end

theorem plan_proxy (mode : args.mode = "proxy") :
    plan host args = (args.upstream.map (proxyPlan host args)).getD [] := by
  rw [plan, if_pos mode]

theorem plan_serve (mode : args.mode = "serve") :
    plan host args = (args.slavePort.map (serveMultiPlan host args)).getD (serveSinglePlan host args) := by
  rw [plan, if_neg (by rw [mode]; decide), if_pos mode]

theorem mapError_ok_iff {f : ε → RtlTcpError} {result : Except ε α} {v : α} : result.mapError f = .ok v ↔ result = .ok v := by
  cases result <;> simp [Except.mapError]

theorem does_call (e : Effect) (f : ε → RtlTcpError) (result : Except ε α) (works : ∀ v, result = .ok v → Works host args e) :
    Does host args (perform e (result.mapError f)) [e] (result = .ok ·) :=
  (does_perform e _ fun v done => works v (mapError_ok_iff.1 done)).congr rfl fun _ => mapError_ok_iff

theorem does_try (f : ε → RtlTcpError) (result : Except ε α) :
    Does host args (check (result.mapError f)) [] (result = .ok ·) :=
  (does_check _).congr rfl fun _ => mapError_ok_iff

theorem does_bindMasterPort (host : Host) (args : Args) :
    Does host args (bindMasterPort host args) (masterPlan host args) fun _ => MasterBound host args := by
  unfold bindMasterPort
  refine ((does_call .takeListener _ host.listenFd fun v found => ⟨v, found⟩).bind fun inherited found => ?_ :
    Does host args _ ([.takeListener] ++
        [if host.listenFd = .ok true then .notify else .bind (hostPort args.address args.masterPort)])
      fun w => ∃ inherited, host.listenFd = .ok inherited ∧ MasterBound host args).congr rfl fun v => ?_
  · cases inherited with
    | true =>
      rw [if_pos rfl, if_pos found]
      refine (does_call .notify _ host.notified fun _ => id).congr rfl fun _ => ?_
      simp [MasterBound, found]
    | false =>
      rw [if_neg (by simp), if_neg (by simp [found])]
      refine (does_call (.bind _) _ (host.bind _) fun _ => id).congr rfl fun _ => ?_
      simp [MasterBound, found]
  · constructor
    · rintro ⟨_, _, bound⟩
      exact bound
    · intro bound
      rcases bound with ⟨found, done⟩ | ⟨found, done⟩
      · exact ⟨_, found, .inl ⟨found, done⟩⟩
      · exact ⟨_, found, .inr ⟨found, done⟩⟩

theorem toKey_ok {bytes : List UInt8} {key : Option Key} :
    toKey bytes = .ok key ↔ ∃ k : Key, key = some k ∧ bytes = k.toList := by
  unfold toKey
  split
  · rename_i size
    constructor
    · intro made
      cases made
      exact ⟨⟨bytes, size⟩, rfl, rfl⟩
    · rintro ⟨k, rfl, rfl⟩
      rfl
  · rename_i size
    constructor
    · intro made
      cases made
    · rintro ⟨k, rfl, rfl⟩
      exact absurd k.toList_length size

/-- From bytes to a key. -/
theorem exists_toKey_iff {read : Except String (List UInt8)} {key : Option Key} :
    (∃ bytes, read = .ok bytes ∧ toKey bytes = .ok key) ↔ ∃ k : Key, key = some k ∧ read = .ok k.toList := by
  simp only [toKey_ok]
  constructor
  · rintro ⟨_, found, k, rfl, rfl⟩
    exact ⟨k, rfl, found⟩
  · rintro ⟨k, rfl, found⟩
    exact ⟨_, found, k, rfl, rfl⟩

theorem does_parseEncryptionKey (host : Host) (args : Args) :
    Does host args (parseEncryptionKey host args) (keyPlan args) (KeyFrom host args) := by
  unfold parseEncryptionKey keyPlan KeyFrom
  cases args.key with
  | some hexKey =>
    exact ((does_try _ (host.hexDecode hexKey)).bind fun bytes _ => does_check (toKey bytes)).congr rfl fun _ => exists_toKey_iff
  | none =>
    cases args.keyFile with
    | some path =>
      exact ((does_call (.readFile path) _ (host.readFile path) fun bytes read => ⟨bytes, read⟩).bind
        fun bytes _ => does_check (toKey bytes)).congr rfl fun _ => exists_toKey_iff
    | none => exact (does_pure none).congr rfl fun _ => eq_comm

theorem does_openDevice (host : Host) (args : Args) :
    Does host args (openDevice host args) [.openDevice args.deviceIndex] fun v => host.openDevice args.deviceIndex = .ok v :=
  does_call _ _ _ fun _ => id

theorem does_setHandler (host : Host) (args : Args) :
    Does host args (setHandler host) [.setHandler] fun v => host.setHandler = .ok v :=
  does_call _ _ _ fun _ => id

theorem does_onClient (host : Host) (args : Args) (call : ClientCall) :
    Does host args (onClient host call) [.client call] fun v => host.clientCall call = .ok v :=
  does_call _ _ _ fun _ => id

theorem does_bindSlavePort (host : Host) (args : Args) (slavePort : UInt16) :
    Does host args (bindSlavePort host args slavePort) [.bind (hostPort args.address slavePort)]
      fun v => host.bind (hostPort args.address slavePort) = .ok v :=
  does_call _ _ _ fun _ => id

end

/-! ## The modes -/

theorem does_runServeMulti (host : Host) (args : Args) (slavePort : UInt16) (mode : args.mode = "serve")
    (given : args.slavePort = some slavePort) :
    Does host args (runServeMulti host args slavePort) (plan host args) (Accepts host args) := by
  unfold runServeMulti
  refine ((does_openDevice host args).bind fun _ _ => (does_parseEncryptionKey host args).bind fun _ _ =>
    (does_setHandler host args).bind fun _ _ => (does_bindMasterPort host args).bind fun _ _ =>
    (does_bindSlavePort host args slavePort).bind fun _ _ => does_pure _).congr ?_ fun service => ?_
  · simp [plan_serve mode, given, serveMultiPlan]
  · cases service with
    | multi slavePort' encryptionKey =>
      constructor
      · rintro ⟨_, opened, _, key, _, handled, _, bound, _, slaves, same⟩
        cases same
        exact ⟨mode, given, opened, key, handled, bound, slaves⟩
      · rintro ⟨-, given', opened, key, handled, bound, slaves⟩
        obtain rfl := Option.some.inj (given.symm.trans given')
        exact ⟨(), opened, _, key, (), handled, (), bound, (), slaves, rfl⟩
    | single | proxy => simp [Accepts, mode, given]

theorem does_runServeSingle (host : Host) (args : Args) (mode : args.mode = "serve") (given : args.slavePort = none) :
    Does host args (runServeSingle host args) (plan host args) (Accepts host args) := by
  unfold runServeSingle
  refine ((does_bindMasterPort host args).bind fun _ _ =>
    (does_call .accept _ host.accepted fun ip accepted => ⟨ip, accepted⟩).bind fun clientIp _ =>
    (does_check (checkWhitelist clientIp args.whitelist)).bind fun _ _ =>
    (does_onClient host args .setReadTimeout).bind fun _ _ => (does_onClient host args .setWriteTimeout).bind fun _ _ =>
    (does_onClient host args .cloneForShutdown).bind fun _ _ => (does_openDevice host args).bind fun _ _ =>
    (does_setHandler host args).bind fun _ _ => (does_onClient host args .cloneForControl).bind fun _ _ =>
    does_pure _).congr ?_ fun service => ?_
  · simp [plan_serve mode, given, serveSinglePlan]
  · cases service with
    | single clientIp =>
      constructor
      · rintro ⟨_, bound, _, accepted, _, listed, _, reads, _, writes, _, shutdown, _, opened, _, handled, _, control, same⟩
        cases same
        refine ⟨mode, given, bound, accepted, listed, fun call => ?_, opened, handled⟩
        cases call with
        | setReadTimeout => exact reads
        | setWriteTimeout => exact writes
        | cloneForShutdown => exact shutdown
        | cloneForControl => exact control
      · rintro ⟨-, -, bound, accepted, listed, calls, opened, handled⟩
        exact ⟨(), bound, _, accepted, (), listed, (), calls _, (), calls _, (), calls _, (), opened, (), handled, (), calls _,
          rfl⟩
    | multi | proxy => simp [Accepts, mode, given]

omit [IpLib] in
theorem does_bindSlaves (host : Host) (args : Args) :
    Does host args (bindSlaves host args) (args.slavePort.map fun sp => Effect.bind (hostPort args.address sp)).toList
      fun _ => ∀ slavePort, args.slavePort = some slavePort → host.bind (hostPort args.address slavePort) = .ok () := by
  unfold bindSlaves
  cases args.slavePort with
  | some slavePort => exact (does_bindSlavePort host args slavePort).congr rfl fun _ => by simp
  | none => exact (does_pure ()).congr rfl fun _ => by simp

omit [IpLib] in
theorem does_connectProxy (host : Host) (args : Args) (upstreamHost : String) (upstreamPort : UInt16) :
    Does host args (connectProxy host args upstreamHost upstreamPort)
      (keyPlan args ++ [.connect (hostPort upstreamHost upstreamPort), .cloneUpstream])
      fun service => ∃ encryptionKey conn, service = .proxy encryptionKey conn ∧ KeyFrom host args encryptionKey ∧
        connectTo host (hostPort upstreamHost upstreamPort) encryptionKey = .ok conn ∧ host.upstreamCloned = .ok () := by
  unfold connectProxy
  refine ((does_parseEncryptionKey host args).bind fun encryptionKey key =>
    (does_perform (.connect _) _ fun conn connected => ⟨encryptionKey, conn, key, connected⟩).bind fun conn _ =>
    (does_call .cloneUpstream _ host.upstreamCloned fun _ => id).bind fun _ _ => does_pure _).congr ?_ fun service => ?_
  · simp
  · constructor
    · rintro ⟨encryptionKey, key, conn, connected, _, cloned, rfl⟩
      exact ⟨encryptionKey, conn, rfl, key, connected, cloned⟩
    · rintro ⟨encryptionKey, conn, rfl, key, connected, cloned⟩
      exact ⟨encryptionKey, key, conn, connected, (), cloned, rfl⟩

omit [IpLib] in
/-- With a text that is no upstream, the program stops when the ports are bound. -/
theorem does_upstream (host : Host) (args : Args) (upstream : String) :
    Does host args (check (parseUpstream upstream) >>= fun pair => connectProxy host args pair.1 pair.2)
      (upstreamPlan args upstream)
      fun service => ∃ pair, parseUpstream upstream = .ok pair ∧
        ∃ encryptionKey conn, service = .proxy encryptionKey conn ∧ KeyFrom host args encryptionKey ∧
          connectTo host (hostPort pair.1 pair.2) encryptionKey = .ok conn ∧ host.upstreamCloned = .ok () := by
  unfold upstreamPlan
  cases parseUpstream upstream with
  | error e => exact ((does_check (.error e)).stop (by simp) _).congr rfl fun service => by simp
  | ok pair =>
    refine ((does_check (.ok pair)).bind fun pair' same => ?_).congr (List.nil_append _) fun service => Iff.rfl
    cases same
    exact does_connectProxy host args pair.1 pair.2

theorem does_runProxyMulti (host : Host) (args : Args) (mode : args.mode = "proxy") :
    Does host args (runProxyMulti host args) (plan host args) (Accepts host args) := by
  unfold runProxyMulti
  cases given : args.upstream with
  | none =>
    refine (does_check _).congr ?_ fun service => ?_
    · simp [plan_proxy mode, given]
    · cases service <;> simp [Accepts, mode, given]
  | some upstream =>
    unfold startProxy
    refine ((does_setHandler host args).bind fun _ _ => (does_bindMasterPort host args).bind fun _ _ =>
      (does_bindSlaves host args).bind fun _ _ => does_upstream host args upstream).congr ?_ fun service => ?_
    · simp [plan_proxy mode, given, proxyPlan]
    · cases service with
      | proxy encryptionKey conn =>
        constructor
        · rintro ⟨_, handled, _, bound, _, slaves, pair, parsed, _, _, same, key, connected, cloned⟩
          cases same
          exact ⟨mode, handled, bound, slaves, key, cloned, upstream, pair.1, pair.2, given, parsed, connected⟩
        · rintro ⟨-, handled, bound, slaves, key, cloned, upstream', upstreamHost, upstreamPort, given', parsed, connected⟩
          obtain rfl := Option.some.inj (given.symm.trans given')
          exact ⟨(), handled, (), bound, (), slaves, (upstreamHost, upstreamPort), parsed, _, _, rfl, key, connected, cloned⟩
      | single | multi => simp [Accepts, mode]

theorem does_runMode (host : Host) (args : Args) :
    Does host args (runMode host args) (plan host args) (Accepts host args) := by
  unfold runMode
  split
  · rename_i mode
    exact does_runProxyMulti host args mode
  · rename_i mode
    split
    · rename_i slavePort given
      exact does_runServeMulti host args slavePort mode given
    · rename_i given
      exact does_runServeSingle host args mode given
  · rename_i proxy serve
    refine (does_check _).congr ?_ fun service => ?_
    · rw [plan, if_neg proxy, if_neg serve]
    · cases service with
      | single | multi =>
        constructor
        · intro wrong
          cases wrong
        · intro accepted
          exact absurd accepted.1 serve
      | proxy =>
        constructor
        · intro wrong
          cases wrong
        · intro accepted
          exact absurd accepted.1 proxy

theorem does_main (host : Host) (args : Args) :
    Does host args (main host args) (plan host args) fun service => InRange args ∧ Accepts host args service := by
  unfold main
  refine ((does_check (validateArgs args)).bind fun _ _ => does_runMode host args).congr (List.nil_append _) fun service => ?_
  rw [← validateArgs_ok]
  constructor
  · rintro ⟨_, valid, accepted⟩
    exact ⟨valid, accepted⟩
  · rintro ⟨valid, accepted⟩
    exact ⟨(), valid, accepted⟩

/-- For a client that is not on the whitelist, `serve` does not get as far as the device. -/
theorem does_refuse {host : Host} {args : Args} {clientIp : String} (mode : args.mode = "serve") (given : args.slavePort = none)
    (accepted : host.accepted = .ok clientIp) (refused : checkWhitelist clientIp args.whitelist ≠ .ok ()) :
    Does host args (main host args) (masterPlan host args ++ [.accept]) fun _ => False := by
  have single : Does host args (runServeSingle host args) (masterPlan host args ++ [.accept]) fun _ => False := by
    unfold runServeSingle
    refine ((does_bindMasterPort host args).bind fun _ _ =>
      (does_call .accept _ host.accepted fun ip found => ⟨ip, found⟩).bind fun ip found =>
      (does_check (checkWhitelist ip args.whitelist)).stop (fun _ listed => ?_) _).congr ?_ fun service => ?_
    · cases found.symm.trans accepted
      exact refused listed
    · simp
    · simp
  have runs : runMode host args = runServeSingle host args := by simp [runMode, mode, given]
  unfold main
  refine ((does_check (validateArgs args)).bind fun _ _ => runs ▸ single).congr (List.nil_append _) fun service => ?_
  simp

/-- **How the program starts.** For every command line and whatever the outside world answers: a mode starts
exactly when the arguments are in their ranges and everything that it needs succeeds, with the key that
was given, of 32 bytes, and, for a proxy, connected to the host and port of its upstream; `serve` without
a slave port has no key, whatever was given. What is touched outside is the mode's plan when it starts,
and otherwise a first part of it, with nothing after a call that fails: nothing at all for arguments that
are not in their ranges, and not the device for a client that is not on the whitelist. -/
theorem startup_spec (host : Host) (args : Args) :
    ∃ result touched, (main host args).run [] = (result, touched) ∧
      (∀ service, result = .ok service ↔ InRange args ∧ Accepts host args service) ∧
      touched <+: plan host args ∧ (∀ e ∈ touched.dropLast, Works host args e) ∧
      (∀ service, result = .ok service → touched = plan host args) ∧
      (¬InRange args → touched = []) ∧
      (∀ clientIp, args.mode = "serve" → args.slavePort = none → host.accepted = .ok clientIp →
        checkWhitelist clientIp args.whitelist ≠ .ok () → touched <+: masterPlan host args ++ [.accept]) := by
  have does := does_main host args
  refine ⟨((main host args).run []).1, ((main host args).run []).2, rfl, does.result, does.touched.1, does.touched.2,
    fun service started => does.touched_all started, ?_, ?_⟩
  · intro out
    rw [← validateArgs_ok] at out
    have nothing := ((does_check (validateArgs args)).stop (fun _ valid => out valid) fun _ => runMode host args :
      Does host args (main host args) [] _).touched
    exact List.prefix_nil.1 nothing.1
  · intro clientIp mode given accepted refused
    exact (does_refuse mode given accepted refused).touched.1

end

end RtlTcp.Startup
