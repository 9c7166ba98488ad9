import RtlTcp.Main.ServeMulti
import RtlTcp.Proxy

/-!
# Samples over an encrypted chain

A server in `run_serve_multi` and a proxy in `run_proxy_multi` share a key. The server's writer
encrypts its samples; the proxy's reader thread broadcasts what it reads, without its cipher.
`chain_iq_iff` says when the samples arrive nevertheless.

The bytes on the server's socket are samples or others: the magic packet, acknowledgements and
nonces. `Chained` says how many of the others are there at each point of the first session.
-/

namespace RtlTcp
set_option autoImplicit false
open ByteIo Transition Keystream

/-- How many bytes of a log are no samples. -/
def otherCount (log : SocketLog) : Nat := log.countP (·.1 ≠ .iq)

/-- The samples of a log. -/
def iqBytes (log : SocketLog) : List UInt8 := (log.filter (·.1 = .iq)).map Prod.snd

@[simp] theorem otherCount_append (log more : SocketLog) : otherCount (log ++ more) = otherCount log + otherCount more :=
  List.countP_append

@[simp] theorem iqBytes_append (log more : SocketLog) : iqBytes (log ++ more) = iqBytes log ++ iqBytes more := by
  simp [iqBytes]

@[simp] theorem otherCount_iq (bytes : List UInt8) : otherCount (tagged .iq bytes) = 0 := by
  simp [otherCount, tagged]

@[simp] theorem iqBytes_iq (bytes : List UInt8) : iqBytes (tagged .iq bytes) = bytes := by
  rw [iqBytes, List.filter_eq_self.2 fun b member => by simp [origin_of_tagged member], tagged, List.map_map]
  exact List.map_id bytes

/-- A log of samples only. -/
theorem eq_tagged_iq {log : SocketLog} (samples : ∀ b ∈ log, b.1 = .iq) : log = tagged .iq (iqBytes log) := by
  rw [iqBytes, List.filter_eq_self.2 (by simpa using samples), tagged, List.map_map]
  conv_lhs => rw [← List.map_id log]
  apply List.map_congr_left
  intro b member
  exact Prod.ext (samples b member) rfl

theorem otherCount_other {log : SocketLog} (other : ∀ b ∈ log, b.1 ≠ .iq) : otherCount log = log.length := by
  rw [otherCount, List.countP_eq_length]
  intro b member
  simpa using other b member

theorem iqBytes_other {log : SocketLog} (other : ∀ b ∈ log, b.1 ≠ .iq) : iqBytes log = [] := by
  rw [iqBytes, List.map_eq_nil_iff, List.filter_eq_nil_iff]
  intro b member
  simpa using other b member

theorem other_of_tagged {origin : Origin} (other : origin ≠ .iq) (bytes : List UInt8) :
    ∀ b ∈ tagged origin bytes, b.1 ≠ .iq := by
  intro b member
  rwa [origin_of_tagged member]

/-- A byte is a sample or not. -/
theorem length_log (log : SocketLog) : log.length = otherCount log + (iqBytes log).length := by
  rw [otherCount, iqBytes, List.length_map, ← List.countP_eq_length_filter, Nat.add_comm]
  have := List.length_eq_countP_add_countP (fun b : Origin × UInt8 => decide (b.1 = .iq)) (l := log)
  simpa using this

/-- Behind a front of `n` others and no more there are only the samples. -/
theorem drop_eq_iqBytes {n : Nat} {log front later : SocketLog} (split : log = front ++ later)
    (other : ∀ b ∈ front, b.1 ≠ .iq) (long : n ≤ front.length) (count : otherCount log = n) :
    (log.map Prod.snd).drop n = iqBytes log := by
  subst split
  rw [otherCount_append, otherCount_other other] at count
  have all : otherCount later = 0 := by omega
  have samples : iqBytes later = later.map Prod.snd := by
    rw [iqBytes, List.filter_eq_self.2]
    intro b member
    have := List.countP_eq_zero.1 all b member
    simpa using this
  rw [iqBytes_append, iqBytes_other other, samples, List.map_append, List.drop_left' (by rw [List.length_map]; omega)]
  rfl

/-- **What is left behind `n` bytes is the plaintext exactly when these were the others, and the
samples are the plaintext.** -/
theorem drop_eq_iff {n : Nat} {log front later : SocketLog} {plain : List UInt8} (split : log = front ++ later)
    (other : ∀ b ∈ front, b.1 ≠ .iq) (long : n ≤ front.length) (size : (iqBytes log).length = plain.length) :
    (log.map Prod.snd).drop n = plain ↔ otherCount log = n ∧ iqBytes log = plain := by
  constructor
  · intro same
    have count : otherCount log = n := by
      have length := congrArg List.length same
      rw [List.length_drop, List.length_map, length_log, size] at length
      have bound : n ≤ log.length := by rw [split, List.length_append]; omega
      rw [length_log, size] at bound
      omega
    exact ⟨count, (drop_eq_iqBytes split other long count).symm.trans same⟩
  · rintro ⟨count, same⟩
    rw [drop_eq_iqBytes split other long count, same]

/-! ## The server's first session -/

/-- How many bytes, none of them samples, the control thread has seen sent at each point. -/
def ControlPoint.sent : ControlPoint → Nat
  | .reading | .acking | .ended => 12
  | .exchanging | .replying _ => 17
  | .storing .. => 29

/-- The state of the writer and of the socket. A running writer stands behind 29 bytes, and its
cipher has moved with what it wrote. -/
inductive WriterState [ChaCha] (key : Key) (m : Session) : Prop where
  | waiting {loop : WriteClientLoop} (writer : m.writer = .waiting loop) (nothing : loop.written = [])
      (point : loop.point ≠ .stopped) (unused : m.writerNonce = none) (other : ∀ b ∈ m.out, b.1 ≠ .iq)
  | running {cipher : ChaCha20} {loop : WriteClientLoop} {nonce : Nonce} {front later : SocketLog}
      (writer : m.writer = .running (some cipher) loop) (used : m.writerNonce = some nonce)
      (inStep : loop.point ≠ .stopped → cipher = ⟨key, nonce, loop.written.length⟩)
      (split : m.out = front ++ later) (other : ∀ b ∈ front, b.1 ≠ .iq) (long : 29 ≤ front.length)
      (samples : iqBytes m.out = xorAt (ChaCha.keystream key nonce) 0 loop.written)

/-- The invariant of the first session; `nonces` is the shared slot. -/
structure Chained [ChaCha] (key : Key) (nonces : Option (Nonce × Nonce)) (m : Session) : Prop where
  magic : 12 ≤ m.magicLeft.length + otherCount m.out
  control : ∀ c, m.control = some c → c.point.sent ≤ otherCount m.out
  stored : nonces ≠ none → 29 ≤ otherCount m.out
  writer : WriterState key m

/-- No `write` of a sample buffer is short: it accepts everything, or fails for good. -/
def WholeWrite : LoopPoint → Except ErrorKind Nat → Prop
  | .writing rest, .ok n => rest.length ≤ n
  | .writing _, .error e => e ≠ .interrupted
  | _, _ => True

/-- No write of the server's is short. -/
def WholeWrites (s : ServeMulti) : ServeAct → Prop
  | .writer i result =>
    match s.sessions[i]?.map Session.writer with
    | some (.running _ loop) => WholeWrite loop.point result
    | _ => True
  | .control _ env _ => env.ackSent = .ok () ∧ env.nonceSent = .ok ()
  | _ => True

instance (point : LoopPoint) (result : Except ErrorKind Nat) : Decidable (WholeWrite point result) := by
  unfold WholeWrite
  split <;> infer_instance

instance (s : ServeMulti) (a : ServeAct) : Decidable (WholeWrites s a) := by
  unfold WholeWrites
  split
  · split <;> infer_instance
  · infer_instance
  · infer_instance

section
variable [ChaCha]

/-- A whole write keeps the cipher in step with the samples. -/
theorem WriterThread.step_whole (tx : Broadcast.Channel (List UInt8)) (shouldExit : Bool) (key : Key) (nonce : Nonce)
    {loop : WriteClientLoop} {result : Except ErrorKind Nat} (whole : WholeWrite loop.point result)
    (on : loop.point ≠ .stopped) :
    ∃ cipher plain, WriterThread.step tx shouldExit (some ⟨key, nonce, loop.written.length⟩) loop result =
        (.running (some cipher) (loop.step tx shouldExit result),
          xorAt (ChaCha.keystream key nonce) loop.written.length plain) ∧
      (loop.step tx shouldExit result).written = loop.written ++ plain ∧
      ((loop.step tx shouldExit result).point ≠ .stopped →
        cipher = ⟨key, nonce, (loop.step tx shouldExit result).written.length⟩) := by
  obtain ⟨rx, point, written⟩ := loop
  cases point with
  | stopped => exact absurd rfl on
  | checkExit => exact ⟨_, [], rfl, by simp [WriteClientLoop.step], fun _ => rfl⟩
  | tryRecv =>
    have kept : (WriteClientLoop.step tx shouldExit ⟨rx, .tryRecv, written⟩ result).written = written := by
      simp only [WriteClientLoop.step]
      split <;> rfl
    exact ⟨_, [], rfl, by simp [kept], fun _ => by rw [kept]⟩
  | writing rest =>
    cases rest with
    | nil => exact ⟨_, [], by cases result <;> rfl, by simp [WriteClientLoop.step], fun _ => rfl⟩
    | cons b bs =>
      cases result with
      | error e =>
        have failed : WriteClientLoop.step tx shouldExit ⟨rx, .writing (b :: bs), written⟩ (.error e) =
            ⟨rx, .stopped, written⟩ := by
          simp only [WriteClientLoop.step]
          rw [if_neg whole]
        refine ⟨_, [], rfl, by simp [failed], fun still => ?_⟩
        rw [failed] at still
        exact absurd rfl still
      | ok n =>
        cases n with
        | zero => simp [WholeWrite] at whole
        | succ n =>
          have all : (b :: bs).take (n + 1) = b :: bs := List.take_of_length_le whole
          have accepted : (WriteClientLoop.step tx shouldExit ⟨rx, .writing (b :: bs), written⟩ (.ok (n + 1))).written =
              written ++ b :: bs := by simp only [WriteClientLoop.step, all]
          refine ⟨⟨key, nonce, written.length + (b :: bs).length⟩, b :: bs, ?_, accepted, fun _ => ?_⟩
          · simp only [WriterThread.step, WriterThread.offer, ChaCha20.applyKeystream, xorAt_take, all]
            rfl
          · rw [accepted, List.length_append]

/-- A step of the writer keeps its state, provided no write is short. -/
theorem WriterState.step {key : Key} {m : Session} {cipher : Option ChaCha20} {loop : WriteClientLoop}
    {tx : Broadcast.Channel (List UInt8)} {shouldExit : Bool} {result : Except ErrorKind Nat} (h : WriterState key m)
    (running : m.writer = .running cipher loop) (on : loop.point ≠ .stopped) (whole : WholeWrite loop.point result) :
    let next := WriterThread.step tx shouldExit cipher loop result
    WriterState key { m with writer := next.1, out := m.out ++ tagged .iq next.2 } := by
  cases h with
  | waiting writer => rw [writer] at running; cases running
  | @running cipher' loop' nonce front later writer used inStep split other long samples =>
    rw [writer] at running
    cases running
    obtain ⟨cipher', plain, taken, written, inStep'⟩ := WriterThread.step_whole tx shouldExit key nonce whole on
    rw [inStep on, taken]
    refine .running rfl used inStep' (by rw [split, List.append_assoc]) other long ?_
    rw [iqBytes_append, iqBytes_iq, samples, written, xorAt_append, Nat.zero_add]

/-- Bytes of another thread behind what is there. -/
theorem WriterState.other {key : Key} {m m' : Session} {x : SocketLog} (h : WriterState key m)
    (foreign : ∀ b ∈ x, b.1 ≠ .iq) (writer : m'.writer = m.writer) (nonce : m'.writerNonce = m.writerNonce)
    (out : m'.out = m.out ++ x) : WriterState key m' := by
  cases h with
  | waiting waiting nothing point unused other =>
    refine .waiting (writer.trans waiting) nothing point (nonce.trans unused) fun b member => ?_
    rw [out] at member
    exact (List.mem_append.1 member).elim (other b) (foreign b)
  | running running used inStep split other long samples =>
    refine .running (writer.trans running) (nonce.trans used) inStep (by rw [out, split, List.append_assoc]) other long ?_
    rw [out, iqBytes_append, iqBytes_other foreign, List.append_nil, samples]

omit [ChaCha] in
theorem ControlThread.output_other (c : ControlThread) (env : Env) (partly : Nat) :
    ∀ b ∈ c.output env partly, b.1 ≠ .iq := by
  unfold ControlThread.output
  split
  · exact other_of_tagged (by simp) _
  · exact other_of_tagged (by simp) _
  · simp

/-- Between two points, the control thread sends what the second presupposes. -/
theorem ControlThread.sent_step (key : Key) (c : ControlThread) {env : Env} (ack : env.ackSent = .ok ())
    (nonce : env.nonceSent = .ok ()) (partly : Nat) :
    (c.step (some key) env).point.sent ≤ c.point.sent + otherCount (c.output env partly) := by
  rw [otherCount_other (c.output_other env partly)]
  obtain ⟨point, thread⟩ := c
  cases point with
  | reading =>
    have same : (ControlThread.step (some key) ⟨.reading, thread⟩ env).point.sent = 12 := by
      simp only [ControlThread.step, ControlThread.readCommand]
      split
      · split
        · rfl
        · split
          · rfl
          · split <;> rfl
      · split <;> rfl
    rw [same]
    exact Nat.le_add_right ..
  | acking => simp [ControlThread.step, ControlThread.output, ControlPoint.sent, delivered, ack, tagged, chainDetectAck]
  | exchanging =>
    simp only [ControlThread.step]
    split <;> simp only [ControlPoint.sent] <;> omega
  | replying peerNonce =>
    simp [ControlThread.step, ControlThread.output, ControlPoint.sent, delivered, nonce, tagged]
  | storing myNonce peerNonce => simp only [ControlThread.step, ControlPoint.sent]; omega
  | ended => simp [ControlThread.step, ControlPoint.sent]

/-- A step of the control thread; nonces are in the slot only after they were sent. -/
theorem Chained.controlStep {key : Key} {nonces nonces' : Option (Nonce × Nonce)} {m m' : Session} {c : ControlThread}
    {env : Env} {partly : Nat} (h : Chained key nonces m) (spawned : m.control = some c) (ack : env.ackSent = .ok ())
    (nonce : env.nonceSent = .ok ())
    (slot : nonces' ≠ none → nonces ≠ none ∨ ∃ myNonce peerNonce, c.point = .storing myNonce peerNonce)
    (magic : m'.magicLeft = m.magicLeft) (control : m'.control = some (c.step (some key) env))
    (writer : m'.writer = m.writer) (used : m'.writerNonce = m.writerNonce) (out : m'.out = m.out ++ c.output env partly) :
    Chained key nonces' m' := by
  have sent := h.control c spawned
  have more : otherCount m'.out = otherCount m.out + otherCount (c.output env partly) := by rw [out, otherCount_append]
  refine ⟨?_, fun c' spawned' => ?_, fun found => ?_, h.writer.other (c.output_other env partly) writer used out⟩
  · have packet := h.magic
    rw [magic, more]
    omega
  · rw [control] at spawned'
    cases spawned'
    have next := c.sent_step key ack nonce partly
    omega
  · rcases slot found with before | ⟨myNonce, peerNonce, storing⟩
    · have already := h.stored before
      omega
    · rw [storing] at sent
      simp only [ControlPoint.sent] at sent
      omega

namespace ServeMulti

/-- The invariant of a run up to its second session. -/
structure FirstSession (key : Key) (s : ServeMulti) : Prop where
  none : s.sessions = [] → s.nonces = none
  one : ∀ m, s.sessions = [m] → Chained key s.nonces m

/-- A changed session is the only one exactly when the old one was. -/
theorem FirstSession.setSession {key : Key} {s s' : ServeMulti} {i : Nat} {m m' : Session} (inv : FirstSession key s)
    (there : s.sessions[i]? = some m) (sessions : s'.sessions = s.sessions.set i m')
    (next : Chained key s.nonces m → Chained key s'.nonces m') : FirstSession key s' := by
  have bound := (List.getElem?_eq_some_iff.1 there).1
  refine ⟨fun empty => ?_, fun x single => ?_⟩
  · rw [sessions, List.set_eq_nil_iff] at empty
    rw [empty] at bound
    cases bound
  · rw [sessions] at single
    have size := congrArg List.length single
    rw [List.length_set] at size
    obtain ⟨y, only⟩ := List.length_eq_one_iff.1 size
    have zero : i = 0 := by rw [only] at bound; simpa using bound
    subst zero
    rw [only] at there single
    cases there
    cases single
    exact next (inv.one m only)

theorem FirstSession.accept {key : Key} {s : ServeMulti} (inv : FirstSession key s) (main : MainPoint)
    (inbound : List Arrival) :
    FirstSession key { s with main := main, sessions := s.sessions ++ [newSession (some key) s.tx inbound] } := by
  refine ⟨fun empty => by simp at empty, fun m single => ?_⟩
  have fresh : s.sessions = [] := by
    cases sessions : s.sessions with
    | nil => rfl
    | cons m' later => rw [sessions] at single; simp at single
  rw [fresh] at single
  cases single
  refine ⟨by simp [newSession], (fun c spawned => nomatch spawned), fun found => absurd (inv.none fresh) found, ?_⟩
  exact .waiting rfl rfl (by simp [WriteClientLoop.start]) rfl (by simp [newSession])

theorem FirstSession.magicWrote {key : Key} {s : ServeMulti} {i : Nat} {m : Session} {b : UInt8} {bs : List UInt8} (n : Nat)
    (inv : FirstSession key s) (there : s.sessions[i]? = some m) (left : m.magicLeft = b :: bs) :
    FirstSession key (s.setSession i
      { m with magicLeft := bs.drop n, out := m.out ++ tagged .magic ((b :: bs).take (n + 1)) }) := by
  have foreign := other_of_tagged (show Origin.magic ≠ .iq by simp) ((b :: bs).take (n + 1))
  refine inv.setSession there rfl fun h => ⟨?_, fun c spawned => ?_, fun found => ?_, h.writer.other foreign rfl rfl rfl⟩
  · have packet := h.magic
    rw [left] at packet
    rw [otherCount_append, otherCount_other foreign, length_tagged, List.length_take, List.length_drop]
    simp only [List.length_cons] at packet ⊢
    omega
  · rw [otherCount_append]
    exact Nat.le_add_right_of_le (h.control c spawned)
  · rw [otherCount_append]
    exact Nat.le_add_right_of_le (h.stored found)

theorem FirstSession.took {key : Key} {s s' : ServeMulti} {i : Nat} {m m' : Session} {loop : WriteClientLoop}
    {myNonce peerNonce : Nonce} (inv : FirstSession key s) (there : s.sessions[i]? = some m)
    (waiting : m.writer = .waiting loop) (found : s.nonces = some (myNonce, peerNonce))
    (set : s'.sessions = s.sessions.set i m') (kept : s'.nonces = s.nonces)
    (started : m' = { m with writer := .running (some (.new key myNonce)) loop, writerNonce := some myNonce }) :
    FirstSession key s' := by
  refine inv.setSession there set fun h => ?_
  rw [kept]
  subst started
  refine ⟨h.magic, h.control, h.stored, ?_⟩
  cases h.writer with
  | running running => rw [waiting] at running; cases running
  | waiting writer nothing point unused other =>
    rw [waiting] at writer
    cases writer
    -- the nonces are there, so the handshake is on the socket
    have long := h.stored (by simp [found])
    rw [otherCount_other other] at long
    refine .running rfl rfl (fun _ => by simp [nothing, ChaCha20.new]) (List.append_nil _).symm other long ?_
    rw [iqBytes_other other, nothing, xorAt_nil]

/-- The invariant is kept by every step whose writes are not short. -/
theorem FirstSession.step {key : Key} {s s' : ServeMulti} {a : ServeAct} (inv : FirstSession key s)
    (whole : WholeWrites s a) (taken : s.step (some key) a = some s') : FirstSession key s' := by
  cases step_cases taken with
  | send | setExit | magicFailed | join => exact ⟨inv.none, inv.one⟩
  | magicInterrupted | looked => exact inv
  | accept inbound => exact inv.accept _ inbound
  | magicWrote n there left => exact inv.magicWrote n there left
  | spawnControl now again there sent unspawned =>
    refine inv.setSession there rfl fun h => ⟨h.magic, fun c spawned => ?_, h.stored, h.writer.other (x := []) ?_ rfl rfl ?_⟩
    · cases spawned
      have packet := h.magic
      rw [sent] at packet
      simpa [ControlPoint.sent] using packet
    · simp
    · simp
  | took result there waiting free found => exact inv.took there waiting found rfl rfl rfl
  | wrote result there running on next =>
    simp only [WholeWrites, there, Option.map_some, running] at whole
    obtain ⟨rfl, rfl⟩ := Prod.mk.inj (next.symm.trans Prod.mk.eta.symm)
    refine inv.setSession there rfl fun h => ⟨?_, fun c spawned => ?_, fun found => ?_, ?_⟩
    · simpa using h.magic
    · simpa using h.control c spawned
    · simpa using h.stored found
    · exact h.writer.step running on whole
  | @replied i m c peerNonce env' env partly now there spawned =>
    obtain ⟨ack, nonce⟩ : env'.ackSent = .ok () ∧ env'.nonceSent = .ok () := now ▸ whole
    exact inv.setSession there rfl fun h => h.controlStep spawned ack nonce .inl rfl rfl rfl rfl rfl
  | @stored i m c myNonce peerNonce env' env partly now there spawned point =>
    obtain ⟨ack, nonce⟩ : env'.ackSent = .ok () ∧ env'.nonceSent = .ok () := now ▸ whole
    exact inv.setSession there rfl fun h =>
      h.controlStep spawned ack nonce (fun _ => .inr ⟨myNonce, peerNonce, point⟩) rfl rfl rfl rfl rfl
  | @controlled i m c env' env partly now there spawned =>
    obtain ⟨ack, nonce⟩ : env'.ackSent = .ok () ∧ env'.nonceSent = .ok () := now ▸ whole
    exact inv.setSession there rfl fun h => h.controlStep spawned ack nonce .inl rfl rfl rfl rfl rfl

theorem firstSession_start (key : Key) (capacity : Nat) : FirstSession key (start capacity) :=
  ⟨fun _ => rfl, fun m single => by simp [start] at single⟩

end ServeMulti

/-! ## From the server's writer to the proxy's broadcast -/

/-- **Samples over an encrypted chain.** For every run of a server up to its second master, with
no short writes, and every proxy with the same key that has connected to its first session,
found a chain and exchanged nonces: once the proxy has read everything, it has broadcast exactly
the plaintext of the server's writer if and only if the server has sent one acknowledgement and
one nonce only, and the keystream is zero wherever the writer has used it. -/
theorem chain_iq_iff (key : Key) (capacity : Nat) (acts : List ServeAct) (s : ServeMulti) (m : Session)
    (reached : run (ServeMulti.step (some key)) (ServeMulti.start capacity) acts = some s)
    (whole : Along (ServeMulti.step (some key)) WholeWrites (ServeMulti.start capacity) acts) (first : s.sessions = [m])
    (env : ConnectEnv) (p : List Slot) (arrivals : List Arrival) (follows : Follows p arrivals)
    (sends : bytesOf arrivals = m.out.map Prod.snd) (conn : UpstreamConnection)
    (connected : connectUpstream (some key) env arrivals = .ok conn) (chain : conn.isChain = true)
    (answers : List ReaderEnv) (running : ∀ e ∈ answers, e.shouldExit = false)
    (enough : arrivals.length ≤ answers.length) :
    (loop UpstreamReader.turn (.start conn.stream.inbound) answers).broadcast.flatten = m.writer.written ↔
      otherCount m.out = 29 ∧ ∀ nonce, m.writerNonce = some nonce →
        ∀ i, i < m.writer.written.length → ChaCha.keystream key nonce i = 0 := by
  have inv : ServeMulti.FirstSession key s :=
    run_along (fun s a s' inv whole taken => inv.step whole taken) (ServeMulti.firstSession_start key capacity) whole reached
  obtain ⟨suffix, ack, peerNonce, parts⟩ := connectUpstream_chain connected chain
  obtain ⟨q, follows'⟩ := follows.suffix suffix
  rw [UpstreamReader.broadcast_drained running follows' (Nat.le_trans suffix.length_le enough)]
  -- the proxy has taken 29 bytes off the stream
  have long : 29 ≤ m.out.length := by
    have size := congrArg List.length (sends.symm.trans parts)
    simp only [List.length_map, List.length_append, List.Vector.toList_length] at size
    omega
  have left : bytesOf conn.stream.inbound = (m.out.map Prod.snd).drop 29 := by
    rw [← sends, parts, ← List.append_assoc, ← List.append_assoc, List.drop_left' (by simp)]
  rw [left]
  cases (inv.one m first).writer with
  | waiting writer nothing point unused other =>
    have written : m.writer.written = [] := by rw [writer]; exact nothing
    rw [drop_eq_iff (List.append_nil _).symm other long (by rw [iqBytes_other other, written])]
    simp [iqBytes_other other, written]
  | @running cipher loop nonce front later writer used inStep split other behind samples =>
    have written : m.writer.written = loop.written := by rw [writer]; rfl
    rw [drop_eq_iff split other behind (by rw [samples, length_xorAt, written]), samples, written, xorAt_eq_self_iff, used]
    simp

end

/-- A proxy connects and shakes hands, and the server's writer sends it a buffer. -/
def chainActs : List ServeAct :=
  let client : List Arrival := (probe ++ List.replicate 12 7).map .byte
  let env : Env := MasterControl.calmEnv 0
  [.accept client, .magic (.ok 12), .spawnControl 0 0, .control 0 env 0, .control 0 env 0, .control 0 env 0,
    .control 0 env 0, .control 0 env 0, .writer 0 (.ok 0), .send [1, 2], .writer 0 (.ok 0), .writer 0 (.ok 0),
    .writer 0 (.ok 2)]

/-- What is on the server's socket after that. -/
def chainBytes : List UInt8 := magicPacket.toList ++ chainDetectAck ++ zeroNonce.toList ++ [0x77, 0xba]

theorem run_chainActs :
    letI := zeroChaCha
    ∃ s m, run (ServeMulti.step (some zeroKey)) (ServeMulti.start defaultBroadcastCapacity) chainActs = some s ∧
      s.sessions = [m] ∧ m.out.map Prod.snd = chainBytes ∧ m.writer.written = [1, 2] ∧ m.writerNonce = some zeroNonce := by
  let _ := zeroChaCha
  have sessions : (run (ServeMulti.step (some zeroKey)) (ServeMulti.start defaultBroadcastCapacity) chainActs).map
      (fun s => s.sessions.map fun m => (m.out.map Prod.snd, m.writer.written, m.writerNonce)) =
        some [(chainBytes, [1, 2], some zeroNonce)] := by decide
  obtain ⟨s, reached, facts⟩ := Option.map_eq_some_iff.1 sessions
  obtain ⟨m, first, facts⟩ := List.map_eq_singleton_iff.1 facts
  obtain ⟨out, facts⟩ := Prod.mk.inj facts
  obtain ⟨written, nonce⟩ := Prod.mk.inj facts
  exact ⟨s, m, reached, first, out, written, nonce⟩

theorem whole_chainActs :
    letI := zeroChaCha
    Along (ServeMulti.step (some zeroKey)) WholeWrites (ServeMulti.start defaultBroadcastCapacity) chainActs := by
  let _ := zeroChaCha
  decide

/-- The theorem at this run: the first keystream byte is not zero. -/
theorem chain_iq_two_samples :
    letI := zeroChaCha
    ∃ s m conn, run (ServeMulti.step (some zeroKey)) (ServeMulti.start defaultBroadcastCapacity) chainActs = some s ∧
      s.sessions = [m] ∧ connectUpstream (some zeroKey) calmConnect (chainBytes.map .byte) = .ok conn ∧
      conn.isChain = true ∧
      (loop UpstreamReader.turn (.start conn.stream.inbound) (List.replicate 31 ⟨false, 0⟩)).broadcast.flatten ≠
        m.writer.written := by
  let _ := zeroChaCha
  obtain ⟨s, m, reached, first, out, written, nonce⟩ := run_chainActs
  refine ⟨s, m, _, reached, first, rfl, rfl, fun same => ?_⟩
  have condition := (chain_iq_iff zeroKey _ chainActs s m reached whole_chainActs first calmConnect _
    (chainBytes.map .byte) (follows_bytes chainBytes) (by rw [out]; rfl) _ rfl rfl _ (by decide) (by decide)).1 same
  have zero := condition.2 zeroNonce nonce 0 (by rw [written]; decide)
  revert zero
  decide

/-- The proxy broadcasts the ciphertext. -/
theorem ciphertext_broadcast :
    letI := zeroChaCha
    ∃ s m conn, run (ServeMulti.step (some zeroKey)) (ServeMulti.start defaultBroadcastCapacity) chainActs = some s ∧
      Along (ServeMulti.step (some zeroKey)) WholeWrites (ServeMulti.start defaultBroadcastCapacity) chainActs ∧
      s.sessions = [m] ∧ m.writer.written = [1, 2] ∧ m.out.map Prod.snd = chainBytes ∧
      connectUpstream (some zeroKey) calmConnect (chainBytes.map .byte) = .ok conn ∧ conn.isChain = true ∧
      (loop UpstreamReader.turn (.start conn.stream.inbound) (List.replicate 31 ⟨false, 9⟩)).broadcast = [[0x77, 0xba]] ∧
      [[0x77, 0xba]].flatten ≠ m.writer.written := by
  let _ := zeroChaCha
  obtain ⟨s, m, reached, first, out, written, -⟩ := run_chainActs
  refine ⟨s, m, _, reached, whole_chainActs, first, written, out, rfl, rfl, rfl, ?_⟩
  rw [written]
  decide

end RtlTcp
