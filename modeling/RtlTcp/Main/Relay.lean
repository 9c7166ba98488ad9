import Mathlib.Data.List.Flatten
import Mathlib.Data.List.Infix
import RtlTcp.Proxy
import RtlTcp.Main.Admission
import RtlTcp.Main.Chain

/-!
# `run_proxy_multi`: the samples on their way through a proxy

`Relay` puts the upstream reader thread in front of the clients of a proxy: what it broadcasts is
what the writers of masters and slaves receive. `relay_spec` says what each client's socket gets of
the upstream connection, and `Proxies.passes_on` what a client that has got the magic packet first has of the
bytes that the upstream has sent, the handshake included.
-/

namespace RtlTcp
set_option autoImplicit false
open ByteIo Transition Broadcast

/-- The upstream reader, whether its thread still runs, and the clients with the channel and the exit
flag. -/
structure Relay where
  reader : UpstreamReader
  reading : Bool
  clients : Admission

/-- What can happen next: an iteration of the reader, the exit flag, a new master or slave, or a step of
the admitting thread or of the writer of client `i`. The control threads write nothing to
their masters. -/
inductive RelayAct where
  | read (most : Nat)
  | setExit
  | master
  | slave
  | main (i : Nat) (result : Except ErrorKind Nat)
  | writer (i : Nat) (result : Except ErrorKind Nat)

namespace Relay

/-- The proxy when it has its upstream connection. -/
def start (capacity : Nat) (conn : UpstreamConnection) : Relay := ⟨.start conn.stream.inbound, true, .start capacity⟩

/-- An iteration of the reader thread; it sends what it has read. -/
def read (s : Relay) (most : Nat) : Relay :=
  let (flow, reader) := s.reader.turn ⟨s.clients.shouldExit, most⟩
  { reader := reader
    reading := flow == .again
    clients := { s.clients with tx := (reader.broadcast.drop s.reader.broadcast.length).foldl Channel.send s.clients.tx } }

def step [ChaCha] (key : Option Key) (tcpBuffers : Nat) (magic : Bytes 12) (s : Relay) : RelayAct → Option Relay
  | .read most => if s.reading then some (s.read most) else none
  | .setExit => (s.clients.step key tcpBuffers magic .setExit).map ({ s with clients := · })
  | .master => (s.clients.step key tcpBuffers magic (.newClient .proxyMaster)).map ({ s with clients := · })
  | .slave => (s.clients.step key tcpBuffers magic (.newClient .slave)).map ({ s with clients := · })
  | .main i result => (s.clients.step key tcpBuffers magic (.main i result)).map ({ s with clients := · })
  | .writer i result => (s.clients.step key tcpBuffers magic (.writer i result)).map ({ s with clients := · })

end Relay

/-! ## One client -/

theorem WriteClientLoop.Faithful.sendAll {sent : List (List UInt8)} {w : WriteClientLoop} (h : w.Faithful sent)
    (more : List (List UInt8)) : w.Faithful (sent ++ more) := by
  induction more generalizing sent with
  | nil =>
    rw [List.append_nil]
    exact h
  | cons buf more ih =>
    have next : w.Faithful (sent ++ [buf]) :=
      WriteClientLoop.Faithful.send (show w.Faithful (Channel.mk 0 sent false).sent from h) buf
    have split : sent ++ buf :: more = sent ++ [buf] ++ more := by simp
    rw [split]
    exact ih next

theorem tagged_append (origin : Origin) (bytes more : List UInt8) :
    tagged origin (bytes ++ more) = tagged origin bytes ++ tagged origin more :=
  List.map_append

/-- Without a cipher, the socket accepts what the loop counts as written. -/
theorem WriterThread.step_plain [ChaCha] {tx : Channel (List UInt8)} {shouldExit : Bool} {loop : WriteClientLoop}
    {result : Except ErrorKind Nat} {writer : WriterThread} {accepted : List UInt8}
    (taken : step tx shouldExit none loop result = (writer, accepted)) :
    writer = .running none (loop.step tx shouldExit result) ∧
      (loop.step tx shouldExit result).written = loop.written ++ accepted := by
  obtain ⟨rx, point, written⟩ := loop
  cases point with
  | checkExit | stopped =>
    cases taken
    exact ⟨rfl, (List.append_nil _).symm⟩
  | tryRecv =>
    cases taken
    refine ⟨rfl, ?_⟩
    simp only [WriteClientLoop.step]
    split <;> exact (List.append_nil _).symm
  | writing rest =>
    cases rest with
    | nil =>
      cases taken
      exact ⟨rfl, (List.append_nil _).symm⟩
    | cons b bs =>
      cases result with
      | ok n =>
        cases taken
        cases n with
        | zero => exact ⟨rfl, (List.append_nil _).symm⟩
        | succ n => exact ⟨rfl, rfl⟩
      | error e =>
        cases taken
        refine ⟨rfl, ?_⟩
        simp only [WriteClientLoop.step]
        split <;> exact (List.append_nil _).symm

namespace Client

/-- Where the admission of a proxy's master is, and what its socket has. -/
inductive MasterStage (magic : Bytes 12) (sent : List (List UInt8)) (c : Client) : Prop where
  | sending (call : BufCall (Origin × UInt8)) (rest : List Op) (todo : c.todo = .call call .propagate :: rest)
      (later : rest = [.call .flush .propagate, .spawnWriter, .spawnControl] ∨
        call = .flush ∧ rest = [.spawnWriter, .spawnControl])
      (writer : c.writer = .notSpawned) (around : call.Around c.bufw)
      (packet : c.out ++ (c.bufw.buf ++ call.bytes) = tagged .magic magic.toList)
  | gaveUp (todo : c.todo = [.dropBuffer] ∨ c.todo = []) (writer : c.writer = .notSpawned)
      (packet : c.out ++ c.bufw.buf <+: tagged .magic magic.toList)
  | flushed (todo : c.todo = [.spawnWriter, .spawnControl]) (writer : c.writer = .notSpawned)
      (out : c.out = tagged .magic magic.toList)
  | running (loop : WriteClientLoop) (todo : c.todo = [.spawnControl] ∨ c.todo = []) (writer : c.writer = .running none loop)
      (faithful : loop.Faithful sent) (out : c.out = tagged .magic magic.toList ++ tagged .iq loop.written)

/-- The same for a slave. When the packet could not be sent, what the `BufWriter` has of it comes later, or
never. -/
inductive SlaveStage (magic : Bytes 12) (sent : List (List UInt8)) (c : Client) : Prop where
  | sending (call : BufCall (Origin × UInt8)) (rest : List Op) (todo : c.todo = .call call .ignore :: rest)
      (later : rest = [.dropBuffer, .spawnWriter, .dropBuffer] ∨ rest = [.spawnWriter, .dropBuffer])
      (writer : c.writer = .notSpawned) (around : call.Around c.bufw)
      (packet : c.out ++ (c.bufw.buf ++ call.bytes) <+: tagged .magic magic.toList)
  | sent (todo : c.todo = [.spawnWriter, .dropBuffer]) (writer : c.writer = .notSpawned)
      (packet : c.out ++ c.bufw.buf <+: tagged .magic magic.toList)
  | running (loop : WriteClientLoop) (todo : c.todo = [.dropBuffer] ∨ c.todo = []) (writer : c.writer = .running none loop)
      (faithful : loop.Faithful sent) (samples : iqBytes c.out = loop.written)
      (packet : c.out.filter (·.1 ≠ .iq) ++ c.bufw.buf <+: tagged .magic magic.toList)

/-- A client of a proxy. -/
def RelayStage (magic : Bytes 12) (sent : List (List UInt8)) (c : Client) : Prop :=
  c.mode = .proxyMaster ∧ c.MasterStage magic sent ∨ c.mode = .slave ∧ c.SlaveStage magic sent

variable {magic : Bytes 12} {sent : List (List UInt8)} {c c' : Client}

theorem masterStage_new (tcpBuffers : Nat) (sent : List (List UInt8)) :
    (new tcpBuffers magic .proxyMaster).MasterStage magic sent :=
  .sending _ _ rfl (.inl rfl) rfl trivial rfl

theorem slaveStage_new (tcpBuffers : Nat) (sent : List (List UInt8)) : (new tcpBuffers magic .slave).SlaveStage magic sent :=
  .sending _ _ rfl (.inl rfl) rfl trivial List.prefix_rfl

theorem MasterStage.send (stage : c.MasterStage magic sent) (more : List (List UInt8)) : c.MasterStage magic (sent ++ more) := by
  cases stage with
  | sending call rest todo later writer around packet => exact .sending call rest todo later writer around packet
  | gaveUp todo writer packet => exact .gaveUp todo writer packet
  | flushed todo writer out => exact .flushed todo writer out
  | running loop todo writer faithful out => exact .running loop todo writer (faithful.sendAll more) out

theorem SlaveStage.send (stage : c.SlaveStage magic sent) (more : List (List UInt8)) : c.SlaveStage magic (sent ++ more) := by
  cases stage with
  | sending call rest todo later writer around packet => exact .sending call rest todo later writer around packet
  | sent todo writer packet => exact .sent todo writer packet
  | running loop todo writer faithful samples packet => exact .running loop todo writer (faithful.sendAll more) samples packet

/-- A step of a call leaves on the socket and in the buffer what was there and in the call, or the first part of it. -/
theorem Called.front {call : BufCall (Origin × UInt8)} {onError : OnError} {todo : List Op} {log : SocketLog}
    (called : Called c call onError todo c') (packet : c.out ++ (c.bufw.buf ++ call.bytes) <+: log) :
    c'.out ++ c'.bufw.buf <+: log := by
  rw [← List.append_assoc] at packet
  cases called with
  | running next x on around out kept flush =>
    rw [List.append_assoc, ← kept, ← List.append_assoc, ← List.append_assoc, ← out] at packet
    exact (List.prefix_append ..).trans packet
  | done x on out kept flushed =>
    rw [List.append_assoc, ← kept, ← List.append_assoc, ← out] at packet
    exact packet
  | failed on out same =>
    rw [out, same]
    exact (List.prefix_append ..).trans packet

theorem MasterStage.mainStep {key : Option Key} {tx : Channel (List UInt8)} {result : Except ErrorKind Nat}
    (stage : c.MasterStage magic tx.sent) (mode : c.mode = .proxyMaster) (taken : c.mainStep key tx result = some c') :
    c'.MasterStage magic tx.sent := by
  cases stage with
  | sending call rest todo later writer around packet =>
    simp only [Client.mainStep, todo] at taken
    cases taken
    have called := callStep_called _ around .propagate rest result
    have front := called.front ⟨[], (List.append_nil _).trans packet⟩
    cases called with
    | running next x on around out kept flush =>
      refine .sending next rest on ?_ writer around ?_
      · rcases later with one | ⟨two, last⟩
        · exact .inl one
        · exact .inr ⟨flush two, last⟩
      · rw [out, List.append_assoc, kept, packet]
    | done x on out kept flushed =>
      have whole : (c.callStep call .propagate rest result).out ++ (c.callStep call .propagate rest result).bufw.buf =
          tagged .magic magic.toList := by
        rw [out, List.append_assoc, kept, packet]
      rcases later with rfl | ⟨rfl, rfl⟩
      · exact .sending .flush _ on (.inr ⟨rfl, rfl⟩) writer trivial (by rwa [BufCall.bytes, List.append_nil])
      · rw [flushed rfl, List.append_nil] at whole
        exact .flushed on writer whole
    | failed on out same => exact .gaveUp (.inl on) writer front
  | gaveUp todo writer packet =>
    rcases todo with todo | todo
    · simp only [Client.mainStep, todo] at taken
      cases taken
      have whole : c.out ++ (c.bufw.buf ++ BufCall.flush.bytes) <+: tagged .magic magic.toList := by
        rwa [BufCall.bytes, List.append_nil]
      have called := callStep_called (c := c) .flush trivial .ignore [] result
      have front := called.front whole
      cases called with
      | running next x on around out kept flush =>
        obtain rfl := flush rfl
        exact .gaveUp (.inl on) writer front
      | done x on out kept flushed => exact .gaveUp (.inr on) writer front
      | failed on out same => exact .gaveUp (.inr on) writer front
    · simp only [Client.mainStep, todo] at taken
      cases taken
  | flushed todo writer out =>
    simp only [Client.mainStep, todo] at taken
    cases taken
    refine .running (.start tx) (.inl rfl) ?_ (WriteClientLoop.faithful_start tx) ?_
    · simp [mode]
    · exact out.trans (List.append_nil _).symm
  | running loop todo writer faithful out =>
    rcases todo with todo | todo
    · simp only [Client.mainStep, todo] at taken
      cases taken
      exact .running loop (.inr rfl) writer faithful out
    · simp only [Client.mainStep, todo] at taken
      cases taken

theorem SlaveStage.mainStep {key : Option Key} {tx : Channel (List UInt8)} {result : Except ErrorKind Nat}
    (stage : c.SlaveStage magic tx.sent) (mode : c.mode = .slave) (taken : c.mainStep key tx result = some c') :
    c'.SlaveStage magic tx.sent := by
  cases stage with
  | sending call rest todo later writer around packet =>
    simp only [Client.mainStep, todo] at taken
    cases taken
    have called := callStep_called _ around .ignore rest result
    have front := called.front packet
    have next : (c.callStep call .ignore rest result).todo = rest →
        (c.callStep call .ignore rest result).SlaveStage magic tx.sent := by
      intro on
      rcases later with rfl | rfl
      · exact .sending .flush _ on (.inr rfl) writer trivial (by rwa [BufCall.bytes, List.append_nil])
      · exact .sent on writer front
    cases called with
    | running next x on around out kept flush =>
      refine .sending next rest on later writer around ?_
      rw [out, List.append_assoc, kept]
      exact packet
    | done x on out kept flushed => exact next on
    | failed on out same => exact next on
  | sent todo writer packet =>
    simp only [Client.mainStep, todo] at taken
    cases taken
    have magicOnly : ∀ b ∈ c.out, b.1 ≠ .iq := by
      intro b member
      simp [origin_of_tagged (packet.subset (List.mem_append_left _ member))]
    refine .running (.start tx) (.inl rfl) ?_ (WriteClientLoop.faithful_start tx) (iqBytes_other magicOnly) ?_
    · simp [mode]
    · rw [List.filter_eq_self.2 fun b member => by simpa using magicOnly b member]
      exact packet
  | running loop todo writer faithful samples packet =>
    rcases todo with todo | todo
    · simp only [Client.mainStep, todo] at taken
      cases taken
      have ours : ∀ {x held : SocketLog}, x ++ held = c.bufw.buf → ∀ b ∈ x, b.1 ≠ .iq := by
        intro x held kept b member
        have inside := packet.subset (List.mem_append_right _ (kept ▸ List.mem_append_left _ member))
        simp [origin_of_tagged inside]
      have moves : ∀ {x held : SocketLog}, x ++ held = c.bufw.buf → iqBytes (c.out ++ x) = loop.written ∧
          (c.out ++ x).filter (·.1 ≠ .iq) ++ held <+: tagged .magic magic.toList := by
        intro x held kept
        have other := ours kept
        have all : x.filter (·.1 ≠ .iq) = x := List.filter_eq_self.2 fun b member => by simpa using other b member
        rw [iqBytes_append, iqBytes_other other, List.append_nil, List.filter_append, all, List.append_assoc, kept]
        exact ⟨samples, packet⟩
      cases callStep_called (c := c) .flush trivial .ignore [] result with
      | running next x on around out kept flush =>
        obtain rfl := flush rfl
        rw [BufCall.bytes, List.append_nil, List.append_nil] at kept
        obtain ⟨samples', packet'⟩ := moves kept
        exact .running loop (.inl on) writer faithful (by rwa [out]) (by rwa [out])
      | done x on out kept flushed =>
        rw [BufCall.bytes, List.append_nil] at kept
        obtain ⟨samples', packet'⟩ := moves kept
        exact .running loop (.inr on) writer faithful (by rwa [out]) (by rwa [out])
      | failed on out same => exact .running loop (.inr on) writer faithful (by rwa [out]) (by rwa [out, same])
    · simp only [Client.mainStep, todo] at taken
      cases taken

section
variable [ChaCha] {s : Admission} {result : Except ErrorKind Nat}

theorem writerStep_plain {loop : WriteClientLoop} (writer : c.writer = .running none loop)
    (taken : c.writerStep s result = some c') :
    ∃ accepted, c' = { c with
        writer := .running none (loop.step s.tx s.shouldExit result), out := c.out ++ tagged .iq accepted } ∧
      (loop.step s.tx s.shouldExit result).written = loop.written ++ accepted := by
  simp only [writerStep, writer] at taken
  match stepped : WriterThread.step s.tx s.shouldExit none loop result with
  | (next, accepted) =>
    rw [stepped] at taken
    cases taken
    obtain ⟨rfl, written⟩ := WriterThread.step_plain stepped
    exact ⟨accepted, rfl, written⟩

theorem MasterStage.writerStep (stage : c.MasterStage magic s.tx.sent) (taken : c.writerStep s result = some c') :
    c'.MasterStage magic s.tx.sent := by
  cases stage with
  | sending call rest todo later writer around packet => simp [Client.writerStep, writer] at taken
  | gaveUp todo writer packet => simp [Client.writerStep, writer] at taken
  | flushed todo writer out => simp [Client.writerStep, writer] at taken
  | running loop todo writer faithful out =>
    obtain ⟨accepted, rfl, written⟩ := writerStep_plain writer taken
    refine .running _ todo rfl (faithful.step s.shouldExit result) ?_
    rw [written, tagged_append, ← List.append_assoc, ← out]

theorem SlaveStage.writerStep (stage : c.SlaveStage magic s.tx.sent) (taken : c.writerStep s result = some c') :
    c'.SlaveStage magic s.tx.sent := by
  cases stage with
  | sending call rest todo later writer around packet => simp [Client.writerStep, writer] at taken
  | sent todo writer packet => simp [Client.writerStep, writer] at taken
  | running loop todo writer faithful samples packet =>
    obtain ⟨accepted, rfl, written⟩ := writerStep_plain writer taken
    refine .running _ todo rfl (faithful.step s.shouldExit result) ?_ ?_
    · rw [iqBytes_append, iqBytes_iq, samples, written]
    · have others : (tagged .iq accepted).filter (·.1 ≠ .iq) = [] := by
        rw [List.filter_eq_nil_iff]
        intro b member
        simp [origin_of_tagged member]
      rw [List.filter_append, others, List.append_nil]
      exact packet

end

/-- The lags of a client's writer. -/
def lags (c : Client) : List Nat :=
  match c.writer.loop with
  | some loop => loop.rx.lags
  | none => []

/-- What a client's socket has of the bytes that arrived, and of the magic packet: the samples are some of
these bytes in their order, and without a gap unless the client was overtaken; the others are the first
part of the packet; and a master has the packet before all samples. -/
structure Relays (magic : Bytes 12) (arrived : List UInt8) (c : Client) : Prop where
  samples : (iqBytes c.out).Sublist arrived
  unbroken : c.lags = [] → iqBytes c.out <:+: arrived
  packet : c.out.filter (·.1 ≠ .iq) <+: tagged .magic magic.toList
  master : c.mode = .proxyMaster → c.out.take 12 <+: tagged .magic magic.toList ∧ c.out.drop 12 = tagged .iq (iqBytes c.out)

theorem written_sublist {w : WriteClientLoop} (faithful : w.Faithful sent) : w.written.Sublist sent.flatten := by
  have front : w.written <+: w.rx.values.flatten := (List.prefix_append ..).trans faithful.output
  exact front.sublist.trans faithful.tracks.values_sublist.flatten

theorem written_infix {w : WriteClientLoop} (faithful : w.Faithful sent) (never : w.rx.lags = []) :
    w.written <:+: sent.flatten := by
  have front : w.written <+: w.rx.values.flatten := (List.prefix_append ..).trans faithful.output
  have inside : w.rx.values <:+: sent := by
    rw [faithful.tracks.values_contiguous never]
    exact (List.take_prefix ..).isInfix.trans (List.drop_suffix ..).isInfix
  exact front.isInfix.trans inside.flatten

/-- A client whose socket has a part of the packet and nothing else. -/
theorem relays_packet (front : c.out <+: tagged .magic magic.toList) (arrived : List UInt8) : c.Relays magic arrived := by
  have magicOnly : ∀ b ∈ c.out, b.1 ≠ .iq := fun b member => by simp [origin_of_tagged (front.subset member)]
  have noSamples := iqBytes_other magicOnly
  have short : c.out.length ≤ 12 := length_packet magic ▸ front.length_le
  refine ⟨?_, fun _ => ?_, ?_, fun _ => ⟨?_, ?_⟩⟩
  · rw [noSamples]
    exact List.nil_sublist _
  · rw [noSamples]
    exact List.nil_infix
  · rw [List.filter_eq_self.2 fun b member => by simpa using magicOnly b member]
    exact front
  · rw [List.take_of_length_le short]
    exact front
  · rw [noSamples, List.drop_eq_nil_of_le short]
    rfl

theorem Relays.more {arrived more : List UInt8} (relays : c.Relays magic arrived) (longer : arrived <+: more) :
    c.Relays magic more where
  samples := relays.samples.trans longer.sublist
  unbroken never := (relays.unbroken never).trans longer.isInfix
  packet := relays.packet
  master := relays.master

/-- Behind a packet that came first there are samples only. -/
theorem Relays.behind {arrived : List UInt8} (relays : c.Relays magic arrived) (first : MagicFirst magic c.out) :
    c.out.drop 12 = tagged .iq (iqBytes c.out) := by
  have other : ∀ b ∈ c.out.take 12, b.1 ≠ .iq := fun b member => by simp [origin_of_tagged (first.subset member)]
  have rest : (c.out.drop 12).filter (·.1 ≠ .iq) = [] := by
    rcases Nat.lt_or_ge c.out.length 12 with short | long
    · rw [List.drop_eq_nil_of_le (Nat.le_of_lt short), List.filter_nil]
    · have whole : c.out.take 12 = tagged .magic magic.toList := by
        apply first.eq_of_length
        rw [List.length_take, length_packet]
        omega
      have size := relays.packet.length_le
      rw [← List.take_append_drop 12 c.out, List.filter_append, List.filter_eq_self.2 (by simpa using other), whole,
        List.length_append] at size
      exact List.eq_nil_of_length_eq_zero (by omega)
  have samples : ∀ b ∈ c.out.drop 12, b.1 = .iq := by
    intro b member
    simpa using List.filter_eq_nil_iff.1 rest b member
  have whole : iqBytes c.out = iqBytes (c.out.drop 12) := by
    conv_lhs => rw [← List.take_append_drop 12 c.out, iqBytes_append, iqBytes_other other, List.nil_append]
  rw [whole]
  exact eq_tagged_iq samples

theorem RelayStage.relays (stage : c.RelayStage magic sent) : c.Relays magic sent.flatten := by
  rcases stage with ⟨-, stage⟩ | ⟨slave, stage⟩
  · cases stage with
    | sending call rest todo later writer around packet => exact relays_packet ⟨_, packet⟩ _
    | gaveUp todo writer packet => exact relays_packet ((List.prefix_append ..).trans packet) _
    | flushed todo writer out => exact relays_packet ⟨[], (List.append_nil _).trans out⟩ _
    | running loop todo writer faithful out =>
      have other : ∀ b ∈ tagged .magic magic.toList, b.1 ≠ .iq := other_of_tagged (by decide) _
      have samples : iqBytes c.out = loop.written := by
        rw [out, iqBytes_append, iqBytes_other other, iqBytes_iq, List.nil_append]
      refine ⟨samples ▸ written_sublist faithful, fun never => ?_, ?_, fun _ => ⟨?_, ?_⟩⟩
      · rw [samples]
        exact written_infix faithful (by simpa [lags, writer, WriterThread.loop] using never)
      · have others : (tagged .iq loop.written).filter (·.1 ≠ .iq) = [] := by
          rw [List.filter_eq_nil_iff]
          intro b member
          simp [origin_of_tagged member]
        rw [out, List.filter_append, others, List.append_nil, List.filter_eq_self.2 fun b member => by simpa using other b member]
      · rw [out, List.take_left' (length_packet magic)]
      · rw [samples, out, List.drop_left' (length_packet magic)]
  · cases stage with
    | sending call rest todo later writer around packet => exact relays_packet ((List.prefix_append ..).trans packet) _
    | sent todo writer packet => exact relays_packet ((List.prefix_append ..).trans packet) _
    | running loop todo writer faithful samples packet =>
      refine ⟨samples ▸ written_sublist faithful, fun never => ?_, (List.prefix_append ..).trans packet, fun master => ?_⟩
      · rw [samples]
        exact written_infix faithful (by simpa [lags, writer, WriterThread.loop] using never)
      · rw [slave] at master
        cases master

end Client

/-! ## The whole proxy -/

theorem sent_foldl_send (more : List (List UInt8)) (tx : Channel (List UInt8)) :
    (more.foldl Channel.send tx).sent = tx.sent ++ more := by
  induction more generalizing tx with
  | nil => exact (List.append_nil _).symm
  | cons buf more ih =>
    rw [List.foldl_cons, ih, Channel.send, List.append_assoc]
    rfl

theorem UpstreamReader.turn_broadcast (s : UpstreamReader) (env : ReaderEnv) :
    s.broadcast <+: (s.turn env).2.broadcast := by
  unfold turn
  split
  · exact List.prefix_refl _
  · split
    · exact List.prefix_refl _
    · exact List.prefix_append ..
    · split <;> exact List.prefix_refl _

namespace Relay

/-- The channel has what the reader has broadcast, no byte of the upstream connection is lost before it,
and the clients are where they should be. -/
structure Inv (conn : UpstreamConnection) (s : Relay) : Prop where
  channel : s.clients.tx.sent = s.reader.broadcast
  bytes : s.reader.throughput = bytesOf conn.stream.inbound
  clients : ∀ c ∈ s.clients.clients, c.RelayStage conn.magicPacket s.clients.tx.sent

variable {conn : UpstreamConnection} {s s' : Relay}

theorem inv_start (capacity : Nat) (conn : UpstreamConnection) : (start capacity conn).Inv conn where
  channel := rfl
  bytes := rfl
  clients c member := by cases member

theorem Inv.read (inv : s.Inv conn) (most : Nat) : (s.read most).Inv conn := by
  obtain ⟨more, grown⟩ := s.reader.turn_broadcast ⟨s.clients.shouldExit, most⟩
  have sent : (s.read most).clients.tx.sent = s.clients.tx.sent ++ more := by
    simp only [Relay.read, sent_foldl_send]
    rw [← grown, List.drop_left]
  refine ⟨?_, ?_, fun c member => ?_⟩
  · rw [sent, inv.channel]
    exact grown
  · exact (UpstreamReader.throughput_turn ..).trans inv.bytes
  · rw [sent]
    rcases inv.clients c member with ⟨mode, stage⟩ | ⟨mode, stage⟩
    · exact .inl ⟨mode, stage.send more⟩
    · exact .inr ⟨mode, stage.send more⟩

/-- A new client. -/
theorem Inv.newClient (inv : s.Inv conn) {tcpBuffers : Nat} {mode : Mode}
    (stage : (Client.new tcpBuffers conn.magicPacket mode).RelayStage conn.magicPacket s.clients.tx.sent) :
    ({ s with clients := { s.clients with
      clients := s.clients.clients ++ [.new tcpBuffers conn.magicPacket mode] } } : Relay).Inv conn := by
  refine ⟨inv.channel, inv.bytes, fun c member => ?_⟩
  rcases List.mem_append.1 member with old | new
  · exact inv.clients c old
  · rw [List.mem_singleton.1 new]
    exact stage

theorem Inv.setClient (inv : s.Inv conn) {i : Nat} {c c' : Client} (there : s.clients.clients[i]? = some c)
    (stage : c.RelayStage conn.magicPacket s.clients.tx.sent → c'.RelayStage conn.magicPacket s.clients.tx.sent) :
    ({ s with clients := s.clients.setClient i c' } : Relay).Inv conn := by
  refine ⟨inv.channel, inv.bytes, ?_⟩
  exact (Admission.forall_setClient (Q := fun c => c.RelayStage conn.magicPacket s.clients.tx.sent) inv.clients there).2
    (stage (inv.clients c (List.mem_of_getElem? there)))

variable [ChaCha]

theorem Inv.step {key : Option Key} {tcpBuffers : Nat} {a : RelayAct} (inv : s.Inv conn)
    (taken : s.step key tcpBuffers conn.magicPacket a = some s') : s'.Inv conn := by
  cases a with
  | read most =>
    simp only [Relay.step] at taken
    split at taken
    · cases taken
      exact inv.read most
    · cases taken
  | setExit =>
    cases taken
    exact ⟨inv.channel, inv.bytes, inv.clients⟩
  | master =>
    cases taken
    exact inv.newClient (.inl ⟨rfl, Client.masterStage_new ..⟩)
  | slave =>
    cases taken
    exact inv.newClient (.inr ⟨rfl, Client.slaveStage_new ..⟩)
  | main i result =>
    obtain ⟨clients, moved, rfl⟩ := Option.map_eq_some_iff.1 taken
    obtain ⟨c, there, moved⟩ := Option.bind_eq_some_iff.1 moved
    obtain ⟨c', next, rfl⟩ := Option.map_eq_some_iff.1 moved
    have same := (Client.mainStep_keeps next).1
    refine inv.setClient there fun stage => ?_
    rcases stage with ⟨mode, stage⟩ | ⟨mode, stage⟩
    · exact .inl ⟨same.trans mode, stage.mainStep mode next⟩
    · exact .inr ⟨same.trans mode, stage.mainStep mode next⟩
  | writer i result =>
    obtain ⟨clients, moved, rfl⟩ := Option.map_eq_some_iff.1 taken
    obtain ⟨c, there, moved⟩ := Option.bind_eq_some_iff.1 moved
    obtain ⟨c', next, rfl⟩ := Option.map_eq_some_iff.1 moved
    have same : c'.mode = c.mode := by
      obtain ⟨cipher, loop, x, -, -, shape⟩ := Client.writerStep_writes next
      rw [shape]
    refine inv.setClient there fun stage => ?_
    rcases stage with ⟨mode, stage⟩ | ⟨mode, stage⟩
    · exact .inl ⟨same.trans mode, stage.writerStep next⟩
    · exact .inr ⟨same.trans mode, stage.writerStep next⟩

omit [ChaCha] in
theorem Inv.relays (inv : s.Inv conn) {c : Client} (member : c ∈ s.clients.clients) :
    c.Relays conn.magicPacket (bytesOf conn.stream.inbound) := by
  have arrived : s.clients.tx.sent.flatten <+: bytesOf conn.stream.inbound := by
    rw [inv.channel, ← inv.bytes]
    exact List.prefix_append ..
  exact (inv.clients c member).relays.more arrived

/-- **What the clients of a proxy get.** With or without a key and with every `--tcp-buffers`, for every
upstream connection, in every state of every run with any number of masters and slaves and any
interleaving of the threads: the samples on a client's socket are bytes that arrived on the upstream connection, in their order and none
twice, and without a gap if the client was never overtaken; its other bytes are the upstream's magic
packet or the first part of it; and a master has the packet before all samples. -/
theorem relay_spec (key : Option Key) (tcpBuffers capacity : Nat) (conn : UpstreamConnection) (acts : List RelayAct) :
    Always (step key tcpBuffers conn.magicPacket) (fun s => ∀ c ∈ s.clients.clients,
      c.Relays conn.magicPacket (bytesOf conn.stream.inbound)) (start capacity conn) acts := by
  refine (always_of_along (fun s a s' inv (_ : True) taken => inv.step taken) (inv_start capacity conn)
    along_trivial).imp fun s inv c member => ?_
  exact inv.relays member

end Relay

/-! ## From the upstream's socket to a client's -/

/-- What `connect_upstream` takes from the connection: the magic packet, and some bytes after it. -/
theorem connectUpstream_bytes {key : Option Key} {env : ConnectEnv} {inbound : List Arrival} {conn : UpstreamConnection}
    (h : connectUpstream key env inbound = .ok conn) :
    ∃ taken, bytesOf inbound = conn.magicPacket.toList ++ (taken ++ bytesOf conn.stream.inbound) := by
  obtain ⟨rest, encryptionKey, connected⟩ := connectUpstream_ok h
  have waited : ∃ ack, bytesOf rest = ack ++ bytesOf (readAck rest).2 := by
    unfold readAck
    split
    · rename_i ack after answer
      exact ⟨ack.toList, bytesOf_readExact_ok answer⟩
    · rename_i e after answer
      obtain ⟨lost, -, split⟩ := bytesOf_readExact_error answer
      exact ⟨lost, split⟩
  have exchanged : ∃ nonce, bytesOf (readAck rest).2 = nonce ++ bytesOf conn.stream.inbound := by
    have outcome := connected.exchanged
    cases key with
    | none =>
      rw [handshake_none outcome]
      exact ⟨[], rfl⟩
    | some key =>
      cases chain : conn.isChain with
      | false =>
        rw [chain] at outcome
        obtain ⟨-, same⟩ := Prod.mk.inj (Except.ok.inj outcome)
        rw [← same]
        exact ⟨[], rfl⟩
      | true =>
        rw [chain] at outcome
        obtain ⟨peerNonce, answer, -⟩ := handshake_some outcome
        exact ⟨peerNonce.toList, bytesOf_readExact_ok answer⟩
  obtain ⟨ack, waited⟩ := waited
  obtain ⟨nonce, exchanged⟩ := exchanged
  refine ⟨ack ++ nonce, ?_⟩
  rw [bytesOf_readExact_ok connected.packet, waited, exchanged, List.append_assoc]

/-- A proxy between its upstream and one of its clients: `between` is what the socket of the upstream has
accepted, of which some first part arrives, `client` is what the client's socket has accepted, and
`lags` are the lags of the client's writer. The client is a master, or a slave that has got the magic packet
first. -/
def Proxies [ChaCha] (between : List UInt8) (lags : List Nat) (client : List UInt8) : Prop :=
  ∃ key env inbound conn tcpBuffers capacity acts s c, bytesOf inbound <+: between ∧ connectUpstream key env inbound = .ok conn ∧
    run (Relay.step key tcpBuffers conn.magicPacket) (.start capacity conn) acts = some s ∧ c ∈ s.clients.clients ∧
    (c.mode = .proxyMaster ∨ MagicFirst conn.magicPacket c.out) ∧ lags = c.lags ∧ client = c.out.map Prod.snd

/-- **One proxy invents, doubles and moves nothing**, with or without a key and whatever its threads do. -/
theorem Proxies.passes_on [ChaCha] {between client : List UInt8} {lags : List Nat} (proxies : Proxies between lags client) :
    client.take 12 <+: between.take 12 ∧ (client.drop 12).Sublist (between.drop 12) ∧
      (lags = [] → client.drop 12 <:+: between.drop 12) := by
  obtain ⟨key, env, inbound, conn, tcpBuffers, capacity, acts, s, c, arrives, connects, reached, there, first, rfl, rfl⟩ := proxies
  have inv : s.Inv conn := run_invariant (fun _ _ _ inv taken => inv.step taken) (Relay.inv_start capacity conn) reached
  have relays := inv.relays there
  have packet : MagicFirst conn.magicPacket c.out := by
    rcases first with master | first
    · exact (relays.master master).1
    · exact first
  have behind := relays.behind packet
  obtain ⟨taken, bytes⟩ := connectUpstream_bytes connects
  obtain ⟨later, whole⟩ := arrives
  have size : conn.magicPacket.toList.length = 12 := List.Vector.toList_length _
  -- what the upstream has sent, cut behind the packet
  have front : between.take 12 = conn.magicPacket.toList := by
    rw [← whole, bytes, List.append_assoc, List.take_left' size]
  have back : between.drop 12 = taken ++ bytesOf conn.stream.inbound ++ later := by
    rw [← whole, bytes, List.append_assoc, List.drop_left' size]
  have inside : bytesOf conn.stream.inbound <:+: between.drop 12 := by
    rw [back]
    exact List.infix_append ..
  have after : (c.out.map Prod.snd).drop 12 = iqBytes c.out := by
    rw [← List.map_drop, behind, tagged, List.map_map]
    exact List.map_id _
  refine ⟨?_, ?_, fun never => ?_⟩
  · rw [front]
    have bytes := packet.map Prod.snd
    rw [List.map_take, tagged, List.map_map] at bytes
    simpa using bytes
  · rw [after]
    exact relays.samples.trans inside.sublist
  · rw [after]
    exact (relays.unbroken never).trans inside

end RtlTcp
