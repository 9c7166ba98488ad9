import RtlTcp.CaptureCrash
import RtlTcp.Recordings
import RtlTcp.Main.Relay

/-!
# Where the samples come from

A proxy speaks to its masters as a server does, and to its slaves unless it fails to send them the magic
packet; the capture tool records whatever speaks so, and the replay tool speaks so again. The three can
stand behind each other in any number and order; `Derived` has every stream and every file that can come
out of them. `derived_from_server` says what these have of the bytes of the one server at the front.
-/

namespace RtlTcp
set_option autoImplicit false
open ByteIo Transition

/-- What comes out of a tool: the bytes on a socket, or a capture file. -/
inductive Product where
  | stream (bytes : List UInt8)
  | file (content : List UInt8)

/-- A capture that is offered `sent` and is killed between two iterations; no write to the file `content`
had failed. -/
def KilledRecords (sent content : List UInt8) : Prop :=
  ∃ args stream faults s envs, bytesOf stream <+: sent ∧ CaptureTool.start stream faults = some s ∧
    CaptureTool.ClockNonDecreasing envs ∧ (loop (CaptureTool.turn args) s envs).writeErrors = [] ∧
    content = (loop (CaptureTool.turn args) s envs).file.content

/-- What can be made of the bytes `server`; `lags` are the lags of the proxies' writers on the way. -/
inductive Derived [ChaCha] (server : List UInt8) : (lags : List Nat) → Product → Prop where
  | server : Derived server [] (.stream server)
  | proxy {lags more : List Nat} {between client : List UInt8} (before : Derived server lags (.stream between))
      (proxies : Proxies between more client) : Derived server (lags ++ more) (.stream client)
  | capture {lags : List Nat} {sent content : List UInt8} (before : Derived server lags (.stream sent))
      (records : Records sent content) : Derived server lags (.file content)
  | killed {lags : List Nat} {sent content : List UInt8} (before : Derived server lags (.stream sent))
      (records : KilledRecords sent content) : Derived server lags (.file content)
  | replay {lags : List Nat} {content sent : List UInt8} (before : Derived server lags (.file content))
      (replays : Replays content sent) : Derived server lags (.stream sent)

/-! ## What a file has of the stream it was made of -/

/-- The file `content` is accepted and has the magic packet of the stream `sent`, and a first part of what
follows. -/
def FileOf (sent content : List UInt8) : Prop :=
  12 ≤ sent.length ∧ ∃ chunks, decode content = some (.ok (⟨sent.take 12⟩, chunks)) ∧
    chunks.flatMap (·.data) <+: sent.drop 12 ∧ Ordered chunks

/-- A capture starts with the twelve bytes of the magic packet. -/
theorem capture_packet {stream rest : List Arrival} {sent : List UInt8} {magicPayload : Bytes 12}
    (packet : readExact 12 stream = (.ok magicPayload, rest)) (arrives : bytesOf stream <+: sent) :
    12 ≤ sent.length ∧ magicPayload.toList = sent.take 12 ∧ bytesOf rest <+: sent.drop 12 := by
  have long : 12 ≤ sent.length := by
    have size := congrArg List.length (bytesOf_readExact_ok packet)
    rw [List.length_append, List.Vector.toList_length] at size
    have := arrives.length_le
    omega
  have size : (sent.take 12).length = 12 := by
    rw [List.length_take]
    omega
  refine ⟨long, capture_header packet size arrives ?_⟩
  rw [List.take_append_drop]

theorem Records.fileOf {sent content : List UInt8} (records : Records sent content) : FileOf sent content := by
  obtain ⟨args, stream, faults, s, envs, arrives, begun, clock, succeeded, rfl⟩ := records
  obtain ⟨magicPayload, packet, decoded, -⟩ := CaptureTool.run_decodes args begun succeeded
  obtain ⟨long, same, rest⟩ := capture_packet packet arrives
  refine ⟨long, CaptureTool.received args.duration s.stream envs, ?_, ?_, ordered_received clock⟩
  · rw [decoded, same]
  · exact (CaptureTool.received_of_bytes ..).trans rest

theorem KilledRecords.fileOf {sent content : List UInt8} (records : KilledRecords sent content) : FileOf sent content := by
  obtain ⟨args, stream, faults, s, envs, arrives, begun, clock, fine, rfl⟩ := records
  obtain ⟨magicPayload, packet, first⟩ := CaptureTool.saved_of_start args begun
  obtain ⟨n, saved⟩ := first.loop fine
  obtain ⟨long, same, rest⟩ := capture_packet packet arrives
  rw [List.nil_append] at saved
  refine ⟨long, (CaptureTool.received args.duration s.stream envs).take n, ?_, ?_, ?_⟩
  · rw [saved.decodes (by simp), same]
  · have front := (List.take_prefix n (CaptureTool.received args.duration s.stream envs)).flatMap (·.data)
    exact (front.trans (CaptureTool.received_of_bytes ..)).trans rest
  · exact (ordered_received clock).sublist ((List.take_sublist ..).map _)

/-! ## What every product has of the server -/

/-- The samples of a product: bytes of the server behind its magic packet, in their order and none twice, and
without a gap if nobody was overtaken. -/
structure SamplesOf (server : List UInt8) (lags : List Nat) (samples : List UInt8) : Prop where
  ordered : samples.Sublist (server.drop 12)
  unbroken : lags = [] → samples <:+: server.drop 12

/-- The first part of some samples. -/
theorem SamplesOf.front {server samples less : List UInt8} {lags : List Nat} (h : SamplesOf server lags samples)
    (front : less <+: samples) : SamplesOf server lags less where
  ordered := front.sublist.trans h.ordered
  unbroken := fun never => front.isInfix.trans (h.unbroken never)

/-- What a product has of the server. -/
def Product.ComesFrom (server : List UInt8) (lags : List Nat) : Product → Prop
  | .stream bytes => bytes.take 12 <+: server.take 12 ∧ SamplesOf server lags (bytes.drop 12)
  | .file content => ∃ chunks, 12 ≤ server.length ∧ decode content = some (.ok (⟨server.take 12⟩, chunks)) ∧ Ordered chunks ∧
      SamplesOf server lags (chunks.flatMap (·.data))

theorem comesFrom_file {server sent content : List UInt8} {lags : List Nat} (before : (Product.stream sent).ComesFrom server lags)
    (file : FileOf sent content) : (Product.file content).ComesFrom server lags := by
  obtain ⟨first, samples⟩ := before
  obtain ⟨long, chunks, decoded, data, sorted⟩ := file
  have size : (sent.take 12).length = 12 := by
    rw [List.length_take]
    omega
  have enough := first.length_le
  rw [size, List.length_take] at enough
  have same : sent.take 12 = server.take 12 := by
    apply first.eq_of_length
    rw [size, List.length_take]
    omega
  exact ⟨chunks, by omega, same ▸ decoded, sorted, samples.front data⟩

theorem comesFrom_replay {server content sent : List UInt8} {lags : List Nat}
    (before : (Product.file content).ComesFrom server lags) (replays : Replays content sent) :
    (Product.stream sent).ComesFrom server lags := by
  obtain ⟨chunks, long, decoded, -, samples⟩ := before
  have offered := sent_of_replays decoded replays
  dsimp only at offered
  have size : (server.take 12).length = 12 := by
    rw [List.length_take]
    omega
  constructor
  · have front := offered.take 12
    rwa [List.take_left' size] at front
  · have back := offered.drop 12
    rw [List.drop_left' size] at back
    exact samples.front back

/-- **Every derived product comes from the server.** -/
theorem Derived.comesFrom [ChaCha] {server : List UInt8} {lags : List Nat} {product : Product}
    (derived : Derived server lags product) : product.ComesFrom server lags := by
  induction derived with
  | server => exact ⟨List.prefix_refl _, List.Sublist.refl _, fun _ => List.infix_refl _⟩
  | proxy before proxies ih =>
    obtain ⟨first, samples⟩ := ih
    obtain ⟨packet, passed, whole⟩ := proxies.passes_on
    refine ⟨packet.trans first, passed.trans samples.ordered, fun never => ?_⟩
    obtain ⟨upstream, here⟩ := List.append_eq_nil_iff.1 never
    exact (whole here).trans (samples.unbroken upstream)
  | capture before records ih => exact comesFrom_file ih records.fileOf
  | killed before records ih => exact comesFrom_file ih records.fileOf
  | replay before replays ih => exact comesFrom_replay ih replays

/-- **Nothing is invented, doubled or moved on the way.** Behind any number of proxies, captures and replays
without `--loop` in any order, each with its own arguments and key and with any interleaving, timeouts
and interruptions, captures that were killed among them, and at a proxy as one of its masters or as a slave that
has got the magic packet first: a stream has the magic packet of the server
or a first part of it, and then samples that the server sent, in their order and none twice; a file is
accepted, with the server's magic packet in its header, timestamps that do not decrease and such
samples; and there is no gap in the samples if no writer on the way was overtaken. -/
theorem derived_from_server [ChaCha] (server : List UInt8) (lags : List Nat) :
    (∀ bytes, Derived server lags (.stream bytes) →
      bytes.take 12 <+: server.take 12 ∧ SamplesOf server lags (bytes.drop 12)) ∧
    (∀ content, Derived server lags (.file content) →
      ∃ chunks, 12 ≤ server.length ∧ decode content = some (.ok (⟨server.take 12⟩, chunks)) ∧ Ordered chunks ∧
        SamplesOf server lags (chunks.flatMap (·.data))) := by
  constructor
  · intro bytes derived
    exact derived.comesFrom
  · intro content derived
    exact derived.comesFrom

/-- A master connects, the reader reads all there is, and the master's writer sends it in one `write`. -/
def relayActs (size : Nat) : List RelayAct :=
  [.master, .main 0 (.ok 0), .main 0 (.ok 12), .main 0 (.ok 0), .main 0 (.ok 0), .read size, .writer 0 (.ok 0), .writer 0 (.ok 0),
   .writer 0 (.ok size)]

/-- A server, a proxy that takes five samples for the acknowledgement that does not come, a capture and a
replay. -/
theorem recorded_behind_proxy :
    letI := zeroChaCha
    ∃ content bytes, Derived (magicPacket.toList ++ [1, 2, 3, 4, 5, 6, 7, 8]) [] (.file content) ∧
      Derived (magicPacket.toList ++ [1, 2, 3, 4, 5, 6, 7, 8]) [] (.stream bytes) ∧ bytes.drop 12 = [6, 7, 8] ∧
      bytes.drop 12 <:+: (magicPacket.toList ++ [1, 2, 3, 4, 5, 6, 7, 8]).drop 12 ∧
      ∃ chunks, decode content = some (.ok (⟨magicPacket.toList⟩, chunks)) ∧ Ordered chunks := by
  let _ := zeroChaCha
  have all : ∀ bytes : List UInt8, bytesOf (bytes.map .byte) <+: bytes := fun bytes =>
    ⟨[], by rw [List.append_nil, bytesOf_map_byte]⟩
  have proxied : Proxies (magicPacket.toList ++ [1, 2, 3, 4, 5, 6, 7, 8]) [] (magicPacket.toList ++ [6, 7, 8]) :=
    ⟨none, calmConnect, _, _, 512000, 4, relayActs 3, _, _, all _, rfl, rfl, List.mem_of_getElem? (i := 0) rfl,
      .inl rfl, rfl, rfl⟩
  have recorded : Records (magicPacket.toList ++ [6, 7, 8]) (encodeFile ⟨magicPacket.toList⟩ [⟨0, [6, 7, 8]⟩]) :=
    ⟨⟨10, 16⟩, _, [], _, List.replicate 3 ⟨false, 0, 9, 0⟩, all _, rfl, ⟨by decide, by simp⟩, by decide, by decide⟩
  have replayed : Replays (encodeFile ⟨magicPacket.toList⟩ [⟨0, [6, 7, 8]⟩]) (magicPacket.toList ++ [6, 7, 8]) :=
    ⟨⟨true, false, true⟩, true, none, _, List.replicate 3 ⟨.ok (), none⟩, rfl, rfl, by decide⟩
  have file := Derived.capture (.proxy .server proxied) recorded
  have stream := Derived.replay file replayed
  obtain ⟨chunks, -, decoded, sorted, -⟩ := (derived_from_server _ _).2 _ file
  exact ⟨_, _, file, stream, rfl, ((derived_from_server _ _).1 _ stream).2.unbroken rfl, chunks, decoded, sorted⟩

end RtlTcp
