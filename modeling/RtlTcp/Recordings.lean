import RtlTcp.Lib.Framing
import RtlTcp.CaptureTool
import RtlTcp.ReplayTool

/-!
# Recordings of recordings

The replay tool talks to its client as a server does, so the capture tool can record a replay, and
that recording can be replayed again. `Copy` is any number of these generations, each with its own
arguments, timing, timeouts and interruptions. `copy_of_copy` says what the last file has of the
first one.
-/

namespace RtlTcp
set_option autoImplicit false
open ByteIo Transition

/-! ## What a replay sends -/

namespace ReplayTool
variable {whole todo : List CaptureChunk} {tail : List UInt8} {s : Replay}

/-- The pause touches neither the file nor the client. -/
theorem pace_keeps (args : Args) (s : Replay) (timestampNs : UInt64) :
    (pace args s timestampNs).2.file = s.file ∧ (pace args s timestampNs).2.firstChunkOffset = s.firstChunkOffset ∧
      (pace args s timestampNs).2.clientQuit = s.clientQuit ∧ (pace args s timestampNs).2.sent = s.sent := by
  unfold pace
  split
  · split
    · exact ⟨rfl, rfl, rfl, rfl⟩
    · dsimp only
      split <;> exact ⟨rfl, rfl, rfl, rfl⟩
  · exact ⟨rfl, rfl, rfl, rfl⟩

/-- An iteration with a chunk: all of it is sent and the loop goes on, or some of it is and the loop ends. -/
theorem Playing.send_cases (playing : Playing whole tail s todo) (args : Args) (chunk : CaptureChunk) (write : ClientWrite) :
    (∃ s', send args s chunk write = (.again, s') ∧ Playing whole tail s' todo ∧ s'.sent = s.sent ++ chunk.data) ∨
      ∃ s', send args s chunk write = (.leave, s') ∧ s'.sent <+: s.sent ++ chunk.data := by
  obtain ⟨file, offset, quit, sent⟩ := pace_keeps args s chunk.timestampNs
  unfold send
  rw [if_neg (Bool.eq_false_iff.1 playing.running)]
  match paced : pace args s chunk.timestampNs with
  | (.leave, s') =>
    rw [paced] at sent
    exact .inr ⟨s', rfl, sent ▸ List.prefix_append ..⟩
  | (.again, s') =>
    rw [paced] at file offset quit sent
    dsimp only at file offset quit sent ⊢
    rcases write with _ | ⟨n, e⟩
    · refine .inl ⟨_, rfl, ?_, by rw [sent]⟩
      refine ⟨?_, ?_, playing.fits, playing.wholeFits, playing.short, quit.trans playing.running⟩
      · rw [file]
        exact playing.unread
      · rw [file, offset]
        exact playing.first
    · refine .inr ⟨_, rfl, ?_⟩
      rw [sent]
      exact (List.prefix_append_right_inj _).2 (List.take_prefix ..)

/-- **A replay without `--loop` sends a first part of the data**, whatever the client and the timestamps
do. -/
theorem Playing.loop_sent {args : Args} (once : args.loopMode = false) (envs : List Env) {s : Replay}
    {todo : List CaptureChunk} (playing : Playing whole tail s todo) :
    (loop (turn args) s envs).sent <+: s.sent ++ todo.flatMap (·.data) := by
  induction envs generalizing s todo with
  | nil => exact List.prefix_append ..
  | cons env envs ih =>
    cases todo with
    | nil =>
      obtain ⟨file, taken, -⟩ := playing.turn_end args env
      have ended : turn args s env = (.leave, { s with file := file }) := by
        rw [taken]
        unfold rewind
        rw [if_neg (by simp [once])]
      rw [loop_leave ended]
      exact List.prefix_append ..
    | cons chunk todo =>
      obtain ⟨file, taken, next⟩ := playing.turn_chunk args env
      rw [List.flatMap_cons, ← List.append_assoc]
      rcases next.send_cases args chunk env.write with ⟨s', sends, next', sent⟩ | ⟨s', sends, sent⟩
      · rw [loop_again (taken.trans sends)]
        have rest := ih next'
        rw [sent] at rest
        exact rest
      · rw [loop_leave (taken.trans sends)]
        exact sent.trans (List.prefix_append ..)

end ReplayTool

/-! ## What a capture receives -/

namespace CaptureTool

theorem received_of_bytes (duration : Nat) (stream : List Arrival) (envs : List Env) :
    (received duration stream envs).flatMap (·.data) <+: bytesOf stream := by
  induction envs generalizing stream with
  | nil => exact List.nil_prefix
  | cons env envs ih =>
    simp only [received]
    split
    · exact List.nil_prefix
    · split
      · exact List.nil_prefix
      · rename_i b bs rest taken
        rw [List.flatMap_cons, bytesOf_read_ok taken]
        exact (List.prefix_append_right_inj _).2 (ih rest)
      · rename_i e rest taken
        split
        · rw [bytesOf_read_error taken]
          exact ih rest
        · exact List.nil_prefix

/-- A read from a stream that has nothing but bytes and timeouts. -/
theorem read_follows {p : List Slot} {stream : List Arrival} (follows : Follows p stream) (limit : Nat) :
    (stream = [] ∧ read (limit + 1) stream = (.ok [], [])) ∨
      (∃ b bs rest q, read (limit + 1) stream = (.ok (b :: bs), rest) ∧ rest.length < stream.length ∧ Follows q rest) ∨
      ∃ (t : Timeout) (rest : List Arrival) (q : List Slot), read (limit + 1) stream = (.error t.kind, rest) ∧
        rest.length < stream.length ∧ Follows q rest := by
  cases follows with
  | nil => exact .inl ⟨rfl, rfl⟩
  | @byte p s b later =>
    have shorter := (takeBytes_suffix limit s).length_le
    obtain ⟨q, rest⟩ := later.suffix (takeBytes_suffix limit s)
    refine .inr (.inl ⟨b, (takeBytes limit s).1, (takeBytes limit s).2, q, rfl, ?_, rest⟩)
    rw [List.length_cons]
    omega
  | @timeout p s t later => exact .inr (.inr ⟨t, s, p, rfl, by simp, later⟩)

/-- A capture that nothing stops receives a stream with timeouts to its end. -/
theorem received_all {duration : Nat} {envs : List Env}
    (running : ∀ env ∈ envs, env.shouldExit = false ∧ env.elapsed < fromSecs duration) {p : List Slot} {stream : List Arrival}
    (follows : Follows p stream) (enough : stream.length ≤ envs.length) :
    (received duration stream envs).flatMap (·.data) = bytesOf stream := by
  induction envs generalizing stream p with
  | nil =>
    rw [List.eq_nil_of_length_eq_zero (Nat.le_zero.1 enough)]
    rfl
  | cons env envs ih =>
    obtain ⟨on, early⟩ := running env List.mem_cons_self
    have later := fun e member => running e (List.mem_cons_of_mem _ member)
    have busy : ¬(env.shouldExit || decide (env.elapsed ≥ fromSecs duration)) = true := by
      simp only [on, Bool.false_or, decide_eq_true_eq]
      omega
    obtain ⟨n, size⟩ : ∃ n, min (env.most + 1) chunkSize = n + 1 :=
      ⟨min env.most (chunkSize - 1), by simp only [chunkSize]; omega⟩
    simp only [received, if_neg busy, size]
    rw [List.length_cons] at enough
    rcases read_follows follows n with ⟨rfl, taken⟩ | ⟨b, bs, rest, q, taken, shorter, follows'⟩ |
      ⟨t, rest, q, taken, shorter, follows'⟩
    · simp only [taken]
      rfl
    · simp only [taken, List.flatMap_cons]
      rw [ih later follows' (by omega), bytesOf_read_ok taken]
    · have timeout : (t.kind == .wouldBlock || t.kind == .timedOut) = true := by cases t <;> rfl
      simp only [taken, timeout, if_true]
      rw [ih later follows' (by omega), bytesOf_read_error taken]

end CaptureTool

/-! ## Generations -/

/-- A replay without `--loop` of the file `content`: `sent` is what its client has got after some
iterations, whatever has become of its writes. -/
def Replays (content sent : List UInt8) : Prop :=
  ∃ args positionKnown magicWrite r envs, args.loopMode = false ∧
    ReplayTool.start content positionKnown magicWrite = some r ∧ sent = (loop (ReplayTool.turn args) r envs).sent

/-- A capture that is offered `sent`, with any other errors in between, and whose writes to the file
`content` succeed. -/
def Records (sent content : List UInt8) : Prop :=
  ∃ args stream faults s envs, bytesOf stream <+: sent ∧ CaptureTool.start stream faults = some s ∧
    CaptureTool.ClockNonDecreasing envs ∧ (CaptureTool.run args s envs).writeErrors = [] ∧
    content = (CaptureTool.run args s envs).file.content

/-- A replay to its end, whose client takes everything. -/
def ReplaysAll (content sent : List UInt8) : Prop :=
  ∃ args positionKnown r envs, args.loopMode = false ∧ ReplayTool.start content positionKnown none = some r ∧
    (∀ env ∈ envs, env.write = none) ∧ content.length < envs.length ∧
    sent = (loop (ReplayTool.turn args) r envs).sent

/-- A capture of all of `sent`, with nothing but timeouts in between and within its duration. -/
def RecordsAll (sent content : List UInt8) : Prop :=
  ∃ args stream p faults s envs, bytesOf stream = sent ∧ Follows p stream ∧ CaptureTool.start stream faults = some s ∧
    (∀ env ∈ envs, env.shouldExit = false ∧ env.elapsed < CaptureTool.fromSecs args.duration) ∧
    stream.length ≤ envs.length ∧ CaptureTool.ClockNonDecreasing envs ∧
    (CaptureTool.run args s envs).writeErrors = [] ∧ content = (CaptureTool.run args s envs).file.content

/-- A file after some generations of replay and capture; `complete` is whether none was interrupted. -/
inductive Copy (first : List UInt8) : (generations : Nat) → (complete : Bool) → (content : List UInt8) → Prop where
  | original : Copy first 0 true first
  | partly {n : Nat} {complete : Bool} {content sent content' : List UInt8} (before : Copy first n complete content)
      (replays : Replays content sent) (records : Records sent content') : Copy first (n + 1) false content'
  | fully {n : Nat} {complete : Bool} {content sent content' : List UInt8} (before : Copy first n complete content)
      (replays : ReplaysAll content sent) (records : RecordsAll sent content') : Copy first (n + 1) complete content'

/-- The timestamps of a file do not decrease. -/
def Ordered (chunks : List CaptureChunk) : Prop := (chunks.map (·.timestampNs)).Pairwise (· ≤ ·)

theorem sent_of_replays {content sent : List UInt8} {header : CaptureHeader} {chunks : List CaptureChunk}
    (accepted : decode content = some (.ok (header, chunks))) (replays : Replays content sent) :
    sent <+: header.magicPayload ++ chunks.flatMap (·.data) := by
  obtain ⟨args, positionKnown, magicWrite, r, envs, once, begun, rfl⟩ := replays
  obtain ⟨r', tail, playing, -, magic, -, -, -, only⟩ := ReplayTool.start_playing accepted positionKnown
  obtain rfl := only magicWrite r begun
  rw [← magic]
  exact playing.loop_sent once envs

theorem replaysAll_eq {content sent : List UInt8} {header : CaptureHeader} {chunks : List CaptureChunk}
    (accepted : decode content = some (.ok (header, chunks))) (ordered : Ordered chunks) (replays : ReplaysAll content sent) :
    sent = header.magicPayload ++ chunks.flatMap (·.data) := by
  obtain ⟨args, positionKnown, r, envs, once, begun, writes, enough, rfl⟩ := replays
  obtain ⟨r', tail, playing, fresh, magic, unused, fine, -, only⟩ := ReplayTool.start_playing accepted positionKnown
  obtain rfl := only _ r begun
  have steady : ReplayTool.Steady chunks tail r chunks := by
    refine ⟨playing, ?_, by simp [unused], fine⟩
    rw [fresh]
    exact ordered
  have short : chunks.length ≤ content.length := by
    obtain ⟨body, tail, dropped, -, -, whole, -, -⟩ := decode_ok accepted
    have size := congrArg List.length (dropped.trans whole)
    rw [List.length_drop, List.length_append] at size
    have := length_le_bytes chunks
    omega
  rw [(steady.loop_once ordered once writes (by omega)).1, magic]

/-- What a capture takes from a server: its magic packet, and some of what follows. -/
theorem capture_header {stream rest : List Arrival} {sent magic data : List UInt8} {magicPayload : Bytes 12}
    (packet : readExact 12 stream = (.ok magicPayload, rest)) (size : magic.length = 12)
    (arrives : bytesOf stream <+: sent) (offered : sent <+: magic ++ data) :
    magicPayload.toList = magic ∧ bytesOf rest <+: data := by
  have whole := arrives.trans offered
  rw [bytesOf_readExact_ok packet] at whole
  obtain ⟨more, same⟩ := whole
  have length : magicPayload.toList.length = magic.length := by rw [List.Vector.toList_length, size]
  rw [List.append_assoc] at same
  obtain ⟨front, back⟩ := List.append_inj same length
  exact ⟨front, more, back⟩

theorem ordered_received {duration : Nat} {stream : List Arrival} {envs : List CaptureTool.Env}
    (clock : CaptureTool.ClockNonDecreasing envs) : Ordered (CaptureTool.received duration stream envs) :=
  List.pairwise_map.2 (CaptureTool.received_sorted clock)

theorem records_decode {sent content data : List UInt8} {header : CaptureHeader} (size : header.magicPayload.length = 12)
    (offered : sent <+: header.magicPayload ++ data) (records : Records sent content) :
    ∃ chunks, decode content = some (.ok (header, chunks)) ∧ chunks.flatMap (·.data) <+: data ∧ Ordered chunks := by
  obtain ⟨args, stream, faults, s, envs, arrives, begun, clock, succeeded, rfl⟩ := records
  obtain ⟨magicPayload, packet, decoded, -⟩ := CaptureTool.run_decodes args begun succeeded
  obtain ⟨same, rest⟩ := capture_header packet size arrives offered
  refine ⟨CaptureTool.received args.duration s.stream envs, ?_, ?_, ordered_received clock⟩
  · rw [decoded, same]
  · exact (CaptureTool.received_of_bytes ..).trans rest

theorem recordsAll_decode {content data : List UInt8} {header : CaptureHeader} (size : header.magicPayload.length = 12)
    (records : RecordsAll (header.magicPayload ++ data) content) :
    ∃ chunks, decode content = some (.ok (header, chunks)) ∧ chunks.flatMap (·.data) = data ∧ Ordered chunks := by
  obtain ⟨args, stream, p, faults, s, envs, bytes, follows, begun, running, enough, clock, succeeded, rfl⟩ := records
  obtain ⟨magicPayload, packet, decoded, -⟩ := CaptureTool.run_decodes args begun succeeded
  have parts := bytesOf_readExact_ok packet
  rw [bytes] at parts
  obtain ⟨front, back⟩ := List.append_inj parts (by rw [List.Vector.toList_length, size])
  have suffix : s.stream <:+ stream := by
    have := readExact_suffix 12 stream
    rwa [packet] at this
  obtain ⟨q, follows'⟩ := follows.suffix suffix
  refine ⟨CaptureTool.received args.duration s.stream envs, ?_, ?_, ordered_received clock⟩
  · rw [decoded, ← front]
  · rw [CaptureTool.received_all running follows' (Nat.le_trans suffix.length_le enough), back]

/-- **A recording of a recording.** For every accepted file with a magic packet of twelve bytes and after any
number of generations of replay without `--loop` and capture, each with its own arguments and timing
and however it was interrupted: the last file is accepted, has the header of the first one, and its
data is the first part of the first one's data; it is all of it if no generation was interrupted
and the timestamps of the first file do not decrease. -/
theorem copy_of_copy (first : List UInt8) (header : CaptureHeader) (chunks : List CaptureChunk)
    (accepted : decode first = some (.ok (header, chunks))) (size : header.magicPayload.length = 12) (generations : Nat)
    (complete : Bool) (content : List UInt8) (copy : Copy first generations complete content) :
    ∃ chunks', decode content = some (.ok (header, chunks')) ∧
      chunks'.flatMap (·.data) <+: chunks.flatMap (·.data) ∧ (Ordered chunks → Ordered chunks') ∧
      (complete = true → Ordered chunks → chunks'.flatMap (·.data) = chunks.flatMap (·.data)) := by
  induction copy with
  | original => exact ⟨chunks, accepted, List.prefix_refl _, id, fun _ _ => rfl⟩
  | partly before replays records ih =>
    obtain ⟨chunks', decoded, data, -, -⟩ := ih
    obtain ⟨chunks'', decoded', data', ordered'⟩ := records_decode size (sent_of_replays decoded replays) records
    exact ⟨chunks'', decoded', data'.trans data, fun _ => ordered', fun wrong => by cases wrong⟩
  | @fully n complete content sent content' before replays records ih =>
    obtain ⟨chunks', decoded, data, ordered, all⟩ := ih
    by_cases sorted : Ordered chunks
    · rw [replaysAll_eq decoded (ordered sorted) replays] at records
      obtain ⟨chunks'', decoded', data', ordered'⟩ := recordsAll_decode size records
      exact ⟨chunks'', decoded', data' ▸ data, fun _ => ordered', fun whole _ => data'.trans (all whole sorted)⟩
    · -- an underflow may have ended the replay
      have replays' : Replays content sent := by
        obtain ⟨args, positionKnown, r, envs, once, begun, -, -, rfl⟩ := replays
        exact ⟨args, positionKnown, none, r, envs, once, begun, rfl⟩
      have records' : Records sent content' := by
        obtain ⟨args, stream, p, faults, s, envs, rfl, -, begun, -, -, clock, succeeded, rfl⟩ := records
        exact ⟨args, stream, faults, s, envs, List.prefix_refl _, begun, clock, succeeded, rfl⟩
      obtain ⟨chunks'', decoded', data', ordered'⟩ := records_decode size (sent_of_replays decoded replays') records'
      exact ⟨chunks'', decoded', data'.trans data, fun _ => ordered', fun _ wrong => absurd wrong sorted⟩

/-- A recording of two chunks, replayed and recorded once more as one chunk. -/
theorem two_chunks_copied :
    ∃ content chunks, Copy (encodeFile ⟨magicPacket.toList⟩ [⟨5, [1, 2]⟩, ⟨9, [3]⟩]) 1 true content ∧
      decode content = some (.ok (⟨magicPacket.toList⟩, chunks)) ∧ chunks.flatMap (·.data) = [1, 2, 3] := by
  have accepted : decode (encodeFile ⟨magicPacket.toList⟩ [⟨5, [1, 2]⟩, ⟨9, [3]⟩]) =
      some (.ok (⟨magicPacket.toList⟩, [⟨5, [1, 2]⟩, ⟨9, [3]⟩])) := by decide
  have replays : ReplaysAll (encodeFile ⟨magicPacket.toList⟩ [⟨5, [1, 2]⟩, ⟨9, [3]⟩]) (magicPacket.toList ++ [1, 2, 3]) :=
    ⟨⟨true, false, true⟩, true, _, List.replicate 60 ⟨.ok (), none⟩, rfl, rfl, by simp, by decide, by decide⟩
  have records : RecordsAll (magicPacket.toList ++ [1, 2, 3]) _ :=
    ⟨⟨10, 16⟩, _, _, [], _, List.replicate 15 ⟨false, 0, 9, 0⟩, bytesOf_map_byte _, follows_bytes _, rfl,
      by simp [CaptureTool.fromSecs], by decide, ⟨by decide, by simp⟩, by decide, rfl⟩
  have copy := Copy.fully .original replays records
  obtain ⟨chunks, decoded, -, -, all⟩ := copy_of_copy _ _ _ accepted rfl 1 true _ copy
  exact ⟨_, chunks, copy, decoded, all rfl (by unfold Ordered; decide)⟩

end RtlTcp
