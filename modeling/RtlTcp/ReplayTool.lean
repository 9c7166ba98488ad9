import Mathlib.Data.List.Chain
import RtlTcp.Lib.Transition
import RtlTcp.CaptureGrammar
import RtlTcp.CaptureTool

/-!
# `bin/replay.rs`: the replay loop

The tool reads a capture file and sends the magic packet and the chunks to one client, pausing
between chunks for the difference of their timestamps. At the end of the file it stops, or starts
over with the first chunk. `replay_reproduces_capture` puts it behind the capture tool.
-/

namespace RtlTcp.ReplayTool
set_option autoImplicit false
open ByteIo Transition

/-- A file open for reading: its bytes, and where the next read starts. -/
structure OpenFile where
  content : List UInt8
  pos : Nat
  deriving DecidableEq

/-- What is read from here on. -/
def OpenFile.reader (f : OpenFile) : List Arrival := (f.content.drop f.pos).map .byte

/-- The file after reads that have left `rest`. -/
def OpenFile.after (f : OpenFile) (rest : List Arrival) : OpenFile :=
  { f with pos := f.content.length - rest.length }

/-- What the loop looks at: whether `speed > 0.0`, `loop_mode`, and whether the program was built
with overflow checks. -/
structure Args where
  paced : Bool
  loopMode : Bool
  overflowChecks : Bool

/-- The outcome of a `write_all` to the client: `some (n, e)` fails after at most `n` bytes. -/
abbrev ClientWrite := Option (Nat × ErrorKind)

/-- What one iteration meets: the outcomes of its seek and of its write, if it makes them. -/
structure Env where
  seek : Except ErrorKind Unit
  write : ClientWrite

/-- The variables of the loop, the bytes that the client's socket has taken, the operands of the
timestamp subtractions, and whether one of these has stopped the program. -/
structure Replay where
  file : OpenFile
  firstChunkOffset : Nat
  prevTimestamp : Option UInt64
  clientQuit : Bool
  sent : List UInt8
  subtractions : List (UInt64 × UInt64)
  panicked : Bool
  deriving DecidableEq

/-- `HEADER_FIXED_SIZE` -/
def headerFixedSize : Nat := 12

/-- `client.write_all(data)` after `sent`. -/
def writeClient (sent data : List UInt8) : ClientWrite → Except ErrorKind Unit × List UInt8
  | none => (.ok (), sent ++ data)
  | some (n, e) => (.error e, sent ++ data.take n)

/-- The program up to its loop, with a client that connects; `positionKnown` is whether
`stream_position` succeeds. It exits when the header or the magic packet fails. -/
def start (content : List UInt8) (positionKnown : Bool) (magicWrite : ClientWrite) : Option Replay :=
  let file : OpenFile := ⟨content, 0⟩
  match readHeader file.reader with
  | (.error _, _) => none
  | (.ok header, rest) =>
    let file := file.after rest
    let firstChunkOffset := if positionKnown then file.pos else headerFixedSize + header.magicPayload.length
    match writeClient [] header.magicPayload magicWrite with
    | (.error _, _) => none
    | (.ok (), sent) => some ⟨file, firstChunkOffset, none, false, sent, [], false⟩

/-- The pause before a chunk. The difference of the timestamps is unsigned: an underflow panics
with overflow checks, and wraps around without. How long the pause is has no effect. -/
def pace (args : Args) (s : Replay) (timestampNs : UInt64) : Flow × Replay :=
  if args.paced then
    match s.prevTimestamp with
    | none => (.again, { s with prevTimestamp := some timestampNs })
    | some prev =>
      let s := { s with subtractions := s.subtractions ++ [(timestampNs, prev)] }
      if args.overflowChecks && timestampNs < prev then (.leave, { s with panicked := true })
      else (.again, { s with prevTimestamp := some timestampNs })
  else (.again, s)

/-- An iteration that has read a chunk. -/
def send (args : Args) (s : Replay) (chunk : CaptureChunk) (write : ClientWrite) : Flow × Replay :=
  if s.clientQuit then (.leave, s)
  else
    match pace args s chunk.timestampNs with
    | (.leave, s) => (.leave, s)
    | (.again, s) =>
      match writeClient s.sent chunk.data write with
      | (.error _, sent) => (.leave, { s with sent := sent })
      | (.ok (), sent) => (.again, { s with sent := sent })

/-- An iteration that has met the end of the file. -/
def rewind (args : Args) (s : Replay) (seek : Except ErrorKind Unit) : Flow × Replay :=
  if args.loopMode then
    match seek with
    | .error _ => (.leave, s)
    | .ok () => (.again, { s with file := { s.file with pos := s.firstChunkOffset }, prevTimestamp := none })
  else (.leave, s)

/-- One iteration of the loop. -/
def turn (args : Args) (s : Replay) (env : Env) : Flow × Replay :=
  match readChunk s.file.reader with
  | (.ok (some chunk), rest) => send args { s with file := s.file.after rest } chunk env.write
  | (.ok none, rest) => rewind args { s with file := s.file.after rest } env.seek
  | (.error _, rest) => (.leave, { s with file := s.file.after rest })

/-! ## The file under the loop -/

/-- The bytes that are left are found again after a read. -/
theorem OpenFile.after_suffix {f : OpenFile} {bs : List UInt8} (suffix : bs <:+ f.content) :
    (f.after (bs.map .byte)).content.drop (f.after (bs.map .byte)).pos = bs := by
  simp only [OpenFile.after, List.length_map]
  exact (List.suffix_iff_eq_drop.1 suffix).symm

/-- The replay of `whole` is about to read `todo`; `tail` is too short to be read as a chunk. -/
structure Playing (whole : List CaptureChunk) (tail : List UInt8) (s : Replay) (todo : List CaptureChunk) : Prop where
  unread : s.file.content.drop s.file.pos = todo.flatMap (·.bytes) ++ tail
  first : s.file.content.drop s.firstChunkOffset = whole.flatMap (·.bytes) ++ tail
  fits : ∀ chunk ∈ todo, chunk.data.length < 2 ^ 32
  wholeFits : ∀ chunk ∈ whole, chunk.data.length < 2 ^ 32
  short : tail.length < 8
  running : s.clientQuit = false

section Turns
variable {whole todo : List CaptureChunk} {tail : List UInt8} {s : Replay} {chunk : CaptureChunk}

theorem Playing.suffix (playing : Playing whole tail s todo) : todo.flatMap (·.bytes) ++ tail <:+ s.file.content := by
  rw [← playing.unread]
  exact List.drop_suffix ..

/-- With a chunk to read, the turn sends it. -/
theorem Playing.turn_chunk (playing : Playing whole tail s (chunk :: todo)) (args : Args) (env : Env) :
    ∃ file, turn args s env = send args { s with file := file } chunk env.write ∧
      Playing whole tail { s with file := file } todo := by
  have taken := readChunk_bytes (playing.fits chunk (List.mem_cons_self ..)) ((todo.flatMap (·.bytes) ++ tail).map .byte)
  have reader : s.file.reader = chunk.bytes.map .byte ++ (todo.flatMap (·.bytes) ++ tail).map .byte := by
    rw [OpenFile.reader, playing.unread, List.flatMap_cons, List.append_assoc, List.map_append]
  have rest : todo.flatMap (·.bytes) ++ tail <:+ s.file.content := by
    refine List.IsSuffix.trans ?_ playing.suffix
    rw [List.flatMap_cons, List.append_assoc]
    exact List.suffix_append ..
  refine ⟨s.file.after ((todo.flatMap (·.bytes) ++ tail).map .byte), ?_, ?_⟩
  · simp only [turn, reader, taken]
  · exact ⟨OpenFile.after_suffix rest, playing.first, fun c member => playing.fits c (List.mem_cons_of_mem _ member),
      playing.wholeFits, playing.short, playing.running⟩

/-- With no chunk left, the turn goes back to the first one or ends the loop. -/
theorem Playing.turn_end (playing : Playing whole tail s []) (args : Args) (env : Env) :
    ∃ file, turn args s env = rewind args { s with file := file } env.seek ∧
      Playing whole tail { s with file := { file with pos := s.firstChunkOffset } } whole := by
  have ended := readChunk_short playing.short
  have reader : s.file.reader = tail.map .byte := by
    rw [OpenFile.reader, playing.unread, List.flatMap_nil, List.nil_append]
  refine ⟨s.file.after [], ?_, ?_⟩
  · simp only [turn, reader, ended]
  · exact ⟨playing.first, playing.first, playing.wholeFits, playing.wholeFits, playing.short, playing.running⟩

/-- A timestamp that is not smaller than the one before it is waited for. -/
theorem pace_steady (args : Args) (timestampNs : UInt64) (later : ∀ prev ∈ s.prevTimestamp, prev ≤ timestampNs) :
    ∃ prev subtractions, pace args s timestampNs =
        (.again, { s with prevTimestamp := prev, subtractions := s.subtractions ++ subtractions }) ∧
      prev.toList.Sublist (s.prevTimestamp.toList ++ [timestampNs]) ∧ ∀ p ∈ subtractions, p.2 ≤ p.1 := by
  unfold pace
  split
  · split
    · rename_i first
      exact ⟨some timestampNs, [], by simp, by simp [first], by simp⟩
    · rename_i prev known
      have order : prev ≤ timestampNs := later prev known
      have checked : (args.overflowChecks && decide (timestampNs < prev)) = false := by
        simp [UInt64.not_lt.2 order]
      refine ⟨some timestampNs, [(timestampNs, prev)], ?_, by simp [known], by simpa using order⟩
      simp only [checked, Bool.false_eq_true, if_false]
  · exact ⟨s.prevTimestamp, [], by simp, List.sublist_append_left .., by simp⟩

/-- The replay is where `Playing` says, no timestamp that is still to come is smaller than an
earlier one or than the last that was sent, and all has gone well so far. -/
structure Steady (whole : List CaptureChunk) (tail : List UInt8) (s : Replay) (todo : List CaptureChunk) : Prop
    extends Playing whole tail s todo where
  order : (s.prevTimestamp.toList ++ todo.map (·.timestampNs)).Pairwise (· ≤ ·)
  safe : ∀ p ∈ s.subtractions, p.2 ≤ p.1
  fine : s.panicked = false

/-- A turn that reads a chunk sends it, and goes on if the client takes it. -/
theorem Steady.turn_chunk (steady : Steady whole tail s (chunk :: todo)) (args : Args) (env : Env) :
    ∃ s', turn args s env = (if env.write.isNone then .again else .leave, s') ∧ Steady whole tail s' todo ∧
      s'.sent = (writeClient s.sent chunk.data env.write).2 := by
  obtain ⟨file, taken, playing⟩ := steady.toPlaying.turn_chunk args env
  have order := steady.order
  simp only [List.map_cons, List.pairwise_append, List.pairwise_cons] at order
  obtain ⟨prev, subtractions, paced, sub, safe⟩ := pace_steady (s := { s with file := file }) args
    chunk.timestampNs fun prev known => order.2.2 prev (Option.mem_toList.2 known) _ (List.mem_cons_self ..)
  have next : Steady whole tail { s with
      file := file, prevTimestamp := prev, subtractions := s.subtractions ++ subtractions
      sent := (writeClient s.sent chunk.data env.write).2 } todo := by
    refine ⟨⟨playing.unread, playing.first, playing.fits, playing.wholeFits, playing.short, playing.running⟩, ?_, ?_,
      steady.fine⟩
    · have earlier := steady.order
      rw [List.map_cons, List.append_cons] at earlier
      exact earlier.sublist (sub.append (List.Sublist.refl _))
    · intro p member
      rcases List.mem_append.1 member with old | new
      · exact steady.safe p old
      · exact safe p new
  refine ⟨_, ?_, next, rfl⟩
  rw [taken]
  unfold send
  rw [if_neg (Bool.eq_false_iff.1 playing.running), paced]
  rcases env.write with _ | ⟨n, e⟩ <;> rfl

/-- A turn that meets the end of the file starts over, or ends the loop. -/
theorem Steady.turn_end (steady : Steady whole tail s []) (ordered : (whole.map (·.timestampNs)).Pairwise (· ≤ ·))
    (args : Args) (env : Env) :
    (args.loopMode = true ∧ env.seek = .ok () ∧
      ∃ s', turn args s env = (.again, s') ∧ Steady whole tail s' whole ∧ s'.sent = s.sent) ∨
    (¬(args.loopMode = true ∧ env.seek = .ok ()) ∧
      ∃ file, turn args s env = (.leave, { s with file := file })) := by
  obtain ⟨file, taken, playing⟩ := steady.toPlaying.turn_end args env
  rw [taken]
  unfold rewind
  cases looping : args.loopMode with
  | false => exact .inr ⟨by simp, file, rfl⟩
  | true =>
    cases sought : env.seek with
    | error e => exact .inr ⟨by simp, file, rfl⟩
    | ok done =>
      refine .inl ⟨rfl, rfl, _, rfl, ⟨?_, ?_, steady.safe, steady.fine⟩, rfl⟩
      · exact ⟨playing.unread, playing.first, playing.fits, playing.wholeFits, playing.short, playing.running⟩
      · simpa using ordered

end Turns

/-! ## Whole replays -/

section Runs
variable {whole : List CaptureChunk} {tail : List UInt8} (ordered : (whole.map (·.timestampNs)).Pairwise (· ≤ ·))
include ordered

/-- No subtraction of a replay underflows when the timestamps do not decrease. -/
theorem Steady.loop_safe (args : Args) (envs : List Env) {s : Replay} {todo : List CaptureChunk}
    (steady : Steady whole tail s todo) :
    (∀ p ∈ (loop (turn args) s envs).subtractions, p.2 ≤ p.1) ∧ (loop (turn args) s envs).panicked = false := by
  induction envs generalizing s todo with
  | nil => exact ⟨steady.safe, steady.fine⟩
  | cons env envs ih =>
    cases todo with
    | nil =>
      rcases steady.turn_end ordered args env with ⟨-, -, s', taken, next, -⟩ | ⟨-, file, taken⟩
      · rw [loop_again taken]
        exact ih next
      · rw [loop_leave taken]
        exact ⟨steady.safe, steady.fine⟩
    | cons chunk todo =>
      obtain ⟨s', taken, next, -⟩ := steady.turn_chunk args env
      cases accepted : env.write.isNone with
      | true =>
        rw [accepted] at taken
        rw [loop_again taken]
        exact ih next
      | false =>
        rw [accepted] at taken
        rw [loop_leave taken]
        exact ⟨next.safe, next.fine⟩

/-- Without `--loop` the chunks are sent once, and the loop ends. -/
theorem Steady.loop_once {args : Args} (once : args.loopMode = false) {envs : List Env}
    (writes : ∀ env ∈ envs, env.write = none) {s : Replay} {todo : List CaptureChunk} (steady : Steady whole tail s todo)
    (enough : todo.length < envs.length) :
    (loop (turn args) s envs).sent = s.sent ++ todo.flatMap (·.data) ∧
      leftAfter (turn args) s envs = some (todo.length + 1) := by
  induction envs generalizing s todo with
  | nil => exact absurd enough (Nat.not_lt_zero _)
  | cons env envs ih =>
    cases todo with
    | nil =>
      rcases steady.turn_end ordered args env with ⟨looping, -⟩ | ⟨-, file, taken⟩
      · exact absurd looping (by simp [once])
      · rw [loop_leave taken]
        simp [leftAfter, taken]
    | cons chunk todo =>
      obtain ⟨s', taken, next, sent⟩ := steady.turn_chunk args env
      rw [writes env (List.mem_cons_self ..)] at taken sent
      obtain ⟨rest, left⟩ := ih (fun e member => writes e (List.mem_cons_of_mem _ member)) next
        (Nat.lt_of_succ_lt_succ enough)
      have again : turn args s env = (.again, s') := taken
      constructor
      · rw [loop_again again, rest, sent]
        simp [writeClient]
      · simp [leftAfter, again, left]

/-- With `--loop`, what has been sent is some whole passes and the first chunks of the next one. -/
theorem Steady.loop_passes {args : Args} (looping : args.loopMode = true) {envs : List Env}
    (writes : ∀ env ∈ envs, env.write = none) (magic : List UInt8) {s : Replay} {front todo : List CaptureChunk} {q : Nat}
    (steady : Steady whole tail s todo) (split : whole = front ++ todo)
    (sent : s.sent = magic ++ (List.replicate q (whole.flatMap (·.data))).flatten ++ front.flatMap (·.data)) :
    ∃ q' i, i ≤ whole.length ∧ (loop (turn args) s envs).sent =
        magic ++ (List.replicate q' (whole.flatMap (·.data))).flatten ++ (whole.take i).flatMap (·.data) ∧
      ((∀ env ∈ envs, env.seek = .ok ()) → leftAfter (turn args) s envs = none ∧
        q' * (whole.length + 1) + i = q * (whole.length + 1) + front.length + envs.length) := by
  induction envs generalizing s front todo q with
  | nil =>
    refine ⟨q, front.length, ?_, ?_, fun _ => ⟨rfl, rfl⟩⟩
    · simp [split]
    · have taken : whole.take front.length = front := by rw [split, List.take_left]
      rw [taken]
      exact sent
  | cons env envs ih =>
    have writes' := fun e member => writes e (List.mem_cons_of_mem _ member)
    cases todo with
    | nil =>
      rw [List.append_nil] at split
      subst split
      rcases steady.turn_end ordered args env with ⟨-, -, s', taken, next, same⟩ | ⟨stop, file, taken⟩
      · -- the seam: the pass that has just ended becomes one of the whole passes
        have fresh : s'.sent = magic ++ (List.replicate (q + 1) (whole.flatMap (·.data))).flatten ++
            ([] : List CaptureChunk).flatMap (·.data) := by
          rw [same, sent, List.replicate_succ', List.flatten_append]
          simp
        obtain ⟨q', i, most, rest, count⟩ := ih writes' next (List.nil_append _).symm fresh
        refine ⟨q', i, most, by rw [loop_again taken]; exact rest, fun seeks => ?_⟩
        obtain ⟨left, turns⟩ := count fun e member => seeks e (List.mem_cons_of_mem _ member)
        refine ⟨by simp [leftAfter, taken, left], ?_⟩
        rw [turns, Nat.add_mul, List.length_nil, List.length_cons]
        omega
      · refine ⟨q, whole.length, Nat.le_refl _, ?_, fun seeks => ?_⟩
        · rw [loop_leave taken, List.take_length]
          exact sent
        · exact absurd ⟨looping, seeks env (List.mem_cons_self ..)⟩ stop
    | cons chunk todo =>
      obtain ⟨s', taken, next, more⟩ := steady.turn_chunk args env
      rw [writes env (List.mem_cons_self ..)] at taken more
      have again : turn args s env = (.again, s') := taken
      have longer : s'.sent = magic ++ (List.replicate q (whole.flatMap (·.data))).flatten ++
          (front ++ [chunk]).flatMap (·.data) := by
        rw [more, sent]
        simp [writeClient]
      obtain ⟨q', i, most, rest, count⟩ := ih writes' next (by rw [split, List.append_cons]) longer
      refine ⟨q', i, most, by rw [loop_again again]; exact rest, fun seeks => ?_⟩
      obtain ⟨left, turns⟩ := count fun e member => seeks e (List.mem_cons_of_mem _ member)
      refine ⟨by simp [leftAfter, again, left], ?_⟩
      rw [turns, List.length_append, List.length_cons, List.length_cons, List.length_nil]
      omega

end Runs

/-! ## Accepted files -/

/-- Behind an accepted header the loop starts at its end, unless the magic packet fails. -/
theorem start_accepted {content : List UInt8} {header : CaptureHeader} {rest : List Arrival}
    (accepted : readHeader (content.map .byte) = (.ok header, rest)) (positionKnown : Bool) (write : ClientWrite) :
    start content positionKnown write =
      if write.isNone then
        some ⟨⟨content, 12 + header.magicPayload.length⟩, 12 + header.magicPayload.length, none, false,
          header.magicPayload, [], false⟩
      else none := by
  obtain ⟨room, rfl⟩ := readHeader_plain accepted
  have front : content.length - (content.drop (12 + header.magicPayload.length)).length =
      12 + header.magicPayload.length := by
    rw [List.length_drop]
    omega
  -- the position and its stand-in are the same
  have offset : (if positionKnown then 12 + header.magicPayload.length
      else headerFixedSize + header.magicPayload.length) = 12 + header.magicPayload.length := ite_self _
  simp only [start, OpenFile.reader, OpenFile.after, List.drop_zero, accepted, List.length_map, front, offset]
  rcases write with _ | ⟨n, e⟩ <;> rfl

/-- The replay of an accepted file starts with its first chunk, and goes back to it later. -/
theorem start_playing {content : List UInt8} {header : CaptureHeader} {chunks : List CaptureChunk}
    (accepted : decode content = some (.ok (header, chunks))) (positionKnown : Bool) :
    ∃ r tail, Playing chunks tail r chunks ∧ r.prevTimestamp = none ∧ r.sent = header.magicPayload ∧
      r.subtractions = [] ∧ r.panicked = false ∧ start content positionKnown none = some r ∧
      ∀ write r', start content positionKnown write = some r' → r' = r := by
  obtain ⟨body, tail, dropped, room, known, whole, short, fits⟩ := decode_ok accepted
  have drop : content.drop (12 + header.magicPayload.length) = chunks.flatMap (·.bytes) ++ tail := by
    rw [dropped, whole]
  refine ⟨⟨⟨content, 12 + header.magicPayload.length⟩, 12 + header.magicPayload.length, none, false,
    header.magicPayload, [], false⟩, tail, ⟨drop, drop, fits, fits, short, rfl⟩, rfl, rfl, rfl, rfl, ?_, ?_⟩
  · rw [start_accepted known]
    rfl
  · intro write r' begun
    rw [start_accepted known, Option.ite_none_right_eq_some] at begun
    exact (Option.some.inj begun.2).symm

/-- A replay forgets no subtraction. -/
theorem turn_subtractions (args : Args) (s : Replay) (env : Env) :
    s.subtractions <+: (turn args s env).2.subtractions := by
  have paced : ∀ (s : Replay) ts, s.subtractions <+: (pace args s ts).2.subtractions := by
    intro s ts
    unfold pace
    split
    · split
      · exact List.prefix_refl _
      · dsimp only
        split <;> exact List.prefix_append ..
    · exact List.prefix_refl _
  unfold turn
  split
  · rename_i chunk rest _
    have kept := paced { s with file := s.file.after rest } chunk.timestampNs
    unfold send
    split
    · exact List.prefix_refl _
    · rcases outcome : pace args { s with file := s.file.after rest } chunk.timestampNs with ⟨_ | _, s'⟩
      · rw [outcome] at kept
        dsimp only
        split <;> exact kept
      · rw [outcome] at kept
        exact kept
  · unfold rewind
    split
    · split <;> exact List.prefix_refl _
    · exact List.prefix_refl _
  · exact List.prefix_refl _

/-- A paced turn sends its chunk after a subtraction, unless that one has underflowed. -/
theorem send_paced {args : Args} (paced : args.paced = true) {s : Replay} (running : s.clientQuit = false)
    (chunk : CaptureChunk) :
    (s.prevTimestamp = none ∧ send args s chunk none =
      (.again, { s with prevTimestamp := some chunk.timestampNs, sent := s.sent ++ chunk.data })) ∨
    ∃ prev, s.prevTimestamp = some prev ∧
      let subtractions := s.subtractions ++ [(chunk.timestampNs, prev)]
      (send args s chunk none = (.again, { s with
        prevTimestamp := some chunk.timestampNs, sent := s.sent ++ chunk.data, subtractions := subtractions }) ∨
      chunk.timestampNs < prev ∧
        send args s chunk none = (.leave, { s with subtractions := subtractions, panicked := true })) := by
  unfold send pace
  rw [if_neg (Bool.eq_false_iff.1 running), if_pos paced]
  rcases s.prevTimestamp with _ | prev
  · exact .inl ⟨rfl, rfl⟩
  · refine .inr ⟨prev, rfl, ?_⟩
    by_cases underflow : (args.overflowChecks && decide (chunk.timestampNs < prev)) = true
    · refine .inr ⟨of_decide_eq_true (Bool.and_eq_true_iff.1 underflow).2, ?_⟩
      simp only [underflow, if_true]
    · refine .inl ?_
      simp only [underflow, Bool.false_eq_true, if_false, writeClient]

/-- A replay in which no subtraction underflows has met no decreasing timestamp. -/
theorem chain_of_safe {args : Args} (paced : args.paced = true) {whole : List CaptureChunk} {tail : List UInt8}
    {s : Replay} {todo : List CaptureChunk} (playing : Playing whole tail s todo)
    (safe : ∀ p ∈ (loop (turn args) s (List.replicate todo.length ⟨.ok (), none⟩)).subtractions, p.2 ≤ p.1) :
    (s.prevTimestamp.toList ++ todo.map (·.timestampNs)).IsChain (· ≤ ·) := by
  induction todo generalizing s with
  | nil => rcases s.prevTimestamp with _ | prev <;> simp
  | cons chunk todo ih =>
    obtain ⟨file, taken, next⟩ := playing.turn_chunk args ⟨.ok (), none⟩
    rw [List.length_cons, List.replicate_succ] at safe
    rcases send_paced paced next.running chunk with ⟨known, sent⟩ | ⟨prev, known, sent | ⟨underflow, panicked⟩⟩
    · have first : s.prevTimestamp = none := known
      rw [loop_again (taken.trans sent)] at safe
      rw [first]
      refine ih ?_ safe
      exact ⟨next.unread, next.first, next.fits, next.wholeFits, next.short, next.running⟩
    · have later : s.prevTimestamp = some prev := known
      rw [loop_again (taken.trans sent)] at safe
      have order : prev ≤ chunk.timestampNs := by
        apply safe (chunk.timestampNs, prev)
        refine loop_invariant (I := fun t : Replay => (chunk.timestampNs, prev) ∈ t.subtractions)
          (fun s env member => ?_) ?_
        · exact (turn_subtractions args s env).subset member
        · exact List.mem_append_right _ (List.mem_singleton_self _)
      rw [later]
      refine List.isChain_cons_cons.2 ⟨order, ih ?_ safe⟩
      exact ⟨next.unread, next.first, next.fits, next.wholeFits, next.short, next.running⟩
    · -- the panic leaves the loop with the subtraction in its log
      rw [loop_leave (taken.trans panicked)] at safe
      have order := safe (chunk.timestampNs, prev) (List.mem_append_right _ (List.mem_singleton_self _))
      exact absurd underflow (UInt64.not_lt.2 order)

/-- **When the timing arithmetic is safe.** For every accepted file, with pacing and with or
without `--loop`: no subtraction of any replay underflows exactly when no chunk of the file has a
smaller timestamp than the chunk before it. -/
theorem replay_timing_iff (content : List UInt8) (header : CaptureHeader) (chunks : List CaptureChunk)
    (accepted : decode content = some (.ok (header, chunks))) (args : Args) (paced : args.paced = true) :
    (∀ positionKnown write r envs, start content positionKnown write = some r →
      ∀ p ∈ (loop (turn args) r envs).subtractions, p.2 ≤ p.1) ↔
    (chunks.map (·.timestampNs)).IsChain (· ≤ ·) := by
  constructor
  · intro safe
    obtain ⟨r, tail, playing, fresh, -, -, -, begun, -⟩ := start_playing accepted true
    have chain := chain_of_safe paced playing (safe true none r _ begun)
    rwa [fresh] at chain
  · intro chain positionKnown write r envs begun
    have ordered := List.isChain_iff_pairwise.1 chain
    obtain ⟨r', tail, playing, fresh, -, unused, fine, -, same⟩ := start_playing accepted positionKnown
    rw [same write r begun]
    have steady : Steady chunks tail r' chunks := by
      refine ⟨playing, ?_, by simp [unused], fine⟩
      rw [fresh]
      exact ordered
    exact (steady.loop_safe ordered args envs).1

/-- Two chunks with the same timestamp. -/
theorem equal_timestamps_replay_safely :
    let content := encodeFile ⟨[7]⟩ [⟨5, [1]⟩, ⟨5, [2]⟩]
    decode content = some (.ok (⟨[7]⟩, [⟨5, [1]⟩, ⟨5, [2]⟩])) ∧
      ∀ positionKnown write r envs, start content positionKnown write = some r →
        ∀ p ∈ (loop (turn ⟨true, true, true⟩) r envs).subtractions, p.2 ≤ p.1 := by
  have accepted : decode (encodeFile ⟨[7]⟩ [⟨5, [1]⟩, ⟨5, [2]⟩]) = some (.ok (⟨[7]⟩, [⟨5, [1]⟩, ⟨5, [2]⟩])) := by decide
  exact ⟨accepted, (replay_timing_iff _ _ _ accepted ⟨true, true, true⟩ rfl).2 (by decide)⟩

/-- A file whose second chunk is older than its first is accepted, and its replay underflows. -/
theorem older_chunk_underflows :
    ¬∀ (content : List UInt8) (header : CaptureHeader) (chunks : List CaptureChunk),
      decode content = some (.ok (header, chunks)) → ∀ args : Args, args.paced = true →
        ∀ positionKnown write r envs, start content positionKnown write = some r →
          ∀ p ∈ (loop (turn args) r envs).subtractions, p.2 ≤ p.1 := by
  intro safe
  have closed : (start (encodeFile ⟨[7]⟩ [⟨5, [1]⟩, ⟨4, [2]⟩]) true none).map
      (fun r => (loop (turn ⟨true, false, true⟩) r [⟨.ok (), none⟩, ⟨.ok (), none⟩]).subtractions) = some [(4, 5)] := by
    decide
  obtain ⟨r, begun, log⟩ := Option.map_eq_some_iff.1 closed
  have accepted : decode (encodeFile ⟨[7]⟩ [⟨5, [1]⟩, ⟨4, [2]⟩]) = some (.ok (⟨[7]⟩, [⟨5, [1]⟩, ⟨4, [2]⟩])) := by decide
  have order := safe _ _ _ accepted ⟨true, false, true⟩ rfl true none r
    [⟨.ok (), none⟩, ⟨.ok (), none⟩] begun
  rw [log] at order
  exact absurd (order (4, 5) (List.mem_singleton_self _)) (by decide)

/-! ## Behind the capture tool -/

/-- **Replay reproduces the capture.** For the file of every capture run whose writes succeeded,
with or without pacing and whatever the client's and the file's timing, as long as the client's
writes succeed: no subtraction underflows; without `--loop` the magic packet and the captured data
are sent and the loop ends; with `--loop` it has after any number of iterations sent the magic
packet, the data some number of times, and the data of the first reads once more, and it has used
one iteration for each read and one for each seam. The captured data are the bytes that the capture
has read, in order. -/
theorem replay_reproduces_capture (captureArgs : CaptureTool.Args) (stream : List Arrival) (faults : List (Option Nat))
    (s : CaptureTool.Capture) (begun : CaptureTool.start stream faults = some s) (captureEnvs : List CaptureTool.Env)
    (clock : CaptureTool.ClockNonDecreasing captureEnvs)
    (succeeded : (CaptureTool.run captureArgs s captureEnvs).writeErrors = []) (args : Args) (positionKnown : Bool) :
    let done := CaptureTool.run captureArgs s captureEnvs
    let chunks := CaptureTool.received captureArgs.duration s.stream captureEnvs
    let D := chunks.flatMap (·.data)
    ∃ magicPayload r, readExact 12 stream = (.ok magicPayload, s.stream) ∧
      bytesOf s.stream = D ++ bytesOf done.stream ∧ chunks.map (·.data) = done.delivered ∧
      start done.file.content positionKnown none = some r ∧
      ∀ envs : List Env, (∀ env ∈ envs, env.write = none) →
        let t := loop (turn args) r envs
        (∀ p ∈ t.subtractions, p.2 ≤ p.1) ∧ t.panicked = false ∧
        (args.loopMode = false → chunks.length < envs.length →
          t.sent = magicPayload.toList ++ D ∧ leftAfter (turn args) r envs = some (chunks.length + 1)) ∧
        (args.loopMode = true → ∃ q i, i ≤ chunks.length ∧
          t.sent = magicPayload.toList ++ (List.replicate q D).flatten ++ (chunks.take i).flatMap (·.data) ∧
          ((∀ env ∈ envs, env.seek = .ok ()) → leftAfter (turn args) r envs = none ∧
            q * (chunks.length + 1) + i = envs.length)) := by
  obtain ⟨magicPayload, packet, decoded, data⟩ := CaptureTool.run_decodes captureArgs begun succeeded
  have reads := CaptureTool.run_reads captureArgs begun succeeded
  have sorted : (CaptureTool.received captureArgs.duration s.stream captureEnvs).Pairwise fun a b =>
      a.timestampNs ≤ b.timestampNs := CaptureTool.received_sorted clock
  dsimp only
  generalize CaptureTool.received captureArgs.duration s.stream captureEnvs = chunks at decoded data reads sorted ⊢
  have ordered : (chunks.map (·.timestampNs)).Pairwise (· ≤ ·) := List.pairwise_map.2 sorted
  obtain ⟨r, tail, playing, fresh, sent, unused, fine, started, -⟩ := start_playing decoded positionKnown
  have steady : Steady chunks tail r chunks := by
    refine ⟨playing, ?_, by simp [unused], fine⟩
    rw [fresh]
    exact ordered
  refine ⟨magicPayload, r, packet, reads, data, started, fun envs writes => ?_⟩
  obtain ⟨safe, calm⟩ := steady.loop_safe ordered args envs
  refine ⟨safe, calm, fun once enough => ?_, fun looping => ?_⟩
  · obtain ⟨all, left⟩ := steady.loop_once ordered once writes enough
    rw [all, sent]
    exact ⟨rfl, left⟩
  · obtain ⟨q, i, most, all, count⟩ := steady.loop_passes ordered looping writes magicPayload.toList (q := 0)
      (List.nil_append _).symm (by simp [sent])
    refine ⟨q, i, most, all, fun seeks => ?_⟩
    obtain ⟨left, turns⟩ := count seeks
    exact ⟨left, by simpa using turns⟩

/-- The capture of two chunks, played once. -/
theorem short_capture_replayed :
    let envs : List CaptureTool.Env := [⟨false, 0, 9, 100⟩, ⟨false, 150, 9, 150⟩, ⟨false, 200, 9, 250⟩]
    let done := CaptureTool.run ⟨10, 16⟩ CaptureTool.shortCapture envs
    done.delivered = [[1, 2], [3]] ∧ ∃ r, start done.file.content true none = some r ∧
      (loop (turn ⟨true, false, true⟩) r (List.replicate 3 ⟨.ok (), none⟩)).sent = magicPacket.toList ++ [1, 2, 3] := by
  have begun : CaptureTool.start CaptureTool.shortStream [] = some CaptureTool.shortCapture := by decide
  have received : CaptureTool.received 10 CaptureTool.shortCapture.stream
      [⟨false, 0, 9, 100⟩, ⟨false, 150, 9, 150⟩, ⟨false, 200, 9, 250⟩] = [⟨100, [1, 2]⟩, ⟨250, [3]⟩] := by decide
  obtain ⟨magicPayload, r, packet, -, delivered, started, replayed⟩ := replay_reproduces_capture ⟨10, 16⟩ CaptureTool.shortStream
    [] CaptureTool.shortCapture begun [⟨false, 0, 9, 100⟩, ⟨false, 150, 9, 150⟩, ⟨false, 200, 9, 250⟩]
    ⟨by decide, by decide⟩ (by decide) ⟨true, false, true⟩ true
  have known : readExact 12 CaptureTool.shortStream = (.ok magicPacket, CaptureTool.shortCapture.stream) := by decide
  obtain ⟨same, -⟩ := Prod.mk.inj (known.symm.trans packet)
  obtain ⟨-, -, once, -⟩ := replayed (List.replicate 3 ⟨.ok (), none⟩) (by decide)
  rw [received] at delivered once
  refine ⟨delivered.symm, r, started, ?_⟩
  rw [(once rfl (by decide)).1, ← Except.ok.inj same]
  rfl

end RtlTcp.ReplayTool
