import RtlTcp.Replay
import RtlTcp.ReplayTool

/-!
# `bin/replay.rs`: what ends a replay

The main thread of the tool and its command reader, and a client that goes away. The flag
`client_quit` is stored by the main thread after its loop and by nobody else, so a client that is
gone ends the loop only through a write that fails. `replay_ends_iff` says when there is one.
-/

namespace RtlTcp.ReplayTool
set_option autoImplicit false
open ByteIo Transition

/-- The two threads: the loop of `main` and whether it is still in it, the command reader and
whether it is still in its loop, and whether it has logged that the client has disconnected. -/
structure Process where
  replay : Replay
  replaying : Bool
  commands : Replay.CmdThread
  reading : Bool
  disconnectLogged : Bool

/-- The threads when the loop starts. -/
def spawn (r : Replay) (stream : List Arrival) : Process := ⟨r, true, ⟨stream, []⟩, true, false⟩

/-- The command reader meets the end of the connection. -/
def meetsDisconnect (t : Replay.CmdThread) : Bool :=
  match (readExact commandHeaderSize t.stream).1 with
  | .error e => Replay.isDisconnectErr e
  | .ok _ => false

/-- Which thread moves next. -/
inductive Act where
  | replay (env : Env)
  | command

/-- One iteration of either loop. When `main` leaves its loop it stores `client_quit`; a panic
passes by the store. -/
def step (args : Args) (p : Process) : Act → Option Process
  | .replay env =>
    if p.replaying then
      match turn args p.replay env with
      | (.again, r) => some { p with replay := r }
      | (.leave, r) =>
        some { p with replay := if r.panicked then r else { r with clientQuit := true }, replaying := false }
    else none
  | .command =>
    if p.reading then
      match p.commands.turn p.replay.clientQuit with
      | (.again, t) => some { p with commands := t }
      | (.leave, t) => some { p with commands := t, reading := false, disconnectLogged := meetsDisconnect p.commands }
    else none

/-- How a client that is gone answers: `write_all` has nothing to write of an empty chunk and
succeeds, and the write of any other fails with a disconnect. -/
def Gone (s : Replay) (env : Env) : Prop :=
  ∀ chunk rest, readChunk s.file.reader = (.ok (some chunk), rest) →
    match env.write with
    | none => chunk.data = []
    | some (_, e) => chunk.data ≠ [] ∧ Replay.isDisconnectErr e = true

/-- Whatever has happened before, once the client is gone and the command reader has logged it the
loop is left after finitely many iterations. -/
def EndsWhenGone (args : Args) (content : List UInt8) : Prop :=
  ∀ positionKnown magicWrite r, start content positionKnown magicWrite = some r →
    ∀ stream before p, run (step args) (spawn r stream) before = some p → p.replaying = true →
      p.disconnectLogged = true →
        ∃ N, ∀ envs, N ≤ envs.length → Throughout (turn args) Gone p.replay envs →
          ∃ n ≤ N, leftAfter (turn args) p.replay envs = some n

/-- With `--loop`, a whole file that has no data in it, and no timestamps that stop the program. -/
def NothingToSend (args : Args) (content : List UInt8) : Prop :=
  args.loopMode = true ∧ ∃ header chunks, decode content = some (.ok (header, chunks)) ∧
    (∀ chunk ∈ chunks, chunk.data = []) ∧
    (args.paced = true → args.overflowChecks = true → (chunks.map (·.timestampNs)).IsChain (· ≤ ·))

/-! ## One iteration -/

/-- The timestamps to come do not stop the program: with pacing and overflow checks, none of them
is smaller than the one before it. -/
def Timely (args : Args) (prev : Option UInt64) (timestamps : List UInt64) : Prop :=
  args.paced = true → args.overflowChecks = true → (prev.toList ++ timestamps).IsChain (· ≤ ·)

/-- `prev_timestamp` after a chunk. -/
def remember (args : Args) (prev : Option UInt64) (timestampNs : UInt64) : Option UInt64 :=
  if args.paced then some timestampNs else prev

theorem timely_cons {args : Args} {prev : Option UInt64} {ts : UInt64} {later : List UInt64} :
    Timely args prev (ts :: later) ↔ Timely args prev [ts] ∧ Timely args (remember args prev ts) later := by
  unfold Timely remember
  constructor
  · intro timely
    refine ⟨fun paced checked => ?_, fun paced checked => ?_⟩
    · exact (List.isChain_split.1 (timely paced checked)).1
    · rw [if_pos paced]
      exact (List.isChain_split.1 (timely paced checked)).2
  · rintro ⟨first, rest⟩ paced checked
    have tail := rest paced checked
    rw [if_pos paced] at tail
    exact List.isChain_split.2 ⟨first paced checked, tail⟩

/-- A timestamp that is due in time is waited for. -/
theorem pace_timely {args : Args} {s : Replay} {ts : UInt64} (timely : Timely args s.prevTimestamp [ts]) :
    ∃ subtractions, pace args s ts =
      (.again, { s with prevTimestamp := remember args s.prevTimestamp ts, subtractions := subtractions }) := by
  unfold pace remember
  split
  · rename_i paced
    split
    · exact ⟨s.subtractions, rfl⟩
    · rename_i prev known
      have checked : (args.overflowChecks && decide (ts < prev)) = false := by
        rw [Bool.and_eq_false_imp]
        intro checked
        have chain := timely paced checked
        rw [known] at chain
        exact decide_eq_false (UInt64.not_lt.2 (List.isChain_cons_cons.1 chain).1)
      refine ⟨s.subtractions ++ [(ts, prev)], ?_⟩
      simp only [checked, Bool.false_eq_true, if_false]
  · exact ⟨s.subtractions, rfl⟩

/-- Any other stops the program. -/
theorem pace_late {args : Args} {s : Replay} {ts : UInt64} (late : ¬Timely args s.prevTimestamp [ts]) :
    ∃ s', pace args s ts = (.leave, s') := by
  simp only [Timely, Classical.not_imp] at late
  obtain ⟨paced, checked, late⟩ := late
  unfold pace
  rw [if_pos paced]
  split
  · rename_i first
    rw [first] at late
    exact absurd (List.isChain_singleton _) late
  · rename_i prev known
    rw [known] at late
    have smaller : ts < prev := by
      refine UInt64.not_le.1 fun order => late ?_
      exact List.isChain_cons_cons.2 ⟨order, List.isChain_singleton _⟩
    refine ⟨{ s with subtractions := s.subtractions ++ [(ts, prev)], panicked := true }, ?_⟩
    simp only [checked, smaller, decide_true, Bool.and_self, if_true]

/-- What is still to be read. -/
def Replay.unread (s : Replay) : List UInt8 := s.file.content.drop s.file.pos

/-- What the iterations leave alone. -/
structure Replay.Keeps (s s' : Replay) : Prop where
  content : s'.file.content = s.file.content
  first : s'.firstChunkOffset = s.firstChunkOffset
  quit : s'.clientQuit = s.clientQuit

theorem Replay.Keeps.trans {s s' s'' : Replay} (front : s.Keeps s') (back : s'.Keeps s'') : s.Keeps s'' :=
  ⟨back.content.trans front.content, back.first.trans front.first, back.quit.trans front.quit⟩

/-- **An iteration that is followed by another** has sent the chunk in front, or has gone back from
the end of the file to the first chunk. -/
theorem turn_again {args : Args} {s s' : Replay} {env : Env} (running : s.clientQuit = false)
    (taken : turn args s env = (.again, s')) :
    s.Keeps s' ∧
    ((∃ chunk rest, readChunk s.file.reader = (.ok (some chunk), rest) ∧ env.write = none ∧
      Timely args s.prevTimestamp [chunk.timestampNs] ∧ s.unread = chunk.bytes ++ s'.unread ∧
      s'.prevTimestamp = remember args s.prevTimestamp chunk.timestampNs) ∨
    (args.loopMode = true ∧ s.unread.length < 8 ∧ s'.unread = s.file.content.drop s.firstChunkOffset ∧
      s'.prevTimestamp = none)) := by
  unfold turn at taken
  split at taken
  · rename_i chunk rest read
    unfold send at taken
    rw [if_neg (Bool.eq_false_iff.1 running)] at taken
    by_cases timely : Timely args s.prevTimestamp [chunk.timestampNs]
    · obtain ⟨subtractions, paced⟩ := pace_timely (s := { s with file := s.file.after rest }) timely
      rw [paced] at taken
      rcases written : env.write with _ | ⟨n, e⟩
      · rw [written] at taken
        cases taken
        obtain ⟨-, left, front, rfl⟩ := readChunk_some read
        have suffix : left <:+ s.file.content := List.IsSuffix.trans ⟨_, front.symm⟩ (List.drop_suffix ..)
        refine ⟨⟨rfl, rfl, rfl⟩, .inl ⟨chunk, _, read, rfl, timely, ?_, rfl⟩⟩
        exact front.trans (congrArg _ (OpenFile.after_suffix suffix).symm)
      · rw [written] at taken
        cases taken
    · obtain ⟨s₁, paced⟩ := pace_late (s := { s with file := s.file.after rest }) timely
      rw [paced] at taken
      cases taken
  · rename_i rest read
    unfold rewind at taken
    split at taken
    · rename_i looping
      split at taken
      · cases taken
      · cases taken
        exact ⟨⟨rfl, rfl, rfl⟩, .inr ⟨looping, readChunk_none read, rfl, rfl⟩⟩
    · cases taken
  · cases taken

/-! ## A client that is gone -/

/-- **One pass with a client that is gone.** The loop is left within as many turns as there are
bytes to read, or it starts over, with `--loop`, after nothing but empty chunks. -/
theorem gone_pass {args : Args} {envs : List Env} {s : Replay} (running : s.clientQuit = false)
    (gone : Throughout (turn args) Gone s envs) (enough : s.unread.length < envs.length) :
    (∃ n ≤ s.unread.length + 1, leftAfter (turn args) s envs = some n) ∨
    (args.loopMode = true ∧ ∃ (chunks : List CaptureChunk) (tail : List UInt8),
      s.unread = chunks.flatMap (·.bytes) ++ tail ∧ tail.length < 8 ∧ (∀ chunk ∈ chunks, chunk.data = []) ∧
      Timely args s.prevTimestamp (chunks.map (·.timestampNs)) ∧
      ∃ k s', k ≤ s.unread.length + 1 ∧ s.Keeps s' ∧ s'.unread = s.file.content.drop s.firstChunkOffset ∧
        s'.prevTimestamp = none ∧ Throughout (turn args) Gone s' (envs.drop k) ∧
        leftAfter (turn args) s envs = (leftAfter (turn args) s' (envs.drop k)).map (· + k)) := by
  induction envs generalizing s with
  | nil => exact absurd enough (Nat.not_lt_zero _)
  | cons env envs ih =>
    obtain ⟨here, later⟩ := gone
    rcases taken : turn args s env with ⟨_ | _, s₁⟩
    · obtain ⟨kept, ⟨chunk, rest, read, accepted, timely, front, prev⟩ | ⟨looping, short, back, fresh⟩⟩ :=
        turn_again running taken
      · -- the chunk is empty, as its write has not failed
        have empty : chunk.data = [] := by simpa only [accepted] using here chunk rest read
        have stamp := eight_le_bytes chunk
        have lengths := congrArg List.length front
        rw [List.length_append] at lengths
        rw [List.length_cons] at enough
        rcases ih (kept.quit.trans running) (later _ taken) (by omega) with ⟨n, most, ended⟩ |
          ⟨looping, chunks, tail, whole, short, empties, timely', k, s', most, kept', back, fresh, gone', same⟩
        · refine .inl ⟨n + 1, by omega, ?_⟩
          rw [leftAfter_again taken, ended]
          rfl
        · rw [prev] at timely'
          rw [kept.content, kept.first] at back
          refine .inr ⟨looping, chunk :: chunks, tail, ?_, short, List.forall_mem_cons.2 ⟨empty, empties⟩,
            timely_cons.2 ⟨timely, timely'⟩, k + 1, s', by omega, kept.trans kept', back, fresh, gone', ?_⟩
          · rw [front, whole, List.flatMap_cons, List.append_assoc]
          · rw [leftAfter_again taken, same, Option.map_map]
            rfl
      · refine .inr ⟨looping, [], s.unread, rfl, short, by simp, fun _ _ => ?_, 1, s₁, Nat.le_add_left .., kept, back,
          fresh, later _ taken, leftAfter_again taken⟩
        rcases s.prevTimestamp with _ | prev <;> simp
    · exact .inl ⟨1, Nat.le_add_left .., leftAfter_leave taken⟩

/-- The loop starts with an accepted header, and goes back to what follows it. -/
theorem start_body {content : List UInt8} {positionKnown : Bool} {write : ClientWrite} {r : Replay}
    (begun : start content positionKnown write = some r) :
    r.clientQuit = false ∧ ∃ header,
      readHeader (content.map .byte) = (.ok header, (r.file.content.drop r.firstChunkOffset).map .byte) := by
  rcases known : readHeader (content.map .byte) with ⟨e | header, rest⟩
  · simp only [start, OpenFile.reader, List.drop_zero, known] at begun
    cases begun
  · rw [start_accepted known, Option.ite_none_right_eq_some] at begun
    obtain ⟨-, rfl⟩ := readHeader_plain known
    obtain rfl := Option.some.inj begun.2
    exact ⟨rfl, header, rfl⟩

/-- While `main` is in its loop, nobody has stored `client_quit`. -/
theorem replaying_keeps {args : Args} {r : Replay} {stream : List Arrival} {before : List Act} {p : Process}
    (running : r.clientQuit = false) (reached : run (step args) (spawn r stream) before = some p)
    (replaying : p.replaying = true) : r.Keeps p.replay := by
  refine run_invariant (I := fun p : Process => p.replaying = true → r.Keeps p.replay) ?_ (fun _ => ⟨rfl, rfl, rfl⟩)
    reached replaying
  intro p act p' kept taken replaying
  cases act with
  | replay env =>
    simp only [step] at taken
    split at taken
    · rename_i before
      split at taken
      · rename_i r' again
        cases taken
        have quit := (kept before).quit.trans running
        exact (kept before).trans (turn_again quit again).1
      · cases taken
        cases replaying
    · cases taken
  | command =>
    simp only [step] at taken
    split at taken
    · split at taken
      · cases taken
        exact kept replaying
      · cases taken
        exact kept replaying
    · cases taken

/-- Two passes end the loop, unless the file has nothing to send. -/
theorem ends_of_something {args : Args} {content : List UInt8} (something : ¬NothingToSend args content) :
    EndsWhenGone args content := by
  intro positionKnown magicWrite r begun stream before p reached replaying _
  obtain ⟨running, header, accepted⟩ := start_body begun
  have kept := replaying_keeps running reached replaying
  have quit := kept.quit.trans running
  refine ⟨p.replay.unread.length + 1 + ((r.file.content.drop r.firstChunkOffset).length + 1), fun envs enough gone => ?_⟩
  rcases gone_pass quit gone (by omega) with ⟨n, most, ended⟩ |
    ⟨looping, -, -, -, -, -, -, k, s, most, kept', back, fresh, gone', same⟩
  · exact ⟨n, by omega, ended⟩
  · rw [kept.content, kept.first] at back
    have room : (envs.drop k).length = envs.length - k := List.length_drop ..
    rcases gone_pass (kept'.quit.trans quit) gone' (by rw [back, room]; omega) with ⟨n, most', ended⟩ |
      ⟨-, chunks, tail, whole, short, empties, timely, -⟩
    · rw [back] at most'
      refine ⟨n + k, by omega, ?_⟩
      rw [same, ended]
      rfl
    · rw [back] at whole
      rw [fresh] at timely
      refine absurd ⟨looping, header, chunks, decode_of_header accepted ?_ whole short, empties, timely⟩ something
      intro chunk member
      rw [empties chunk member]
      decide

/-! ## A file with nothing to send -/

/-- The replay is about to read `todo` in a file with nothing to send. -/
structure Idle (args : Args) (whole : List CaptureChunk) (tail : List UInt8) (s : Replay) (todo : List CaptureChunk) :
    Prop extends Playing whole tail s todo where
  empty : ∀ chunk ∈ todo, chunk.data = []
  timely : Timely args s.prevTimestamp (todo.map (·.timestampNs))

section Idling
variable {args : Args} {whole todo : List CaptureChunk} {tail : List UInt8} {s : Replay}

/-- A client that is gone has no part in it. -/
theorem Idle.gone (idle : Idle args whole tail s todo) : Gone s ⟨.ok (), none⟩ := by
  intro chunk rest read
  have reader : s.file.reader = (todo.flatMap (·.bytes) ++ tail).map .byte := congrArg _ idle.unread
  rw [reader] at read
  cases todo with
  | nil => cases read.symm.trans (readChunk_short idle.short)
  | cons first todo =>
    rw [List.flatMap_cons, List.append_assoc, List.map_append,
      readChunk_bytes (idle.fits first (List.mem_cons_self ..))] at read
    cases read
    exact idle.empty chunk (List.mem_cons_self ..)

/-- There is always another iteration. -/
theorem Idle.turn (looping : args.loopMode = true) (empties : ∀ chunk ∈ whole, chunk.data = [])
    (ordered : Timely args none (whole.map (·.timestampNs))) (idle : Idle args whole tail s todo) :
    ∃ s' todo', turn args s ⟨.ok (), none⟩ = (.again, s') ∧ Idle args whole tail s' todo' := by
  cases todo with
  | nil =>
    obtain ⟨file, taken, back⟩ := idle.toPlaying.turn_end args ⟨.ok (), none⟩
    refine ⟨{ s with file := { file with pos := s.firstChunkOffset }, prevTimestamp := none }, whole, ?_, ?_⟩
    · rw [taken, rewind, if_pos looping]
    · exact ⟨⟨back.unread, back.first, back.fits, back.wholeFits, back.short, back.running⟩, empties, ordered⟩
  | cons chunk todo =>
    obtain ⟨file, taken, next⟩ := idle.toPlaying.turn_chunk args ⟨.ok (), none⟩
    obtain ⟨now, later⟩ := timely_cons.1 idle.timely
    obtain ⟨subtractions, paced⟩ := pace_timely (s := { s with file := file }) now
    refine ⟨{ s with
      file := file, prevTimestamp := remember args s.prevTimestamp chunk.timestampNs, subtractions := subtractions
      sent := s.sent ++ chunk.data }, todo, ?_, ?_⟩
    · rw [taken, send, if_neg (Bool.eq_false_iff.1 next.running), paced]
      rfl
    · exact ⟨⟨next.unread, next.first, next.fits, next.wholeFits, next.short, next.running⟩,
        fun c member => idle.empty c (List.mem_cons_of_mem _ member), later⟩

/-- **A replay with nothing to send goes on for ever.** -/
theorem Idle.forever (looping : args.loopMode = true) (empties : ∀ chunk ∈ whole, chunk.data = [])
    (ordered : Timely args none (whole.map (·.timestampNs))) (turns : Nat) (idle : Idle args whole tail s todo) :
    Throughout (ReplayTool.turn args) Gone s (List.replicate turns ⟨.ok (), none⟩) ∧
      leftAfter (ReplayTool.turn args) s (List.replicate turns ⟨.ok (), none⟩) = none := by
  induction turns generalizing s todo with
  | zero => exact ⟨trivial, rfl⟩
  | succ turns ih =>
    obtain ⟨s', todo', again, next⟩ := idle.turn looping empties ordered
    obtain ⟨gone, left⟩ := ih next
    rw [List.replicate_succ, leftAfter_again again, left]
    refine ⟨⟨idle.gone, fun s'' taken => ?_⟩, rfl⟩
    cases again.symm.trans taken
    exact gone

end Idling

/-- The client goes away before it has sent a command. -/
theorem not_ends_of_nothing {args : Args} {content : List UInt8} (nothing : NothingToSend args content) :
    ¬EndsWhenGone args content := by
  obtain ⟨looping, header, chunks, accepted, empties, ordered⟩ := nothing
  intro ends
  obtain ⟨r, tail, playing, fresh, -, -, -, begun, -⟩ := start_playing accepted true
  have idle : Idle args chunks tail r chunks := by
    refine ⟨playing, empties, ?_⟩
    rw [fresh]
    exact ordered
  obtain ⟨N, ended⟩ := ends true none r begun [] [.command] ⟨r, true, ⟨[], []⟩, false, true⟩ rfl rfl rfl
  obtain ⟨gone, left⟩ := idle.forever looping empties ordered N
  obtain ⟨n, -, later⟩ := ended _ (Nat.le_of_eq List.length_replicate.symm) gone
  cases left.symm.trans later

/-- **Replay ends when the client is gone, except with nothing to send.** For every file, every
speed and with or without `--loop`, whatever has happened before: the loop is left after finitely
many iterations, unless it goes over and over a whole file without any data in it. -/
theorem replay_ends_iff (args : Args) (content : List UInt8) :
    EndsWhenGone args content ↔ ¬NothingToSend args content :=
  ⟨fun ends nothing => not_ends_of_nothing nothing ends, ends_of_something⟩

/-- A file with a header and no chunks, at full speed and with `--loop`. -/
theorem empty_capture_never_ends : ¬∀ (args : Args) (content : List UInt8), EndsWhenGone args content := by
  intro ends
  refine not_ends_of_nothing ?_ (ends ⟨false, true, false⟩ (encodeFile ⟨[7]⟩ []))
  exact ⟨rfl, ⟨[7]⟩, [], by decide, by simp, fun _ _ => List.isChain_nil⟩

end RtlTcp.ReplayTool
