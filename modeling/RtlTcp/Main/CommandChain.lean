import RtlTcp.Lib.Pipeline
import RtlTcp.Lib.Wire
import RtlTcp.Main.ProxyChain
import RtlTcp.Main.MasterSessions

/-!
# Commands through a chain of proxies

A server and any number of proxies on top of it, none with a key. The bytes of the commands that the
server has carried out, those that wait in its socket and those that wait in the sockets of the proxies
are the stages of one line: a control thread takes bytes from the front of a stage and, if it is a
proxy's, writes a frame of them to the stage before it. `commands_from_clients` follows from the order
on the line.
-/

namespace RtlTcp
set_option autoImplicit false
open ByteIo Transition Pipeline CommandChannel

/-! ## What the threads take and write -/

/-- A read meets nothing, or a frame. -/
def MeetsFrame (pipe : List UInt8) (n : Nat) : Prop := pipe.take n = [] ∨ commandHeaderSize ≤ (pipe.take n).length

/-- A frame is read from the front of the pipe; a read that fails takes all that it meets. -/
theorem readExact_pipe (k : Nat) (pipe : List UInt8) (n : Nat) (cut : ErrorKind) :
    (∃ (v : Bytes k) (rest : List Arrival), readExact k ((pipe.take n).map .byte ++ [.fail cut]) = (.ok v, rest) ∧
      pipe = v.toList ++ (bytesOf rest ++ pipe.drop n)) ∨
    (pipe.take n).length < k ∧ ∃ e, readExact k ((pipe.take n).map .byte ++ [.fail cut]) = (.error e, []) := by
  rcases readExact_plain k (pipe.take n) with ⟨v, rest, front, read⟩ | ⟨short, -⟩
  · refine .inl ⟨v, rest.map .byte ++ [.fail cut], readExact_append read _, ?_⟩
    rw [bytesOf_append, bytesOf_map_byte, ← List.append_assoc]
    conv => lhs; rw [← List.take_append_drop n pipe, front]
    simp [bytesOf]
  · exact .inr ⟨short, readExact_short short cut⟩

section
variable [ChaCha]

/-- A proxy without a key takes `gone` from its master's socket and writes `kept` of it. -/
structure Hop.Relays (s : Hop) (env : ProxyEnv) (n partly : Nat) (t : Hop) : Prop where
  plain : t.control.writeCipher = none
  relays : ∃ gone, s.pipe = gone ++ t.pipe ∧
    (delivery false partly (t.control.forwarded.drop s.control.forwarded.length)).Sublist gone ∧
    (MeetsFrame s.pipe n → gone = [] ∨ gone.length = commandHeaderSize) ∧
    (env.sent = .ok () ∨ partly = 0 → delivery false partly (t.control.forwarded.drop s.control.forwarded.length) = [] ∨
      delivery false partly (t.control.forwarded.drop s.control.forwarded.length) = gone)

theorem ProxyControl.turn_error {s : ProxyControl} (env : ProxyEnv) {e : ErrorKind} {rest : List Arrival}
    (read : readExact commandHeaderSize s.stream = (.error e, rest)) : (s.turn env).2 = { s with stream := rest } := by
  simp only [turn, read]
  repeat' split
  all_goals rfl

theorem ProxyControl.turn_ok {s : ProxyControl} (env : ProxyEnv) {buf : Frame} {rest : List Arrival}
    (read : readExact commandHeaderSize s.stream = (.ok buf, rest)) (plain : s.writeCipher = none) :
    (s.turn env).2.stream = rest ∧ (s.turn env).2.writeCipher = none ∧
      ((s.turn env).2.forwarded = s.forwarded ∨ (s.turn env).2.forwarded = s.forwarded ++ [(buf, buf, env.sent)]) := by
  simp only [turn, read]
  split
  · exact ⟨rfl, plain, .inl rfl⟩
  · split
    · exact ⟨rfl, plain, .inl rfl⟩
    · refine ⟨forward_stream .., ?_⟩
      simp only [forward, encrypt, plain]
      split
      · cases env.sent <;> exact ⟨rfl, .inr rfl⟩
      · exact ⟨rfl, .inl rfl⟩

theorem Hop.turn_relays {s t : Hop} {env : ProxyEnv} {n : Nat} {cut : ErrorKind} (plain : s.control.writeCipher = none)
    (taken : s.step (.turn env n cut) = some t) (partly : Nat) : Relays s env n partly t := by
  simp only [step] at taken
  split at taken
  case isFalse => cases taken
  cases taken
  rcases readExact_pipe commandHeaderSize s.pipe n cut with ⟨buf, rest, read, front⟩ | ⟨short, e, read⟩
  · obtain ⟨stream, cipher, log⟩ := ProxyControl.turn_ok (s := { s.control with stream := s.inbound n cut }) env read plain
    refine ⟨cipher, buf.toList, ?_, ?_, fun _ => .inr buf.toList_length, ?_⟩
    · rw [stream]
      exact front
    · rcases log with same | more
      · simp [same, delivery]
      · rw [more]
        simp only [List.drop_left, delivery, Bool.false_eq_true, if_false]
        cases env.sent with
        | ok => exact List.Sublist.refl _
        | error => exact List.take_sublist _ _
    · rcases log with same | more
      · simp [same, delivery]
      · rw [more]
        simp only [List.drop_left, delivery, Bool.false_eq_true, if_false]
        rintro (sent | nothing)
        · rw [sent]
          exact .inr rfl
        · cases env.sent with
          | ok => exact .inr rfl
          | error => exact .inl (by simp [nothing])
  · rw [ProxyControl.turn_error (s := { s.control with stream := s.inbound n cut }) env read]
    refine ⟨plain, s.pipe.take n, ?_, ?_, ?_, ?_⟩
    · simp [bytesOf]
    · simp [delivery]
    · intro meets
      exact .inl (meets.resolve_right (by omega))
    · intro _
      exact .inl (by simp [delivery])

theorem MasterControl.turn_error {s : MasterControl} (env : Env) {e : ErrorKind} {rest : List Arrival}
    (read : readExact commandHeaderSize s.stream = (.error e, rest)) :
    (s.turn none env).2 = { s with stream := rest } ∧ s.passed env = [] := by
  refine ⟨?_, by simp only [passed, read]⟩
  simp only [turn, read]
  split <;> rfl

theorem MasterControl.turn_ok {s : MasterControl} (env : Env) {raw : Frame} {rest : List Arrival}
    (read : readExact commandHeaderSize s.stream = (.ok raw, rest)) (plain : s.readCipher = none) :
    (s.turn none env).2.stream = rest ∧ (s.turn none env).2.readCipher = none ∧
      (s.passed env = [] ∨ s.passed env = [(env.now, raw)]) := by
  have view : { s with stream := rest }.decrypt raw = (raw, { s with stream := rest }) := by simp only [decrypt, plain]
  have frame : (s.decrypt raw).1 = raw := by simp only [decrypt, plain]
  have kept : ({ s with stream := rest }.process none env raw).2.stream = rest ∧
      ({ s with stream := rest }.process none env raw).2.readCipher = s.readCipher := process_plain (.inl rfl) ..
  refine ⟨?_, ?_, ?_⟩
  · simp only [turn, read, view]
    exact kept.1
  · simp only [turn, read, view]
    exact kept.2.trans plain
  · simp only [passed, read, frame]
    split
    · exact .inr rfl
    · exact .inl rfl

end

namespace ProxyChain

/-- What waits in the sockets, that of the server first. -/
def pipes (s : ProxyChain) : List (List UInt8) := s.pipe :: s.hops.map Hop.pipe

/-- What the clients have sent to proxy `i`, and the proxy on top of it when it connected. -/
def sentIn (i : Nat) : ChainAct → List UInt8
  | .hop j (.send bytes) _ => if j = i then bytes else []
  | _ => []

def sentTo (i : Nat) (acts : List ChainAct) : List UInt8 := acts.flatMap (sentIn i)

/-- No frame is cut: the clients send whole frames, a read meets nothing or a frame, and a write that fails
has sent nothing. -/
def UncutFrames (s : ProxyChain) : ChainAct → Prop
  | .hop _ (.send bytes) _ => ∃ frames, frameBytes frames = bytes
  | .hop i (.turn env n _) partly => (∀ hop ∈ s.hops[i]?, MeetsFrame hop.pipe n) ∧ (env.sent = .ok () ∨ partly = 0)
  | .hop _ (.accept ..) _ => True
  | .serve _ n _ => MeetsFrame s.pipe n

section
variable [ChaCha]

/-- The server's thread, with what its next read meets. -/
def reading (s : ProxyChain) (n : Nat) (cut : ErrorKind) : MasterControl :=
  { s.server with stream := (s.pipe.take n).map .byte ++ [.fail cut] }

/-- The frames that the server carries out in a step. -/
def obeyedIn (s : ProxyChain) : ChainAct → List Frame
  | .serve env n cut => ((s.reading n cut).passed env).map Prod.snd
  | .hop .. => []

/-- The frames that the server carries out in a run. -/
def obeyed (s : ProxyChain) : List ChainAct → List Frame
  | [] => []
  | a :: acts => s.obeyedIn a ++
      match s.step none a with
      | some t => t.obeyed acts
      | none => []

/-- Nobody encrypts, and the device is not poisoned. -/
structure Plain (s : ProxyChain) : Prop where
  hops : ∀ hop ∈ s.hops, hop.control.writeCipher = none
  server : s.server.readCipher = none
  sound : s.server.ctl.poisoned = false

/-- What the server's thread takes from its socket: a frame that it carries out, or bytes that it drops. -/
structure Serves (s : ProxyChain) (env : Env) (n : Nat) (cut : ErrorKind) (server : MasterControl) : Prop where
  plain : server.readCipher = none
  takes : ∃ gone, s.pipe = gone ++ (bytesOf server.stream ++ s.pipe.drop n) ∧
    (frameBytes (s.obeyedIn (.serve env n cut)) = [] ∨ frameBytes (s.obeyedIn (.serve env n cut)) = gone) ∧
    (MeetsFrame s.pipe n → gone = [] ∨ gone.length = commandHeaderSize)

theorem serves {s : ProxyChain} (plain : s.Plain) (env : Env) (n : Nat) (cut : ErrorKind) :
    Serves s env n cut ((s.reading n cut).turn none env).2 := by
  rcases readExact_pipe commandHeaderSize s.pipe n cut with ⟨raw, rest, read, front⟩ | ⟨short, e, read⟩
  · obtain ⟨stream, cipher, frame⟩ := MasterControl.turn_ok (s := s.reading n cut) env read plain.server
    refine ⟨cipher, raw.toList, ?_, ?_, fun _ => .inr raw.toList_length⟩
    · rw [stream]
      exact front
    · rcases frame with rejected | one
      · exact .inl (by simp [obeyedIn, rejected, frameBytes])
      · exact .inr (by simp [obeyedIn, one, frameBytes])
  · obtain ⟨same, noFrame⟩ := MasterControl.turn_error (s := s.reading n cut) env read
    rw [same]
    refine ⟨plain.server, s.pipe.take n, by simp [bytesOf], .inl (by simp [obeyedIn, noFrame, frameBytes]), fun meets => ?_⟩
    exact .inl (meets.resolve_right (by omega))

/-- What a step does to the line of sockets, in bytes: some leave a socket and are written to the one before,
or a client sends some. -/
inductive Moves (s : ProxyChain) (a : ChainAct) : List (List UInt8) → List (List UInt8) → Prop where
  | passes (ahead : List (List UInt8)) (stage gone rest kept : List UInt8) (behind : List (List UInt8))
      (sub : kept.Sublist gone) (quiet : ∀ i, sentIn i a = [])
      (untorn : s.UncutFrames a → Splits Nat (List.Vector.toList : Frame → List UInt8) gone rest kept) :
      Moves s a (ahead ++ stage :: (gone ++ rest) :: behind) (ahead ++ (stage ++ kept) :: rest :: behind)
  | enters (i : Nat) (bytes : List UInt8) (ahead : List (List UInt8)) (stage : List UInt8) (behind : List (List UInt8))
      (here : ahead.length = i + 2) (sent : ∀ j, sentIn j a = if i = j then bytes else [])
      (untorn : s.UncutFrames a → ∃ frames, frameBytes frames = bytes) :
      Moves s a (ahead ++ stage :: behind) (ahead ++ (stage ++ bytes) :: behind)

omit [ChaCha] in
theorem split_at {α : Type} {l : List α} {i : Nat} {a : α} (found : l[i]? = some a) :
    ∃ before later, l = before ++ a :: later ∧ before.length = i := by
  obtain ⟨inside, here⟩ := List.getElem?_eq_some_iff.1 found
  refine ⟨l.take i, l.drop (i + 1), ?_, ?_⟩
  · rw [← here, List.getElem_cons_drop, List.take_append_drop]
  · rw [List.length_take]
    omega

omit [ChaCha] in
theorem modify_middle {α : Type} (f : α → α) (before : List α) (a : α) (later : List α) :
    (before ++ a :: later).modify before.length f = before ++ f a :: later := by
  rw [List.modify_eq_take_cons_drop (by simp)]
  simp

/-- A step of a proxy, as its neighbours see it. -/
theorem hop_pipes {key : Option Key} {s t : ProxyChain} {i : Nat} {a : HopAct} {partly : Nat}
    (taken : s.step key (.hop i a partly) = some t) (out : List UInt8) :
    ∃ hop hop' ahead stage behind kept, s.hops[i]? = some hop ∧ hop.step a = some hop' ∧ t.server = s.server ∧
      out :: s.pipes = ahead ++ stage :: hop.pipe :: behind ∧ ahead.length = i + 1 ∧
      out :: t.pipes = ahead ++ (stage ++ kept) :: hop'.pipe :: behind ∧
      (kept = [] ∨ kept = delivery false partly (hop'.control.forwarded.drop hop.control.forwarded.length)) := by
  simp only [step] at taken
  split at taken
  · cases taken
  · rename_i hop found
    split at taken
    · cases taken
    · rename_i hop' moved
      cases taken
      obtain ⟨before, later, split, place⟩ := split_at found
      have changed : s.hops.set i hop' = before ++ hop' :: later := by
        rw [split, ← place]
        simp
      obtain ⟨kept, delivered⟩ :
          ∃ kept, kept = delivery false partly (hop'.control.forwarded.drop hop.control.forwarded.length) := ⟨_, rfl⟩
      rw [← delivered]
      rcases List.eq_nil_or_concat before with rfl | ⟨before, below, rfl⟩
      · obtain rfl : i = 0 := place.symm
        refine ⟨hop, hop', [out], s.pipe, later.map Hop.pipe, kept, found, moved, rfl, ?_, rfl, ?_, .inr delivered⟩
        · rw [pipes, split]
          rfl
        · simp only [deliver, pipes, changed]
          rfl
      · rw [List.concat_eq_append] at split changed place
        rw [List.length_append, List.length_singleton] at place
        subst place
        rw [List.append_assoc] at split changed
        refine ⟨hop, hop', out :: s.pipe :: before.map Hop.pipe, below.pipe, later.map Hop.pipe,
          if below.inSession && below.fromProxy then kept else [], found, moved, rfl, ?_, by simp, ?_, ?_⟩
        · rw [pipes, split]
          simp
        · -- what the proxy writes is lost when the one below has another master
          simp only [deliver, pipes, changed, List.singleton_append, modify_middle]
          split <;> simp
        · split
          · exact .inr delivered
          · exact .inl rfl

theorem step_moves {s t : ProxyChain} {a : ChainAct} (plain : s.Plain) (taken : s.step none a = some t) (out : List UInt8) :
    Moves s a (out :: s.pipes) ((out ++ frameBytes (s.obeyedIn a)) :: t.pipes) := by
  cases a with
  | hop i a partly =>
    obtain ⟨hop, hop', ahead, stage, behind, kept, found, moved, -, before, place, after, written⟩ := hop_pipes taken out
    have nothing : out ++ frameBytes (s.obeyedIn (.hop i a partly)) = out := by simp [obeyedIn, frameBytes]
    rw [nothing, before, after]
    cases a with
    | accept fromProxy now again =>
      simp only [Hop.step] at moved
      split at moved
      · cases moved
      · cases moved
        have nothing : kept = [] := by simpa [delivery] using written
        rw [nothing, ← List.append_nil hop.pipe]
        exact .passes ahead stage hop.pipe [] [] behind (List.nil_sublist _) (fun _ => rfl) fun _ => splits_all _
    | send bytes =>
      simp only [Hop.step] at moved
      split at moved
      · cases moved
        have nothing : kept = [] := by simpa [delivery] using written
        rw [nothing, List.append_nil]
        have := Moves.enters (s := s) (a := .hop i (.send bytes) partly) i bytes (ahead ++ [stage]) hop.pipe behind
          (by simp [place]) (fun j => rfl) fun uncut => uncut
        simpa using this
      · cases moved
    | turn env n cut =>
      have relays := Hop.turn_relays (plain.hops hop (List.mem_of_getElem? found)) moved partly
      obtain ⟨gone, front, sub, whole, untorn⟩ := relays.relays
      rw [front]
      refine .passes ahead stage gone hop'.pipe kept behind ?_ (fun _ => rfl) ?_
      · rcases written with rfl | rfl
        · exact List.nil_sublist _
        · exact sub
      · rintro ⟨meets, sent⟩
        refine splits_blocks (fun f => f.toList_length) (by decide) (whole (meets hop found)) ?_
        rcases written with rfl | rfl
        · exact .inl rfl
        · exact untorn sent
  | serve env n cut =>
    simp only [step] at taken
    split at taken
    case isFalse => cases taken
    cases taken
    obtain ⟨gone, front, obeys, whole⟩ := (serves plain env n cut).takes
    have line : out :: s.pipes = [] ++ out ::
        (gone ++ (bytesOf ((s.reading n cut).turn none env).2.stream ++ s.pipe.drop n)) :: s.hops.map Hop.pipe := by
      rw [← front]
      rfl
    rw [line]
    refine .passes [] out gone _ _ _ ?_ (fun _ => rfl) fun meets => ?_
    · rcases obeys with nothing | all
      · rw [nothing]
        exact List.nil_sublist _
      · rw [all]
    · exact splits_blocks (fun f => f.toList_length) (by decide) (whole meets) obeys

theorem Plain.step {s t : ProxyChain} {a : ChainAct} (plain : s.Plain) (taken : s.step none a = some t) : t.Plain := by
  cases a with
  | hop i a partly =>
    obtain ⟨hop, hop', found, moved, others⟩ := hop_step taken
    obtain ⟨-, -, -, -, -, -, -, -, server, -⟩ := hop_pipes taken []
    have own : hop'.control.writeCipher = none := by
      have before := plain.hops hop (List.mem_of_getElem? found)
      cases a with
      | turn env n cut => exact (Hop.turn_relays before moved partly).plain
      | accept | send =>
        simp only [Hop.step] at moved
        split at moved
        all_goals cases moved
        exact before
    refine ⟨fun h member => ?_, by rw [server]; exact plain.server, by rw [server]; exact plain.sound⟩
    rcases others h member with same | ⟨old, among, same⟩
    · rw [same]
      exact own
    · rw [same]
      exact plain.hops old among
  | serve env n cut =>
    simp only [ProxyChain.step] at taken
    split at taken
    · cases taken
      exact ⟨plain.hops, (serves plain env n cut).plain,
        (MasterControl.turned (s := s.reading n cut) plain.sound none env).told.sound.trans plain.sound⟩
    · cases taken

/-- The device calls of a step are those of the frames that are carried out in it. -/
theorem step_calls {s t : ProxyChain} {a : ChainAct} (plain : s.Plain) (taken : s.step none a = some t) :
    t.server.ctl.value.calls.map Prod.fst =
      s.server.ctl.value.calls.map Prod.fst ++ (s.obeyedIn a).filterMap MasterControl.commandCall := by
  cases a with
  | hop i a partly =>
    obtain ⟨-, -, -, -, -, -, -, -, server, -⟩ := hop_pipes taken []
    rw [server]
    simp [obeyedIn]
  | serve env n cut =>
    simp only [step] at taken
    split at taken
    · cases taken
      exact (MasterControl.turned (s := s.reading n cut) plain.sound none env).told.calls
    · cases taken

/-! ## Runs -/

/-- The line, in items of which `enc` says how many bytes they are: `frames` have come to its end, and the
items that have entered it at each proxy make up `sent`. -/
def Carried {α : Type} (enc : α → List UInt8) (frames : List Frame) (sent : Nat → List UInt8) (s : ProxyChain) : Prop :=
  ∃ (line : Line Nat α) (entered : Nat → List α), line.map (content enc) = frameBytes frames :: s.pipes ∧
    InOrder (· + 2) entered line ∧ ∀ i, (entered i).flatMap enc = sent i

/-- A step that tears no item. -/
structure Untorn {α : Type} (enc : α → List UInt8) (s : ProxyChain) (a : ChainAct) : Prop where
  passes : ∀ gone rest kept, kept.Sublist gone →
    (s.UncutFrames a → Splits Nat (List.Vector.toList : Frame → List UInt8) gone rest kept) → Splits Nat enc gone rest kept
  enters : ∀ bytes, (s.UncutFrames a → ∃ frames, frameBytes frames = bytes) → ∃ items : List α, items.flatMap enc = bytes

omit [ChaCha] in
theorem untorn_bytes (s : ProxyChain) (a : ChainAct) : Untorn (fun b => [b]) s a :=
  ⟨fun _ _ _ sub _ => splits_symbols sub, fun bytes _ => ⟨bytes, List.flatMap_singleton' bytes⟩⟩

omit [ChaCha] in
theorem untorn_frames {s : ProxyChain} {a : ChainAct} (uncut : s.UncutFrames a) :
    Untorn (List.Vector.toList : Frame → List UInt8) s a :=
  ⟨fun _ _ _ _ splits => splits uncut, fun _ frames => frames uncut⟩

theorem Carried.step {α : Type} {enc : α → List UInt8} {frames : List Frame} {sent : Nat → List UInt8} {s t : ProxyChain}
    {a : ChainAct} (carried : Carried enc frames sent s) (plain : s.Plain) (untorn : Untorn enc s a)
    (taken : s.step none a = some t) : Carried enc (frames ++ s.obeyedIn a) (fun i => sent i ++ sentIn i a) t := by
  obtain ⟨line, entered, shows, order, items⟩ := carried
  have moves := step_moves plain taken (frameBytes frames)
  rw [← frameBytes_append] at moves
  generalize before : frameBytes frames :: s.pipes = sockets at moves
  generalize after : frameBytes (frames ++ s.obeyedIn a) :: t.pipes = sockets' at moves
  rw [before] at shows
  unfold Carried
  rw [after]
  cases moves with
  | passes ahead stage gone rest kept behind sub quiet splits =>
    obtain ⟨line', passes, shows'⟩ := (untorn.passes gone rest kept sub splits).passes shows
    refine ⟨line', entered, shows', order.passes passes, fun i => ?_⟩
    dsimp only
    rw [quiet, List.append_nil]
    exact items i
  | enters i bytes ahead stage behind here sends whole =>
    obtain ⟨fresh, rfl⟩ := untorn.enters bytes whole
    obtain ⟨line', enters, shows'⟩ := enters_of_content (· + 2) (i := i) fresh shows here
    refine ⟨line', fun j => entered j ++ if i = j then fresh else [], shows', ?_, fun j => ?_⟩
    · refine order.enters enters (by simp) fun j other => ?_
      simp [other.symm]
    · dsimp only
      rw [sends, List.flatMap_append, items]
      split <;> rfl

theorem Carried.run {α : Type} {enc : α → List UInt8} {ok : ProxyChain → ChainAct → Prop}
    (untorn : ∀ s a, ok s a → Untorn enc s a) {acts : List ChainAct} {frames : List Frame} {sent : Nat → List UInt8}
    {s t : ProxyChain} (carried : Carried enc frames sent s) (plain : s.Plain) (along : Along (ProxyChain.step none) ok s acts)
    (reached : run (ProxyChain.step none) s acts = some t) :
    Carried enc (frames ++ s.obeyed acts) (fun i => sent i ++ sentTo i acts) t := by
  induction acts generalizing s frames sent with
  | nil =>
    cases reached
    simpa [obeyed, sentTo] using carried
  | cons a acts ih =>
    obtain ⟨s', taken, rest⟩ := run_cons_inv reached
    obtain ⟨allowed, later⟩ := along s' taken
    have := ih (carried.step plain (untorn s a allowed) taken) (plain.step taken) later rest
    simpa [obeyed, taken, sentTo, List.append_assoc] using this

theorem run_calls {acts : List ChainAct} {s t : ProxyChain} (plain : s.Plain)
    (reached : run (step none) s acts = some t) :
    t.server.ctl.value.calls.map Prod.fst =
      s.server.ctl.value.calls.map Prod.fst ++ (s.obeyed acts).filterMap MasterControl.commandCall := by
  induction acts generalizing s with
  | nil =>
    cases reached
    simp [obeyed]
  | cons a acts ih =>
    obtain ⟨s', taken, rest⟩ := run_cons_inv reached
    rw [ih (plain.step taken) rest, step_calls plain taken, obeyed, taken, List.filterMap_append, List.append_assoc]

/-- Nothing is on its way, and nothing has been carried out; the probe that the lowest proxy itself sends to the
server when it connects is left out. -/
structure Fresh (s : ProxyChain) : Prop where
  plain : s.Plain
  calls : s.server.ctl.value.calls = []
  pipe : s.pipe = []
  pipes : ∀ hop ∈ s.hops, hop.pipe = []

omit [ChaCha] in
theorem frameBytes_inj {frames more : List Frame} (same : frameBytes frames = frameBytes more) : frames = more := by
  have front : frames <+: more := frameBytes_front (same ▸ List.prefix_refl _)
  refine front.eq_of_length ?_
  have := congrArg List.length same
  rw [length_frameBytes, length_frameBytes] at this
  exact Nat.eq_of_mul_eq_mul_left (by decide) this

omit [ChaCha] in
theorem Fresh.carried {s : ProxyChain} (fresh : s.Fresh) {α : Type} (enc : α → List UInt8) :
    Carried enc [] (fun _ => []) s := by
  refine ⟨[] :: [] :: s.hops.map fun _ => [], fun _ => [], ?_, inOrder_empty (by simp), fun _ => rfl⟩
  have empty : s.hops.map Hop.pipe = s.hops.map fun _ => [] := List.map_congr_left fresh.pipes
  rw [ProxyChain.pipes, fresh.pipe, empty]
  simp [content, frameBytes]

omit [ChaCha] in
/-- What has come to the end of the line. -/
theorem Carried.out {α : Type} {enc : α → List UInt8} {frames : List Frame} {sent : Nat → List UInt8} {s : ProxyChain}
    (carried : Carried enc frames sent s) : ∃ out : List (Nat × α), content enc out = frameBytes frames ∧
      ∀ i, ∃ entered, entered.flatMap enc = sent i ∧ (fromSource i out).Sublist entered := by
  obtain ⟨line, entered, shows, order, items⟩ := carried
  obtain ⟨out, later, rfl, shown, -⟩ := List.map_eq_cons_iff.1 shows
  refine ⟨out, shown, fun i => ⟨entered i, items i, ?_⟩⟩
  exact (fromSource_sublist (List.sublist_append_left out later.flatten) i).trans (order.order i)

/-- **Commands come from clients.** Through every chain of proxies without keys, in every interleaving of
their control threads, the server's and their clients, with timeouts and writes that fail at any place: the
calls on the device are those of the frames that the server carries out, in order, and each byte of
these frames was sent to one of the proxies, those that were sent to the same proxy in the order in which
they were sent and none of them twice. If no frame is cut on the way, then the same holds of whole
frames. -/
theorem commands_from_clients {s t : ProxyChain} (fresh : s.Fresh) {acts : List ChainAct}
    (reached : run (step none) s acts = some t) :
    t.server.ctl.value.calls.map Prod.fst = (s.obeyed acts).filterMap MasterControl.commandCall ∧
      (∃ bytes : List (Nat × UInt8), bytes.map Prod.snd = frameBytes (s.obeyed acts) ∧
        ∀ i, (fromSource i bytes).Sublist (sentTo i acts)) ∧
      (Along (step none) UncutFrames s acts → ∃ frames : List (Nat × Frame), frames.map Prod.snd = s.obeyed acts ∧
        ∀ i, ∃ sent, frameBytes sent = sentTo i acts ∧ (fromSource i frames).Sublist sent) := by
  refine ⟨?_, ?_, fun uncut => ?_⟩
  · rw [run_calls fresh.plain reached, fresh.calls]
    rfl
  · have carried := (fresh.carried fun b => [b]).run (fun s a _ => untorn_bytes s a) fresh.plain along_trivial reached
    obtain ⟨out, shown, from_⟩ := carried.out
    refine ⟨out, (content_symbols out).symm.trans shown, fun i => ?_⟩
    obtain ⟨entered, same, sub⟩ := from_ i
    rw [List.flatMap_singleton', List.nil_append] at same
    rw [← same]
    exact sub
  · have carried := (fresh.carried List.Vector.toList).run (fun s a ok => untorn_frames ok) fresh.plain uncut reached
    obtain ⟨out, shown, from_⟩ := carried.out
    refine ⟨out, frameBytes_inj ?_, from_⟩
    rw [← List.nil_append (s.obeyed acts), ← shown]
    simp [frameBytes, content, List.flatMap_map]

end

end ProxyChain

theorem plainChain_fresh : plainChain.Fresh where
  plain := ⟨by simp [plainChain, plainHop], rfl, rfl⟩
  calls := rfl
  pipe := rfl
  pipes := by simp [plainChain, plainHop]

/-- The second proxy connects to the first, and its client tunes. -/
def tunesThroughBoth : List ChainAct :=
  [.hop 0 (.accept true 0 0) 0, .hop 0 (.send probe) 0, .hop 0 (.turn (calmProxyEnv 0) 5 .timedOut) 0,
   .hop 1 (.accept false 0 0) 0, .hop 1 (.send [0x01, 0x05, 0xFD, 0x82, 0x20]) 0,
   .hop 1 (.turn (calmProxyEnv 1) 5 .timedOut) 0,
   .serve (MasterControl.calmEnv 2) 7 .timedOut, .hop 0 (.turn (calmProxyEnv 2) 9 .wouldBlock) 0,
   .serve (MasterControl.calmEnv 3) 9 .timedOut]

/-- The server carries out the probe of the second proxy and the command of its client. -/
theorem tuned_through_two_proxies :
    letI := zeroChaCha
    ∃ t, run (ProxyChain.step none) plainChain tunesThroughBoth = some t ∧
      plainChain.obeyed tunesThroughBoth = [⟨probe, rfl⟩, ⟨[0x01, 0x05, 0xFD, 0x82, 0x20], rfl⟩] ∧
      t.server.ctl.value.calls.map Prod.fst = (plainChain.obeyed tunesThroughBoth).filterMap MasterControl.commandCall ∧
      ∃ bytes : List (Nat × UInt8), bytes.map Prod.snd = frameBytes (plainChain.obeyed tunesThroughBoth) ∧
        ∀ i, (fromSource i bytes).Sublist (ProxyChain.sentTo i tunesThroughBoth) := by
  let _ := zeroChaCha
  have enabled : (run (ProxyChain.step none) plainChain tunesThroughBoth).isSome = true := by decide
  obtain ⟨t, reached⟩ := Option.isSome_iff_exists.1 enabled
  obtain ⟨calls, bytes, -⟩ := ProxyChain.commands_from_clients plainChain_fresh reached
  exact ⟨t, reached, by decide, calls, bytes⟩

end RtlTcp
