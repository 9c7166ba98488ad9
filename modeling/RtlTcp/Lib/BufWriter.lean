import RtlTcp.Lib.ByteIo

/-!
# A buffering writer

`std::io::BufWriter`, one `write` of the writer below at a time, so that others can write to that writer
in between. It holds back at most `capacity` bytes, writes them out when the next ones do not fit or when
it is told to, and passes by its buffer what would not fit into an empty one. A call that fails leaves
in the buffer what the writer below has not accepted. The bytes are of any kind, so that they may
carry where they come from. `BufCall.step_stepped` says what one step of a call does.
-/

namespace ByteIo
set_option autoImplicit false

variable {α : Type}

/-- `BufWriter`; the bytes it holds fit its capacity. -/
structure BufWriter (α : Type) where
  capacity : Nat
  buf : List α
  fits : buf.length ≤ capacity

/-- A call on a `BufWriter` that is under way. -/
inductive BufCall (α : Type) where
  /-- `write_all`, at its beginning. -/
  | writeAll (bytes : List α)
  /-- `write_all`, which empties the buffer first. -/
  | makeRoom (bytes : List α)
  /-- `write_all` around the buffer, with `bytes` left. -/
  | passBy (bytes : List α)
  | flush
  deriving DecidableEq, Repr

/-- A call goes on, or it has returned. -/
inductive Progress (α : Type) where
  | running (call : BufCall α)
  | returned (result : Except ErrorKind Unit)

/-- What a step of a call leaves, and the bytes that the writer below has accepted in it. -/
structure BufStep (α : Type) where
  accepted : List α
  writer : BufWriter α
  progress : Progress α

/-- One `write` of some bytes: those accepted, those left, and the failure that ends the call, if there is
one. An interrupted `write` is made again. -/
def offer (bytes : List α) : Except ErrorKind Nat → List α × List α × Option ErrorKind
  | .ok 0 => ([], bytes, some .writeZero)
  | .ok (n + 1) => (bytes.take (n + 1), bytes.drop (n + 1), none)
  | .error e => ([], bytes, if e = .interrupted then none else some e)

theorem offer_whole (bytes : List α) (result : Except ErrorKind Nat) :
    (offer bytes result).1 ++ (offer bytes result).2.1 = bytes := by
  cases result with
  | ok n =>
    cases n with
    | zero => rfl
    | succ n => exact List.take_append_drop ..
  | error e => rfl

/-- A `write` that fails accepts nothing. -/
theorem offer_failed {bytes : List α} {result : Except ErrorKind Nat} {e : ErrorKind}
    (failed : (offer bytes result).2.2 = some e) : (offer bytes result).1 = [] ∧ (offer bytes result).2.1 = bytes := by
  cases result with
  | ok n =>
    cases n with
    | zero => exact ⟨rfl, rfl⟩
    | succ n => cases failed
  | error e => exact ⟨rfl, rfl⟩

namespace BufWriter

/-- `BufWriter::with_capacity` -/
def withCapacity (capacity : Nat) : BufWriter α := ⟨capacity, [], Nat.zero_le _⟩

def spareCapacity (b : BufWriter α) : Nat := b.capacity - b.buf.length

/-- One `write` of `flush_buf`, which the call `on` makes. -/
def flushBuf (b : BufWriter α) (result : Except ErrorKind Nat) (on : BufCall α) : BufStep α where
  accepted := (offer b.buf result).1
  writer := { b with
    buf := (offer b.buf result).2.1
    fits := by
      have size := congrArg List.length (offer_whole b.buf result)
      have := b.fits
      rw [List.length_append] at size
      omega }
  progress :=
    match (offer b.buf result).2.2 with
    | none => .running on
    | some e => .returned (.error e)

/-- The bytes go into the buffer. -/
def hold (b : BufWriter α) (bytes : List α) (room : b.buf.length + bytes.length ≤ b.capacity) : BufStep α where
  accepted := []
  writer := { b with buf := b.buf ++ bytes, fits := by rwa [List.length_append] }
  progress := .returned (.ok ())

/-- The end of `write_all`: the bytes go around the buffer if they are too many for it. -/
def passOrHold (b : BufWriter α) (bytes : List α)
    (room : bytes.length < b.capacity → b.buf.length + bytes.length ≤ b.capacity) : BufStep α :=
  if short : bytes.length < b.capacity then b.hold bytes (room short) else ⟨[], b, .running (.passBy bytes)⟩

/-- One `write` around the buffer, which `write_all` makes until none of the bytes is left. -/
def passBy (b : BufWriter α) (result : Except ErrorKind Nat) : List α → BufStep α
  | [] => ⟨[], b, .returned (.ok ())⟩
  | x :: xs =>
    { accepted := (offer (x :: xs) result).1
      writer := b
      progress :=
        match (offer (x :: xs) result).2.2 with
        | none => .running (.passBy (offer (x :: xs) result).2.1)
        | some e => .returned (.error e) }

end BufWriter

namespace BufCall

/-- The next step of a call; `result` is what the `write` below returns, if the step makes one. -/
def step (b : BufWriter α) (result : Except ErrorKind Nat) : BufCall α → BufStep α
  | .writeAll bytes =>
    if room : bytes.length < b.spareCapacity then b.hold bytes (by unfold BufWriter.spareCapacity at room; omega)
    else if _ : b.spareCapacity < bytes.length then ⟨[], b, .running (.makeRoom bytes)⟩
    else b.passOrHold bytes fun _ => by have := b.fits; unfold BufWriter.spareCapacity at *; omega
  | .makeRoom bytes =>
    if empty : b.buf.isEmpty then
      b.passOrHold bytes fun short => by
        rw [List.isEmpty_iff.1 empty, List.length_nil, Nat.zero_add]
        exact Nat.le_of_lt short
    else b.flushBuf result (.makeRoom bytes)
  | .passBy bytes => b.passBy result bytes
  | .flush => if b.buf.isEmpty then ⟨[], b, .returned (.ok ())⟩ else b.flushBuf result .flush

/-- The bytes that a call has not yet put into the buffer or below. -/
def bytes : BufCall α → List α
  | .writeAll bytes | .makeRoom bytes | .passBy bytes => bytes
  | .flush => []

/-- Bytes go around an empty buffer only. -/
def Around (b : BufWriter α) : BufCall α → Prop
  | .passBy _ => b.buf = []
  | _ => True

/-- What a step can do. A call that goes on or returns `Ok` has lost nothing, and a flush that returns `Ok` has
left nothing; a call that fails has accepted nothing in this step and leaves the buffer as it is. -/
inductive Stepped (b : BufWriter α) (call : BufCall α) (s : BufStep α) : Prop where
  | running (next : BufCall α) (on : s.progress = .running next) (around : next.Around s.writer)
      (kept : s.accepted ++ (s.writer.buf ++ next.bytes) = b.buf ++ call.bytes) (later : next.bytes <:+ call.bytes)
      (flush : call = .flush → next = .flush)
  | done (returned : s.progress = .returned (.ok ())) (kept : s.accepted ++ s.writer.buf = b.buf ++ call.bytes)
      (flushed : call = .flush → s.writer.buf = [])
  | failed (e : ErrorKind) (returned : s.progress = .returned (.error e)) (nothing : s.accepted = [])
      (same : s.writer.buf = b.buf)

theorem flushBuf_stepped (b : BufWriter α) (result : Except ErrorKind Nat) {call : BufCall α} (around : call.Around b)
    (self : ∀ left, call ≠ .passBy left) : Stepped b call (b.flushBuf result call) := by
  cases failure : (offer b.buf result).2.2 with
  | none =>
    refine .running call ?_ ?_ ?_ (List.suffix_refl _) id
    · simp only [BufWriter.flushBuf, failure]
    · cases call with
      | passBy left => exact absurd rfl (self left)
      | writeAll | makeRoom | flush => exact around
    · dsimp only [BufWriter.flushBuf]
      rw [← List.append_assoc, offer_whole]
  | some e =>
    obtain ⟨nothing, same⟩ := offer_failed failure
    refine .failed e ?_ nothing same
    simp only [BufWriter.flushBuf, failure]

theorem passOrHold_stepped {b : BufWriter α} (call : BufCall α)
    (room : call.bytes.length < b.capacity → b.buf.length + call.bytes.length ≤ b.capacity)
    (empty : b.capacity ≤ call.bytes.length → b.buf = []) (writes : call ≠ .flush) :
    Stepped b call (b.passOrHold call.bytes room) := by
  unfold BufWriter.passOrHold
  split
  · exact .done rfl rfl fun flush => absurd flush writes
  · rename_i long
    exact .running (.passBy call.bytes) rfl (empty (Nat.le_of_not_lt long)) rfl (List.suffix_refl _) fun flush => absurd flush writes

theorem passBy_stepped {b : BufWriter α} (empty : b.buf = []) (bytes : List α) (result : Except ErrorKind Nat) :
    Stepped b (.passBy bytes) (b.passBy result bytes) := by
  cases bytes with
  | nil => exact .done rfl (by simp [BufWriter.passBy, empty, BufCall.bytes]) (by simp)
  | cons x xs =>
    have whole := offer_whole (x :: xs) result
    cases failure : (offer (x :: xs) result).2.2 with
    | none =>
      refine .running (.passBy (offer (x :: xs) result).2.1) ?_ empty ?_ ⟨_, whole⟩ (by simp)
      · simp only [BufWriter.passBy, failure]
      · simp only [BufWriter.passBy, BufCall.bytes, empty, List.nil_append, whole]
    | some e =>
      refine .failed e ?_ (offer_failed failure).1 rfl
      simp only [BufWriter.passBy, failure]

/-- **One step of a call.** -/
theorem step_stepped {b : BufWriter α} {call : BufCall α} (around : call.Around b) (result : Except ErrorKind Nat) :
    Stepped b call (call.step b result) := by
  cases call with
  | writeAll bytes =>
    simp only [step]
    split
    · exact .done rfl rfl (by simp)
    · split
      · exact .running (.makeRoom bytes) rfl trivial rfl (List.suffix_refl _) (by simp)
      · rename_i small _
        refine passOrHold_stepped (.writeAll bytes) _ (fun long => ?_) (by simp)
        -- the bytes are as many as there is room for, and no fewer than there ever is
        have := b.fits
        simp only [BufCall.bytes] at long
        unfold BufWriter.spareCapacity at *
        exact List.eq_nil_of_length_eq_zero (by omega)
  | makeRoom bytes =>
    simp only [step]
    split
    · rename_i empty
      exact passOrHold_stepped (.makeRoom bytes) _ (fun _ => List.isEmpty_iff.1 empty) (by simp)
    · exact flushBuf_stepped b result trivial (by simp)
  | passBy bytes => exact passBy_stepped around bytes result
  | flush =>
    simp only [step]
    split
    · rename_i empty
      exact .done rfl (by simp [BufCall.bytes]) fun _ => List.isEmpty_iff.1 empty
    · exact flushBuf_stepped b result trivial (by simp)

@[simp] theorem step_capacity (b : BufWriter α) (call : BufCall α) (result : Except ErrorKind Nat) :
    (call.step b result).writer.capacity = b.capacity := by
  have held : ∀ bytes room, (b.passOrHold bytes room).writer.capacity = b.capacity := by
    intro bytes room
    unfold BufWriter.passOrHold
    split <;> rfl
  cases call with
  | writeAll bytes =>
    simp only [step]
    split
    · rfl
    · split
      · rfl
      · exact held ..
  | makeRoom bytes =>
    simp only [step]
    split
    · exact held ..
    · rfl
  | passBy bytes => cases bytes <;> rfl
  | flush =>
    simp only [step]
    split <;> rfl

/-- The bytes of the call fit into an empty buffer. -/
def Short (b : BufWriter α) : BufCall α → Prop
  | .writeAll bytes | .makeRoom bytes => bytes.length < b.capacity
  | .passBy _ => False
  | .flush => True

/-- A short call goes into the buffer as a whole: none of its bytes goes anywhere while it is running. -/
theorem Short.step {b : BufWriter α} {call next : BufCall α} {result : Except ErrorKind Nat} (short : call.Short b)
    (on : (call.step b result).progress = .running next) : next.Short (call.step b result).writer ∧ next.bytes = call.bytes := by
  have flushed : ∀ {on' : BufCall α}, (b.flushBuf result on').progress = .running next → next = on' := by
    intro on' on
    unfold BufWriter.flushBuf at on
    dsimp only at on
    split at on <;> cases on
    rfl
  cases call with
  | writeAll bytes =>
    simp only [BufCall.step] at on ⊢
    split at on
    · cases on
    · split at on
      · rename_i small more
        cases on
        rw [dif_neg small, dif_pos more]
        exact ⟨short, rfl⟩
      · unfold BufWriter.passOrHold at on
        rw [dif_pos (show bytes.length < b.capacity from short)] at on
        cases on
  | makeRoom bytes =>
    simp only [BufCall.step] at on ⊢
    split at on
    · unfold BufWriter.passOrHold at on
      rw [dif_pos (show bytes.length < b.capacity from short)] at on
      cases on
    · obtain rfl := flushed on
      refine ⟨?_, rfl⟩
      rename_i filled
      rw [dif_neg filled]
      exact short
  | passBy bytes => exact short.elim
  | flush =>
    simp only [BufCall.step] at on
    split at on
    · cases on
    · obtain rfl := flushed on
      exact ⟨trivial, rfl⟩

end BufCall

end ByteIo
