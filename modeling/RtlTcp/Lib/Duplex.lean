import RtlTcp.Lib.Transition
import Mathlib.Data.List.Infix
import Mathlib.Algebra.GroupWithZero.Nat

/-!
# Two parties over a duplex byte channel

Each party follows a script of operations, `write_all` of some bytes or `read_exact` of so many,
over two reliable first-in-first-out channels. A single write puts any non-empty part of what is
left of its buffer on the way, and a single read takes any non-empty part of what has arrived, so
that every split of the bytes and every order of the two parties is a run. A party can fail in any
operation, and one that has come to the end of its script may send whatever it likes. What a party
has read is what the other has sent, up to the bytes on the way (`Linked`), and how far it is in its
script says how much it has sent and read (`Accounts`).
-/

namespace Duplex
set_option autoImplicit false
open Transition

/-- An operation, or what is left of it. -/
inductive Op where
  | writeAll (bytes : List UInt8)
  | readExact (n : Nat)
  deriving DecidableEq, Repr

def Op.isWrite : Op → Bool
  | .writeAll _ => true
  | .readExact _ => false

/-- What an operation sends. -/
def Op.output : Op → List UInt8
  | .writeAll bytes => bytes
  | .readExact _ => []

/-- How many bytes an operation reads. -/
def Op.input : Op → Nat
  | .writeAll _ => 0
  | .readExact n => n

/-- What a list of operations sends. -/
def output (ops : List Op) : List UInt8 := ops.flatMap Op.output

/-- How many bytes a list of operations reads. -/
def input (ops : List Op) : Nat := (ops.map Op.input).sum

/-- The number of bytes an operation is about; an operation on none is not made. -/
def Op.size (o : Op) : Nat := o.output.length + o.input

/-- A party: what is left of its script, whether an operation has failed, what it has read and what
it has sent. -/
structure Party where
  todo : List Op
  failed : Bool
  received : List UInt8
  sent : List UInt8
  deriving DecidableEq, Repr

def Party.start (script : List Op) : Party := ⟨script, false, [], []⟩

/-- The script has been followed to its end. -/
def Party.Done (p : Party) : Prop := p.todo = [] ∧ p.failed = false

/-- What a party can do: a single write or read of at most `k + 1` bytes in its operation, a failure
of it, or, after its script, a write of any bytes. -/
inductive Act where
  | write (k : Nat)
  | read (k : Nat)
  | fail
  | later (bytes : List UInt8)
  deriving DecidableEq, Repr

/-- The act is one of the script's own writes and reads. -/
def Act.ofScript : Act → Bool
  | .write _ | .read _ => true
  | .fail | .later _ => false

/-- The rest of a `write_all`, and the operations after it. -/
def restOfWrite (left : List UInt8) (ops : List Op) : List Op := if left.isEmpty then ops else .writeAll left :: ops

/-- The rest of a `read_exact`, and the operations after it. -/
def restOfRead (left : Nat) (ops : List Op) : List Op := if left = 0 then ops else .readExact left :: ops

/-- A single write, and what it has put on the way. -/
def Party.write (p : Party) (k : Nat) : Option (Party × List UInt8) :=
  match p.todo with
  | .writeAll (b :: bytes) :: ops =>
    let part := (b :: bytes).take (k + 1)
    some ({ p with todo := restOfWrite ((b :: bytes).drop (k + 1)) ops, sent := p.sent ++ part }, part)
  | _ => none

/-- A single read, and what it has left of `inbound`. -/
def Party.read (p : Party) (k : Nat) (inbound : List UInt8) : Option (Party × List UInt8) :=
  match p.todo, inbound with
  | .readExact (n + 1) :: ops, b :: bytes =>
    let part := (b :: bytes).take (min (k + 1) (n + 1))
    some ({ p with todo := restOfRead (n + 1 - part.length) ops, received := p.received ++ part },
      (b :: bytes).drop (min (k + 1) (n + 1)))
  | _, _ => none

/-- The party after an act, what it has left of `inbound`, and what it has put on the way. -/
def Party.act (p : Party) (inbound : List UInt8) (a : Act) : Option (Party × List UInt8 × List UInt8) :=
  if p.failed then none
  else
    match a with
    | .write k => (p.write k).map fun (p, put) => (p, inbound, put)
    | .read k => (p.read k inbound).map fun (p, rest) => (p, rest, [])
    | .fail => if p.todo.isEmpty then none else some ({ p with failed := true }, inbound, [])
    | .later bytes => if p.todo.isEmpty then some ({ p with sent := p.sent ++ bytes }, inbound, bytes) else none

/-- The two parties and the bytes on the way to each. -/
structure System where
  left : Party
  right : Party
  toLeft : List UInt8
  toRight : List UInt8
  deriving DecidableEq, Repr

inductive Side where
  | left
  | right
  deriving DecidableEq, Repr

def System.start (left right : List Op) : System := ⟨.start left, .start right, [], []⟩

def step (d : System) : Side × Act → Option System
  | (.left, a) => (d.left.act d.toLeft a).map fun (p, inbound, put) =>
      { d with left := p, toLeft := inbound, toRight := d.toRight ++ put }
  | (.right, a) => (d.right.act d.toRight a).map fun (p, inbound, put) =>
      { d with right := p, toRight := inbound, toLeft := d.toLeft ++ put }

/-! ## What an act does -/

@[simp] theorem output_nil : output [] = [] := rfl
@[simp] theorem input_nil : input [] = 0 := rfl

@[simp] theorem output_cons (o : Op) (ops : List Op) : output (o :: ops) = o.output ++ output ops := by
  simp [output]

@[simp] theorem input_cons (o : Op) (ops : List Op) : input (o :: ops) = o.input + input ops := by
  simp [input]

/-- `todo` is what is left of `script`: the same operations from some point on, the first of them
perhaps begun, and none of them empty. -/
structure Rest (script todo : List Op) : Prop where
  kinds : todo.map Op.isWrite <:+ script.map Op.isWrite
  sizes : ∀ o ∈ todo, 0 < o.size

section
variable {script ops : List Op} {o : Op} (rest : Rest script (o :: ops))
include rest

/-- An operation that has ended is not among the rest. -/
theorem Rest.tail : Rest script ops :=
  ⟨(List.suffix_cons ..).trans rest.kinds, fun o' member => rest.sizes o' (List.mem_cons_of_mem _ member)⟩

/-- An operation that has been begun is of the same kind. -/
theorem Rest.begun {o' : Op} (kind : o'.isWrite = o.isWrite) (size : 0 < o'.size) : Rest script (o' :: ops) := by
  refine ⟨?_, fun o'' member => ?_⟩
  · rw [List.map_cons, kind]
    exact rest.kinds
  · rcases List.mem_cons.1 member with rfl | later
    · exact size
    · exact rest.tail.sizes o'' later

theorem rest_of_write (left : List UInt8) (write : o.isWrite = true) : Rest script (restOfWrite left ops) := by
  unfold restOfWrite
  split
  · exact rest.tail
  · rename_i nonempty
    apply rest.begun
    · exact write.symm
    simp only [Op.size, Op.output, Op.input, Nat.add_zero]
    exact List.length_pos_iff.2 fun empty => nonempty (List.isEmpty_iff.2 empty)

theorem rest_of_read (left : Nat) (read : o.isWrite = false) : Rest script (restOfRead left ops) := by
  unfold restOfRead
  split
  · exact rest.tail
  · rename_i nonzero
    apply rest.begun
    · exact read.symm
    simp only [Op.size, Op.output, Op.input, List.length_nil, Nat.zero_add]
    omega

end

@[simp] theorem output_restOfWrite (left : List UInt8) (ops : List Op) :
    output (restOfWrite left ops) = left ++ output ops := by
  unfold restOfWrite
  split
  · rename_i empty
    rw [List.isEmpty_iff.1 empty, List.nil_append]
  · rw [output_cons]
    rfl

@[simp] theorem input_restOfWrite (left : List UInt8) (ops : List Op) : input (restOfWrite left ops) = input ops := by
  unfold restOfWrite
  split
  · rfl
  · rw [input_cons, Op.input, Nat.zero_add]

@[simp] theorem output_restOfRead (left : Nat) (ops : List Op) : output (restOfRead left ops) = output ops := by
  unfold restOfRead
  split
  · rfl
  · rw [output_cons]
    rfl

@[simp] theorem input_restOfRead (left : Nat) (ops : List Op) : input (restOfRead left ops) = left + input ops := by
  unfold restOfRead
  split
  · rename_i zero
    rw [zero, Nat.zero_add]
  · rw [input_cons]
    rfl

/-- **What one act does**: how it changes what is left of the script, and which bytes it moves. -/
inductive Acted (p : Party) (inbound : List UInt8) : Act → Party → List UInt8 → List UInt8 → Prop where
  | wrote {k : Nat} {put : List UInt8} {todo : List Op} (nonempty : put ≠ []) (out : put ++ output todo = output p.todo)
      (inp : input todo = input p.todo) (rest : ∀ script, Rest script p.todo → Rest script todo) :
      Acted p inbound (.write k) { p with todo := todo, sent := p.sent ++ put } inbound put
  | took {k : Nat} {part inbound' : List UInt8} {todo : List Op} (nonempty : part ≠ []) (split : inbound = part ++ inbound')
      (inp : part.length + input todo = input p.todo) (out : output todo = output p.todo)
      (rest : ∀ script, Rest script p.todo → Rest script todo) :
      Acted p inbound (.read k) { p with todo := todo, received := p.received ++ part } inbound' []
  | failed (busy : p.todo ≠ []) : Acted p inbound .fail { p with failed := true } inbound []
  | wentOn {bytes : List UInt8} (ended : p.todo = []) :
      Acted p inbound (.later bytes) { p with sent := p.sent ++ bytes } inbound bytes

theorem act_some {p p' : Party} {inbound inbound' put : List UInt8} {a : Act}
    (acted : p.act inbound a = some (p', inbound', put)) : p.failed = false ∧ Acted p inbound a p' inbound' put := by
  unfold Party.act at acted
  split at acted
  · cases acted
  rename_i running
  refine ⟨Bool.eq_false_iff.2 running, ?_⟩
  cases a with
  | write k =>
    obtain ⟨⟨p₁, put₁⟩, wrote, same⟩ := Option.map_eq_some_iff.1 acted
    cases same
    unfold Party.write at wrote
    split at wrote
    · rename_i b bytes ops todo
      cases wrote
      refine .wrote (by simp) ?_ ?_ fun script rest => ?_
      · rw [todo, output_restOfWrite, output_cons, ← List.append_assoc, List.take_append_drop]
        rfl
      · rw [todo, input_restOfWrite, input_cons, Op.input, Nat.zero_add]
      · rw [todo] at rest
        exact rest_of_write rest _ rfl
    · cases wrote
  | read k =>
    obtain ⟨⟨p₁, rest₁⟩, took, same⟩ := Option.map_eq_some_iff.1 acted
    cases same
    unfold Party.read at took
    split at took
    · rename_i n ops b bytes todo
      cases took
      have short : ((b :: bytes).take (min (k + 1) (n + 1))).length ≤ n + 1 :=
        Nat.le_trans (List.length_take_le ..) (Nat.min_le_right ..)
      refine .took ?_ (List.take_append_drop ..).symm ?_ ?_ fun script rest => ?_
      · exact List.ne_nil_of_length_pos (by rw [List.length_take, List.length_cons]; omega)
      · rw [todo, input_restOfRead, input_cons, Op.input]
        omega
      · rw [todo, output_restOfRead, output_cons]
        rfl
      · rw [todo] at rest
        exact rest_of_read rest _ rfl
    · cases took
  | fail =>
    dsimp only at acted
    split at acted
    · cases acted
    · rename_i busy
      cases acted
      exact .failed fun empty => busy (List.isEmpty_iff.2 empty)
  | later bytes =>
    dsimp only at acted
    split at acted
    · rename_i ended
      cases acted
      exact .wentOn (List.isEmpty_iff.1 ended)
    · cases acted

/-! ## Whole runs -/

/-- What a party has sent and read fits to how far it is in its script. Only after the script does it
send more than the script says. -/
structure Accounts (script : List Op) (p : Party) : Prop where
  rest : Rest script p.todo
  sent : ∃ later, p.sent ++ output p.todo = output script ++ later ∧ (p.todo ≠ [] → later = [])
  received : p.received.length + input p.todo = input script

theorem accounts_start {script : List Op} (sizes : ∀ o ∈ script, 0 < o.size) : Accounts script (.start script) where
  rest := ⟨List.suffix_refl _, sizes⟩
  sent := ⟨[], by simp [Party.start], fun _ => rfl⟩
  received := by simp [Party.start]

theorem Accounts.act {script : List Op} {p p' : Party} {inbound inbound' put : List UInt8} {a : Act}
    (accounts : Accounts script p) (acted : Acted p inbound a p' inbound' put) : Accounts script p' := by
  obtain ⟨later, sent, early⟩ := accounts.sent
  cases acted with
  | wrote nonempty out inp rest =>
    have busy : p.todo ≠ [] := by
      intro empty
      rw [empty, output_nil] at out
      exact nonempty (List.append_eq_nil_iff.1 out).1
    refine ⟨rest script accounts.rest, ⟨later, ?_, fun _ => early busy⟩, ?_⟩
    · rw [List.append_assoc, out, sent]
    · rw [inp, accounts.received]
  | took nonempty split inp out rest =>
    have busy : p.todo ≠ [] := by
      intro empty
      rw [empty, input_nil] at inp
      exact nonempty (List.eq_nil_of_length_eq_zero (Nat.eq_zero_of_add_eq_zero_right inp))
    refine ⟨rest script accounts.rest, ⟨later, by rw [out, sent], fun _ => early busy⟩, ?_⟩
    rw [List.length_append, Nat.add_assoc, inp, accounts.received]
  | failed busy => exact ⟨accounts.rest, ⟨later, sent, early⟩, accounts.received⟩
  | wentOn ended =>
    refine ⟨accounts.rest, ⟨later ++ put, ?_, fun busy => absurd ended busy⟩, accounts.received⟩
    rw [ended, output_nil, List.append_nil] at sent ⊢
    rw [sent, List.append_assoc]

/-- Both parties keep their accounts, and what one has sent the other has read or is on the way. -/
structure Linked (left right : List Op) (d : System) : Prop where
  left : Accounts left d.left
  right : Accounts right d.right
  toRight : d.left.sent = d.right.received ++ d.toRight
  toLeft : d.right.sent = d.left.received ++ d.toLeft

/-- The bytes that an act moves stay in order. -/
theorem Acted.moves {p p' : Party} {inbound inbound' put : List UInt8} {a : Act} (acted : Acted p inbound a p' inbound' put) :
    p'.sent = p.sent ++ put ∧ p'.received ++ inbound' = p.received ++ inbound := by
  cases acted with
  | wrote | wentOn => exact ⟨rfl, rfl⟩
  | took _ split => exact ⟨(List.append_nil _).symm, by rw [split, List.append_assoc]⟩
  | failed => exact ⟨(List.append_nil _).symm, rfl⟩

theorem Linked.step {left right : List Op} {d d' : System} {label : Side × Act} (linked : Linked left right d)
    (taken : step d label = some d') : Linked left right d' := by
  obtain ⟨side, a⟩ := label
  cases side with
  | left =>
    obtain ⟨⟨p, inbound, put⟩, acted, rfl⟩ := Option.map_eq_some_iff.1 taken
    obtain ⟨-, acted⟩ := act_some acted
    obtain ⟨sent, kept⟩ := acted.moves
    refine ⟨linked.left.act acted, linked.right, ?_, ?_⟩
    · rw [sent, linked.toRight, List.append_assoc]
    · rw [kept, linked.toLeft]
  | right =>
    obtain ⟨⟨p, inbound, put⟩, acted, rfl⟩ := Option.map_eq_some_iff.1 taken
    obtain ⟨-, acted⟩ := act_some acted
    obtain ⟨sent, kept⟩ := acted.moves
    refine ⟨linked.left, linked.right.act acted, ?_, ?_⟩
    · rw [kept, linked.toRight]
    · rw [sent, linked.toLeft, List.append_assoc]

/-- **In every interleaving the bytes are accounted for.** -/
theorem linked_run {left right : List Op} (sizesLeft : ∀ o ∈ left, 0 < o.size) (sizesRight : ∀ o ∈ right, 0 < o.size)
    {labels : List (Side × Act)} {d : System} (reached : run step (.start left right) labels = some d) :
    Linked left right d :=
  run_invariant (fun _ _ _ linked taken => linked.step taken)
    ⟨accounts_start sizesLeft, accounts_start sizesRight, rfl, rfl⟩ reached

/-- When both scripts have ended and the right party reads as much as the left one sends, it has
read exactly that, and what the left party sent later is still on the way. -/
theorem delivered_of_done {sender receiver : List Op} {p q : Party} {wire : List UInt8} (sends : Accounts sender p)
    (reads : Accounts receiver q) (between : p.sent = q.received ++ wire) (ended : p.todo = []) (ended' : q.todo = [])
    (fits : input receiver = (output sender).length) :
    q.received = output sender ∧ p.sent = output sender ++ wire := by
  obtain ⟨later, sent, -⟩ := sends.sent
  have size := reads.received
  rw [ended, output_nil, List.append_nil] at sent
  rw [ended', input_nil, Nat.add_zero, fits] at size
  rw [between] at sent
  have same := (List.append_inj sent size).1
  rw [between, same]
  exact ⟨rfl, rfl⟩

/-! ## Deadlock -/

/-- One of the parties can go on with its script. -/
def CanMove (d : System) : Prop := ∃ side a, a.ofScript = true ∧ (step d (side, a)).isSome = true

/-- How many bytes the scripts have still to move. -/
def work (d : System) : Nat :=
  (output d.left.todo).length + input d.left.todo + ((output d.right.todo).length + input d.right.todo)

theorem act_work {p p' : Party} {inbound inbound' put : List UInt8} {a : Act} (acted : Acted p inbound a p' inbound' put)
    (own : a.ofScript = true) :
    (output p'.todo).length + input p'.todo < (output p.todo).length + input p.todo := by
  cases acted with
  | wrote nonempty out inp =>
    have positive := List.length_pos_iff.2 nonempty
    rw [← out, ← inp, List.length_append]
    dsimp only
    omega
  | took nonempty split inp out =>
    have positive := List.length_pos_iff.2 nonempty
    rw [← inp, ← out]
    dsimp only
    omega
  | failed | wentOn => cases own

/-- Going on with a script brings both closer to their ends. -/
theorem work_step {d d' : System} {side : Side} {a : Act} (own : a.ofScript = true) (taken : step d (side, a) = some d') :
    work d' < work d := by
  cases side with
  | left =>
    obtain ⟨⟨p, inbound, put⟩, acted, rfl⟩ := Option.map_eq_some_iff.1 taken
    have less := act_work (act_some acted).2 own
    unfold work
    dsimp only
    omega
  | right =>
    obtain ⟨⟨p, inbound, put⟩, acted, rfl⟩ := Option.map_eq_some_iff.1 taken
    have less := act_work (act_some acted).2 own
    unfold work
    dsimp only
    omega

/-- A party that cannot go on has ended or waits for bytes. -/
theorem waits_of_stuck {script : List Op} {p : Party} {inbound : List UInt8} (accounts : Accounts script p)
    (running : p.failed = false) (stuck : ∀ a, a.ofScript = true → (p.act inbound a).isSome = false) :
    p.todo = [] ∨ ∃ n ops, p.todo = .readExact (n + 1) :: ops ∧ inbound = [] := by
  rcases todo : p.todo with _ | ⟨o, ops⟩
  · exact .inl rfl
  have size := accounts.rest.sizes o (by simp [todo])
  rcases o with (_ | ⟨b, bytes⟩) | (_ | n)
  · cases size
  · have blocked := stuck (.write 0) rfl
    simp [Party.act, running, Party.write, todo] at blocked
  · cases size
  · rcases inbound with _ | ⟨b, bytes⟩
    · exact .inr ⟨n, ops, rfl, rfl⟩
    · have blocked := stuck (.read 0) rfl
      simp [Party.act, running, Party.read, todo] at blocked

/-- **Sending first does not deadlock.** When the left party sends first and then reads all that the
right party sends, and the right party reads all that the left one sends, in whatever order: as long
as one of them has not ended, one of them can go on. -/
theorem canMove_of_sendFirst {bytes : List UInt8} {n : Nat} {right : List Op} {d : System}
    (linked : Linked [.writeAll bytes, .readExact n] right d) (reads : input right = bytes.length)
    (sends : (output right).length = n) (running : d.left.failed = false) (running' : d.right.failed = false)
    (busy : ¬(d.left.todo = [] ∧ d.right.todo = [])) : CanMove d := by
  apply Classical.byContradiction
  intro stuck
  have stuckLeft : ∀ a, a.ofScript = true → (d.left.act d.toLeft a).isSome = false := by
    intro a own
    refine Bool.eq_false_iff.2 fun able => stuck ⟨.left, a, own, ?_⟩
    simpa [step] using able
  have stuckRight : ∀ a, a.ofScript = true → (d.right.act d.toRight a).isSome = false := by
    intro a own
    refine Bool.eq_false_iff.2 fun able => stuck ⟨.right, a, own, ?_⟩
    simpa [step] using able
  have readLeft := linked.left.received
  have readRight := linked.right.received
  obtain ⟨laterLeft, sentLeft, early⟩ := linked.left.sent
  obtain ⟨laterRight, sentRight, -⟩ := linked.right.sent
  have outLeft := congrArg List.length sentLeft
  have outRight := congrArg List.length sentRight
  have wireLeft := congrArg List.length linked.toLeft
  have wireRight := congrArg List.length linked.toRight
  simp only [output_cons, output_nil, input_cons, input_nil, Op.output, Op.input, List.append_nil, List.length_append]
    at readLeft readRight outLeft outRight wireLeft wireRight
  rcases waits_of_stuck linked.left running stuckLeft with endedLeft | ⟨k, ops, todoLeft, noneLeft⟩
  · rcases waits_of_stuck linked.right running' stuckRight with endedRight | ⟨k', ops', todoRight, noneRight⟩
    · exact busy ⟨endedLeft, endedRight⟩
    · -- the left party has sent everything, and the right one still waits for some of it
      simp only [endedLeft, todoRight, noneRight, output_nil, input_cons, Op.input, List.length_nil] at *
      omega
  · rcases waits_of_stuck linked.right running' stuckRight with endedRight | ⟨k', ops', todoRight, noneRight⟩
    · simp only [todoLeft, endedRight, noneLeft, output_nil, input_cons, Op.input, List.length_nil] at *
      omega
    · -- the left party waits, so it has sent everything
      have sentAll : output d.left.todo = [] := by
        have kinds := linked.left.rest.kinds
        rw [todoLeft] at kinds ⊢
        simp only [List.map_cons, List.map_nil, Op.isWrite, List.suffix_cons_iff] at kinds
        rcases kinds with whole | same | empty
        · cases (List.cons.inj whole).1
        · rw [output_cons, List.map_eq_nil_iff.1 (List.cons.inj same).2]
          rfl
        · cases List.suffix_nil.1 empty
      rw [sentAll, early (by simp [todoLeft])] at outLeft
      simp only [todoRight, noneRight, input_cons, Op.input, List.length_nil] at *
      omega

end Duplex
