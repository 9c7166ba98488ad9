import Mathlib.Algebra.GroupWithZero.Nat
import RtlTcp.Lib.ByteIo
import RtlTcp.Lib.Keystream

/-!
# `encryption.rs`: ChaCha20 over the proxy chain

`EncryptedWriter` and `EncryptedReader` wrap a stream and advance one cipher each; the two
nonce exchanges agree on the initialisation vectors. The cipher itself is the `chacha20`
crate, so it enters as the class `ChaCha`: a keystream for every key and nonce, which an
application adds by exclusive or and moves forward by the length of the buffer.

`EncryptedWriter::write` encrypts everything it is offered before it knows how much the
inner writer accepts. `encrypted_roundtrip_iff` says when the peer can still decrypt.
-/

namespace RtlTcp
set_option autoImplicit false
open ByteIo Keystream

abbrev Key := Bytes 32
abbrev Nonce := Bytes 12

/-- The `chacha20` crate: the keystream of a key and a nonce. -/
class ChaCha where
  keystream : Key → Nonce → Nat → UInt8

/-- A `chacha20::ChaCha20` instance and how much of its keystream it has used. -/
structure ChaCha20 where
  key : Key
  nonce : Nonce
  pos : Nat
  deriving DecidableEq

/-- `ChaCha20::new` -/
def ChaCha20.new (key : Key) (nonce : Nonce) : ChaCha20 := ⟨key, nonce, 0⟩

/-- The cipher after `n` more bytes. -/
def ChaCha20.advance (c : ChaCha20) (n : Nat) : ChaCha20 := { c with pos := c.pos + n }

section
variable [ChaCha]

/-- The keystream of a cipher from its first position on. -/
def ChaCha20.stream (c : ChaCha20) : Nat → UInt8 := ChaCha.keystream c.key c.nonce

/-- `StreamCipher::apply_keystream` -/
def ChaCha20.applyKeystream (c : ChaCha20) (buf : List UInt8) : List UInt8 × ChaCha20 :=
  (xorAt c.stream c.pos buf, c.advance buf.length)

/-- `apply_keystream` on an array. -/
def ChaCha20.applyArray {n : Nat} (c : ChaCha20) (buf : Bytes n) : Bytes n × ChaCha20 :=
  (⟨xorAt c.stream c.pos buf.toList, by simp⟩, c.advance n)

end

/-- Writer wrapper that encrypts all data written through it. -/
structure EncryptedWriter (W : Type) where
  inner : W
  cipher : ChaCha20

def EncryptedWriter.new {W : Type} (inner : W) (key : Key) (nonce : Nonce) : EncryptedWriter W :=
  ⟨inner, .new key nonce⟩

/-- Reader wrapper that decrypts all data read through it. -/
structure EncryptedReader (R : Type) where
  inner : R
  cipher : ChaCha20

def EncryptedReader.new {R : Type} (inner : R) (key : Key) (nonce : Nonce) : EncryptedReader R :=
  ⟨inner, .new key nonce⟩

section
variable [ChaCha]

instance {W : Type} [Write W] : Write (EncryptedWriter W) where
  write w buf :=
    let (encrypted, cipher) := w.cipher.applyKeystream buf
    let (result, inner) := Write.write w.inner encrypted
    (result, ⟨inner, cipher⟩)
  flush w :=
    let (result, inner) := Write.flush w.inner
    (result, ⟨inner, w.cipher⟩)

instance {R : Type} [Read R] : Read (EncryptedReader R) where
  read r buf :=
    match Read.read r.inner buf with
    | (.ok n, filled, inner) =>
      let (plain, cipher) := r.cipher.applyKeystream (filled.take n)
      (.ok n, plain ++ filled.drop n, ⟨inner, cipher⟩)
    | (.error e, filled, inner) => (.error e, filled, ⟨inner, r.cipher⟩)

end

/-- A buffer passed to `write_all` on a socket, and how the call ended. -/
abbrev SocketWrite := List UInt8 × Except ErrorKind Unit

/-- What a nonce exchange returns, what it leaves unread and what it wrote. -/
structure Exchange where
  result : Except ErrorKind (Nonce × Nonce)
  rest : List Arrival
  written : List SocketWrite

/-- `nonce_exchange`: send, then receive. `myNonce` is what `generate_nonce` returned and
`sent` how the write went. -/
def nonceExchange (inbound : List Arrival) (myNonce : Nonce) (sent : Except ErrorKind Unit) : Exchange :=
  match sent with
  | .error e => ⟨.error e, inbound, [(myNonce.toList, sent)]⟩
  | .ok () =>
    match readExact 12 inbound with
    | (.ok peerNonce, rest) => ⟨.ok (myNonce, peerNonce), rest, [(myNonce.toList, sent)]⟩
    | (.error e, rest) => ⟨.error e, rest, [(myNonce.toList, sent)]⟩

/-- `server_nonce_exchange`: receive, then send. -/
def serverNonceExchange (inbound : List Arrival) (myNonce : Nonce) (sent : Except ErrorKind Unit) : Exchange :=
  match readExact 12 inbound with
  | (.error e, rest) => ⟨.error e, rest, []⟩
  | (.ok peerNonce, rest) =>
    match sent with
    | .error e => ⟨.error e, rest, [(myNonce.toList, sent)]⟩
    | .ok () => ⟨.ok (myNonce, peerNonce), rest, [(myNonce.toList, sent)]⟩

/-! ## Short writes and the keystream position -/

/-- One call of the inner writer: how much it was offered and how much it accepted. -/
structure Offer where
  offered : Nat
  accepted : Nat
  deriving DecidableEq, Repr

/-- The inner calls of a `write_all` of `len` bytes, and the script after them. -/
def offersOf : (len : Nat) → List Accept → List Offer × List Accept
  | 0, script => ([], script)
  | _ + 1, [] => ([], [])
  | len + 1, .upTo n :: script =>
    let later := offersOf (len - n) script
    (⟨len + 1, min (n + 1) (len + 1)⟩ :: later.1, later.2)
  | len + 1, .fail e :: script =>
    if e = .interrupted then
      let later := offersOf (len + 1) script
      (⟨len + 1, 0⟩ :: later.1, later.2)
    else ([⟨len + 1, 0⟩], script)

/-- The inner calls of one `write_all` after another, for buffers of the given lengths. -/
def offers : (lens : List Nat) → List Accept → List Offer
  | [], _ => []
  | len :: lens, script => (offersOf len script).1 ++ offers lens (offersOf len script).2

/-- Every accepted byte meets the same keystream byte at the position the writer used for
it and at the position it has in the stream. `used` counts the bytes offered so far and
`delivered` the bytes accepted so far, so the two part at the first short or interrupted
call. -/
def InStep (k : Nat → UInt8) : (used delivered : Nat) → List Offer → Prop
  | _, _, [] => True
  | used, delivered, o :: os =>
    (∀ i, i < o.accepted → k (used + i) = k (delivered + i)) ∧
      InStep k (used + o.offered) (delivered + o.accepted) os

/-- The bytes the inner writer accepts when `bytes` goes through the calls `offers`. -/
def sealed (k : Nat → UInt8) : (used : Nat) → List Offer → (bytes : List UInt8) → List UInt8
  | _, [], _ => []
  | used, o :: os, bytes =>
    xorAt k used (bytes.take o.accepted) ++ sealed k (used + o.offered) os (bytes.drop o.accepted)

def totalOffered (os : List Offer) : Nat := (os.map Offer.offered).sum
def totalAccepted (os : List Offer) : Nat := (os.map Offer.accepted).sum

/-- **When no call is short or interrupted, the positions never part.** -/
theorem inStep_of_whole {k : Nat → UInt8} {os : List Offer} (pos : Nat)
    (whole : ∀ o ∈ os, o.accepted = o.offered) : InStep k pos pos os := by
  induction os generalizing pos with
  | nil => trivial
  | cons o os ih =>
    refine ⟨fun _ _ => rfl, ?_⟩
    rw [whole o (List.mem_cons_self ..)]
    exact ih (pos + o.offered) fun o' mem => whole o' (List.mem_cons_of_mem _ mem)

/-- Buffers that go through one after the other. -/
theorem sealed_append (k : Nat → UInt8) {os : List Offer} {used : Nat} {bytes : List UInt8}
    (all : totalAccepted os = bytes.length) (os' : List Offer) (bytes' : List UInt8) :
    sealed k used (os ++ os') (bytes ++ bytes') =
      sealed k used os bytes ++ sealed k (used + totalOffered os) os' bytes' := by
  induction os generalizing used bytes with
  | nil =>
    simp only [totalAccepted, List.map_nil, List.sum_nil] at all
    simp [sealed, totalOffered, List.eq_nil_of_length_eq_zero all.symm]
  | cons o os ih =>
    simp only [totalAccepted, List.map_cons, List.sum_cons] at all
    have first : o.accepted ≤ bytes.length := by omega
    have tail : totalAccepted os = (bytes.drop o.accepted).length := by
      rw [List.length_drop, totalAccepted]; omega
    simp only [List.cons_append, sealed, List.take_append_of_le_length first,
      List.drop_append_of_le_length first, ih tail, totalOffered, List.map_cons, List.sum_cons,
      List.append_assoc, Nat.add_assoc]

/-- Decrypting in stream order gives the data back exactly when the positions agree. -/
theorem xorAt_sealed_iff (k : Nat → UInt8) {os : List Offer} {used delivered : Nat} {bytes : List UInt8}
    (all : totalAccepted os = bytes.length) :
    xorAt k delivered (sealed k used os bytes) = bytes ↔ InStep k used delivered os := by
  induction os generalizing used delivered bytes with
  | nil =>
    simp only [totalAccepted, List.map_nil, List.sum_nil] at all
    simp [sealed, InStep, List.eq_nil_of_length_eq_zero all.symm]
  | cons o os ih =>
    simp only [totalAccepted, List.map_cons, List.sum_cons] at all
    have size : (bytes.take o.accepted).length = o.accepted := by rw [List.length_take]; omega
    have tail : totalAccepted os = (bytes.drop o.accepted).length := by
      rw [List.length_drop, totalAccepted]; omega
    have here : xorAt k delivered (xorAt k used (bytes.take o.accepted)) = bytes.take o.accepted ↔
        ∀ i, i < o.accepted → k (used + i) = k (delivered + i) := by
      have := xorAt_cancel_iff k used delivered (bytes.take o.accepted)
      rwa [size] at this
    simp only [sealed, InStep, xorAt_append, length_xorAt, size]
    rw [← here, ← ih tail]
    conv => lhs; rhs; rw [← List.take_append_drop o.accepted bytes]
    constructor
    · intro same
      exact List.append_inj same (by simp)
    · rintro ⟨first, second⟩
      rw [first, second]

section
variable [ChaCha]

/-- One `write_all` that returns `Ok`: what the sink accepted and where the cipher is. -/
theorem writeAll_encrypted {fuel : Nat} {script : List Accept} {accepted bytes : List UInt8} {c : ChaCha20}
    {w : EncryptedWriter Sink}
    (h : writeAll fuel (⟨⟨script, accepted⟩, c⟩ : EncryptedWriter Sink) bytes = some (.ok (), w)) :
    totalAccepted (offersOf bytes.length script).1 = bytes.length ∧
      w = ⟨⟨(offersOf bytes.length script).2,
          accepted ++ sealed c.stream c.pos (offersOf bytes.length script).1 bytes⟩,
        c.advance (totalOffered (offersOf bytes.length script).1)⟩ := by
  induction fuel generalizing script accepted bytes c with
  | zero =>
    cases bytes with
    | nil =>
      simp only [writeAll, Option.some.injEq, Prod.mk.injEq, true_and] at h
      simp [offersOf, totalAccepted, totalOffered, sealed, ChaCha20.advance, ← h]
    | cons b bs => simp [writeAll] at h
  | succ fuel ih =>
    cases bytes with
    | nil =>
      simp only [writeAll, Option.some.injEq, Prod.mk.injEq, true_and] at h
      simp [offersOf, totalAccepted, totalOffered, sealed, ChaCha20.advance, ← h]
    | cons b bs =>
      cases script with
      | nil => simp [writeAll, Write.write] at h
      | cons a script =>
        cases a with
        | upTo n =>
          have size : min (n + 1) (xorAt c.stream c.pos (b :: bs)).length = min n bs.length + 1 := by
            simp only [length_xorAt, List.length_cons]; omega
          have clip : bs.drop (min n bs.length) = bs.drop n := by
            rcases Nat.le_total n bs.length with le | le
            · rw [Nat.min_eq_left le]
            · rw [Nat.min_eq_right le, List.drop_length, List.drop_eq_nil_of_le le]
          simp only [writeAll, Write.write, ChaCha20.applyKeystream, size, clip] at h
          obtain ⟨all, rfl⟩ := ih h
          simp only [List.length_drop] at all
          have short : min (n + 1) (bs.length + 1) = min n bs.length + 1 := by omega
          have shortTake : bs.take (min n bs.length) = bs.take n := by
            rw [← List.take_take, List.take_length]
          simp only [List.length_cons, offersOf, short, totalAccepted, totalOffered, List.map_cons,
            List.sum_cons, sealed, List.take_succ_cons, List.drop_succ_cons, clip, shortTake,
            List.length_drop]
          refine ⟨by rw [totalAccepted] at all; omega, ?_⟩
          simp only [ChaCha20.advance, ChaCha20.stream, List.append_assoc, Nat.add_assoc, xorAt_take,
            List.take_succ_cons]
        | fail e =>
          simp only [writeAll, Write.write, ChaCha20.applyKeystream] at h
          split at h
          · rename_i retry
            obtain ⟨all, rfl⟩ := ih h
            simp only [List.length_cons] at all
            simp only [List.length_cons, offersOf, if_pos retry, totalAccepted, totalOffered, List.map_cons,
              List.sum_cons, sealed, List.take_zero, List.drop_zero, xorAt_nil, List.nil_append]
            refine ⟨by rw [totalAccepted] at all; omega, ?_⟩
            simp only [ChaCha20.advance, ChaCha20.stream, Nat.add_assoc]
          · simp at h

/-- A sequence of `write_all` calls that return `Ok`. -/
theorem writeEach_encrypted {fuel : Nat} {bufs : List (List UInt8)} {script : List Accept}
    {accepted : List UInt8} {c : ChaCha20} {w : EncryptedWriter Sink}
    (h : writeEach fuel (⟨⟨script, accepted⟩, c⟩ : EncryptedWriter Sink) bufs = some w) :
    totalAccepted (offers (bufs.map List.length) script) = bufs.flatten.length ∧
      w.inner.accepted =
        accepted ++ sealed c.stream c.pos (offers (bufs.map List.length) script) bufs.flatten := by
  induction bufs generalizing script accepted c with
  | nil =>
    simp only [writeEach, Option.some.injEq] at h
    simp [offers, totalAccepted, sealed, ← h]
  | cons buf bufs ih =>
    simp only [writeEach] at h
    split at h
    · rename_i w' first
      obtain ⟨all, rfl⟩ := writeAll_encrypted first
      obtain ⟨rest, log⟩ := ih h
      simp only [List.map_cons, offers, List.flatten_cons]
      refine ⟨?_, ?_⟩
      · simp only [totalAccepted, List.map_append, List.sum_append_nat, List.length_append] at all rest ⊢
        omega
      · rw [log, sealed_append c.stream all, List.append_assoc]
        rfl
    · cases h

/-- What one `read` of an `EncryptedReader` makes of the answer of the inner reader. -/
theorem read_encrypted_ok {R : Type} [Read R] {r : EncryptedReader R} {buf filled : List UInt8} {inner : R} {n : Nat}
    (answer : Read.read r.inner buf = (.ok n, filled, inner)) (short : n ≤ filled.length) :
    Read.read r buf = (.ok n, xorAt r.cipher.stream r.cipher.pos (filled.take n) ++ filled.drop n,
      ⟨inner, r.cipher.advance n⟩) := by
  have size : (filled.take n).length = n := List.length_take_of_le short
  simp only [Read.read] at answer ⊢
  simp only [answer, ChaCha20.applyKeystream, size]

theorem read_encrypted_error {R : Type} [Read R] {r : EncryptedReader R} {buf filled : List UInt8} {inner : R}
    {e : ErrorKind} (answer : Read.read r.inner buf = (.error e, filled, inner)) :
    Read.read r buf = (.error e, filled, ⟨inner, r.cipher⟩) := by
  simp only [Read.read] at answer ⊢
  simp only [answer]

/-- What an `EncryptedReader` delivers is what the inner reader delivered, decrypted in order. -/
theorem readAll_encrypted {R : Type} [Read R] {remaining : R → List UInt8} (lawful : Delivers remaining)
    (bufs : List (List UInt8)) (r : EncryptedReader R) :
    ∃ taken, remaining r.inner = taken ++ remaining (readAll r bufs).2.inner ∧
      (readAll r bufs).1 = xorAt r.cipher.stream r.cipher.pos taken := by
  induction bufs generalizing r with
  | nil => exact ⟨[], rfl, rfl⟩
  | cons buf bufs ih =>
    rcases answer : Read.read r.inner buf with ⟨e | n, filled, inner⟩
    · obtain ⟨taken, rest, plain⟩ := ih ⟨inner, r.cipher⟩
      simp only [readAll, read_encrypted_error answer]
      exact ⟨taken, (lawful.error answer).trans rest, plain⟩
    · obtain ⟨short, -, split⟩ := lawful.ok answer
      obtain ⟨taken, rest, plain⟩ := ih ⟨inner, r.cipher.advance n⟩
      have size : (filled.take n).length = n := List.length_take_of_le short
      simp only [readAll, read_encrypted_ok answer short]
      refine ⟨filled.take n ++ taken, ?_, ?_⟩
      · rw [split, List.append_assoc, ← rest]
      · rw [List.take_left' (by rw [length_xorAt, size]), plain, xorAt_append, size]
        rfl

/-- **Encrypted round trip.** For every sequence of buffers that `write_all` got through and
every way of reading the accepted bytes back, the reader returns the buffers exactly when
each byte accepted after a short or interrupted write meets a repeated keystream byte. -/
theorem encrypted_roundtrip_iff (key : Key) (nonce : Nonce) (bufs : List (List UInt8))
    (script : List Accept) (fuel : Nat) (w : EncryptedWriter Sink)
    (written : writeEach fuel (EncryptedWriter.new ⟨script, []⟩ key nonce) bufs = some w)
    (reads : List (Except ErrorKind Nat)) (into : List (List UInt8))
    (drained : (readAll (EncryptedReader.new (Source.mk reads w.inner.accepted) key nonce)
      into).2.inner.pending = []) :
    (readAll (EncryptedReader.new (Source.mk reads w.inner.accepted) key nonce) into).1 = bufs.flatten ↔
      InStep (ChaCha.keystream key nonce) 0 0 (offers (bufs.map List.length) script) := by
  obtain ⟨all, log⟩ := writeEach_encrypted written
  obtain ⟨taken, rest, plain⟩ :=
    readAll_encrypted Source.delivers into (EncryptedReader.new (Source.mk reads w.inner.accepted) key nonce)
  rw [drained, List.append_nil] at rest
  have accepted : taken = sealed (ChaCha.keystream key nonce) 0 (offers (bufs.map List.length) script)
      bufs.flatten := rest.symm.trans (log.trans (List.nil_append _))
  rw [plain, accepted]
  exact xorAt_sealed_iff (ChaCha.keystream key nonce) all

end

section
variable [ChaCha]

/-- **Fragmentation and errors leave the reader in step.** For every inner reader that keeps its
promise, and every sequence of buffers: the bytes of the successful reads are the ciphertext
consumed, decrypted from the start of the keystream. At any point the next read has the inner
reader's result; after `Ok(n)` the buffer beyond `n`, and after an error all of it, is as the inner
reader left it. -/
theorem encrypted_reader_in_step {R : Type} [Read R] (remaining : R → List UInt8) (lawful : Delivers remaining)
    (key : Key) (nonce : Nonce) (inner : R) (bufs : List (List UInt8)) :
    let done := readAll (EncryptedReader.new inner key nonce) bufs
    (∃ consumed, remaining inner = consumed ++ remaining done.2.inner ∧
      done.1 = xorAt (ChaCha.keystream key nonce) 0 consumed) ∧
    ∀ buf, let answer := Read.read done.2.inner buf
      let result := Read.read done.2 buf
      result.1 = answer.1 ∧ result.2.1.length = answer.2.1.length ∧
        (∀ n, answer.1 = .ok n → result.2.1.drop n = answer.2.1.drop n) ∧
        ∀ e, answer.1 = .error e → result.2.1 = answer.2.1 := by
  refine ⟨readAll_encrypted lawful bufs (EncryptedReader.new inner key nonce), fun buf => ?_⟩
  generalize (readAll (EncryptedReader.new inner key nonce) bufs).2 = r
  dsimp only
  rcases answer : Read.read r.inner buf with ⟨e | n, filled, inner'⟩
  · rw [read_encrypted_error answer]
    exact ⟨rfl, rfl, fun n impossible => absurd impossible (by simp), fun e' _ => rfl⟩
  · obtain ⟨short, -, -⟩ := lawful.ok answer
    have size : (filled.take n).length = n := List.length_take_of_le short
    rw [read_encrypted_ok answer short]
    refine ⟨rfl, ?_, fun n' same => ?_, fun e impossible => absurd impossible (by simp)⟩
    · rw [List.length_append, length_xorAt, size, List.length_drop]
      exact Nat.add_sub_cancel' short
    · obtain rfl := Except.ok.inj same
      exact List.drop_left' (by rw [length_xorAt, size])

end

/-- The keystream of the all-zero key and nonce, as far as its first sixteen bytes; closed
examples run the ciphers on that key and nonce. -/
def zeroKeystream : List UInt8 :=
  [0x76, 0xb8, 0xe0, 0xad, 0xa0, 0xf1, 0x3d, 0x90, 0x40, 0x5d, 0x6a, 0xe5, 0x53, 0x86, 0xbd, 0x28]

@[reducible] def zeroChaCha : ChaCha := ⟨fun _ _ i => zeroKeystream.getD i 0⟩

def zeroKey : Key := ⟨List.replicate 32 0, rfl⟩
def zeroNonce : Nonce := ⟨List.replicate 12 0, rfl⟩

/-- Two whole writes, read back in three portions. -/
theorem whole_writes_roundtrip :
    letI := zeroChaCha
    ∃ w, writeEach 1 (EncryptedWriter.new (Sink.mk [.upTo 1, .upTo 0] []) zeroKey zeroNonce) [[1, 2], [3]] = some w ∧
      (readAll (EncryptedReader.new (Source.mk [.ok 1, .error .timedOut] w.inner.accepted) zeroKey zeroNonce)
        [[9], [9], [9, 9]]).1 = [1, 2, 3] := by
  let _ := zeroChaCha
  refine ⟨_, rfl, (encrypted_roundtrip_iff zeroKey zeroNonce [[1, 2], [3]] [.upTo 1, .upTo 0] 1 _ rfl
    [.ok 1, .error .timedOut] [[9], [9], [9, 9]] rfl).2 ?_⟩
  exact inStep_of_whole 0 (by decide)

/-- A timeout between two portions, with room to spare in the second buffer. -/
theorem timeout_leaves_reader_in_step :
    letI := zeroChaCha
    let done := readAll (EncryptedReader.new (Source.mk [.ok 1, .error .timedOut, .ok 1] [0x77, 0xba, 5]) zeroKey zeroNonce)
      [[9, 9], [9], [9, 9]]
    done.1 = [1, 2] ∧ ∃ consumed, [0x77, 0xba, 5] = consumed ++ done.2.inner.pending ∧
      done.1 = xorAt (ChaCha.keystream zeroKey zeroNonce) 0 consumed :=
  ⟨by decide, (@encrypted_reader_in_step zeroChaCha Source _ Source.pending Source.delivers zeroKey zeroNonce
    (Source.mk [.ok 1, .error .timedOut, .ok 1] [0x77, 0xba, 5]) [[9, 9], [9], [9, 9]]).1⟩

/-- One short write of the first of two bytes: the second byte is encrypted with the third
byte of the keystream and does not come back. -/
theorem short_write_breaks_roundtrip :
    letI := zeroChaCha
    ∃ w, writeEach 2 (EncryptedWriter.new (Sink.mk [.upTo 0, .upTo 0] []) zeroKey zeroNonce) [[1, 2]] = some w ∧
      (readAll (EncryptedReader.new (Source.mk [] w.inner.accepted) zeroKey zeroNonce)
        [[0, 0]]).2.inner.pending = [] ∧
      (readAll (EncryptedReader.new (Source.mk [] w.inner.accepted) zeroKey zeroNonce)
        [[0, 0]]).1 ≠ [[1, 2]].flatten :=
  ⟨_, rfl, rfl, by decide⟩

end RtlTcp
