import TheoryKernel.Ipc.Unix
import TheoryKernel.Lib.Runs

/-! The rings of pipes and sockets are streams of bytes. -/

namespace TheoryKernel.Ipc

open UnixSocket

/-- A write of some bytes, or a read into a buffer of some size. -/
inductive StreamOp where
  | write (data : Bytes)
  | read (room : Nat)

/-- A device with a ring, and the bytes that it has accepted and handed out so far. -/
structure Stream (δ : Type) where
  device : δ
  accepted : Bytes
  delivered : Bytes

namespace Stream

section Step

variable {δ : Type} (write : δ → Bytes → Exec (Nat × δ)) (read : δ → Nat → Exec (Bytes × δ))

/-- An operation on a device: a write may accept only the first bytes. -/
def step (stream : Stream δ) : StreamOp → Exec (Stream δ)
  | .write data => do
    let (written, device) ← write stream.device data
    .ok ⟨device, stream.accepted ++ data.take written, stream.delivered⟩
  | .read room => do
    let (bytes, device) ← read stream.device room
    .ok ⟨device, stream.accepted, stream.delivered ++ bytes⟩

end Step

/--
A device whose ring holds the bytes that were accepted and not handed out yet.

The ring is never too full, and its tail is where its head and the number of its bytes say.
-/
structure Fifo {δ : Type} (ring : δ → RingBuffer (BitVec 8)) (capacity : Nat) (stream : Stream δ) :
    Prop where
  conserved : stream.delivered ++ (ring stream.device).items capacity = stream.accepted
  fits : (ring stream.device).len ≤ capacity
  tail : (ring stream.device).tail =
    ((ring stream.device).head + (ring stream.device).len) % capacity
  head : (ring stream.device).head < capacity

section Run

variable {δ : Type} {ring : δ → RingBuffer (BitVec 8)} {capacity : Nat} {stream : Stream δ}
  {write : δ → Bytes → Exec (Nat × δ)} {read : δ → Nat → Exec (Bytes × δ)}

theorem Fifo.queues (fifo : stream.Fifo ring capacity) :
    (ring stream.device).Queues capacity := ⟨fifo.head, fifo.fits, fifo.tail⟩

/-- A device that writes to its ring and reads from it. -/
structure OnRing (ring : δ → RingBuffer (BitVec 8)) (capacity : Nat)
    (write : δ → Bytes → Exec (Nat × δ)) (read : δ → Nat → Exec (Bytes × δ)) : Prop where
  write : ∀ device data count changed,
    (ring device).write capacity data = some (count, changed) →
      ∃ device', write device data = .ok (count, device') ∧ ring device' = changed
  read : ∀ device room bytes changed,
    (ring device).read capacity room = some (bytes, changed) →
      ∃ device', read device room = .ok (bytes, device') ∧ ring device' = changed

theorem Fifo.step (fifo : stream.Fifo ring capacity) (onRing : OnRing ring capacity write read)
    (op : StreamOp) : ∃ next, stream.step write read op = .ok next ∧ next.Fifo ring capacity := by
  cases op with
  | write data =>
    -- What the ring takes is what the device accepts.
    obtain ⟨final, ran, queues, filled⟩ := fifo.queues.write data
    obtain ⟨device, run, isRing⟩ := onRing.write _ _ _ _ ran
    subst isRing
    rw [Stream.step, run, Exec.ok_bind]
    refine ⟨_, rfl, ?_, queues.fits, queues.tail, queues.head⟩
    rw [filled, ← List.append_assoc, fifo.conserved]
  | read room =>
    obtain ⟨final, ran, queues, left⟩ := fifo.queues.read room
    obtain ⟨device, run, isRing⟩ := onRing.read _ _ _ _ ran
    subst isRing
    rw [Stream.step, run, Exec.ok_bind]
    refine ⟨_, rfl, ?_, queues.fits, queues.tail, queues.head⟩
    -- What is handed out and what stays are the bytes that were there.
    rw [left, List.append_assoc, List.take_append_drop, fifo.conserved]

theorem Fifo.run (fifo : stream.Fifo ring capacity) (onRing : OnRing ring capacity write read)
    (ops : List StreamOp) :
    ∃ final, Runs.run (fun stream op => Stream.step write read stream op) stream ops = .ok final ∧
      final.Fifo ring capacity := by
  have allowed : Runs.everyStep (fun stream op => Stream.step write read stream op)
      (fun _ _ => true) stream ops = true := Runs.everyStep_of_forall fun _ _ => rfl
  exact Runs.run_returns (fun stream : Stream δ => stream.Fifo ring capacity)
    (fun _ op fifo _ => fifo.step onRing op) fifo allowed

end Run

/-- Operations on the ring of a pipe. -/
def pipeStep (stream : Stream PipeInner) (op : StreamOp) : Exec (Stream PipeInner) :=
  stream.step PipeInner.writeOnce PipeInner.readOnce op

/-- Operations on the ring of a socket. -/
def socketStep (stream : Stream UnixSocket) (op : StreamOp) : Exec (Stream UnixSocket) :=
  stream.step writeBytes readBytes op

/--
The rings of pipes and sockets are streams of bytes.

Every sequence of writes and reads returns, and the bytes that were read, followed by those that
are still in the ring, are the bytes that were accepted, in their order.
-/
theorem rings_are_byte_streams (sockType : UnixType) (ops : List StreamOp) :
    (∃ final, Runs.run pipeStep ⟨PipeInner.new, [], []⟩ ops = .ok final ∧
      final.Fifo PipeInner.ring pipeBuf) ∧
    ∃ final, Runs.run socketStep ⟨new sockType, [], []⟩ ops = .ok final ∧
      final.Fifo ring unixBuf := by
  constructor
  · have start : (⟨PipeInner.new, [], []⟩ : Stream PipeInner).Fifo PipeInner.ring pipeBuf :=
      ⟨rfl, Nat.zero_le _, rfl, by decide⟩
    refine start.run ⟨fun device data count changed ran => ?_,
      fun device room bytes changed ran => ?_⟩ ops
    · exact ⟨{ device with ring := changed }, by rw [PipeInner.writeOnce, ran]; rfl, rfl⟩
    · exact ⟨{ device with ring := changed }, by rw [PipeInner.readOnce, ran]; rfl, rfl⟩
  · have start : (⟨new sockType, [], []⟩ : Stream UnixSocket).Fifo ring
        unixBuf := ⟨rfl, Nat.zero_le _, rfl, (by decide : 0 < unixBuf)⟩
    refine start.run ⟨fun device data count changed ran => ?_,
      fun device room bytes changed ran => ?_⟩ ops
    · exact ⟨{ device with ring := changed }, by rw [writeBytes, ran]; rfl, rfl⟩
    · exact ⟨{ device with ring := changed }, by rw [readBytes, ran]; rfl, rfl⟩

end Stream

end TheoryKernel.Ipc
