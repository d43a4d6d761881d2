import TheoryKernel.Base.Exec
import TheoryKernel.Ipc.Wait
import TheoryKernel.Lib.RingBuffer

/-! Anonymous pipes, each with a ring of bytes and a count of its ends. -/

namespace TheoryKernel.Ipc

/-- The number of bytes that a pipe holds. -/
def pipeBuf : Nat := 4096

/-- A pipe: its ring, the number of its read and write ends, and who waits for it. -/
structure PipeInner where
  ring : RingBuffer (BitVec 8)
  readRefs : Nat
  writeRefs : Nat
  readWaiters : WaitQueue
  writeWaiters : WaitQueue

namespace PipeInner

/-- A pipe without bytes and without ends. -/
def new : PipeInner := ⟨.empty 0, 0, 0, .new, .new⟩

/-- Writing bytes until the pipe is full, with the number of bytes that were written. -/
def writeOnce (inner : PipeInner) (data : Bytes) : Exec (Nat × PipeInner) := do
  let (written, ring) ← Exec.indexed (inner.ring.write pipeBuf data)
  .ok (written, { inner with ring })

/-- Reading bytes until the pipe is empty or the buffer of the reader is full. -/
def readOnce (inner : PipeInner) (room : Nat) : Exec (Bytes × PipeInner) := do
  let (bytes, ring) ← Exec.indexed (inner.ring.read pipeBuf room)
  .ok (bytes, { inner with ring })

/-- One more read end; the count has 32 bits. -/
def dupRead (inner : PipeInner) : PipeInner :=
  { inner with readRefs := (inner.readRefs + 1) % 2 ^ 32 }

/-- One more write end; the count has 32 bits. -/
def dupWrite (inner : PipeInner) : PipeInner :=
  { inner with writeRefs := (inner.writeRefs + 1) % 2 ^ 32 }

/-- One read end less; all writers are woken when none is left. -/
def closeRead (inner : PipeInner) : PipeInner :=
  { inner with
    readRefs := inner.readRefs - 1
    writeWaiters :=
      if inner.readRefs - 1 = 0 then { inner.writeWaiters with len := 0 } else inner.writeWaiters }

/-- One write end less; all readers are woken when none is left. -/
def closeWrite (inner : PipeInner) : PipeInner :=
  { inner with
    writeRefs := inner.writeRefs - 1
    readWaiters :=
      if inner.writeRefs - 1 = 0 then { inner.readWaiters with len := 0 } else inner.readWaiters }

end PipeInner

end TheoryKernel.Ipc
