import TheoryKernel.Ipc.Pipe

/-! Sockets of the Unix domain, which name each other by their slots in a table. -/

namespace TheoryKernel.Ipc

/-- The types of a socket. -/
inductive UnixType where
  | stream
  | dgram
  deriving DecidableEq, Repr

/-- The number of bytes that a socket holds for its reader. -/
def unixBuf : Nat := 8192

/-- The number of connections that wait to be accepted. -/
def maxPending : Nat := 8

/-- A socket: its path, the socket it is connected to, who waits to be accepted, and its ring. -/
structure UnixSocket where
  sockType : UnixType
  boundPath : Bytes
  connected : Option Nat
  listener : Bool
  pending : Nat → Option Nat
  pendingLen : Nat
  ring : RingBuffer (BitVec 8)
  peerClosed : Bool
  readWaiters : WaitQueue
  writeWaiters : WaitQueue
  acceptWaiters : WaitQueue

namespace UnixSocket

/-- A socket without a path, a connection or bytes. -/
def new (sockType : UnixType) : UnixSocket where
  sockType
  boundPath := []
  connected := none
  listener := false
  pending := fun _ => none
  pendingLen := 0
  ring := .empty 0
  peerClosed := false
  readWaiters := .new
  writeWaiters := .new
  acceptWaiters := .new

/-- Writing bytes until the socket is full, with the number of bytes that were written. -/
def writeBytes (socket : UnixSocket) (data : Bytes) : Exec (Nat × UnixSocket) := do
  let (written, ring) ← Exec.indexed (socket.ring.write unixBuf data)
  .ok (written, { socket with ring })

/-- Reading bytes until the socket is empty or the buffer of the reader is full. -/
def readBytes (socket : UnixSocket) (room : Nat) : Exec (Bytes × UnixSocket) := do
  let (bytes, ring) ← Exec.indexed (socket.ring.read unixBuf room)
  .ok (bytes, { socket with ring })

end UnixSocket

end TheoryKernel.Ipc
