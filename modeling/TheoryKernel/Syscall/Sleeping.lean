import TheoryKernel.Syscall.Tables

/-! The calls that may go to sleep, and the locks they hold then. -/

namespace TheoryKernel.Syscall

open Ipc (PipeInner UnixSocket UnixType WaitQueue)
open Proc (maxChildren invalidPid)
open Locking.Code

/-- The errors of a pipe. -/
inductive PipeError where
  | badFd
  | epipe
  | wouldBlock
  deriving DecidableEq, Repr

/-- The errors of a socket. -/
inductive UnixError where
  | badFd
  | noMemory
  | notSupported
  | notConnected
  | wouldBlock
  | brokenPipe
  deriving DecidableEq, Repr

/-- The errors of a futex. -/
inductive FutexError where
  | again
  | fault
  deriving DecidableEq, Repr

/-- Waking the thread that came last. -/
def wakeOne (queue : WaitQueue) : WaitQueue := queue.pop.2

/-- One attempt to write to a pipe. -/
def tryPipeWrite (id : Nat) (data : Bytes) (pipe : PipeInner) : Code (Except PipeError Nat) :=
  if pipe.readRefs = 0 then pure (.error .epipe)
  else do
    let (wrote, written) ← ofExec (pipe.writeOnce data)
    if 0 < wrote then
      setPipe id { written with readWaiters := wakeOne written.readWaiters }
      pure (.ok wrote)
    else if Ipc.pipeBuf ≤ written.ring.len then pure (.error .wouldBlock)
    else pure (.ok 0)

/-- Writing to a pipe, which waits while it is full. -/
def pipeWrite (id : Nat) (data : Bytes) : Nat → Code (Option (Except PipeError Nat))
  | 0 => pure none
  | rounds + 1 => do
    match ← withPipe id (tryPipeWrite id data) with
    | none => pure (some (.error .badFd))
    | some (.ok count) => pure (some (.ok count))
    | some (.error .wouldBlock) =>
      let woken ← withPipe id fun pipe =>
        if pipe.readRefs = 0 then pure true
        else blockOn pipe.writeWaiters fun queue => setPipe id { pipe with writeWaiters := queue }
      if woken = some false then pure none else pipeWrite id data rounds
    | some (.error error) => pure (some (.error error))

/-- One attempt to read from a pipe. -/
def tryPipeRead (id room : Nat) (pipe : PipeInner) : Code (Except PipeError Bytes) :=
  if 0 < pipe.ring.len then do
    let (bytes, taken) ← ofExec (pipe.readOnce room)
    setPipe id
      (if 0 < bytes.length then { taken with writeWaiters := wakeOne taken.writeWaiters } else taken)
    pure (.ok bytes)
  else if pipe.writeRefs = 0 then pure (.ok [])
  else pure (.error .wouldBlock)

/-- Reading from a pipe, which waits while it is empty and has writers. -/
def pipeRead (id room : Nat) : Nat → Code (Option (Except PipeError Bytes))
  | 0 => pure none
  | rounds + 1 => do
    match ← withPipe id (tryPipeRead id room) with
    | none => pure (some (.error .badFd))
    | some (.ok bytes) => pure (some (.ok bytes))
    | some (.error .wouldBlock) =>
      let woken ← withPipe id fun pipe =>
        if 0 < pipe.ring.len then pure true
        else if pipe.writeRefs = 0 then pure true
        else blockOn pipe.readWaiters fun queue => setPipe id { pipe with readWaiters := queue }
      if woken = some false then pure none else pipeRead id room rounds
    | some (.error error) => pure (some (.error error))

/-- A new socket in a free slot, found and filled in two sections. -/
def socket (sockType : UnixType) : Code (Except UnixError Nat) := do
  let free ← withLock .sockets
    (look fun tables => (List.range maxUnix).find? fun id => (tables.sockets id).isNone)
  match free with
  | none => pure (.error .noMemory)
  | some id =>
    withLock .sockets (setSock id (UnixSocket.new sockType))
    pure (.ok id)

/-- Taking the client that asked last. -/
def tryAccept (id : Nat) (listener : UnixSocket) : Code (Except UnixError Nat) :=
  if listener.listener = false then pure (.error .notSupported)
  else if 0 < listener.pendingLen then
    match listener.pending (listener.pendingLen - 1) with
    | none => fault .assertionFailed
    | some client => do
      setSock id { listener with pendingLen := listener.pendingLen - 1 }
      pure (.ok client)
  else pure (.error .wouldBlock)

/-- Accepting a connection, which waits until there is one. -/
def accept (id : Nat) : Nat → Code (Option (Except UnixError Nat))
  | 0 => pure none
  | rounds + 1 => do
    match ← withSock id (tryAccept id) with
    | none => pure (some (.error .badFd))
    | some (.ok client) =>
      match ← socket .stream with
      | .error error => pure (some (.error error))
      | .ok conn =>
        let _ ← withSock client fun there => setSock client { there with connected := some conn }
        let _ ← withSock conn fun here => setSock conn { here with connected := some client }
        pure (some (.ok conn))
    | some (.error .wouldBlock) =>
      let woken ← withSock id fun listener =>
        blockOn listener.acceptWaiters fun queue =>
          setSock id { listener with acceptWaiters := queue }
      if woken = some false then pure none else accept id rounds
    | some (.error error) => pure (some (.error error))

/-- The socket that receives what is sent. -/
def peerOf (id : Nat) (here : UnixSocket) : Option Nat :=
  match here.sockType with
  | .dgram => some id
  | .stream => here.connected

/-- One attempt to give bytes to a socket. -/
def trySend (peer : Nat) (data : Bytes) (there : UnixSocket) : Code (Except UnixError Nat) :=
  if there.peerClosed then pure (.error .brokenPipe)
  else if Ipc.unixBuf ≤ there.ring.len then pure (.error .wouldBlock)
  else do
    let (count, written) ← ofExec (there.writeBytes data)
    setSock peer
      (if 0 < count then { written with readWaiters := wakeOne written.readWaiters } else written)
    pure (.ok count)

/-- Sending bytes, which waits while the other socket is full. -/
def send (id : Nat) (data : Bytes) : Nat → Code (Option (Except UnixError Nat))
  | 0 => pure none
  | rounds + 1 => do
    match (← withSock id fun here => pure (peerOf id here)).join with
    | none => pure (some (.error .notConnected))
    | some peer =>
      match ← withSock peer (trySend peer data) with
      | none => pure (some (.error .badFd))
      | some (.ok count) => if 0 < count then pure (some (.ok count)) else send id data rounds
      | some (.error .wouldBlock) =>
        let woken ← withSock peer fun there =>
          blockOn there.writeWaiters fun queue => setSock peer { there with writeWaiters := queue }
        if woken = some false then pure none else send id data rounds
      | some (.error error) => pure (some (.error error))

/-- One attempt to take bytes from a socket. -/
def tryRecv (id room : Nat) (here : UnixSocket) : Code (Except UnixError Bytes) :=
  if 0 < here.ring.len then do
    let (bytes, taken) ← ofExec (here.readBytes room)
    setSock id { taken with writeWaiters := wakeOne taken.writeWaiters }
    pure (.ok bytes)
  else if here.peerClosed then pure (.ok [])
  else pure (.error .wouldBlock)

/-- Receiving bytes, which waits while there are none. -/
def recv (id room : Nat) : Nat → Code (Option (Except UnixError Bytes))
  | 0 => pure none
  | rounds + 1 => do
    match ← withSock id (tryRecv id room) with
    | none => pure (some (.error .badFd))
    | some (.ok bytes) => pure (some (.ok bytes))
    | some (.error .wouldBlock) =>
      let woken ← withSock id fun here =>
        blockOn here.readWaiters fun queue => setSock id { here with readWaiters := queue }
      if woken = some false then pure none else recv id room rounds
    | some (.error error) => pure (some (.error error))

/-- Waiting at a slot while the word at an address has a value. -/
def futexRounds (uaddr : Nat) (expected : BitVec 32) (slot : Nat) :
    Nat → Code (Option (Except FutexError Unit))
  | 0 => pure none
  | rounds + 1 => do
    match ← readUserU32 uaddr with
    | none => pure (some (.error .fault))
    | some word =>
      if word ≠ expected then pure (some (.error .again))
      else
        let woken ← withSlot .futexes Ipc.maxFutex (·.futexes) slot fun entry =>
          blockOn entry.waiters fun queue => change fun tables =>
            { tables with
              futexes := Function.update tables.futexes slot (some { entry with waiters := queue }) }
        match woken with
        | none => fault .assertionFailed
        | some false => pure none
        | some true =>
          match ← readUserU32 uaddr with
          | none => pure (some (.error .fault))
          | some word =>
            if word ≠ expected then pure (some (.ok ())) else futexRounds uaddr expected slot rounds

/-- Waiting at an address while the word there has a value. -/
def futexWait (uaddr : Nat) (expected : BitVec 32) (rounds : Nat) :
    Code (Option (Except FutexError Unit)) := do
  match ← readUserU32 uaddr with
  | none => pure (some (.error .fault))
  | some word =>
    if word ≠ expected then pure (some (.error .again))
    else
      let slot ← withLock .futexes do
        let found ← look fun tables => tables.futexes.findOrCreate uaddr
        change fun tables => { tables with futexes := found.2 }
        pure found.1
      futexRounds uaddr expected slot rounds

/-- Whether a child is one that is waited for. -/
def waitsFor (waitPid : BitVec 32) (child : Nat) : Bool :=
  child != invalidPid && !(decide (0 < waitPid.toInt) && BitVec.ofNat 32 child != waitPid)

/-- The first of the children that has ended. -/
def firstZombie (waitPid : BitVec 32) : List Nat → Code (Option (Nat × BitVec 32))
  | [] => pure none
  | child :: children =>
    if waitsFor waitPid child then do
      let code ← withProcess child fun process =>
        pure (if process.pcb.state = .zombie then some process.pcb.exitCode else none)
      match code.join with
      | some code => pure (some (child, code))
      | none => firstZombie waitPid children
    else firstZombie waitPid children

/-- A child of a process that has ended. -/
def findZombieChild (parent : Nat) (waitPid : BitVec 32) : Code (Option (Nat × BitVec 32)) := do
  let children ← withProcess parent fun process =>
    if maxChildren < process.pcb.childCount then fault .indexOutOfBounds
    else pure ((List.range process.pcb.childCount).map process.pcb.children)
  match children with
  | none => pure none
  | some children => firstZombie waitPid children

/-- Handing the status of a child to its parent, if that asks for it. -/
def giveStatus (statusPtr : Nat) : Code (Except Errno Unit) :=
  if statusPtr = 0 then pure (.ok ()) else copyUser statusPtr 4

/-- Handing the status of a child to its parent, and ending the child. -/
def reap (child statusPtr : Nat) : Code (Except Errno Nat) := do
  match ← giveStatus statusPtr with
  | .error error => pure (.error error)
  | .ok () =>
    let _ ← withProcess child fun process =>
      setProcess child { process with pcb := { process.pcb with state := .dead } }
    pure (.ok child)

/-- Waiting for a child of a process. -/
def waitRounds (parent : Nat) (waitPid : BitVec 32) (statusPtr : Nat) :
    Nat → Code (Option (Except Errno Nat))
  | 0 => pure none
  | rounds + 1 => do
    match ← findZombieChild parent waitPid with
    | some (child, _) => some <$> reap child statusPtr
    | none =>
      let hasChildren ← withProcess parent fun process =>
        pure (decide (0 < process.pcb.childCount))
      if hasChildren.getD false = false then pure (some (.error .echild))
      else
        let woken ← withProcess parent fun process =>
          blockOn process.pcb.childWait fun queue =>
            setProcess parent { process with pcb := { process.pcb with childWait := queue } }
        if woken = some false then pure none else waitRounds parent waitPid statusPtr rounds

/-- Waiting for a child of the current process. -/
def wait4 (waitPid : BitVec 32) (statusPtr rounds : Nat) : Code (Option (Except Errno Nat)) := do
  match ← withThread (← look (·.tid)) pure with
  | none => pure (some (.error .esrch))
  | some parent => waitRounds parent waitPid statusPtr rounds

end TheoryKernel.Syscall
