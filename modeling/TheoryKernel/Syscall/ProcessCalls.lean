import TheoryKernel.Syscall.Sleeping

/-! The calls that work on the current process under the lock of the process table. -/

namespace TheoryKernel.Syscall

open Fs (FdEntry)
open Proc (kernelPid invalidPid)
open Locking.Code

/-- The number of bytes that one call moves at most. -/
def copyRoom : Nat := 4096

/-- The number of an error of a pipe. -/
def pipeErrToErrno : PipeError → Errno
  | .badFd => .ebadf
  | .epipe => .epipe
  | .wouldBlock => .eagain

/-- The number of an error of a socket. -/
def unixErrToErrno : UnixError → Errno
  | .badFd => .ebadf
  | .noMemory => .enomem
  | .notSupported => .eopnotsupp
  | .notConnected => .enotconn
  | .wouldBlock => .eagain
  | .brokenPipe => .epipe

/-- Code for the process of the current thread, if there is one. -/
def currentProcessMut {α : Type} (body : Nat → Process → Code α) : Code (Option α) := do
  match ← withThread (← look (·.tid)) pure with
  | none => pure none
  | some pid => withProcess pid (body pid)

/-- The number in a register, which is cut to 32 bits. -/
def asU32 (register : BitVec 64) : Nat := (register.setWidth 32).toNat

/-- The bytes of user space from an address on. -/
def userBytes (tables : Tables) (addr len : Nat) : Bytes :=
  (List.range len).map fun offset => (tables.userWord (addr + offset)).setWidth 8

/-- Reading from what a descriptor stands for. -/
def readEntry (room rounds : Nat) : FdEntry → Code (Option (Except Errno Nat))
  | .consoleIn => pure (some (.ok 0))
  | .pipeRead id => do
    let outcome ← pipeRead id room rounds
    pure (outcome.map fun result => (result.mapError pipeErrToErrno).map List.length)
  | .vfs file => look fun tables => tables.devices.read (.vfs file) room
  | .socket id => look fun tables => tables.devices.read (.socket id) room
  | .unixSocket id => do
    let outcome ← recv id room rounds
    pure (outcome.map fun result => (result.mapError unixErrToErrno).map List.length)
  | _ => pure (some (.error .ebadf))

/-- Handing the bytes that were read to the caller. -/
def handOut (buf count : Nat) : Code (Option (Except Errno Nat)) :=
  if count = 0 then pure (some (.ok count))
  else if copyRoom < count then fault .sliceOutOfRange
  else do
    match ← copyUser buf count with
    | .error _ => pure (some (.error .efault))
    | .ok () => pure (some (.ok count))

/-- Reading from a descriptor of a process. -/
def readProcess (fd : BitVec 64) (buf room rounds : Nat) (process : Process) :
    Code (Option (Except Errno Nat)) :=
  match process.fds.get (asU32 fd) with
  | none => pure (some (.error .ebadf))
  | some entry => do
    match ← readEntry room rounds entry with
    | some (.ok count) => handOut buf count
    | outcome => pure outcome

/-- Reading from a descriptor of the current process. -/
def sysRead (fd : BitVec 64) (buf count rounds : Nat) : Code (Option (Except Errno Nat)) :=
  if count = 0 then pure (some (.ok 0))
  else if accessOk buf count = false then pure (some (.error .efault))
  else do
    let outcome ← currentProcessMut fun _ => readProcess fd buf (min count copyRoom) rounds
    pure (outcome.getD (some (.error .efault)))

/-- Writing to what a descriptor stands for. -/
def writeEntry (data : Bytes) (rounds : Nat) : FdEntry → Code (Option (Except Errno Nat))
  | .consoleOut => pure (some (.ok data.length))
  | .consoleErr => pure (some (.ok data.length))
  | .pipeWrite id => do
    let outcome ← pipeWrite id data rounds
    pure (outcome.map fun result => result.mapError pipeErrToErrno)
  | .vfs file => look fun tables => tables.devices.write (.vfs file) data.length
  | .socket id => look fun tables => tables.devices.write (.socket id) data.length
  | .unixSocket id => do
    let outcome ← send id data rounds
    pure (outcome.map fun result => result.mapError unixErrToErrno)
  | _ => pure (some (.error .ebadf))

/-- Writing to a descriptor of a process. -/
def writeProcess (fd : BitVec 64) (data : Bytes) (rounds : Nat) (process : Process) :
    Code (Option (Except Errno Nat)) :=
  match process.fds.get (asU32 fd) with
  | none => pure (some (.error .ebadf))
  | some entry => writeEntry data rounds entry

/-- Writing to a descriptor of the current process. -/
def sysWrite (fd : BitVec 64) (buf count rounds : Nat) : Code (Option (Except Errno Nat)) :=
  if count = 0 then pure (some (.ok 0))
  else if accessOk buf count = false then pure (some (.error .efault))
  else do
    match ← copyUser buf (min count copyRoom) with
    | .error error => pure (some (.error error))
    | .ok () =>
      let data ← look fun tables => userBytes tables buf (min count copyRoom)
      let outcome ← currentProcessMut fun _ => writeProcess fd data rounds
      pure (outcome.getD (some (.error .efault)))

/-- A new pipe with one end of each kind, under a number that was not given out before. -/
def createPipe : Code (Option Nat) :=
  withLock .nextPipe do
    let next ← look (·.nextPipe)
    change fun tables => { tables with nextPipe := next + 1 }
    if maxPipes ≤ next.toNat then pure none
    else
      withLock .pipes (setPipe next.toNat { Ipc.PipeInner.new with readRefs := 1, writeRefs := 1 })
      pure (some next.toNat)

/-- Descriptors for both ends of a pipe, whose numbers are handed to the caller. -/
def installPipe (fds id pid : Nat) (process : Process) : Code (Except Errno Nat) :=
  match process.fds.alloc (.pipeRead id) with
  | none => pure (.error .emfile)
  | some (_, reading) => do
    setProcess pid { process with fds := reading }
    match reading.alloc (.pipeWrite id) with
    | none => pure (.error .emfile)
    | some (_, both) =>
      setProcess pid { process with fds := both }
      match ← copyUser fds 8 with
      | .error error => pure (.error error)
      | .ok () => pure (.ok 0)

/-- A new pipe with descriptors in the current process. -/
def sysPipe2 (fds : Nat) : Code (Except Errno Nat) :=
  if accessOk fds 8 = false then pure (.error .efault)
  else do
    match ← createPipe with
    | none => pure (.error .enospc)
    | some id =>
      let outcome ← currentProcessMut (installPipe fds id)
      pure (outcome.getD (.error .efault))

/-- Making a signal pending for a process. -/
def kill (pid sig : Nat) : Code (Except Errno Nat) :=
  if Signal.nsig ≤ sig then pure (.error .einval)
  else if pid = invalidPid then pure (.error .esrch)
  else do
    let outcome ← withProcess pid fun process => do
      let _ ← withThread (← look (·.tid)) pure
      setProcess pid
        { process with pcb := { process.pcb with signals := process.pcb.signals.deliver sig } }
    match outcome with
    | none => pure (.error .esrch)
    | some () => pure (.ok 0)

/-- Whether the current process may send a signal to another one. -/
def maySignal (target : Nat) : Code Bool := do
  let allowed ← currentProcessMut fun _ caller =>
    withProcess target fun process => pure (caller.pcb.cred.canSignal process.pcb.cred)
  pure (allowed.join.getD false)

/-- Sending a signal, to other processes only with permission. -/
def sysKill (pid sig : BitVec 64) : Code (Except Errno Nat) := do
  let caller ← withThread (← look (·.tid)) pure
  if asU32 pid = caller.getD kernelPid then kill (asU32 pid) (asU32 sig)
  else
    let allowed ← maySignal (asU32 pid)
    if allowed then kill (asU32 pid) (asU32 sig) else pure (.error .eperm)

end TheoryKernel.Syscall
