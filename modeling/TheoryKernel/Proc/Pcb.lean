import TheoryKernel.Ipc.Wait
import TheoryKernel.Security.Capability
import TheoryKernel.Signal.Types

/-! The record that the kernel keeps of a process. -/

namespace TheoryKernel.Proc

/-- The states of a process. -/
inductive ProcessState where
  | created
  | running
  | sleeping
  | zombie
  | dead
  deriving DecidableEq, Repr

/-- The process that is the kernel itself. -/
def kernelPid : Nat := 0

/-- The number that stands for no process. -/
def invalidPid : Nat := 2 ^ 32 - 1

/-- The number of processes that the table can hold. -/
def maxProcesses : Nat := 256

/-- The number of threads that the table can hold. -/
def maxThreads : Nat := 1024

/-- The number of children that a process keeps a record of. -/
def maxChildren : Nat := 64

/-- What the kernel keeps of a process. -/
structure Process where
  pid : Nat
  parent : Nat
  state : ProcessState
  exitCode : BitVec 32
  cred : Credentials
  signals : Signal.SignalState
  children : Nat → Nat
  childCount : Nat
  childWait : Ipc.WaitQueue

namespace Process

/-- A process that has just been made. -/
def newUser (pid parent : Nat) : Process where
  pid
  parent
  state := .created
  exitCode := 0
  cred := .user
  signals := .new
  children := fun _ => invalidPid
  childCount := 0
  childWait := .new

/-- Recording a child, unless there are too many. -/
def addChild (process : Process) (child : Nat) : Bool × Process :=
  if maxChildren ≤ process.childCount then (false, process)
  else (true, { process with
    children := Function.update process.children process.childCount child
    childCount := process.childCount + 1 })

end Process

end TheoryKernel.Proc
