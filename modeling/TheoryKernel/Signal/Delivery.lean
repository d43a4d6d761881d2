import TheoryKernel.Mm.Layout
import TheoryKernel.Proc.Pcb

/-! Delivery of signals on the way back to user space, and the return from a handler. -/

namespace TheoryKernel.Signal

open SignalFrame

open Proc (Process)

/-- The registers of the user program, as saved on entry to a system call. -/
structure SyscallFrame where
  r15 : BitVec 64
  r14 : BitVec 64
  r13 : BitVec 64
  r12 : BitVec 64
  r11 : BitVec 64
  r10 : BitVec 64
  r9 : BitVec 64
  r8 : BitVec 64
  rbp : BitVec 64
  rbx : BitVec 64
  rdx : BitVec 64
  rsi : BitVec 64
  rdi : BitVec 64
  rax : BitVec 64
  userRsp : BitVec 64
  userRflags : BitVec 64
  userRip : BitVec 64
  deriving DecidableEq, Repr

/-- A range of addresses that the kernel reads or writes. -/
structure Access where
  start : Nat
  length : Nat
  deriving DecidableEq, Repr

/-- Memory at the addresses that the user program named, and the accesses of the kernel to it. -/
structure UserMemory where
  bytes : ByteMemory.Memory
  accesses : List Access

namespace UserMemory

/-- Writing a range through a raw pointer. -/
def write (memory : UserMemory) (addr length : Nat) (bytes : Nat → BitVec 8) : UserMemory where
  bytes := ByteMemory.store memory.bytes addr length bytes
  accesses := ⟨addr, length⟩ :: memory.accesses

/-- Reading a range through a raw pointer leaves the bytes as they are. -/
def read (memory : UserMemory) (addr length : Nat) : UserMemory where
  bytes := memory.bytes
  accesses := ⟨addr, length⟩ :: memory.accesses

end UserMemory

/-- The registers, the current process and the memory of the user program. -/
structure World where
  frame : SyscallFrame
  process : Option Process
  memory : UserMemory

/-- The signals that end a process that does not handle them. -/
def fatalSignals : List Nat := [9, 11, 6]

/-- The choice of a signal with a handler; signals without one are used up. -/
def selectSignal (process : Process) : Option (Nat × SigAction) × Process :=
  match process.signals.takePending with
  | none => (none, process)
  | some (sig, signals) =>
    let action := signals.actions sig
    if action.handler = sigDfl then
      (none, { process with
        signals
        state := if sig ∈ fatalSignals then .dead else process.state })
    else if action.handler = sigIgn then (none, { process with signals })
    else (some (sig, action), { process with signals := { signals with handling := true } })

/-- The interrupted registers that are saved for the handler to see. -/
def savedGregs (frame : SyscallFrame) (index : Nat) : BitVec 64 :=
  match index with
  | 16 => frame.userRip
  | 17 => frame.userRflags
  | 19 => frame.userRsp
  | _ => 0

/-- The frame for the handler of a signal. -/
def signalFrame (frame : SyscallFrame) (process : Process) (sig : Nat) (action : SigAction) :
    SignalFrame where
  restorer := action.restorer
  sig := BitVec.ofNat 32 sig
  pad := 0
  info := ⟨BitVec.ofNat 32 sig, 0, 1, BitVec.ofNat 32 process.pid, process.cred.uid⟩
  ucontext := ⟨0, 0, 0, 0, 0, savedGregs frame, process.signals.blocked⟩
  savedRip := frame.userRip
  savedRsp := frame.userRsp
  savedRflags := frame.userRflags

/-- The registers with which a handler starts. -/
def handlerFrame (frame : SyscallFrame) (sig : Nat) (action : SigAction) : SyscallFrame :=
  let newRsp := frame.userRsp - BitVec.ofNat 64 size
  let siginfo := action.flags &&& saSiginfo ≠ 0
  { frame with
    userRsp := newRsp
    userRip := action.handler
    rdi := BitVec.ofNat 64 sig
    rsi := if siginfo then newRsp + BitVec.ofNat 64 infoOffset else 0
    rdx := if siginfo then newRsp + BitVec.ofNat 64 ucontextOffset else 0
    rax := 0 }

/-- The room below the stack pointer without which nothing is delivered. -/
def deliveryRoom : Nat := size + 128

/-- Delivery of one signal, and whether a handler is about to run. -/
def deliverPending (world : World) : Bool × World :=
  match world.process with
  | none => (false, world)
  | some process =>
    if process.pid = Proc.kernelPid then (false, world)
    else match selectSignal process with
      | (none, process) => (false, { world with process := some process })
      | (some (sig, action), process) =>
        let world := { world with process := some process }
        if world.frame.userRsp.toNat < deliveryRoom then (false, world)
        else
          let newRsp := world.frame.userRsp - BitVec.ofNat 64 size
          (true, { world with
            frame := handlerFrame world.frame sig action
            memory := world.memory.write newRsp.toNat size
              (signalFrame world.frame process sig action).bytes })

/-- The word of the frame at the stack pointer, at an offset in the frame. -/
def savedWord (world : World) (offset : Nat) : BitVec 64 :=
  ByteMemory.loadWord world.memory.bytes (world.frame.userRsp.toNat + offset)

/-- The return from a handler; the error is the negated number of a bad address. -/
def sigreturn (world : World) : Except Int Int × World :=
  if world.frame.userRsp = 0 then (.error (-14), world)
  else
    (.ok 0,
      { frame := { world.frame with
          userRip := savedWord world ripOffset
          userRsp := savedWord world rspOffset
          userRflags := savedWord world rflagsOffset }
        process := world.process.map fun process => { process with
          signals := { process.signals with
            handling := false
            blocked := savedWord world sigmaskOffset } }
        memory := world.memory.read world.frame.userRsp.toNat size })

/-- The number of the system call that returns from a handler. -/
def sysRtSigreturn : BitVec 64 := 15

/-- The system call that returns from a handler, up to where its result is stored. -/
def sigreturnSyscall (world : World) : World :=
  let (result, world) := sigreturn world
  let value := match result with
    | .ok value => value
    | .error error => error
  { world with frame := { world.frame with rax := BitVec.ofInt 64 value } }

end TheoryKernel.Signal
