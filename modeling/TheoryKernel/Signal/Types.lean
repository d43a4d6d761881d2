import Mathlib.Logic.Function.Basic
import TheoryKernel.Lib.ByteMemory

/-! Signals, the signal state of a process, and the frame that a handler finds on its stack. -/

namespace TheoryKernel.Signal

/-- The number of signals; there is no signal zero. -/
def nsig : Nat := 64

/-- The handler of a signal that is left to the kernel. -/
def sigDfl : BitVec 64 := 0

/-- The handler of a signal that is ignored. -/
def sigIgn : BitVec 64 := 1

/-- The option of a handler that takes three arguments. -/
def saSiginfo : BitVec 64 := 4

/-- A set of signals, as the word of their bits. -/
abbrev SigSet : Type := BitVec 64

namespace SigSet

/-- The set of one signal. -/
def bit (sig : Nat) : SigSet := 1#64 <<< sig

/-- Adding a signal. -/
def add (set : SigSet) (sig : Nat) : SigSet := if 0 < sig ∧ sig < 64 then set ||| bit sig else set

/-- Removing a signal. -/
def del (set : SigSet) (sig : Nat) : SigSet := if 0 < sig ∧ sig < 64 then set &&& ~~~bit sig else set

/-- Whether a signal is in a set. -/
def contains (set : SigSet) (sig : Nat) : Bool := 0 < sig && sig < 64 && set &&& bit sig != 0

end SigSet

/-- What a process wants to be done about a signal. -/
structure SigAction where
  handler : BitVec 64
  flags : BitVec 64
  restorer : BitVec 64
  mask : SigSet
  deriving DecidableEq, Repr

/-- The signals that wait for a process, those that it blocks, and its actions. -/
structure SignalState where
  pending : SigSet
  blocked : SigSet
  actions : Nat → SigAction
  handling : Bool

namespace SignalState

/-- The default action for every signal. -/
def new : SignalState := ⟨0, 0, fun _ => ⟨sigDfl, 0, 0, 0⟩, false⟩

/-- The signals of a child, which inherits the actions but nothing that is pending. -/
def forkState (parent : SignalState) : SignalState := ⟨0, parent.blocked, parent.actions, false⟩

/-- A signal is pending from now on, unless it is ignored. -/
def deliver (state : SignalState) (sig : Nat) : SignalState :=
  if sig = 0 ∨ nsig ≤ sig then state
  else if (state.actions sig).handler = sigIgn then state
  else { state with pending := state.pending.add sig }

/-- The lowest signal that is pending and not blocked. -/
def nextPending (state : SignalState) : Option Nat :=
  (List.range' 1 (nsig - 1)).find? fun sig => state.pending.contains sig && !state.blocked.contains sig

/-- Taking the lowest signal that is pending and not blocked. -/
def takePending (state : SignalState) : Option (Nat × SignalState) :=
  state.nextPending.map fun sig => (sig, { state with pending := state.pending.del sig })

end SignalState

/-- What a handler is told about the signal. -/
structure UserSigInfo where
  signo : BitVec 32
  errno : BitVec 32
  code : BitVec 32
  pid : BitVec 32
  uid : BitVec 32
  deriving DecidableEq, Repr

/-- The interrupted context, as a handler sees it. -/
structure UContext where
  ucFlags : BitVec 64
  ucLink : BitVec 64
  ucStackSsSp : BitVec 64
  ucStackSsFlags : BitVec 32
  ucStackSsSize : BitVec 64
  gregs : Nat → BitVec 64
  ucSigmask : SigSet

/-- What is put on the stack of a process for its handler. -/
structure SignalFrame where
  restorer : BitVec 64
  sig : BitVec 32
  pad : BitVec 32
  info : UserSigInfo
  ucontext : UContext
  savedRip : BitVec 64
  savedRsp : BitVec 64
  savedRflags : BitVec 64

namespace SignalFrame

/-- The size of the frame in bytes. -/
def size : Nat := 368

/-- Where the information about the signal is in the frame. -/
def infoOffset : Nat := 16

/-- Where the interrupted context is in the frame. -/
def ucontextOffset : Nat := 40

/-- Where the blocked signals are in the frame. -/
def sigmaskOffset : Nat := 336

/-- Where the instruction pointer is in the frame. -/
def ripOffset : Nat := 344

/-- Where the stack pointer is in the frame. -/
def rspOffset : Nat := 352

/-- Where the flags are in the frame. -/
def rflagsOffset : Nat := 360

/--
The words of the frame in memory.

Two fields of four bytes share a word, with the first one in its lower half, and bytes that
belong to no field are zero.
-/
def word (frame : SignalFrame) (index : Nat) : BitVec 64 :=
  match index with
  | 0 => frame.restorer
  | 1 => frame.pad ++ frame.sig
  | 2 => frame.info.errno ++ frame.info.signo
  | 3 => frame.info.pid ++ frame.info.code
  | 4 => 0#32 ++ frame.info.uid
  | 5 => frame.ucontext.ucFlags
  | 6 => frame.ucontext.ucLink
  | 7 => frame.ucontext.ucStackSsSp
  | 8 => 0#32 ++ frame.ucontext.ucStackSsFlags
  | 9 => frame.ucontext.ucStackSsSize
  | 42 => frame.ucontext.ucSigmask
  | 43 => frame.savedRip
  | 44 => frame.savedRsp
  | 45 => frame.savedRflags
  | other => frame.ucontext.gregs (other - 10)

/-- The bytes of the frame in memory. -/
def bytes (frame : SignalFrame) (offset : Nat) : BitVec 8 :=
  ByteMemory.byte (frame.word (offset / 8)) (offset % 8)

end SignalFrame

end TheoryKernel.Signal
