import TheoryKernel.Signal.Delivery

/-! What the delivery of a signal and the return from its handler do to the interrupted program. -/

namespace TheoryKernel.Signal

open ByteMemory Proc SignalFrame

theorem SignalFrame.assemble_bytes (frame : SignalFrame) (index : Nat) :
    (assemble fun position => frame.bytes (8 * index + position)) = frame.word index := by
  rw [← assemble_byte (frame.word index)]
  apply assemble_congr
  intro position small
  have quotient : (8 * index + position) / 8 = index := by omega
  have remainder : (8 * index + position) % 8 = position := by omega
  rw [bytes, quotient, remainder]

/-- Whether a signal with a handler is due for the current process. -/
def HandlerDue (process : Option Process) : Prop :=
  ∃ current, process = some current ∧ current.pid ≠ kernelPid ∧
    (selectSignal current).1.isSome = true

/-- The frame of the handler, in the memory of the user program. -/
def written (world : World) (process : Process) (sig : Nat) (action : SigAction) : UserMemory :=
  world.memory.write (world.frame.userRsp - BitVec.ofNat 64 size).toNat
    size (signalFrame world.frame process sig action).bytes

theorem deliverPending_cases (world : World) :
    (HandlerDue world.process ∧ deliveryRoom ≤ world.frame.userRsp.toNat ∧
      ∃ process sig action, deliverPending world = (true,
        ⟨handlerFrame world.frame sig action, some process, written world process sig action⟩)) ∨
    (¬ (HandlerDue world.process ∧ deliveryRoom ≤ world.frame.userRsp.toNat) ∧
      (deliverPending world).1 = false ∧ (deliverPending world).2.memory = world.memory) := by
  obtain ⟨frame, current, memory⟩ := world
  cases current with
  | none =>
    refine .inr ⟨?_, rfl, rfl⟩
    rintro ⟨⟨other, same, -⟩, -⟩
    cases same
  | some process =>
    by_cases kernel : process.pid = kernelPid
    · refine .inr ⟨?_, ?_⟩
      · rintro ⟨⟨other, same, user, -⟩, -⟩
        cases same
        exact user kernel
      · simp only [deliverPending, if_pos kernel, and_self]
    · -- The signal is chosen before the room on the stack is checked.
      cases chosen : selectSignal process with
      | mk choice after =>
        cases choice with
        | none =>
          refine .inr ⟨?_, ?_⟩
          · rintro ⟨⟨other, same, -, due⟩, -⟩
            cases same
            rw [chosen] at due
            cases due
          · simp only [deliverPending, if_neg kernel, chosen, and_self]
        | some served =>
          obtain ⟨sig, action⟩ := served
          have due : HandlerDue (some process) := ⟨process, rfl, kernel, by rw [chosen]; rfl⟩
          by_cases room : frame.userRsp.toNat < deliveryRoom
          · refine .inr ⟨fun both => absurd room (Nat.not_lt.mpr both.2), ?_⟩
            simp only [deliverPending, if_neg kernel, chosen, if_pos room, and_self]
          · refine .inl ⟨due, Nat.not_lt.mp room, after, sig, action, ?_⟩
            simp only [deliverPending, if_neg kernel, chosen, if_neg room]
            rfl

section Confined

/-- Whether all bytes of an access are in the user address range. -/
def Access.InUserRange (access : Access) : Prop :=
  Mm.userAddrMin ≤ access.start ∧ access.start + access.length ≤ Mm.userAddrMax + 1

/-- Whether all accesses of the kernel were to the user address range. -/
def Confined (world : World) : Prop := ∀ access ∈ world.memory.accesses, access.InUserRange

/-- The bytes below the stack pointer that a delivered signal takes up. -/
def belowStack (frame : SyscallFrame) : Access :=
  ⟨frame.userRsp.toNat - size, size⟩

/-- The bytes at the stack pointer that hold the frame of a handler that returns. -/
def atStack (frame : SyscallFrame) : Access := ⟨frame.userRsp.toNat, size⟩

theorem newRsp_toNat {rsp : BitVec 64} (room : deliveryRoom ≤ rsp.toNat) :
    (rsp - BitVec.ofNat 64 size).toNat = rsp.toNat - size := by
  rw [deliveryRoom, size] at room
  rw [size, BitVec.toNat_sub, BitVec.toNat_ofNat]
  have bound := rsp.isLt
  omega

variable (frame : SyscallFrame) (process : Option Process) (bytes : Memory)

/--
Delivery and return touch only user memory exactly if the stack pointer is far enough inside it.

Neither of the two checks the range of the stack pointer.
-/
theorem confined_iff_stack_in_range :
    (Confined (deliverPending ⟨frame, process, ⟨bytes, []⟩⟩).2 ∧
        (¬ (belowStack frame).InUserRange →
          (deliverPending ⟨frame, process, ⟨bytes, []⟩⟩).1 = false) ↔
      (HandlerDue process ∧ deliveryRoom ≤ frame.userRsp.toNat →
        Mm.userAddrMin + size ≤ frame.userRsp.toNat ∧
          frame.userRsp.toNat ≤ Mm.userAddrMax + 1)) ∧
    (Confined (sigreturn ⟨frame, process, ⟨bytes, []⟩⟩).2 ∧
        (¬ (atStack frame).InUserRange →
          (sigreturn ⟨frame, process, ⟨bytes, []⟩⟩).1 = .error (-14)) ↔
      (frame.userRsp ≠ 0 →
        Mm.userAddrMin ≤ frame.userRsp.toNat ∧
          frame.userRsp.toNat + size ≤ Mm.userAddrMax + 1)) := by
  have below : deliveryRoom ≤ frame.userRsp.toNat → ((belowStack frame).InUserRange ↔
      Mm.userAddrMin + size ≤ frame.userRsp.toNat ∧
        frame.userRsp.toNat ≤ Mm.userAddrMax + 1) := by
    intro room
    rw [deliveryRoom] at room
    simp only [belowStack, Access.InUserRange]
    omega
  constructor
  · obtain ⟨due, room, after, sig, action, run⟩ | ⟨notDue, result, memory⟩ :=
      deliverPending_cases ⟨frame, process, ⟨bytes, []⟩⟩
    · -- The frame is written, whatever the stack pointer is.
      rw [run]
      simp only [Confined, written, UserMemory.write, newRsp_toNat room, List.mem_singleton,
        forall_eq]
      change (belowStack frame).InUserRange ∧ _ ↔ _
      simp only [below room, due, room, Bool.true_eq_false, and_self, true_imp_iff, imp_false,
        not_not]
    · simp only [Confined, memory, result, notDue, List.not_mem_nil, false_imp_iff,
        implies_true, and_self]
  · unfold sigreturn
    by_cases null : frame.userRsp = 0
    · simp [Confined, null]
    · simp only [Confined, null, if_false, UserMemory.read, atStack, List.mem_singleton, forall_eq,
        reduceCtorEq, imp_false, not_not, and_self, ne_eq, not_false_eq_true, true_imp_iff]
      rfl

/-- A process with one pending signal and a handler for it. -/
def signalled : Process :=
  { Process.newUser 7 1 with
    signals := { SignalState.new with
      pending := SigSet.bit 10
      actions := fun _ => ⟨0x401000, 0, 0x402000, 0⟩ } }

/-- The registers of a program with a given stack pointer. -/
def stackedAt (rsp : BitVec 64) : SyscallFrame where
  r15 := 0
  r14 := 0
  r13 := 0
  r12 := 0
  r11 := 0
  r10 := 0
  r9 := 0
  r8 := 0
  rbp := 0
  rbx := 0
  rdx := 3
  rsi := 2
  rdi := 1
  rax := 5
  userRsp := rsp
  userRflags := 0x202
  userRip := 0x400123

/-- With a stack pointer into the kernel, the frame is written into the kernel. -/
theorem kernel_stack_is_written :
    ¬ Confined (deliverPending ⟨stackedAt 0xFFFF800000001000, some signalled,
      ⟨fun _ => 0, []⟩⟩).2 := by
  have accesses : (deliverPending ⟨stackedAt 0xFFFF800000001000, some signalled,
      ⟨fun _ => 0, []⟩⟩).2.memory.accesses = [⟨0xFFFF800000000E90, 368⟩] := by decide
  have outside : ¬ Access.InUserRange ⟨0xFFFF800000000E90, 368⟩ := by
    unfold Access.InUserRange
    decide
  intro confined
  apply outside
  apply confined
  rw [accesses]
  exact List.mem_singleton_self _

end Confined

section Transparent

/--
What the user program does between the start of a handler and the return from it.

The handler leaves its frame alone and executes a return with its stack pointer where it was on
entry, which takes the address of the restorer off the stack, and the restorer makes the system
call.  It may have changed all other registers and all other memory.
-/
structure HandlerReturn (delivered returned : World) : Prop where
  stack : returned.frame.userRsp = delivered.frame.userRsp + 8
  number : returned.frame.rax = sysRtSigreturn
  process : returned.process.isSome = true
  intact : ∀ offset < size,
    returned.memory.bytes (delivered.frame.userRsp.toNat + offset) =
      delivered.memory.bytes (delivered.frame.userRsp.toNat + offset)

/-- Whether the registers that carry the arguments of a system call agree. -/
def SameArguments (first second : SyscallFrame) : Prop :=
  first.rdi = second.rdi ∧ first.rsi = second.rsi ∧ first.rdx = second.rdx ∧
    first.r10 = second.r10 ∧ first.r8 = second.r8 ∧ first.r9 = second.r9

/-- Whether the interrupted program goes on as if nothing had happened. -/
def Transparent (before after : World) : Prop :=
  after.frame.userRip = before.frame.userRip ∧ after.frame.userRsp = before.frame.userRsp ∧
    after.frame.userRflags = before.frame.userRflags ∧ after.frame.rax = before.frame.rax ∧
    SameArguments after.frame before.frame ∧
    after.process.map (·.signals.blocked) = before.process.map (·.signals.blocked)

variable {world delivered returned : World}

/--
The interrupted program goes on undisturbed exactly if its registers coincide by chance.

The return reads the frame eight bytes too high, so each saved value is taken for the one before
it, and neither the result nor the arguments of the system call are saved at all.
-/
theorem transparent_iff_registers_coincide (delivery : deliverPending world = (true, delivered))
    (handler : HandlerReturn delivered returned) :
    Transparent world (sigreturnSyscall returned) ↔
      world.frame.userRip = world.frame.userRsp ∧ world.frame.userRsp = world.frame.userRflags ∧
      loadWord returned.memory.bytes world.frame.userRsp.toNat = world.frame.userRflags ∧
      world.process.map (·.signals.blocked) = some world.frame.userRip ∧
      world.frame.rax = 0 ∧ SameArguments returned.frame world.frame := by
  obtain ⟨-, room, process, sig, action, run⟩ | ⟨-, failed, -⟩ := deliverPending_cases world
  · have same : delivered = ⟨handlerFrame world.frame sig action, some process,
        written world process sig action⟩ := (Prod.mk.inj (delivery.symm.trans run)).2
    have memory : delivered.memory = written world process sig action := by rw [same]
    have newRsp : delivered.frame.userRsp =
        world.frame.userRsp - BitVec.ofNat 64 size := by
      rw [same]
      rfl
    have base : delivered.frame.userRsp.toNat = world.frame.userRsp.toNat - 368 := by
      rw [newRsp]
      exact newRsp_toNat room
    have large : 496 ≤ world.frame.userRsp.toNat := room
    have bound := world.frame.userRsp.isLt
    have word : ∀ index, 8 * index + 8 ≤ size →
        loadWord returned.memory.bytes (delivered.frame.userRsp.toNat + 8 * index) =
          (signalFrame world.frame process sig action).word index := by
      intro index inside
      have kept : loadWord returned.memory.bytes (delivered.frame.userRsp.toNat + 8 * index) =
          loadWord delivered.memory.bytes (delivered.frame.userRsp.toNat + 8 * index) := by
        apply loadWord_congr
        intro position small
        rw [Nat.add_assoc]
        exact handler.intact _ (by omega)
      rw [kept, memory, newRsp, written, UserMemory.write, loadWord_store_inside inside,
        assemble_bytes]
    -- The return from the handler has taken one word off the stack.
    have stack : returned.frame.userRsp.toNat = delivered.frame.userRsp.toNat + 8 := by
      have eight : (8 : BitVec 64).toNat = 8 := rfl
      rw [handler.stack, BitVec.toNat_add, eight]
      omega
    have notNull : returned.frame.userRsp ≠ 0 := by
      intro null
      have zero : returned.frame.userRsp.toNat = 0 := by
        rw [null]
        rfl
      omega
    -- So each field is read from where the next one was written.
    have shifted : ∀ index, savedWord returned (8 * index) =
        loadWord returned.memory.bytes (delivered.frame.userRsp.toNat + 8 * (index + 1)) := by
      intro index
      rw [savedWord, stack]
      congr 1
      omega
    have rip : savedWord returned ripOffset = world.frame.userRsp :=
      (shifted 43).trans (word 44 (by decide))
    have rsp : savedWord returned rspOffset = world.frame.userRflags :=
      (shifted 44).trans (word 45 (by decide))
    have sigmask : savedWord returned sigmaskOffset = world.frame.userRip :=
      (shifted 42).trans (word 43 (by decide))
    have rflags : savedWord returned rflagsOffset =
        loadWord returned.memory.bytes world.frame.userRsp.toNat := by
      refine (shifted 45).trans ?_
      congr 1
      omega
    obtain ⟨current, isCurrent⟩ := Option.isSome_iff_exists.mp handler.process
    rw [sigreturnSyscall, sigreturn, if_neg notNull]
    simp only [Transparent, rip, rsp, sigmask, rflags, isCurrent, Option.map_some, SameArguments]
    constructor
    · rintro ⟨ripSame, rspSame, rflagsSame, raxSame, arguments, blocked⟩
      exact ⟨ripSame.symm, rspSame.symm, rflagsSame, blocked.symm, raxSame.symm, arguments⟩
    · rintro ⟨ripSame, rspSame, rflagsSame, blocked, raxSame, arguments⟩
      exact ⟨ripSame.symm, rspSame.symm, rflagsSame, raxSame.symm, arguments, blocked.symm⟩
  · rw [delivery] at failed
    cases failed

/-- The program of an ordinary stack pointer, interrupted by a signal. -/
def interrupted : World := ⟨stackedAt 0x7FFFFFFFE000, some signalled, ⟨fun _ => 0, []⟩⟩

/-- A handler that does nothing but return to the restorer. -/
def promptReturn (delivered : World) : World :=
  { delivered with frame := { delivered.frame with
      userRsp := delivered.frame.userRsp + 8
      userRip := 0x402009
      rax := sysRtSigreturn } }

theorem promptReturn_returns {delivered : World} (process : delivered.process.isSome = true) :
    HandlerReturn delivered (promptReturn delivered) :=
  ⟨rfl, rfl, process, fun _ _ => rfl⟩

/-- The characterisation applies to an ordinary program and a handler that does nothing. -/
theorem transparent_iff_registers_coincide_prompt :
    Transparent interrupted (sigreturnSyscall (promptReturn (deliverPending interrupted).2)) ↔
      interrupted.frame.userRip = interrupted.frame.userRsp ∧
      interrupted.frame.userRsp = interrupted.frame.userRflags ∧
      loadWord (promptReturn (deliverPending interrupted).2).memory.bytes
        interrupted.frame.userRsp.toNat = interrupted.frame.userRflags ∧
      interrupted.process.map (·.signals.blocked) = some interrupted.frame.userRip ∧
      interrupted.frame.rax = 0 ∧
      SameArguments (promptReturn (deliverPending interrupted).2).frame interrupted.frame := by
  have delivered : (deliverPending interrupted).1 = true := by decide
  have process : (deliverPending interrupted).2.process.isSome = true := by decide
  exact transparent_iff_registers_coincide (Prod.ext delivered rfl) (promptReturn_returns process)

/-- After a handler that does nothing, the program goes on at the address of its stack. -/
theorem prompt_handler_jumps_to_stack :
    (deliverPending interrupted).1 = true ∧
      HandlerReturn (deliverPending interrupted).2 (promptReturn (deliverPending interrupted).2) ∧
      ¬ Transparent interrupted
        (sigreturnSyscall (promptReturn (deliverPending interrupted).2)) := by
  have process : (deliverPending interrupted).2.process.isSome = true := by decide
  have rip : (sigreturnSyscall (promptReturn (deliverPending interrupted).2)).frame.userRip =
      0x7FFFFFFFE000 := by decide
  refine ⟨by decide, promptReturn_returns process, ?_⟩
  rintro ⟨ripSame, -⟩
  rw [rip] at ripSame
  exact absurd ripSame (by decide)

end Transparent

end TheoryKernel.Signal
