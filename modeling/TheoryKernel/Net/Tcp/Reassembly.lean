import TheoryKernel.Net.Tcp.Table

/-! What a connection receives: the stream of its peer in order, and which bytes get lost. -/

namespace TheoryKernel.Net.Tcp

/-- What a connection has received so far. -/
structure Received where
  /-- The chunks that were put into the queue. -/
  queued : List Bytes
  /-- The bytes that were returned to the reader. -/
  returned : Bytes
  /-- The number behind the last byte of the peer, once a segment has told it. -/
  fin : Option (BitVec 32)
  /-- The payloads that were the next ones of the peer and were not queued. -/
  missed : List Bytes
  deriving DecidableEq, Repr

namespace Received

/-- Nothing but what is in the queue. -/
def start (tcb : TcpControlBlock) : Received where
  queued := tcb.rxQueue
  returned := []
  fin := none
  missed := []

/-- The number behind the last byte of the peer, if an input tells it. -/
def finAfter (tcb : TcpControlBlock) (fin : Option (BitVec 32)) : Option Input → Option (BitVec 32)
  | some (.segment flags seq _ payload) =>
    if tcb.state = .established ∧ flags &&& tcpRst = 0 ∧ flags &&& tcpFin ≠ 0 then
      some (seq + BitVec.ofNat 32 payload.length)
    else fin
  | _ => fin

/-- Whether bytes from a number on are in front of the last one of the peer. -/
def inFront (seq : BitVec 32) (length : Nat) : Option (BitVec 32) → Bool
  | some number => length ≤ (number - seq).toNat
  | none => false

/-- The payload of an input that is the next one of the peer, as a list. -/
def expected (tcb : TcpControlBlock) (fin : Option (BitVec 32)) : Option Input → List Bytes
  | some (.segment flags seq _ payload) =>
    if flags &&& tcpRst = 0 ∧ payload ≠ [] ∧ seq = tcb.rcvNxt ∧
        (tcb.state = .established ∨
          tcb.state = .closeWait ∧ inFront seq payload.length fin = true) then
      [payload]
    else []
  | _ => []

/-- What has been received behind an input that returns some bytes to the reader. -/
def extend (received : Received) (tcb : TcpControlBlock) (input : Option Input)
    (next : TcpControlBlock) (returned : Bytes) : Received :=
  let chunks := next.rxQueue.drop tcb.rxQueue.length
  { queued := received.queued ++ chunks
    returned := received.returned ++ returned
    fin := finAfter tcb received.fin input
    missed :=
      if chunks = [] then received.missed ++ expected tcb received.fin input
      else received.missed }

/-- What has been received behind an operation. -/
def after (received : Received) (_ : Op) (tcb : TcpControlBlock) (input : Option Input)
    (next : TcpControlBlock) (answer : Answer) : Received :=
  received.extend tcb input next (answer.received.getD [])

end Received

section Queue

open TcpControlBlock

variable {tcb : TcpControlBlock}

/-- What an input does to the part of a connection about what it receives. -/
inductive Receives (tcb : TcpControlBlock) : Option Input → TcpControlBlock → Bytes → Prop where
  /-- The connection is reset. -/
  | reset {flags : BitVec 8} {seq ack : BitVec 32} {payload : Bytes} {next : TcpControlBlock}
      (asked : flags &&& tcpRst ≠ 0)
      (kept : next.receiving = (.closed, tcb.rcvNxt, tcb.rxQueue)) :
      Receives tcb (some (.segment flags seq ack payload)) next []
  /-- The connection is established. -/
  | opened {flags : BitVec 8} {seq ack : BitVec 32} {payload : Bytes} {next : TcpControlBlock}
      (calm : flags &&& tcpRst = 0) (waiting : tcb.state = .synSent)
      (kept : next.receiving = (.established, seq + 1, tcb.rxQueue)) :
      Receives tcb (some (.segment flags seq ack payload)) next []
  /-- The payload is the next one. -/
  | queued {flags : BitVec 8} {seq ack : BitVec 32} {payload : Bytes} {next : TcpControlBlock}
      (calm : flags &&& tcpRst = 0)
      (established : tcb.state = .established) (filled : payload ≠ []) (inOrder : seq = tcb.rcvNxt)
      (kept : next.receiving = (if flags &&& tcpFin ≠ 0 then .closeWait else .established,
        tcb.rcvNxt + BitVec.ofNat 32 payload.length, tcb.rxQueue ++ [payload])) :
      Receives tcb (some (.segment flags seq ack payload)) next []
  /-- The segment has no payload, or not the next one. -/
  | skipped {flags : BitVec 8} {seq ack : BitVec 32} {payload : Bytes} {next : TcpControlBlock}
      (calm : flags &&& tcpRst = 0)
      (established : tcb.state = .established) (other : ¬ (payload ≠ [] ∧ seq = tcb.rcvNxt))
      (kept : next.receiving = (if flags &&& tcpFin ≠ 0 then .closeWait else .established,
        tcb.rcvNxt, tcb.rxQueue)) :
      Receives tcb (some (.segment flags seq ack payload)) next []
  /-- The segment comes when none is expected. -/
  | ignored {flags : BitVec 8} {seq ack : BitVec 32} {payload : Bytes}
      (calm : flags &&& tcpRst = 0)
      (other : tcb.state ≠ .established) :
      Receives tcb (some (.segment flags seq ack payload)) tcb []
  /-- A chunk is taken off the queue. -/
  | taken {size : Nat} {next : TcpControlBlock} {chunk : Bytes} {rest : List Bytes}
      (front : tcb.rxQueue = chunk :: rest)
      (kept : next.receiving = (tcb.state, tcb.rcvNxt, rest)) :
      Receives tcb (some (.recv size)) next (chunk.take (min chunk.length size))
  /-- The queue is empty. -/
  | nothing {size : Nat} (empty : tcb.rxQueue = []) : Receives tcb (some (.recv size)) tcb []
  /-- The input is about what is sent. -/
  | other {input : Option Input} {next : TcpControlBlock}
      (noSegment : ∀ flags seq ack payload, input ≠ some (.segment flags seq ack payload))
      (kept : next.receiving = tcb.receiving) : Receives tcb input next []

theorem receives (input : Option Input) :
    Receives tcb input (tcb.handle? input).1 ((tcb.handle? input).2.received.getD []) := by
  cases input with
  | none => exact .other nofun rfl
  | some input =>
    cases input with
    | segment flags seq ack payload =>
      change Receives tcb _ (tcb.processSegment flags seq ack payload).1 []
      rcases processSegment_cases flags seq ack payload tcb with
        ⟨asked, run⟩ | ⟨calm, waiting, next, rfl, run⟩ | ⟨calm, established, next, rfl, run⟩ |
        ⟨calm, other, run⟩
      · rw [run]
        exact .reset asked rfl
      · rw [run]
        exact .opened calm waiting rfl
      · rw [run]
        by_cases inOrder : payload ≠ [] ∧ seq = tcb.rcvNxt
        · refine .queued calm established inOrder.1 inOrder.2 ?_
          rw [receiving_established, queuePayload, if_pos inOrder]
          dsimp only
          rw [established]
        · refine .skipped calm established inOrder ?_
          rw [receiving_established, queuePayload, if_neg inOrder, established]
      · rw [run]
        exact .ignored calm other
    | recv size =>
      change Receives tcb _ (tcb.recv size).1 ((tcb.recv size).2.getD [])
      unfold recv
      split
      · rename_i empty
        exact .nothing empty
      · rename_i chunk rest front
        exact .taken front rfl
    | send now data =>
      exact .other nofun (send_receiving data)
    | tick now => exact .other nofun tick_receiving

end Queue

theorem of_receiving {tcb : TcpControlBlock} {state : TcpState} {number : BitVec 32}
    {queue : List Bytes} (kept : tcb.receiving = (state, number, queue)) :
    tcb.state = state ∧ tcb.rcvNxt = number ∧ tcb.rxQueue = queue :=
  ⟨congrArg (·.1) kept, congrArg (·.2.1) kept, congrArg (·.2.2) kept⟩

theorem fin_of_closeWait {flags : BitVec 8}
    (closing : (if flags &&& tcpFin ≠ 0 then TcpState.closeWait else .established) = .closeWait) :
    flags &&& tcpFin ≠ 0 := by
  by_contra absent
  rw [if_neg (not_not.mpr absent)] at closing
  cases closing

section Prefix

variable {tcb next : TcpControlBlock} {received : Received} {irs : BitVec 32} {stream : Bytes}
  {input : Option Input} {returned : Bytes}

/-- Whether an input carries bytes of a stream at their numbers, or no bytes at all. -/
def Input.carries (irs : BitVec 32) (stream : Bytes) : Input → Bool
  | .segment flags seq _ payload =>
    flags &&& tcpRst ≠ 0 ∨ payload = [] ∨
      (seq - irs).toNat + payload.length ≤ stream.length ∧
        payload = (stream.drop (seq - irs).toNat).take payload.length
  | _ => true

/-- What a connection has queued is the beginning of a stream, up to the number it expects. -/
structure Sound (irs : BitVec 32) (stream : Bytes) (tcb : TcpControlBlock)
    (received : Received) : Prop where
  opened : tcb.state ≠ .synSent
  isPrefix : received.queued.flatten <+: stream
  number : tcb.rcvNxt = irs + BitVec.ofNat 32 received.queued.flatten.length
  suffix : tcb.rxQueue <:+ received.queued

theorem Sound.keep (sound : Sound irs stream tcb received) (opened : next.state ≠ .synSent)
    (number : next.rcvNxt = tcb.rcvNxt) (shorter : next.rxQueue <:+ tcb.rxQueue) :
    Sound irs stream next (received.extend tcb input next returned) := by
  have nothing : next.rxQueue.drop tcb.rxQueue.length = [] :=
    List.drop_eq_nil_of_le shorter.length_le
  have same : (received.extend tcb input next returned).queued = received.queued := by
    rw [Received.extend, nothing, List.append_nil]
  refine ⟨opened, ?_, ?_, ?_⟩
  · rw [same]
    exact sound.isPrefix
  · rw [same, number]
    exact sound.number
  · rw [same]
    exact shorter.trans sound.suffix

theorem offset_eq {seq : BitVec 32} {length : Nat} (short : length < 2 ^ 32)
    (same : seq = irs + BitVec.ofNat 32 length) : (seq - irs).toNat = length := by
  rw [same, BitVec.add_comm, BitVec.add_sub_cancel, BitVec.toNat_ofNat, Nat.mod_eq_of_lt short]

theorem isPrefix_append {first payload : Bytes} (begins : first <+: stream)
    (continues : payload = (stream.drop first.length).take payload.length) :
    first ++ payload <+: stream := by
  obtain ⟨rest, rfl⟩ := begins
  rw [List.drop_left] at continues
  obtain ⟨tail, whole⟩ : payload <+: rest := continues ▸ List.take_prefix _ rest
  exact ⟨tail, by rw [List.append_assoc, whole]⟩

theorem Sound.step (sound : Sound irs stream tcb received) (short : stream.length < 2 ^ 32)
    (carried : ∀ given, input = some given → given.carries irs stream = true)
    (does : Receives tcb input next returned) :
    Sound irs stream next (received.extend tcb input next returned) := by
  -- Only a payload that is the next one is queued; all other inputs leave what was queued.
  cases does with
  | reset asked kept =>
    obtain ⟨state, number, queue⟩ := of_receiving kept
    exact sound.keep (by rw [state]; decide) number (queue ▸ List.suffix_refl _)
  | opened calm waiting kept => exact absurd waiting sound.opened
  | @queued flags seq ack payload next calm established filled inOrder kept =>
    obtain ⟨state, number, queue⟩ := of_receiving kept
    have fits := sound.isPrefix.length_le
    -- The place of the payload in the stream is right behind what has been queued.
    have place : (seq - irs).toNat = received.queued.flatten.length :=
      offset_eq (by omega) (inOrder.trans sound.number)
    have carries := carried _ rfl
    rw [Input.carries, decide_eq_true_eq, place] at carries
    have inside := (carries.resolve_left (not_not.mpr calm)).resolve_left filled
    have chunks : next.rxQueue.drop tcb.rxQueue.length = [payload] := by
      rw [queue, List.drop_left]
    have more : (received.extend tcb (some (.segment flags seq ack payload)) next []).queued =
        received.queued ++ [payload] := by
      rw [Received.extend, chunks]
    have whole : (received.queued ++ [payload]).flatten = received.queued.flatten ++ payload := by
      simp
    refine ⟨?_, ?_, ?_, ?_⟩
    · rw [state]
      split <;> decide
    · rw [more, whole]
      exact isPrefix_append sound.isPrefix inside.2
    · rw [more, whole, number, sound.number, List.length_append, BitVec.ofNat_add,
        BitVec.add_assoc]
    · rw [more, queue]
      obtain ⟨front, split⟩ := sound.suffix
      exact ⟨front, by rw [← List.append_assoc, split]⟩
  | skipped calm established other kept =>
    obtain ⟨state, number, queue⟩ := of_receiving kept
    refine sound.keep ?_ number (queue ▸ List.suffix_refl _)
    rw [state]
    split <;> decide
  | ignored calm other => exact sound.keep sound.opened rfl (List.suffix_refl _)
  | taken front kept =>
    obtain ⟨state, number, queue⟩ := of_receiving kept
    refine sound.keep (by rw [state]; exact sound.opened) number ?_
    rw [queue, front]
    exact List.suffix_cons _ _
  | nothing empty => exact sound.keep sound.opened rfl (List.suffix_refl _)
  | other noSegment kept =>
    obtain ⟨state, number, queue⟩ := of_receiving kept
    exact sound.keep (by rw [state]; exact sound.opened) number (queue ▸ List.suffix_refl _)

end Prefix

section Lossless

variable {tcb next : TcpControlBlock} {received : Received} {input : Option Input}
  {returned : Bytes}

/-- Whether a read has room for a whole chunk, and a last segment comes when nothing is missing. -/
def Input.careful (tcb : TcpControlBlock) : Input → Bool
  | .segment flags seq _ payload =>
    tcb.state = .established ∧ flags &&& tcpRst = 0 ∧ flags &&& tcpFin ≠ 0 →
      seq = tcb.rcvNxt ∨ seq + BitVec.ofNat 32 payload.length = tcb.rcvNxt
  | .recv size =>
    match tcb.rxQueue with
    | [] => true
    | chunk :: _ => chunk.length ≤ size
  | _ => true

/-- No byte has been lost on its way from the peer to the reader. -/
structure Lossless (tcb : TcpControlBlock) (received : Received) : Prop where
  whole : received.returned ++ tcb.rxQueue.flatten = received.queued.flatten
  /-- Nothing is expected any more behind the last segment. -/
  ended : tcb.state = .closeWait → ∀ number, received.fin = some number → number = tcb.rcvNxt
  missed : received.missed = []

theorem Lossless.expected_closeWait (lossless : Lossless tcb received)
    (closing : tcb.state = .closeWait) {flags : BitVec 8} {seq ack : BitVec 32} {payload : Bytes} :
    Received.expected tcb received.fin (some (.segment flags seq ack payload)) = [] := by
  rw [Received.expected, if_neg]
  rintro ⟨-, filled, inOrder, established | ⟨-, front⟩⟩
  · rw [closing] at established
    cases established
  · cases told : received.fin with
    | none =>
      rw [told] at front
      cases front
    | some number =>
      -- The last number is the one that is expected, so nothing is in front of it.
      rw [told, lossless.ended closing number told, inOrder, Received.inFront, BitVec.sub_self,
        decide_eq_true_eq] at front
      exact filled (List.eq_nil_of_length_eq_zero (Nat.le_zero.mp front))

theorem Lossless.keep (lossless : Lossless tcb received) (queue : next.rxQueue = tcb.rxQueue)
    (nothing : Received.expected tcb received.fin input = [])
    (ended : next.state = .closeWait → ∀ number,
      Received.finAfter tcb received.fin input = some number → number = next.rcvNxt) :
    Lossless next (received.extend tcb input next []) := by
  have none : next.rxQueue.drop tcb.rxQueue.length = [] := by rw [queue, List.drop_length]
  refine ⟨?_, ended, ?_⟩
  · rw [Received.extend, none, queue, List.append_nil, List.append_nil]
    exact lossless.whole
  · rw [Received.extend, none, if_pos rfl, nothing]
    exact (List.append_nil _).trans lossless.missed

theorem Lossless.step (lossless : Lossless tcb received)
    (careful : ∀ given, input = some given → given.careful tcb = true)
    (does : Receives tcb input next returned) :
    Lossless next (received.extend tcb input next returned) := by
  cases does with
  | reset asked kept =>
    obtain ⟨state, number, queue⟩ := of_receiving kept
    refine lossless.keep queue ?_ ?_
    · rw [Received.expected, if_neg fun all => asked all.1]
    · rw [state]
      exact nofun
  | opened calm waiting kept =>
    obtain ⟨state, number, queue⟩ := of_receiving kept
    refine lossless.keep queue ?_ ?_
    · rw [Received.expected, if_neg]
      rintro ⟨-, -, -, established | ⟨closing, -⟩⟩
      · rw [waiting] at established
        cases established
      · rw [waiting] at closing
        cases closing
    · rw [state]
      exact nofun
  | @queued flags seq ack payload next calm established filled inOrder kept =>
    obtain ⟨state, number, queue⟩ := of_receiving kept
    have chunks : next.rxQueue.drop tcb.rxQueue.length = [payload] := by
      rw [queue, List.drop_left]
    refine ⟨?_, ?_, ?_⟩
    · rw [Received.extend, chunks, queue, List.append_nil, List.flatten_append, List.flatten_append,
        ← List.append_assoc, lossless.whole]
    · -- The last number is the one behind the payload itself.
      intro closing last told
      rw [state] at closing
      have final := fin_of_closeWait closing
      change Received.finAfter tcb received.fin (some (.segment flags seq ack payload)) =
        some last at told
      rw [Received.finAfter, if_pos ⟨established, calm, final⟩] at told
      cases told
      rw [number, inOrder]
    · rw [Received.extend, chunks, if_neg (List.cons_ne_nil _ _)]
      exact lossless.missed
  | @skipped flags seq ack payload next calm established other kept =>
    obtain ⟨state, number, queue⟩ := of_receiving kept
    refine lossless.keep queue ?_ ?_
    · rw [Received.expected, if_neg fun all => other ⟨all.2.1, all.2.2.1⟩]
    · intro closing last told
      rw [state] at closing
      have final := fin_of_closeWait closing
      rw [Received.finAfter, if_pos ⟨established, calm, final⟩] at told
      cases told
      have complete := careful _ rfl
      rw [Input.careful, decide_eq_true_eq] at complete
      rcases complete ⟨established, calm, final⟩ with inOrder | before
      · -- Without a payload, the number of the segment is also the last one.
        have empty : payload = [] := not_not.mp fun filled => other ⟨filled, inOrder⟩
        rw [empty, number, inOrder]
        exact BitVec.add_zero _
      · rw [number, before]
  | @ignored flags seq ack payload calm other =>
    have unset : Received.finAfter tcb received.fin (some (.segment flags seq ack payload)) =
        received.fin := by
      rw [Received.finAfter, if_neg fun all => other all.1]
    refine lossless.keep rfl ?_ ?_
    · by_cases closing : tcb.state = .closeWait
      · exact lossless.expected_closeWait closing
      · rw [Received.expected, if_neg]
        rintro ⟨-, -, -, established | ⟨closed, -⟩⟩
        · exact other established
        · exact closing closed
    · rw [unset]
      exact lossless.ended
  | @taken size next chunk rest front kept =>
    obtain ⟨state, number, queue⟩ := of_receiving kept
    have room := careful _ rfl
    rw [Input.careful, front] at room
    have fits : chunk.length ≤ size := of_decide_eq_true room
    have whole : chunk.take (min chunk.length size) = chunk := by
      rw [Nat.min_eq_left fits, List.take_length]
    have none : next.rxQueue.drop tcb.rxQueue.length = [] := by
      rw [queue, front]
      exact List.drop_eq_nil_of_le (Nat.le_succ _)
    refine ⟨?_, ?_, ?_⟩
    · have before := lossless.whole
      rw [front, List.flatten_cons] at before
      rw [Received.extend, none, queue, whole, List.append_nil, List.append_assoc]
      exact before
    · rw [state, number]
      exact lossless.ended
    · rw [Received.extend, none, if_pos rfl]
      exact (List.append_nil _).trans lossless.missed
  | nothing empty => exact lossless.keep rfl rfl lossless.ended
  | other noSegment kept =>
    obtain ⟨state, number, queue⟩ := of_receiving kept
    -- Without a segment, nothing is expected and nothing is told.
    have none : Received.expected tcb received.fin input = [] ∧
        Received.finAfter tcb received.fin input = received.fin := by
      cases input with
      | none => exact ⟨rfl, rfl⟩
      | some input =>
        cases input with
        | segment flags seq ack payload => exact absurd rfl (noSegment flags seq ack payload)
        | recv size | send now data | tick now => exact ⟨rfl, rfl⟩
    refine lossless.keep queue none.1 ?_
    rw [none.2, state, number]
    exact lossless.ended

end Lossless

namespace Received

variable {index : Nat} {tcb : TcpControlBlock} {conns : Connections}

/-- A connection that expects the byte with the number 5. -/
def sample : TcpControlBlock :=
  { TcpControlBlock.new 80 with remotePort := 1000, state := .established, rcvNxt := 5 }

/-- A table with one connection. -/
def sampleTable : Connections := ⟨[some sample], 0⟩

/-- A segment for that connection. -/
def sampleSegment (flags : BitVec 8) (seq : BitVec 32) (payload : Bytes) : Bytes :=
  toBeBytes16 1000 ++ toBeBytes16 80 ++ toBeBytes32 seq ++ toBeBytes32 0 ++ [0x50, flags] ++
    List.replicate 6 0 ++ payload

/-- What a connection queues is the beginning of the stream of its peer, in every run. -/
theorem queued_isPrefix {stream : Bytes} {irs : BitVec 32} {ops : List Op}
    (occupied : conns.at? index = some tcb) (established : tcb.state = .established)
    (empty : tcb.rxQueue = []) (first : tcb.rcvNxt = irs) (short : stream.length < 2 ^ 32)
    (carried : Runs.everyStep (Watched.step index after)
      (Watched.given index fun _ _ _ input => input.carries irs stream) ⟨conns, start tcb⟩ ops = true) :
    ∃ final next, Runs.run (Watched.step index after) ⟨conns, start tcb⟩ ops = .ok final ∧
      final.conns.at? index = some next ∧
      final.history.queued.flatten <+: stream ∧
      next.rcvNxt = irs + BitVec.ofNat 32 final.history.queued.flatten.length ∧
      next.rxQueue <:+ final.history.queued := by
  have begins : Sound irs stream tcb (start tcb) := by
    refine ⟨by rw [established]; decide, ?_, ?_, List.suffix_refl _⟩
    · rw [Received.start, empty]
      exact List.nil_prefix
    · rw [Received.start, empty, first]
      exact (BitVec.add_zero _).symm
  obtain ⟨final, next, run, slot, sound⟩ := Watched.run_keeps (Sound irs stream)
    (fun _ _ _ _ sound test => sound.step short test (receives _)) occupied begins ops carried
  exact ⟨final, next, run, slot, sound.isPrefix, sound.number, sound.suffix⟩

/-- Segments that come out of order and twice are put together to the stream. -/
theorem sample_isPrefix :
    ∃ final next, Runs.run (Watched.step 0 after) ⟨sampleTable, start sample⟩
        [.arrive .any (sampleSegment tcpAck 7 [3]), .arrive .any (sampleSegment tcpAck 5 [1, 2]),
          .arrive .any (sampleSegment tcpAck 5 [1, 2]), .arrive .any (sampleSegment tcpFin 7 [3])] =
          .ok final ∧
      final.conns.at? 0 = some next ∧
      final.history.queued.flatten <+: [1, 2, 3] ∧
      next.rcvNxt = 5 + BitVec.ofNat 32 final.history.queued.flatten.length ∧
      next.rxQueue <:+ final.history.queued :=
  queued_isPrefix rfl rfl rfl rfl (by decide) (by decide)

/-- In every run whose reads have room and whose last segments come last, nothing is lost. -/
theorem careful_lossless {ops : List Op} (occupied : conns.at? index = some tcb)
    (careful : Runs.everyStep (Watched.step index after)
      (Watched.given index fun _ _ tcb input => input.careful tcb) ⟨conns, start tcb⟩ ops = true) :
    ∃ final next, Runs.run (Watched.step index after) ⟨conns, start tcb⟩ ops = .ok final ∧
      final.conns.at? index = some next ∧
      final.history.returned ++ next.rxQueue.flatten = final.history.queued.flatten ∧
      final.history.missed = [] := by
  have begins : Lossless tcb (start tcb) := ⟨rfl, fun _ _ told => (by cases told), rfl⟩
  obtain ⟨final, next, run, slot, lossless⟩ := Watched.run_keeps Lossless
    (fun _ _ _ _ lossless test => lossless.step test (receives _)) occupied begins ops careful
  exact ⟨final, next, run, slot, lossless.whole, lossless.missed⟩

/-- Two chunks are read with enough room, and the last segment comes behind them. -/
theorem sample_lossless :
    ∃ final next, Runs.run (Watched.step 0 after) ⟨sampleTable, start sample⟩
        [.arrive .any (sampleSegment tcpAck 5 [1, 2]), .recv 0 2,
          .arrive .any (sampleSegment tcpFin 7 [3]), .recv 0 8] = .ok final ∧
      final.conns.at? 0 = some next ∧
      final.history.returned ++ next.rxQueue.flatten = final.history.queued.flatten ∧
      final.history.missed = [] :=
  careful_lossless rfl (by decide)

/--
A read without room skips a byte, and a last segment that comes too early keeps the bytes in
front of it from being queued.
-/
theorem sample_lossy :
    (∃ final, Runs.run (Watched.step 0 after) ⟨sampleTable, start sample⟩
        [.arrive .any (sampleSegment tcpAck 5 [1, 2]), .arrive .any (sampleSegment tcpAck 7 [3]),
          .recv 0 1, .recv 0 1] = .ok final ∧
      ¬ final.history.returned <+: final.history.queued.flatten) ∧
    ∃ final, Runs.run (Watched.step 0 after) ⟨sampleTable, start sample⟩
        [.arrive .any (sampleSegment tcpFin 7 []), .arrive .any (sampleSegment tcpAck 5 [1, 2])] =
          .ok final ∧
      final.history.missed = [[1, 2]] :=
  ⟨⟨_, rfl, by decide⟩, ⟨_, rfl, by decide⟩⟩

end Received

/-- Whether a connection in one state can later be in another. -/
def TcpState.LeadsTo (state next : TcpState) : Prop :=
  next = state ∨ next = .closed ∨ (state = .synSent ∧ next = .established) ∨
    ((state = .synSent ∨ state = .established) ∧ next = .closeWait)

/--
Each connection whose slot no call has found is still there, in a state that its state leads to.
-/
def Shared.Advances (state final : Shared) : Prop :=
  ∀ index ∉ state.found, ∀ tcb ∈ state.conns.at? index,
    ∃ next ∈ final.conns.at? index, tcb.state.LeadsTo next.state

theorem Receives.leadsTo {tcb next : TcpControlBlock} {input : Option Input} {returned : Bytes}
    (does : Receives tcb input next returned) : tcb.state.LeadsTo next.state := by
  -- Only a segment changes the state, and each case says what it is then.
  cases does with
  | ignored calm other | nothing empty => exact .inl rfl
  | _ => grind [of_receiving, TcpState.LeadsTo]

theorem leadsTo_foldl (inputs : List (Option Input)) (tcb : TcpControlBlock) :
    tcb.state.LeadsTo (inputs.foldl (fun tcb input => (tcb.handle? input).1) tcb).state := by
  induction inputs generalizing tcb with
  | nil => exact .inl rfl
  | cons input inputs ih =>
    have first : tcb.state.LeadsTo (tcb.handle? input).1.state := (receives input).leadsTo
    have further := ih (tcb.handle? input).1
    rw [List.foldl_cons]
    grind [TcpState.LeadsTo]

/-- Whatever is done with a table, no connection comes back to a state that it has left. -/
theorem connections_advance (state : Shared) (parts : List Section) :
    state.Advances (parts.foldl Shared.step state) :=
  fun _ apart _ occupied => ⟨_, Shared.run_slot occupied apart parts, leadsTo_foldl _ _⟩

end TheoryKernel.Net.Tcp
