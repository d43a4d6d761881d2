import TheoryKernel.Lib.Runs
import TheoryKernel.Net.Tcp.Connection

/-! The table of all connections, each of which is a machine of its own. -/

namespace TheoryKernel.Net.Tcp

/-- What one connection is given. -/
inductive Input where
  | segment (flags : BitVec 8) (seq ack : BitVec 32) (payload : Bytes)
  | recv (size : Nat)
  | send (now : BitVec 64) (data : Bytes)
  | tick (now : BitVec 64)
  deriving DecidableEq, Repr

/-- What a connection hands to the network, to its reader and to its writer. -/
structure Answer where
  sent : List Outgoing := []
  received : Option Bytes := none
  accepted : Option Nat := none
  deriving DecidableEq, Repr

/-- The connection behind an input, with its answer. -/
def TcpControlBlock.handle (input : Input) (tcb : TcpControlBlock) : TcpControlBlock × Answer :=
  match input with
  | .segment flags seq ack payload =>
    let (next, sent) := tcb.processSegment flags seq ack payload
    (next, { sent := sent })
  | .recv size =>
    let (next, received) := tcb.recv size
    (next, { received := received })
  | .send now data =>
    let (next, sent, accepted) := tcb.send now data
    (next, { sent := sent, accepted := accepted })
  | .tick now =>
    let (next, sent) := tcb.tick now
    (next, { sent := sent })

/-- The connection behind the input that it is given, if there is one. -/
def TcpControlBlock.handle? (input : Option Input) (tcb : TcpControlBlock) :
    TcpControlBlock × Answer :=
  match input with
  | some input => tcb.handle input
  | none => (tcb, {})

/-- The connections of the kernel, and the number that the next one starts with. -/
structure Connections where
  slots : List (Option TcpControlBlock)
  nextIsn : BitVec 32
  deriving DecidableEq, Repr

/-- What the calls and the network do with the table. -/
inductive Op where
  | createListener (port : BitVec 16)
  | connect (remote : IpAddr) (remotePort localPort : BitVec 16)
  | arrive (src : Ipv4Addr) (data : Bytes)
  | recv (index size : Nat)
  | send (index : Nat) (now : BitVec 64) (data : Bytes)
  | tick (now : BitVec 64)
  deriving DecidableEq, Repr

/-- What an operation hands to the network, for which connection, and what it returns. -/
structure Reply where
  sent : List (Nat × Outgoing) := []
  received : Option Bytes := none
  accepted : Option Nat := none

namespace Connections

/-- The table of a kernel that has just started. -/
def initial : Connections := { slots := List.replicate 128 none, nextIsn := 0xA5A50000 }

/-- The first slot without a connection. -/
def allocSlot (conns : Connections) : Option Nat := conns.slots.findIdx? Option.isNone

/-- The connection of a slot. -/
def at? (conns : Connections) (index : Nat) : Option TcpControlBlock := conns.slots[index]?.join

/-- Putting a connection into a slot. -/
def put (conns : Connections) (index : Nat) (tcb : TcpControlBlock) : Connections :=
  { conns with slots := conns.slots.set index (some tcb) }

/-- A connection that waits for others to connect to its port. -/
def createListener (conns : Connections) (port : BitVec 16) : Connections × Option Nat :=
  match conns.allocSlot with
  | none => (conns, none)
  | some index => (conns.put index { TcpControlBlock.new port with state := .listen }, some index)

/-- The connection that a call of the kernel opens. -/
def opened (isn : BitVec 32) (remote : IpAddr) (remotePort localPort : BitVec 16) :
    TcpControlBlock :=
  { TcpControlBlock.new localPort with
    remote := remote
    remotePort := remotePort
    state := .synSent
    iss := isn
    sndNxt := isn
    sndUna := isn }

/-- The segment that opens a connection. -/
def syn (tcb : TcpControlBlock) : Outgoing where
  tcb := tcb
  flags := tcpSyn
  seq := tcb.iss
  ack := 0
  options := mssOption
  payload := []

/-- Opening a connection to a port of another host. -/
def connect (conns : Connections) (remote : IpAddr) (remotePort localPort : BitVec 16) :
    Connections × List (Nat × Outgoing) × Option Nat :=
  match conns.allocSlot with
  | none => (conns, [], none)
  | some index =>
    let tcb := opened conns.nextIsn remote remotePort localPort
    ({ conns with nextIsn := conns.nextIsn + 64000 }.put index tcb, [(index, syn tcb)], some index)

/-- Whether a segment asks a connection that waits for others. -/
def asks (segment : Incoming) (tcb : TcpControlBlock) : Bool :=
  tcb.state = .listen ∧ segment.flags &&& tcpSyn ≠ 0

/-- Whether the other end of a connection has an address; one of the newer version is not checked. -/
def isFrom (src : Ipv4Addr) (tcb : TcpControlBlock) : Bool :=
  match tcb.remote with
  | .v4 addr => addr = src
  | .v6 _ => true

/-- Whether a connection is the one that a segment is meant for. -/
def takes (src : Ipv4Addr) (segment : Incoming) (tcb : TcpControlBlock) : Bool :=
  tcb.localPort = segment.dstPort &&
    (asks segment tcb || (tcb.remotePort = segment.srcPort && isFrom src tcb))

/-- The connection that a host asks for, before it has been told. -/
def child (nextIsn : BitVec 32) (src : Ipv4Addr) (segment : Incoming) : TcpControlBlock :=
  { TcpControlBlock.new segment.dstPort with
    remote := .v4 src
    remotePort := segment.srcPort
    state := .synReceived
    iss := nextIsn + 1
    rcvNxt := segment.seq + 1
    sndNxt := nextIsn + 1 + 1
    sndUna := nextIsn + 1 }

/-- The answer to a host that asks for a connection. -/
def synAck (tcb : TcpControlBlock) : Outgoing where
  tcb := tcb
  flags := tcpSyn ||| tcpAck
  seq := tcb.iss
  ack := tcb.rcvNxt
  options := mssOption
  payload := []

/-- The slot of the connection that a segment is meant for. -/
def slotFor (conns : Connections) (src : Ipv4Addr) (segment : Incoming) : Option Nat :=
  conns.slots.findIdx? (Option.any (takes src segment))

/-- What a connection does with a segment that it takes. -/
def deliver (conns : Connections) (src : Ipv4Addr) (segment : Incoming) (index : Nat)
    (tcb : TcpControlBlock) : Connections × List (Nat × Outgoing) :=
  if asks segment tcb then
    let tcb := child conns.nextIsn src segment
    -- Without a free slot, the connection is forgotten again.
    let free := conns.allocSlot.getD conns.slots.length
    (conns.put free { tcb with state := .established }, [(free, synAck tcb)])
  else
    let (next, sent) :=
      tcb.processSegment segment.flags segment.seq segment.ack segment.payload
    (conns.put index next, sent.map (index, ·))

/-- What the table does with the bytes of a segment. -/
def handleIncoming (conns : Connections) (src : Ipv4Addr) (data : Bytes) :
    Connections × List (Nat × Outgoing) :=
  match Incoming.parse data with
  | none => (conns, [])
  | some segment =>
    match conns.slotFor src segment with
    | none => (conns, [])
    | some index =>
      match conns.at? index with
      | none => (conns, [])
      | some tcb => conns.deliver src segment index tcb

/-- Reading from the connection of a slot. -/
def recv (conns : Connections) (index size : Nat) : Connections × Option Bytes :=
  match conns.at? index with
  | none => (conns, none)
  | some tcb =>
    let (next, received) := tcb.recv size
    (conns.put index next, received)

/-- Writing to the connection of a slot. -/
def send (conns : Connections) (index : Nat) (now : BitVec 64) (data : Bytes) :
    Connections × List (Nat × Outgoing) × Option Nat :=
  match conns.at? index with
  | none => (conns, [], none)
  | some tcb =>
    let (next, sent, count) := tcb.send now data
    (conns.put index next, sent.map (index, ·), count)

/-- The timer of every connection from a slot on. -/
def tickFrom (now : BitVec 64) :
    Nat → List (Option TcpControlBlock) → List (Option TcpControlBlock) × List (Nat × Outgoing)
  | _, [] => ([], [])
  | index, none :: rest =>
    let (slots, sent) := tickFrom now (index + 1) rest
    (none :: slots, sent)
  | index, some tcb :: rest =>
    let (next, first) := tcb.tick now
    let (slots, sent) := tickFrom now (index + 1) rest
    (some next :: slots, first.map (index, ·) ++ sent)

/-- The timer of every connection. -/
def tick (conns : Connections) (now : BitVec 64) : Connections × List (Nat × Outgoing) :=
  let (slots, sent) := tickFrom now 0 conns.slots
  ({ conns with slots := slots }, sent)

/-- The table behind an operation, and what the operation hands out. -/
def step (conns : Connections) : Op → Connections × Reply
  | .createListener port => ((conns.createListener port).1, {})
  | .connect remote remotePort localPort =>
    let (next, sent, _) := conns.connect remote remotePort localPort
    (next, { sent := sent })
  | .arrive src data =>
    let (next, sent) := conns.handleIncoming src data
    (next, { sent := sent })
  | .recv index size =>
    let (next, received) := conns.recv index size
    (next, { received := received })
  | .send index now data =>
    let (next, sent, accepted) := conns.send index now data
    (next, { sent := sent, accepted := accepted })
  | .tick now =>
    let (next, sent) := conns.tick now
    (next, { sent := sent })

/-- What is handed to the network for the connection of a slot. -/
def sentFor (index : Nat) (sent : List (Nat × Outgoing)) : List Outgoing :=
  (sent.filter fun entry => entry.1 = index).map Prod.snd

/-- Whether an operation is a call for the connection of a slot. -/
def calls (index : Nat) : Op → Bool
  | .recv other _ => other = index
  | .send other _ _ => other = index
  | _ => false

/-- The part of a reply that is for the connection of a slot. -/
def answerFor (index : Nat) (op : Op) (reply : Reply) : Answer where
  sent := sentFor index reply.sent
  received := if calls index op then reply.received else none
  accepted := if calls index op then reply.accepted else none

/-- The input that an operation is for the connection of a slot, if it is one. -/
def inputFor (conns : Connections) (index : Nat) (tcb : TcpControlBlock) : Op → Option Input
  | .createListener _ => none
  | .connect _ _ _ => none
  | .arrive src data =>
    match Incoming.parse data with
    | none => none
    | some segment =>
      if conns.slotFor src segment = some index ∧ asks segment tcb = false then
        some (.segment segment.flags segment.seq segment.ack segment.payload)
      else none
  | .recv other size => if other = index then some (.recv size) else none
  | .send other now data => if other = index then some (.send now data) else none
  | .tick now => some (.tick now)

section Slots

variable {conns next : Connections} {index other : Nat} {tcb : TcpControlBlock}

theorem at?_put (occupied : conns.at? index = some tcb) (written : TcpControlBlock) :
    (conns.put index written).at? index = some written := by
  have inside : index < conns.slots.length := by
    by_contra outside
    rw [at?, List.getElem?_eq_none (Nat.not_lt.mp outside)] at occupied
    cases occupied
  rw [at?, put, List.getElem?_set_self inside]
  rfl

theorem at?_put_ne (different : other ≠ index) (written : TcpControlBlock) :
    (conns.put other written).at? index = conns.at? index := by
  rw [at?, put, List.getElem?_set_ne different]
  rfl

theorem allocSlot_ne (occupied : conns.at? index = some tcb) :
    conns.allocSlot.getD conns.slots.length ≠ index := by
  rintro rfl
  cases found : conns.allocSlot with
  | none =>
    rw [found, Option.getD_none, at?, List.getElem?_eq_none (Nat.le_refl _)] at occupied
    cases occupied
  | some free =>
    rw [found, Option.getD_some, at?] at occupied
    obtain ⟨inside, empty, -⟩ := List.findIdx?_eq_some_iff_getElem.mp found
    rw [List.getElem?_eq_getElem inside, Option.isNone_iff_eq_none.mp empty] at occupied
    cases occupied

theorem sentFor_map (sent : List Outgoing) :
    sentFor index (sent.map (other, ·)) = if other = index then sent else [] := by
  unfold sentFor
  split
  · rename_i same
    rw [List.filter_eq_self.mpr (by simp [same]), List.map_map]
    exact List.map_id sent
  · rename_i different
    rw [List.filter_eq_nil_iff.mpr (by simp [different])]
    rfl

theorem sentFor_append (first second : List (Nat × Outgoing)) :
    sentFor index (first ++ second) = sentFor index first ++ sentFor index second := by
  rw [sentFor, List.filter_append, List.map_append]
  rfl

/-- What a table does for the connection of a slot is what that connection does by itself. -/
structure Follows (index : Nat) (tcb : TcpControlBlock) (input : Option Input) (op : Op)
    (next : Connections) (reply : Reply) : Prop where
  slot : next.at? index = some (tcb.handle? input).1
  answer : answerFor index op reply = (tcb.handle? input).2

section Follows

variable {op : Op}

variable (occupied : conns.at? index = some tcb)

include occupied

theorem Follows.put_free (uncalled : calls index op = false)
    (isn : BitVec 32) (written : TcpControlBlock) (segment : Outgoing) :
    Follows index tcb none op
      ({ conns with nextIsn := isn }.put (conns.allocSlot.getD conns.slots.length) written)
      { sent := [(conns.allocSlot.getD conns.slots.length, segment)] } where
  slot := (at?_put_ne (allocSlot_ne occupied) written).trans occupied
  answer := by
    have nothing : sentFor index [(conns.allocSlot.getD conns.slots.length, segment)] = [] :=
      (sentFor_map [segment]).trans (if_neg (allocSlot_ne occupied))
    rw [answerFor, uncalled, nothing]
    rfl

theorem Follows.stay (uncalled : calls index op = false)
    (reply : Reply) (nothing : reply.sent = []) : Follows index tcb none op conns reply where
  slot := occupied
  answer := by
    rw [answerFor, uncalled, nothing]
    rfl

theorem Follows.put_other (different : other ≠ index)
    (uncalled : calls index op = false) (written : TcpControlBlock) (sent : List Outgoing)
    (received : Option Bytes) (accepted : Option Nat) :
    Follows index tcb none op (conns.put other written)
      ⟨sent.map (other, ·), received, accepted⟩ where
  slot := (at?_put_ne different written).trans occupied
  answer := by
    rw [answerFor, uncalled, sentFor_map, if_neg different]
    rfl

theorem Follows.put_called (called : calls index op = true) (input : Input) :
    Follows index tcb (some input) op (conns.put index (tcb.handle input).1)
      ⟨(tcb.handle input).2.sent.map (index, ·), (tcb.handle input).2.received,
        (tcb.handle input).2.accepted⟩ where
  slot := at?_put occupied _
  answer := by
    rw [answerFor, called, sentFor_map, if_pos rfl]
    rfl

end Follows

theorem slotFor_at? {src : Ipv4Addr} {segment : Incoming}
    (found : conns.slotFor src segment = some index) :
    ∃ tcb, conns.at? index = some tcb ∧ takes src segment tcb = true := by
  obtain ⟨inside, taken, -⟩ := List.findIdx?_eq_some_iff_getElem.mp found
  rw [at?, List.getElem?_eq_getElem inside]
  cases slot : conns.slots[index] with
  | none =>
    rw [slot] at taken
    cases taken
  | some tcb =>
    rw [slot] at taken
    exact ⟨tcb, rfl, taken⟩

theorem handleIncoming_follows (occupied : conns.at? index = some tcb) (src : Ipv4Addr)
    (data : Bytes) :
    Follows index tcb (conns.inputFor index tcb (.arrive src data)) (.arrive src data)
      (conns.handleIncoming src data).1 { sent := (conns.handleIncoming src data).2 } := by
  rw [handleIncoming, inputFor]
  cases Incoming.parse data with
  | none => exact .stay occupied rfl {} rfl
  | some segment =>
    dsimp only
    cases found : conns.slotFor src segment with
    | none =>
      rw [if_neg fun both => nomatch both.1]
      exact .stay occupied rfl {} rfl
    | some taker =>
      obtain ⟨target, holds, -⟩ := slotFor_at? found
      dsimp only
      rw [holds]
      dsimp only
      unfold deliver
      by_cases asked : asks segment target = true
      · -- The new connection is put into a slot that was free.
        rw [if_pos asked]
        have quiet : ¬ (some taker = some index ∧ asks segment tcb = false) := by
          rintro ⟨same, quiet⟩
          cases same
          rw [occupied] at holds
          cases holds
          rw [asked] at quiet
          cases quiet
        rw [if_neg quiet]
        exact .put_free occupied rfl conns.nextIsn _ _
      · rw [if_neg asked]
        by_cases same : taker = index
        · subst same
          rw [occupied] at holds
          cases holds
          rw [if_pos ⟨rfl, Bool.eq_false_iff.mpr asked⟩]
          exact ⟨at?_put occupied _, congrArg (Answer.mk · none none) ((sentFor_map _).trans (if_pos rfl))⟩
        · rw [if_neg fun both => same (Option.some.inj both.1)]
          exact .put_other occupied same rfl _ _ none none

theorem sentFor_tickFrom_of_lt (now : BitVec 64) (slots : List (Option TcpControlBlock))
    {start early : Nat} (before : early < start) :
    sentFor early (tickFrom now start slots).2 = [] := by
  induction slots generalizing start with
  | nil => rfl
  | cons slot rest ih =>
    have later := ih (Nat.lt_succ_of_lt before)
    cases slot with
    | none => exact later
    | some tcb =>
      rw [tickFrom, sentFor_append, sentFor_map, if_neg (Nat.ne_of_gt before), later]
      rfl

theorem tickFrom_slot (now : BitVec 64) {slots : List (Option TcpControlBlock)} (start : Nat)
    (occupied : slots[index]?.join = some tcb) :
    (tickFrom now start slots).1[index]?.join = some (tcb.tick now).1 ∧
      sentFor (start + index) (tickFrom now start slots).2 = (tcb.tick now).2 := by
  -- The slots in front of the one in question are passed one by one.
  induction slots generalizing start index with
  | nil => cases occupied
  | cons slot rest ih =>
    cases index with
    | zero =>
      cases occupied
      refine ⟨rfl, ?_⟩
      rw [Nat.add_zero, tickFrom, sentFor_append, sentFor_map, if_pos rfl,
        sentFor_tickFrom_of_lt now rest (Nat.lt_succ_self start), List.append_nil]
    | succ index =>
      obtain ⟨kept, sent⟩ := ih (start + 1) occupied
      rw [Nat.add_right_comm] at sent
      cases slot with
      | none => exact ⟨kept, sent⟩
      | some first =>
        refine ⟨kept, ?_⟩
        rw [tickFrom, sentFor_append, sentFor_map, if_neg (by omega), List.nil_append]
        exact sent

/-- What one operation does to a slot. -/
theorem step_follows (occupied : conns.at? index = some tcb) (op : Op) :
    Follows index tcb (conns.inputFor index tcb op) op (conns.step op).1 (conns.step op).2 := by
  cases op with
  | createListener port =>
    rw [step, createListener, inputFor]
    cases free : conns.allocSlot with
    | none => exact .stay occupied rfl {} rfl
    | some found =>
      have different := allocSlot_ne occupied
      rw [free, Option.getD_some] at different
      exact .put_other occupied different rfl _ [] none none
  | connect remote remotePort localPort =>
    rw [step, connect, inputFor]
    cases free : conns.allocSlot with
    | none => exact .stay occupied rfl {} rfl
    | some found =>
      have put := @Follows.put_free conns index tcb (.connect remote remotePort localPort) occupied
        rfl (conns.nextIsn + 64000) (opened conns.nextIsn remote remotePort localPort)
        (syn (opened conns.nextIsn remote remotePort localPort))
      rw [free, Option.getD_some] at put
      exact put
  | arrive src data => exact handleIncoming_follows occupied src data
  | recv other size =>
    rw [step, recv, inputFor]
    by_cases same : other = index
    · subst same
      have called : calls other (.recv other size) = true := decide_eq_true rfl
      rw [if_pos rfl, occupied]
      exact .put_called occupied called (.recv size)
    · have uncalled : calls index (.recv other size) = false := decide_eq_false same
      rw [if_neg same]
      cases conns.at? other with
      | none => exact .stay occupied uncalled _ rfl
      | some target => exact .put_other occupied same uncalled _ [] _ none
  | send other now data =>
    rw [step, send, inputFor]
    by_cases same : other = index
    · subst same
      have called : calls other (.send other now data) = true := decide_eq_true rfl
      rw [if_pos rfl, occupied]
      exact .put_called occupied called (.send now data)
    · have uncalled : calls index (.send other now data) = false := decide_eq_false same
      rw [if_neg same]
      cases conns.at? other with
      | none => exact .stay occupied uncalled _ rfl
      | some target => exact .put_other occupied same uncalled _ _ none _
  | tick now =>
    obtain ⟨kept, sent⟩ := tickFrom_slot now 0 occupied
    rw [Nat.zero_add] at sent
    exact ⟨kept, congrArg (Answer.mk · none none) sent⟩

end Slots

end Connections

/--
What is done with the table under its locks at one time. The segments that are handed out are
transmitted elsewhere.
-/
inductive Section where
  /-- A call that opens a connection looks for a free slot. -/
  | allocSlot
  /-- The call sets the number that the next one starts with. -/
  | setNextIsn (isn : BitVec 32)
  /-- The call fills the slot that it has found, even if another has filled it since. -/
  | fill (index : Nat) (tcb : TcpControlBlock)
  /-- Every other operation is one section; so is a call that opens one undisturbed. -/
  | whole (op : Op)

/-- The table, and the slots that calls have found free and not filled yet. -/
structure Shared where
  conns : Connections
  found : List Nat

namespace Shared

/-- The table behind a section. -/
def step (state : Shared) : Section → Shared
  | .allocSlot => { state with found := state.conns.allocSlot.toList ++ state.found }
  | .setNextIsn isn => { state with conns := { state.conns with nextIsn := isn } }
  | .fill index tcb =>
    if index ∈ state.found then ⟨state.conns.put index tcb, state.found.erase index⟩ else state
  | .whole op => { state with conns := (state.conns.step op).1 }

/-- The input that a section is for the connection of a slot, if it is one. -/
def inputFor (state : Shared) (index : Nat) : Section → Option Input
  | .whole op => (state.conns.at? index).bind (state.conns.inputFor index · op)
  | _ => none

/-- The inputs that sections are for the connection of a slot, one after another. -/
def inputsFor (index : Nat) : Shared → List Section → List (Option Input)
  | _, [] => []
  | state, part :: parts => state.inputFor index part :: inputsFor index (state.step part) parts

variable {state : Shared} {index : Nat} {tcb : TcpControlBlock}

/-- A section does to a slot that no call has found what its connection does by itself. -/
theorem step_slot (occupied : state.conns.at? index = some tcb) (apart : index ∉ state.found)
    (part : Section) :
    (state.step part).conns.at? index = some (tcb.handle? (state.inputFor index part)).1 ∧
      index ∉ (state.step part).found := by
  cases part with
  | allocSlot =>
    -- The slot that is found now is free, so it is another one.
    refine ⟨occupied, fun member => ?_⟩
    rcases List.mem_append.mp member with new | old
    · have different := Connections.allocSlot_ne occupied
      rw [Option.mem_toList.mp new] at different
      exact different rfl
    · exact apart old
  | setNextIsn isn => exact ⟨occupied, apart⟩
  | fill other written =>
    rw [step]
    split
    · rename_i member
      have different : other ≠ index := fun same => apart (same ▸ member)
      exact ⟨(Connections.at?_put_ne different written).trans occupied,
        fun later => apart (List.mem_of_mem_erase later)⟩
    · exact ⟨occupied, apart⟩
  | whole op =>
    rw [inputFor, occupied]
    exact ⟨(Connections.step_follows occupied op).slot, apart⟩

theorem run_slot (occupied : state.conns.at? index = some tcb) (apart : index ∉ state.found)
    (parts : List Section) :
    (parts.foldl step state).conns.at? index =
      some ((state.inputsFor index parts).foldl (fun tcb input => (tcb.handle? input).1) tcb) := by
  induction parts generalizing state tcb with
  | nil => exact occupied
  | cons part parts ih =>
    obtain ⟨slot, apart⟩ := step_slot occupied apart part
    exact ih slot apart

/-- Each connection whose slot no call has found becomes what its own inputs make of it alone. -/
def Separate (state : Shared) (parts : List Section) (final : Shared) : Prop :=
  ∀ index ∉ state.found, ∀ tcb ∈ state.conns.at? index,
    (state.inputsFor index parts).foldl (fun tcb input => (tcb.handle? input).1) tcb ∈
      final.conns.at? index

/-- Whatever is done with a table, no connection changes by what is for another one. -/
theorem connections_are_separate (state : Shared) (parts : List Section) :
    state.Separate parts (parts.foldl step state) :=
  fun _ apart _ occupied => run_slot occupied apart parts

/-- A slot that a call has found and another has filled is filled again. -/
example (tcb : TcpControlBlock) :
    ([.allocSlot, .whole (.createListener 80), .fill 0 tcb].foldl step
      ⟨Connections.initial, []⟩).conns.at? 0 = some tcb := rfl

end Shared

/-- The table, with a history of what happens to one of its connections. -/
structure Watched (η : Type) where
  conns : Connections
  history : η
  deriving DecidableEq, Repr

namespace Watched

variable {η : Type} (index : Nat)
  (after : η → Op → TcpControlBlock → Option Input → TcpControlBlock → Answer → η)

/-- The table and the history of the connection of a slot behind an operation. -/
def step (state : Watched η) (op : Op) : Exec (Watched η) :=
  let (conns, reply) := state.conns.step op
  match state.conns.at? index, conns.at? index with
  | some tcb, some next =>
    .ok ⟨conns, after state.history op tcb (state.conns.inputFor index tcb op) next
      (Connections.answerFor index op reply)⟩
  | _, _ => .ok { state with conns := conns }

/-- Whether the input that an operation is for the connection of a slot passes a test. -/
def given (test : η → Op → TcpControlBlock → Input → Bool) (state : Watched η) (op : Op) : Bool :=
  match state.conns.at? index with
  | none => true
  | some tcb =>
    match state.conns.inputFor index tcb op with
    | none => true
    | some input => test state.history op tcb input

variable {index after} {test : η → Op → TcpControlBlock → Input → Bool} {conns : Connections}
  {tcb : TcpControlBlock} {history : η}

/-- A property that every input with a test keeps lasts through every run of the table. -/
theorem run_keeps (holds : TcpControlBlock → η → Prop)
    (keep : ∀ tcb history op input, holds tcb history →
      (∀ given, input = some given → test history op tcb given = true) →
      holds (tcb.handle? input).1
        (after history op tcb input (tcb.handle? input).1 (tcb.handle? input).2))
    (occupied : conns.at? index = some tcb) (start : holds tcb history) (ops : List Op)
    (tested : Runs.everyStep (step index after) (given index test) ⟨conns, history⟩ ops = true) :
    ∃ final next, Runs.run (step index after) ⟨conns, history⟩ ops = .ok final ∧
      final.conns.at? index = some next ∧ holds next final.history := by
  obtain ⟨final, run, next, slot, kept⟩ := Runs.run_returns
    (fun state : Watched η => ∃ tcb, state.conns.at? index = some tcb ∧ holds tcb state.history)
    (by
      rintro state op ⟨tcb, slot, kept⟩ passed
      obtain ⟨next, answer⟩ := Connections.step_follows slot op
      have run : step index after state op = .ok ⟨(state.conns.step op).1,
          after state.history op tcb (state.conns.inputFor index tcb op)
            (tcb.handle? (state.conns.inputFor index tcb op)).1
            (tcb.handle? (state.conns.inputFor index tcb op)).2⟩ := by
        unfold step
        dsimp only
        rw [slot, next, answer]
      refine ⟨_, run, _, next, keep _ _ _ _ kept ?_⟩
      intro input same
      rw [given, slot] at passed
      dsimp only at passed
      rw [same] at passed
      exact passed)
    ⟨tcb, occupied, start⟩ tested
  exact ⟨final, next, run, slot, kept⟩

end Watched

end TheoryKernel.Net.Tcp
