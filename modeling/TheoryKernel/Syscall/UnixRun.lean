import TheoryKernel.Lib.Runs
import TheoryKernel.Syscall.Sleeping

/-! Sockets that many threads use at once, one section of a call at a time. -/

set_option maxRecDepth 8000

namespace TheoryKernel.Syscall

open Function List
open Ipc (UnixSocket UnixType WaitQueue maxPending unixBuf)
open Proc (maxThreads)

/-- The longest path that a socket can be bound to. -/
def boundPathSize : Nat := 108

/-- Where a thread is in a call: the slots it has read, which its next section uses. -/
inductive UnixPlace where
  | idle
  -- In `socket`: a slot was free.
  | installing (sockType : UnixType) (id : Nat)
  -- In `bind`: no socket had the path.
  | binding (id : Nat) (path : Bytes)
  -- In `connect`: a socket had the path, and then the connection was noted.
  | connecting (id listener : Nat)
  | queueing (id listener : Nat)
  -- In `send`: the socket was connected, and bytes of it go to the other one.
  | sending (serial peer : Nat) (data : Bytes)
  -- In `accept`: a client was taken, a slot was free, the new socket was made, one link was set.
  | accepting (client : Nat)
  | acceptInstalling (client conn : Nat)
  | linkingClient (client conn : Nat)
  | linkingConn (client conn : Nat)
  -- In `close`: the socket was connected, and then its peer was told.
  | closing (id peer : Nat)
  | clearing (id : Nat)
  deriving DecidableEq

/-- Whether a call in progress is about to use a slot. -/
def UnixPlace.names (slot : Nat) : UnixPlace → Bool
  | .idle => false
  | .installing _ id => id == slot
  | .binding id _ => id == slot
  | .connecting id listener => id == slot || listener == slot
  | .queueing id listener => id == slot || listener == slot
  | .sending _ peer _ => peer == slot
  | .accepting client => client == slot
  | .acceptInstalling client conn => client == slot || conn == slot
  | .linkingClient client conn => client == slot || conn == slot
  | .linkingConn client conn => client == slot || conn == slot
  | .closing id peer => id == slot || peer == slot
  | .clearing id => id == slot

/-- Whether a place depends neither on a free slot nor on a connection. -/
def UnixPlace.plain : UnixPlace → Bool
  | .installing _ _ | .acceptInstalling _ _ | .sending _ _ _ => false
  | _ => true

/--
The table of sockets, the place of each thread, and a record of who was paired with whom.

Every socket has a number of its own, which is never given out again. The record has the pairs that
`accept` has made, and the numbers of the sockets whose bytes are in each ring.
-/
structure UnixSystem where
  sockets : Nat → Option UnixSocket
  places : Nat → UnixPlace
  serials : Nat → Nat
  nextSerial : Nat
  pairs : List (Nat × Nat)
  senders : Nat → List Nat

/-- What threads do: the first section of each call, and the next section of a call in progress. -/
inductive UnixOp where
  | socket (tid : Nat) (sockType : UnixType)
  | bind (tid id : Nat) (path : Bytes)
  | listen (tid id : Nat)
  | connect (tid id : Nat) (path : Bytes)
  | accept (tid id : Nat)
  | send (tid id : Nat) (data : Bytes)
  | recv (tid id room : Nat)
  | close (tid id : Nat)
  | next (tid : Nat)

namespace UnixSystem

/-- No socket has been made. -/
def new : UnixSystem := ⟨fun _ => none, fun _ => .idle, fun _ => 0, 0, [], fun _ => []⟩

/-- A thread goes on to the next section of its call, or returns. -/
def goto (system : UnixSystem) (tid : Nat) (place : UnixPlace) : UnixSystem :=
  { system with places := update system.places tid place }

/-- A socket with other contents. -/
def put (system : UnixSystem) (id : Nat) (socket : UnixSocket) : UnixSystem :=
  { system with sockets := update system.sockets id (some socket) }

/-- A new socket in a slot, whatever was there before. -/
def install (system : UnixSystem) (id : Nat) (sockType : UnixType) : UnixSystem :=
  { system with
    sockets := update system.sockets id (some (.new sockType))
    serials := update system.serials id system.nextSerial
    nextSerial := system.nextSerial + 1
    senders := update system.senders id [] }

/-- A slot without a socket. -/
def clear (system : UnixSystem) (id : Nat) : UnixSystem :=
  { system with sockets := update system.sockets id none }

/-- A pair of sockets in the record. -/
def pair (system : UnixSystem) (first second : Nat) : UnixSystem :=
  { system with pairs := (system.serials first, system.serials second) :: system.pairs }

/-- The socket in a slot; the index is not checked. -/
def slot (system : UnixSystem) (id : Nat) : Exec (Option UnixSocket) :=
  if id < maxUnix then .ok (system.sockets id) else .error .indexOutOfBounds

/-- The first slot without a socket. -/
def allocId (system : UnixSystem) : Option Nat :=
  (List.range maxUnix).find? fun id => (system.sockets id).isNone

/-- The first socket that is bound to a path. -/
def findBound (system : UnixSystem) (path : Bytes) : Option Nat :=
  (List.range maxUnix).find? fun id => (system.sockets id).any fun socket => socket.boundPath == path

/-- The first section of `accept`, which takes the client that asked last or goes to sleep. -/
def takeClient (system : UnixSystem) (tid id : Nat) (listener : UnixSocket) : Exec UnixSystem :=
  if listener.listener = false then .ok system
  else if 0 < listener.pendingLen then
    match listener.pending (listener.pendingLen - 1) with
    | none => .error .assertionFailed
    | some client =>
      .ok ((system.put id { listener with pendingLen := listener.pendingLen - 1 }).goto tid
        (.accepting client))
  else .ok (system.put id { listener with acceptWaiters := (listener.acceptWaiters.push tid).2 })

/-- Taking bytes from a socket, or going to sleep. -/
def takeBytes (system : UnixSystem) (tid id room : Nat) (here : UnixSocket) :
    Exec (Nat × UnixSystem) :=
  if 0 < here.ring.len then do
    let (bytes, taken) ← here.readBytes room
    .ok (bytes.length,
      { system.put id { taken with writeWaiters := wakeOne taken.writeWaiters } with
        senders := update system.senders id ((system.senders id).drop bytes.length) })
  else if here.peerClosed then .ok (0, system)
  else .ok (0, system.put id { here with readWaiters := (here.readWaiters.push tid).2 })

/-- Giving bytes of a socket to another one, or going to sleep, with the number of bytes. -/
def giveBytes (system : UnixSystem) (tid serial peer : Nat) (data : Bytes) (there : UnixSocket) :
    Exec (Nat × UnixSystem) :=
  if there.peerClosed then .ok (0, system)
  else if unixBuf ≤ there.ring.len then
    .ok (0, system.put peer { there with writeWaiters := (there.writeWaiters.push tid).2 })
  else do
    let (count, written) ← there.writeBytes data
    let written :=
      if 0 < count then { written with readWaiters := wakeOne written.readWaiters } else written
    .ok (count,
      { system.put peer written with
        senders := update system.senders peer
          (system.senders peer ++ List.replicate count serial) })

/-- The next section of a call, with the number of bytes that it sends. -/
def advance (system : UnixSystem) (tid : Nat) : Exec (Nat × UnixSystem) :=
  match system.places tid with
  | .idle => .ok (0, system)
  | .installing sockType id => .ok (0, (system.install id sockType).goto tid .idle)
  | .binding id path => do
    match ← system.slot id with
    | none => .ok (0, system.goto tid .idle)
    | some socket => .ok (0, (system.put id { socket with boundPath := path }).goto tid .idle)
  | .connecting id listener => do
    match ← system.slot id with
    | none => .ok (0, system.goto tid .idle)
    | some socket =>
      if socket.sockType = .stream then
        .ok (0, (system.put id { socket with connected := some listener }).goto tid
          (.queueing id listener))
      else .ok (0, system.goto tid .idle)
  | .queueing id listener => do
    match ← system.slot listener with
    | none => .ok (0, system.goto tid .idle)
    | some socket =>
      if maxPending ≤ socket.pendingLen then .ok (0, system.goto tid .idle)
      else
        .ok (0, (system.put listener
          { socket with
            pending := update socket.pending socket.pendingLen (some id)
            pendingLen := socket.pendingLen + 1
            acceptWaiters := wakeOne socket.acceptWaiters }).goto tid .idle)
  | .sending serial peer data => do
    match ← system.slot peer with
    | none => .ok (0, system.goto tid .idle)
    | some there =>
      let (count, sent) ← system.giveBytes tid serial peer data there
      .ok (count, sent.goto tid .idle)
  | .accepting client =>
    match system.allocId with
    | none => .ok (0, system.goto tid .idle)
    | some conn => .ok (0, system.goto tid (.acceptInstalling client conn))
  | .acceptInstalling client conn =>
    .ok (0, (system.install conn .stream).goto tid (.linkingClient client conn))
  | .linkingClient client conn => do
    match ← system.slot client with
    | none => .ok (0, system.goto tid (.linkingConn client conn))
    | some socket =>
      .ok (0, ((system.put client { socket with connected := some conn }).pair client conn).goto tid
        (.linkingConn client conn))
  | .linkingConn client conn => do
    match ← system.slot conn with
    | none => .ok (0, system.goto tid .idle)
    | some socket =>
      .ok (0, ((system.put conn { socket with connected := some client }).pair conn client).goto tid
        .idle)
  | .closing id peer => do
    match ← system.slot peer with
    | none => .ok (0, system.goto tid (.clearing id))
    | some socket =>
      .ok (0, (system.put peer
        { socket with peerClosed := true, readWaiters := { socket.readWaiters with len := 0 } }).goto
          tid (.clearing id))
  | .clearing id =>
    if id < maxUnix then .ok (0, (system.clear id).goto tid .idle) else .error .indexOutOfBounds

/-- The first section of a call. -/
def start (system : UnixSystem) : UnixOp → Exec UnixSystem
  | .socket tid sockType =>
    match system.allocId with
    | none => .ok system
    | some id => .ok (system.goto tid (.installing sockType id))
  | .bind tid id path =>
    if boundPathSize < path.length then .ok system
    else if (system.findBound path).isSome then .ok system
    else .ok (system.goto tid (.binding id path))
  | .listen _ id => do
    match ← system.slot id with
    | none => .ok system
    | some socket =>
      if socket.sockType = .stream then .ok (system.put id { socket with listener := true })
      else .ok system
  | .connect tid id path =>
    match system.findBound path with
    | none => .ok system
    | some listener => .ok (system.goto tid (.connecting id listener))
  | .accept tid id => do
    match ← system.slot id with
    | none => .ok system
    | some listener => system.takeClient tid id listener
  | .send tid id data => do
    match ← system.slot id with
    | none => .ok system
    | some here =>
      match peerOf id here with
      | none => .ok system
      | some peer => .ok (system.goto tid (.sending (system.serials id) peer data))
  | .recv tid id room => do
    match ← system.slot id with
    | none => .ok system
    | some here =>
      let (_, taken) ← system.takeBytes tid id room here
      .ok taken
  | .close tid id => do
    match ← system.slot id with
    | none => .ok (system.goto tid (.clearing id))
    | some socket =>
      match socket.connected with
      | none => .ok (system.goto tid (.clearing id))
      | some peer => .ok (system.goto tid (.closing id peer))
  | .next _ => .ok system

/-- The thread of an operation. -/
def thread : UnixOp → Nat
  | .socket tid _ | .bind tid _ _ | .listen tid _ | .connect tid _ _ | .accept tid _
  | .send tid _ _ | .recv tid _ _ | .close tid _ | .next tid => tid

/-- What the operations do; a call that its thread cannot start changes nothing. -/
def step (system : UnixSystem) (op : UnixOp) : Exec UnixSystem :=
  match op with
  | .next tid => do
    let (_, advanced) ← system.advance tid
    .ok advanced
  | _ =>
    if system.places (thread op) = .idle ∧ thread op < maxThreads then system.start op
    else .ok system

/--
What is expected of the bytes that are received and sent.

They come from sockets with which the receiving one was paired, and they go to a socket that is
still there and with which the sending one was paired.
-/
def Private (system : UnixSystem) : UnixOp → Prop
  | .recv tid id room => ∀ here count after, system.sockets id = some here →
      system.takeBytes tid id room here = .ok (count, after) →
      ∀ sender ∈ (system.senders id).take count, (sender, system.serials id) ∈ system.pairs
  | .next tid => ∀ serial peer data count after, system.places tid = .sending serial peer data →
      system.advance tid = .ok (count, after) → count ≠ 0 →
      (system.sockets peer).isSome = true ∧ (serial, system.serials peer) ∈ system.pairs
  | _ => True

/-- Whether neither a socket nor a call of another thread refers to a slot. -/
def unnamed (system : UnixSystem) (tid slot : Nat) : Bool :=
  ((List.range maxUnix).all fun id => (system.sockets id).all fun socket =>
    socket.connected != some slot &&
      (List.range socket.pendingLen).all fun place => socket.pending place != some slot) &&
  (List.range maxThreads).all fun other => other == tid || !(system.places other).names slot

/--
What an operation needs so that connections stay private.

A new socket comes into a slot to which nobody refers. Only a socket that listens is connected to,
and only streams send, to sockets that do not listen.
-/
def careful (system : UnixSystem) : UnixOp → Bool
  | .send _ id _ => (system.sockets id).all fun here => here.sockType = .stream
  | .next tid =>
    match system.places tid with
    | .installing _ id => system.unnamed tid id
    | .acceptInstalling _ conn => system.unnamed tid conn
    | .connecting _ listener => (system.sockets listener).all fun socket => socket.listener
    | .sending _ peer _ => (system.sockets peer).all fun there => !there.listener
    | _ => true
  | _ => true

variable {system next : UnixSystem} {op : UnixOp} {tid id peer : Nat} {socket after : UnixSocket}

/--
Sockets refer to sockets that listen or that they were paired with, as far as these are there.

The same holds for bytes on their way, and the bytes that have arrived come from paired sockets.
-/
structure Orderly (system : UnixSystem) : Prop where
  inside : ∀ id socket, system.sockets id = some socket → id < maxUnix
  bounded : ∀ tid, system.places tid ≠ .idle → tid < maxThreads
  found : ∀ tid id, ((∃ sockType, system.places tid = .installing sockType id) ∨
    ∃ client, system.places tid = .acceptInstalling client id) → id < maxUnix
  linked : ∀ id socket other there, system.sockets id = some socket →
    socket.connected = some other → system.sockets other = some there →
    there.listener = true ∨ (system.serials id, system.serials other) ∈ system.pairs
  sending : ∀ tid serial peer data there, system.places tid = .sending serial peer data →
    system.sockets peer = some there →
    there.listener = true ∨ (serial, system.serials peer) ∈ system.pairs
  sent : ∀ id, ∀ sender ∈ system.senders id, (sender, system.serials id) ∈ system.pairs

theorem orderly_new : new.Orderly where
  inside := nofun
  bounded := fun tid busy => absurd rfl busy
  found := by
    rintro tid id (⟨sockType, place⟩ | ⟨client, place⟩)
    · cases place
    · cases place
  linked := nofun
  sending := nofun
  sent := nofun

namespace Orderly

variable (orderly : system.Orderly)

include orderly

variable {place : UnixPlace}

theorem goto (small : place ≠ .idle → tid < maxThreads)
    (free : ∀ id, ((∃ sockType, place = .installing sockType id) ∨ ∃ client, place =
      .acceptInstalling client id) → id < maxUnix)
    (sends : ∀ serial peer data there, place = .sending serial peer data → system.sockets peer =
      some there → there.listener = true ∨ (serial, system.serials peer) ∈ system.pairs) :
    (system.goto tid place).Orderly := by
  -- The new place is looked up for this thread, and the old ones for the others.
  have placed := fun other => Slots.of_update (rfl : (system.goto tid place).places other = _)
  refine ⟨orderly.inside, ?_, ?_, orderly.linked, ?_, orderly.sent⟩
  · intro other busy
    rcases placed other with ⟨rfl, same⟩ | ⟨-, same⟩
    · exact small (same ▸ busy)
    · exact orderly.bounded other (same ▸ busy)
  · intro other id named
    rcases placed other with ⟨-, same⟩ | ⟨-, same⟩
    · exact free id (same ▸ named)
    · exact orderly.found other id (same ▸ named)
  · intro other serial peer data there named
    rcases Slots.of_update named with ⟨-, same⟩ | ⟨-, same⟩
    · exact sends serial peer data there same
    · exact orderly.sending other serial peer data there same

theorem move (small : place ≠ .idle → tid < maxThreads) (plain : place.plain = true) :
    (system.goto tid place).Orderly := by
  refine orderly.goto small ?_ ?_
  · rintro id (⟨sockType, rfl⟩ | ⟨client, rfl⟩)
    · cases plain
    · cases plain
  · rintro serial peer data there rfl
    cases plain

theorem idle : (system.goto tid .idle).Orderly :=
  orderly.move (fun busy => absurd rfl busy) rfl

theorem change {now : UnixSystem} (places : now.places = system.places)
    (serials : now.serials = system.serials) (pairs : ∀ known ∈ system.pairs, known ∈ now.pairs)
    (sockets : ∀ id there, now.sockets id = some there → ∃ old, system.sockets id = some old ∧
      (old.listener = true → there.listener = true) ∧
      ∀ other far, there.connected = some other → old.connected = some other ∨
        (system.sockets other = some far →
          far.listener = true ∨ (system.serials id, system.serials other) ∈ now.pairs))
    (sent : ∀ id, ∀ sender ∈ now.senders id, (sender, system.serials id) ∈ now.pairs) :
    now.Orderly := by
  -- A socket that is there now was there before, and listens if it did.
  refine ⟨?_, places ▸ orderly.bounded, places ▸ orderly.found, ?_, ?_, serials ▸ sent⟩
  · intro id there found
    obtain ⟨old, was, -⟩ := sockets id there found
    exact orderly.inside id old was
  · intro first one second two found connected found'
    obtain ⟨old, was, -, links⟩ := sockets first one found
    obtain ⟨target, targetWas, still, -⟩ := sockets second two found'
    rw [serials]
    rcases links second target connected with same | fine
    · exact (orderly.linked first old second target was same targetWas).imp still (pairs _)
    · exact (fine targetWas).imp_left still
  · intro tid serial peer data there place found
    obtain ⟨target, was, still, -⟩ := sockets peer there found
    rw [places] at place
    rw [serials]
    exact (orderly.sending tid serial peer data target place was).imp still (pairs _)

theorem put (here : system.sockets id = some socket)
    (listens : socket.listener = true → after.listener = true)
    (links : ∀ other there, after.connected = some other → socket.connected = some other ∨
      (system.sockets other = some there →
        there.listener = true ∨ (system.serials id, system.serials other) ∈ system.pairs)) :
    (system.put id after).Orderly := by
  refine orderly.change rfl rfl (fun _ known => known) ?_ orderly.sent
  intro other there found
  rcases Slots.of_update found with ⟨rfl, ⟨⟩⟩ | ⟨-, found⟩
  · exact ⟨socket, here, listens, links⟩
  · exact ⟨there, found, fun listener => listener, fun _ _ => .inl⟩

theorem install {sockType : UnixType} (free : id < maxUnix)
    (unnamed : system.unnamed tid id = true)
    (busy : ∀ serial peer data, system.places tid ≠ .sending serial peer data) :
    (system.install id sockType).Orderly := by
  rw [UnixSystem.unnamed, Bool.and_eq_true, all_eq_true, all_eq_true] at unnamed
  obtain ⟨bySockets, byThreads⟩ := unnamed
  have serials : ∀ other, other ≠ id → (system.install id sockType).serials other =
      system.serials other := fun other differ => update_of_ne differ ..
  refine ⟨?_, orderly.bounded, orderly.found, ?_, ?_, ?_⟩
  · intro other there found
    rcases Slots.of_update found with ⟨rfl, -⟩ | ⟨-, found⟩
    · exact free
    · exact orderly.inside other there found
  · intro first one second two found connected found'
    rcases Slots.of_update found with ⟨-, ⟨⟩⟩ | ⟨isFirst, was⟩
    · cases connected
    · -- The socket does not refer to the new one.
      have different : second ≠ id := by
        rintro rfl
        have checked := bySockets first (mem_range.mpr (orderly.inside first one was))
        rw [was, Option.all_some, connected] at checked
        simp at checked
      have found' := (update_of_ne different ..).symm.trans found'
      rw [serials first isFirst, serials second different]
      exact orderly.linked first one second two was connected found'
  · intro other serial peer data there place found
    -- The thread that makes the socket sends nothing, and the others do not refer to the slot.
    have different : peer ≠ id := by
      rintro rfl
      have small : other < maxThreads := by
        apply orderly.bounded
        intro idle
        cases place.symm.trans idle
      have checked := byThreads other (mem_range.mpr small)
      have place' : system.places other = .sending serial peer data := place
      rw [place', UnixPlace.names, beq_self_eq_true, Bool.not_true, Bool.or_false,
        beq_iff_eq] at checked
      subst checked
      exact busy serial peer data place
    have found := (update_of_ne different ..).symm.trans found
    rw [serials peer different]
    exact orderly.sending other serial peer data there place found
  · intro other sender member
    change sender ∈ update system.senders id [] other at member
    by_cases same : other = id
    · subst same
      rw [update_self] at member
      cases member
    · rw [update_of_ne same] at member
      rw [serials other same]
      exact orderly.sent other sender member

theorem clear : (system.clear id).Orderly := by
  refine orderly.change rfl rfl (fun _ known => known) ?_ orderly.sent
  intro other there found
  rcases Slots.of_update found with ⟨-, ⟨⟩⟩ | ⟨-, found⟩
  exact ⟨there, found, fun listener => listener, fun _ _ => .inl⟩

theorem pair (first second : Nat) : (system.pair first second).Orderly :=
  orderly.change rfl rfl (fun _ => mem_cons_of_mem _)
    (fun _ there found => ⟨there, found, fun listener => listener, fun _ _ => .inl⟩)
    fun id sender member => mem_cons_of_mem _ (orderly.sent id sender member)

theorem senders {arrived : List Nat}
    (paired : ∀ sender ∈ arrived, (sender, system.serials id) ∈ system.pairs) :
    { system with senders := update system.senders id arrived }.Orderly := by
  refine { orderly with sent := ?_ }
  exact (Function.forall_update_iff system.senders fun other listed =>
    ∀ sender ∈ listed, (sender, system.serials other) ∈ system.pairs).mpr
      ⟨paired, fun other _ => orderly.sent other⟩

end Orderly

theorem slot_ensures {α : Type} {rest : Option UnixSocket → Exec α} {post : α → Prop}
    (absent : Exec.Ensures post (rest none))
    (present : ∀ socket, system.sockets id = some socket → Exec.Ensures post (rest (some socket))) :
    Exec.Ensures post (system.slot id >>= rest) := by
  unfold slot
  split
  · rw [Exec.ok_bind]
    cases found : system.sockets id with
    | none => exact absent
    | some socket => exact present socket found
  · exact .error

theorem allocId_lt (found : system.allocId = some id) : id < maxUnix :=
  mem_range.mp (mem_of_find?_eq_some found)

namespace Orderly

variable (orderly : system.Orderly)

include orderly

theorem touch (here : system.sockets id = some socket)
    (links : after.connected = socket.connected) (listens : after.listener = socket.listener) :
    (system.put id after).Orderly := by
  refine orderly.put here (fun listener => listens.trans listener) ?_
  intro other there connected
  exact .inl (links.symm.trans connected)

theorem link {first second : Nat} (here : system.sockets first = some socket) :
    ((system.put first { socket with connected := some second }).pair first second).Orderly := by
  -- The pair is in the record when the link is set.
  change ((system.pair first second).put first { socket with connected := some second }).Orderly
  refine (orderly.pair first second).put here (fun listens => listens) ?_
  rintro other there ⟨⟩
  exact .inr fun _ => .inr mem_cons_self

theorem takeClient (here : system.sockets id = some socket) (small : tid < maxThreads) :
    Exec.Ensures Orderly (system.takeClient tid id socket) := by
  unfold UnixSystem.takeClient
  split
  · exact .ok orderly
  · split
    · cases socket.pending (socket.pendingLen - 1) with
      | none => exact .error
      | some client =>
        refine .ok (.move ?_ (fun _ => small) rfl)
        exact orderly.touch here rfl rfl
    · exact .ok (orderly.touch here rfl rfl)

theorem takeBytes (here : system.sockets id = some socket) {room : Nat} :
    Exec.Ensures (fun served => served.2.Orderly) (system.takeBytes tid id room socket) := by
  unfold UnixSystem.takeBytes
  split
  · unfold UnixSocket.readBytes
    cases socket.ring.read unixBuf room with
    | none => exact .error
    | some served =>
      refine .ok (.senders ?_ fun sender member => ?_)
      · exact orderly.touch here rfl rfl
      · exact orderly.sent id sender (mem_of_mem_drop member)
  · split
    · exact .ok orderly
    · exact .ok (orderly.touch here rfl rfl)

theorem giveBytes {serial : Nat} {data : Bytes}
    (place : system.places tid = .sending serial peer data)
    (there : system.sockets peer = some socket) (quiet : socket.listener = false) :
    Exec.Ensures (fun served => served.2.Orderly)
      (system.giveBytes tid serial peer data socket) := by
  unfold UnixSystem.giveBytes
  split
  · exact .ok orderly
  · split
    · exact .ok (orderly.touch there rfl rfl)
    · unfold UnixSocket.writeBytes
      cases socket.ring.write unixBuf data with
      | none => exact .error
      | some served =>
        refine .ok (.senders ?_ fun sender member => ?_)
        · apply orderly.touch there <;> split <;> rfl
        · rcases mem_append.mp member with old | isNew
          · exact orderly.sent peer sender old
          · -- The receiver does not listen, so it was paired with the sender.
            rw [eq_of_mem_replicate isNew]
            refine (orderly.sending tid serial peer data socket place there).resolve_left ?_
            rw [quiet]
            exact Bool.false_ne_true

theorem start (small : thread op < maxThreads) (careful : system.careful op = true) :
    Exec.Ensures Orderly (system.start op) := by
  cases op with
  | socket tid sockType =>
    rw [UnixSystem.start]
    cases free : system.allocId with
    | none => exact .ok orderly
    | some id =>
      refine .ok (orderly.goto (fun _ => small) ?_ nofun)
      rintro other (⟨kind, ⟨⟩⟩ | ⟨client, ⟨⟩⟩)
      exact allocId_lt free
  | bind tid id path =>
    rw [UnixSystem.start]
    split
    · exact .ok orderly
    · split
      · exact .ok orderly
      · exact .ok (orderly.move (fun _ => small) rfl)
  | listen tid id =>
    refine slot_ensures (.ok orderly) fun socket here => ?_
    dsimp only
    split
    · exact .ok (orderly.put here (fun _ => rfl) fun _ _ connected => .inl connected)
    · exact .ok orderly
  | connect tid id path =>
    rw [UnixSystem.start]
    cases system.findBound path with
    | none => exact .ok orderly
    | some listener => exact .ok (orderly.move (fun _ => small) rfl)
  | accept tid id =>
    exact slot_ensures (.ok orderly) fun listener here => orderly.takeClient here small
  | send tid id data =>
    refine slot_ensures (.ok orderly) fun socket here => ?_
    -- A stream sends to the socket that it refers to.
    rw [UnixSystem.careful, here, Option.all_some, decide_eq_true_eq] at careful
    dsimp only
    rw [peerOf, careful]
    dsimp only
    cases linked : socket.connected with
    | none => exact .ok orderly
    | some peer =>
      refine .ok (orderly.goto (fun _ => small) ?_ ?_)
      · rintro other (⟨kind, ⟨⟩⟩ | ⟨client, ⟨⟩⟩)
      · rintro serial other bytes there ⟨⟩ found
        exact orderly.linked id socket peer there here linked found
  | recv tid id room =>
    refine slot_ensures (.ok orderly) fun socket here => ?_
    exact .bind (orderly.takeBytes here) fun _ kept => .ok kept
  | close tid id =>
    refine slot_ensures (.ok (orderly.move (fun _ => small) rfl)) fun socket _ => ?_
    dsimp only
    cases socket.connected with
    | none | some peer => exact .ok (orderly.move (fun _ => small) rfl)
  | next tid => exact .ok orderly

theorem advance (careful : system.careful (.next tid) = true) :
    Exec.Ensures (fun served => served.2.Orderly) (system.advance tid) := by
  rw [UnixSystem.careful] at careful
  unfold UnixSystem.advance
  by_cases idle : system.places tid = .idle
  · rw [idle]
    exact .ok orderly
  have busy : tid < maxThreads := orderly.bounded tid idle
  cases place : system.places tid with
  | idle => exact absurd place idle
  | installing sockType id =>
    rw [place] at careful
    exact .ok (orderly.install (orderly.found tid id (.inl ⟨sockType, place⟩)) careful
      (by simp [place])).idle
  | binding id path =>
    exact slot_ensures (.ok orderly.idle) fun socket here =>
      .ok (Orderly.idle (orderly.touch here rfl rfl))
  | connecting id listener =>
    rw [place] at careful
    refine slot_ensures (.ok orderly.idle) fun socket here => ?_
    dsimp only at careful ⊢
    split
    · refine .ok (.move ?_ (fun _ => busy) rfl)
      refine orderly.put here (fun listens => listens) ?_
      -- The socket that is referred to now listens.
      rintro other there ⟨⟩
      refine .inr fun found => .inl ?_
      rwa [found] at careful
    · exact .ok orderly.idle
  | queueing id listener =>
    refine slot_ensures (.ok orderly.idle) fun socket here => ?_
    dsimp only
    split
    · exact .ok orderly.idle
    · exact .ok (.idle (orderly.touch here rfl rfl))
  | sending serial peer data =>
    rw [place] at careful
    refine slot_ensures (.ok orderly.idle) fun socket there => ?_
    dsimp only at careful
    rw [there] at careful
    have quiet : socket.listener = false := by simpa using careful
    exact .bind (orderly.giveBytes place there quiet) fun _ kept => .ok kept.idle
  | accepting client =>
    dsimp only
    cases free : system.allocId with
    | none => exact .ok orderly.idle
    | some conn =>
      refine .ok (orderly.goto (fun _ => busy) ?_ nofun)
      rintro other (⟨kind, ⟨⟩⟩ | ⟨client, ⟨⟩⟩)
      exact allocId_lt free
  | acceptInstalling client conn =>
    rw [place] at careful
    exact .ok (.move (orderly.install (orderly.found tid conn (.inr ⟨client, place⟩))
      careful (by simp [place])) (fun _ => busy) rfl)
  | linkingClient client conn =>
    refine slot_ensures (.ok (orderly.move (fun _ => busy) rfl)) fun socket here => ?_
    exact .ok (.move (orderly.link here) (fun _ => busy) rfl)
  | linkingConn client conn =>
    exact slot_ensures (.ok orderly.idle) fun socket here => .ok (orderly.link here).idle
  | closing id peer =>
    refine slot_ensures (.ok (orderly.move (fun _ => busy) rfl)) fun socket there => ?_
    refine .ok (.move ?_ (fun _ => busy) rfl)
    exact orderly.touch there rfl rfl
  | clearing id =>
    dsimp only
    split
    · exact .ok orderly.clear.idle
    · exact .error

theorem step (careful : system.careful op = true) (run : system.step op = .ok next) :
    next.Orderly := by
  revert next
  change Exec.Ensures Orderly (system.step op)
  unfold UnixSystem.step
  split
  · exact .bind (orderly.advance careful) fun _ kept => .ok kept
  · split
    · rename_i enabled
      exact orderly.start enabled.2 careful
    · exact .ok orderly

theorem isPrivate (careful : system.careful op = true) : system.Private op := by
  cases op with
  | recv tid id room =>
    intro here count after found run sender member
    exact orderly.sent id sender (mem_of_mem_take member)
  | next tid =>
    intro serial peer data count after place run
    rw [UnixSystem.careful, place] at careful
    revert run
    suffices sends : Exec.Ensures (fun served => served.1 ≠ 0 → (system.sockets peer).isSome = true ∧
        (serial, system.serials peer) ∈ system.pairs) (system.advance tid) from sends _
    unfold UnixSystem.advance
    rw [place]
    refine slot_ensures (.ok fun some => absurd rfl some) fun socket there _ _ _ => ?_
    dsimp only at careful
    rw [there] at careful ⊢
    refine ⟨rfl, (orderly.sending tid serial peer data socket place there).resolve_left ?_⟩
    intro listens
    rw [Option.all_some, listens] at careful
    cases careful
  | _ => trivial

end Orderly

/--
Connections are private on every run whose operations are careful.

Whatever is received came from a socket that `accept` has paired with the receiving one, and a send
succeeds only if the socket that gets the bytes is there and was paired with the sending one.
-/
theorem connections_private (ops : List UnixOp) (system : UnixSystem)
    (checked : Runs.everyStep step careful new ops = true)
    (returned : Runs.run step new ops = .ok system) (op : UnixOp)
    (allowed : system.careful op = true) : system.Private op := by
  have orderly : system.Orderly := Runs.holds_of_run Orderly
    (fun state op next orderly careful run => orderly.step careful run) orderly_new checked returned
  exact orderly.isPrivate allowed

/-- A client connects to a listener, which accepts it. -/
def connected : List UnixOp :=
  [.socket 0 .stream, .next 0, .bind 0 0 [1], .next 0, .listen 0 0, .socket 0 .stream, .next 0,
    .connect 0 1 [1], .next 0, .next 0, .accept 0 0, .next 0, .next 0, .next 0, .next 0]

/-- A client that has been accepted sends to the socket that it was paired with. -/
theorem connected_private :
    Runs.everyStep step careful new (connected ++ [.send 0 1 [7]]) = true ∧
      ∃ system, Runs.run step new (connected ++ [.send 0 1 [7]]) = .ok system ∧
        system.careful (.next 0) = true ∧ system.Private (.next 0) := by
  have checked : Runs.everyStep step careful new (connected ++ [.send 0 1 [7]]) = true := by
    decide
  refine ⟨checked, _, rfl, rfl, ?_⟩
  exact connections_private _ _ checked rfl (.next 0) rfl

/-- The socket that accepted the client is closed, and a new socket comes into its slot. -/
def reused : List UnixOp :=
  connected ++ [.close 0 2, .next 0, .next 0, .socket 0 .stream, .next 0, .send 0 1 [7]]

/-- A socket sends after its peer has closed, and a socket that it was never paired with receives. -/
theorem reused_not_private :
    ∃ system later, Runs.run step new reused = .ok system ∧ ¬ system.Private (.next 0) ∧
      system.step (.next 0) = .ok later ∧ ¬ later.Private (.recv 0 2 1) := by
  refine ⟨_, _, rfl, ?_, rfl, ?_⟩
  · intro isPrivate
    obtain ⟨-, paired⟩ := isPrivate _ _ _ _ _ rfl rfl Nat.one_ne_zero
    revert paired
    decide
  · intro isPrivate
    have paired := isPrivate _ _ _ rfl rfl 1 (by decide)
    revert paired
    decide

end UnixSystem

end TheoryKernel.Syscall
