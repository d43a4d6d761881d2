import TheoryKernel.Base.Exec
import TheoryKernel.Lib.Runs

/-! The rings from which the drivers of the network cards take the frames that come in. -/

namespace TheoryKernel.Net

/-- The cards whose drivers keep a ring of receive descriptors. -/
inductive Card where
  | e1000
  | rtl8169

/-- The receive side: the frames in the descriptors, where the card and the driver are, the queue. -/
structure Receiver (α : Type) where
  descs : Nat → Option α
  head : Nat
  index : Nat
  rxQueue : List α

/-- A frame comes in, or the driver is polled. -/
inductive RxEvent (α : Type) where
  | arrive (frame : α)
  | poll

/-- The receive side with the frames that came in so far and those that were returned. -/
structure RxHistory (α : Type) where
  receiver : Receiver α
  arrived : List α
  returned : List α

namespace Card

variable {α : Type} (card : Card)

/-- The number of receive descriptors. -/
def ringLen : Nat :=
  match card with
  | .e1000 => 16
  | .rtl8169 => 32

/-- The descriptor that the driver looks at, which is the one behind the tail of an e1000. -/
def next (index : Nat) : Nat :=
  match card with
  | .e1000 => (index + 1) % card.ringLen
  | .rtl8169 => index

/-- The receive side of a card that was set up. -/
def init : Receiver α :=
  match card with
  | .e1000 => ⟨fun _ => none, 0, 15, []⟩
  | .rtl8169 => ⟨fun _ => none, 0, 0, []⟩

/-- Whether the card has no descriptor that it may fill. -/
def isFull (receiver : Receiver α) : Bool :=
  match card with
  | .e1000 => receiver.head == receiver.index
  | .rtl8169 => (receiver.descs receiver.head).isSome

/-- The card fills its next descriptor with a frame, or loses the frame. -/
def fill (receiver : Receiver α) (frame : α) : Receiver α :=
  if card.isFull receiver then receiver
  else
    { receiver with
      descs := Function.update receiver.descs receiver.head (some frame)
      head := (receiver.head + 1) % card.ringLen }

/-- The frames go from the filled descriptors to the queue; each round empties one descriptor. -/
def pollRxInternal : Nat → Receiver α → Receiver α
  | 0, receiver => receiver
  | rounds + 1, receiver =>
    match receiver.descs (card.next receiver.index) with
    | none => receiver
    | some frame =>
      pollRxInternal rounds
        { receiver with
          descs := Function.update receiver.descs (card.next receiver.index) none
          index := (receiver.index + 1) % card.ringLen
          rxQueue := receiver.rxQueue ++ [frame] }

/-- One poll, which returns the frame at the end of the queue. -/
def pollRx (receiver : Receiver α) : Option α × Receiver α :=
  let polled := card.pollRxInternal card.ringLen receiver
  (polled.rxQueue.getLast?, { polled with rxQueue := polled.rxQueue.dropLast })

/-- One event, which is recorded. -/
def step (history : RxHistory α) : RxEvent α → Exec (RxHistory α)
  | .arrive frame =>
    .ok ⟨card.fill history.receiver frame, history.arrived ++ [frame], history.returned⟩
  | .poll =>
    let (found, receiver) := card.pollRx history.receiver
    .ok ⟨receiver, history.arrived, history.returned ++ found.toList⟩

/-- Whether a frame comes in only when all frames before it were returned. -/
def isPaced (history : RxHistory α) : RxEvent α → Bool
  | .arrive _ => history.returned.length == history.arrived.length
  | .poll => true

/-- The receive side while at most one frame waits. -/
def waiting (index : Nat) (frame : Option α) : Receiver α where
  descs := Function.update (fun _ => none) (card.next index) frame
  head := (card.next index + frame.toList.length) % card.ringLen
  index := index
  rxQueue := []

theorem fill_waiting {index : Nat} (inside : index < card.ringLen) (frame : α) :
    card.fill (card.waiting index none) frame = card.waiting index (some frame) := by
  cases card with
  | e1000 =>
    have apart : (index + 1) % 16 ≠ index := by simp only [ringLen] at inside; omega
    simp [fill, isFull, waiting, next, ringLen, apart]
  | rtl8169 => simp [fill, isFull, waiting, next, Nat.mod_eq_of_lt inside]

theorem pollRx_none (index : Nat) :
    card.pollRx (card.waiting index (none : Option α)) = (none, card.waiting index none) := by
  cases card <;> simp [pollRx, ringLen, pollRxInternal, waiting]

theorem pollRx_some (index : Nat) (frame : α) :
    card.pollRx (card.waiting index (some frame)) =
      (some frame, card.waiting ((index + 1) % card.ringLen) none) := by
  cases card <;> simp [pollRx, ringLen, pollRxInternal, waiting, next]

/-- What lasts while frames come in one at a time: all but at most one were returned. -/
def Paced (history : RxHistory α) : Prop :=
  ∃ index frame, index < card.ringLen ∧ history.receiver = card.waiting index frame ∧
    history.arrived = history.returned ++ frame.toList

theorem Paced.step {history : RxHistory α} {event : RxEvent α} (paced : card.Paced history)
    (allowed : isPaced history event = true) :
    ∃ next, card.step history event = .ok next ∧ card.Paced next := by
  obtain ⟨index, frame, inside, receiver, arrived⟩ := paced
  cases event with
  | arrive new =>
    -- Nothing waits, so that the new frame is the only one.
    obtain rfl : frame = none := by simpa [isPaced, arrived] using allowed
    refine ⟨_, rfl, index, some new, inside, ?_, by simp [arrived]⟩
    rw [receiver, card.fill_waiting inside]
  | poll =>
    rw [Card.step, receiver]
    cases frame with
    | none =>
      rw [pollRx_none]
      exact ⟨_, rfl, index, none, inside, rfl, by simp [arrived]⟩
    | some frame =>
      rw [pollRx_some]
      refine ⟨_, rfl, (index + 1) % card.ringLen, none, Nat.mod_lt _ ?_, rfl, by simp [arrived]⟩
      cases card <;> decide

/-- If frames come in one at a time, then every poll returns the first one not yet returned. -/
theorem pollRx_in_order (events : List (RxEvent α))
    (paced : Runs.everyStep card.step isPaced ⟨card.init, [], []⟩ events = true) :
    ∃ final, Runs.run card.step ⟨card.init, [], []⟩ events = .ok final ∧
      final.returned <+: final.arrived ∧
      (card.pollRx final.receiver).1 = final.arrived[final.returned.length]? := by
  have start : card.Paced (⟨card.init, [], []⟩ : RxHistory α) := by
    cases card with
    | e1000 => exact ⟨15, none, by decide, by simp [init, waiting, next, ringLen], rfl⟩
    | rtl8169 => exact ⟨0, none, by decide, by simp [init, waiting, next, ringLen], rfl⟩
  obtain ⟨final, run, index, frame, -, receiver, arrived⟩ :=
    Runs.run_returns card.Paced (fun _ _ => Paced.step card) start paced
  refine ⟨final, run, ⟨_, arrived.symm⟩, ?_⟩
  rw [receiver, arrived]
  cases frame with
  | none => simp [pollRx_none]
  | some frame => simp [pollRx_some]

/-- Frames that come in one at a time are returned, also when a poll comes too early. -/
theorem paced_frames_in_order :
    ∃ final, Runs.run (step .e1000) ⟨init .e1000, [], []⟩ [.poll, .arrive 1, .poll, .arrive 2] =
      .ok final ∧ final.returned <+: final.arrived ∧
      (pollRx .e1000 final.receiver).1 = final.arrived[final.returned.length]? :=
  pollRx_in_order .e1000 _ (by decide)

/-- Of two frames between two polls, the later one is returned first. -/
theorem burst_out_of_order :
    (∃ final, Runs.run (step .e1000) ⟨init .e1000, [], []⟩ [.arrive 1, .arrive 2, .poll] =
      .ok final ∧ final.arrived = [1, 2] ∧ final.returned = [2]) ∧
    ∃ final, Runs.run (step .rtl8169) ⟨init .rtl8169, [], []⟩ [.arrive 1, .arrive 2, .poll] =
      .ok final ∧ final.arrived = [1, 2] ∧ final.returned = [2] :=
  ⟨Runs.exists_of_passes (by decide), Runs.exists_of_passes (by decide)⟩

end Card

end TheoryKernel.Net
