import Meshlink.Systems

/-!
Waking the event loop for packets to send. meshlink_send queues a packet and calls
signal_trigger, which writes a byte to a pipe unless the flag of the signal says that one is on
its way. The event loop reads the byte, clears the flag and sends until the queue is empty. Any
number of threads take these steps in any order.
-/
namespace Meshlink.Wakeups

/-- A queued sender has pushed its packet; a marked one has found the flag clear and set it. -/
inductive Sender
  | outside
  | queued
  | marked
  deriving DecidableEq

/-- A woken loop has read a byte in signalio_handler; a draining one has cleared the flag. -/
inductive Loop
  | waiting
  | woken
  | draining
  deriving DecidableEq

structure State (Thread Packet : Type) where
  queue : List Packet
  flag : Bool
  pipe : ℕ
  sender : Thread → Sender
  loop : Loop

inductive Step (Thread Packet : Type)
  | push (t : Thread) (packet : Packet)
  | testAndSet (t : Thread)
  | write (t : Thread)
  | read
  | clear
  | pop

variable {Thread Packet : Type}

def start : State Thread Packet := ⟨[], false, 0, fun _ => .outside, .waiting⟩

section Steps

variable [DecidableEq Thread] (s : State Thread Packet)

def move (t : Thread) (place : Sender) : State Thread Packet :=
  {s with sender := Function.update s.sender t place}

/-- A step that is not the next one of its thread does nothing. -/
def step : Step Thread Packet → State Thread Packet
  | .push t packet =>
    if s.sender t = .outside then {move s t .queued with queue := s.queue ++ [packet]} else s
  | .testAndSet t =>
    if s.sender t ≠ .queued then s
    else if s.flag then move s t .outside
    else {move s t .marked with flag := true}
  | .write t =>
    if s.sender t = .marked then {move s t .outside with pipe := s.pipe + 1} else s
  | .read =>
    if s.loop = .waiting ∧ 0 < s.pipe then {s with pipe := s.pipe - 1, loop := .woken} else s
  | .clear => if s.loop = .woken then {s with flag := false, loop := .draining} else s
  | .pop =>
    if s.loop ≠ .draining then s
    else if s.queue = [] then {s with loop := .waiting}
    else {s with queue := s.queue.tail}

/-- Somebody will still send what is in the queue, and a set flag announces a byte. -/
structure Awaited : Prop where
  queue : s.queue = [] ∨ (∃ t, s.sender t ≠ .outside) ∨ 0 < s.pipe ∨ s.loop ≠ .waiting
  flag : s.flag = false ∨ (∃ t, s.sender t = .marked) ∨ 0 < s.pipe ∨ s.loop = .woken

variable {s} {t : Thread}

theorem marked_moved (place : Sender) (ht : s.sender t ≠ .marked)
    (h : ∃ u, s.sender u = .marked) : ∃ u, (move s t place).sender u = .marked := by
  obtain ⟨u, hu⟩ := h
  have hne : u ≠ t := fun heq => ht (heq ▸ hu)
  exact ⟨u, by simp [move, hne, hu]⟩

theorem moved (place : Sender) : (move s t place).sender t = place := by
  simp [move]

theorem awaited_push {packet : Packet} (h : Awaited s) : Awaited (step s (.push t packet)) := by
  rw [step]
  split
  case isFalse hinside => exact h
  have hother : s.sender t ≠ .marked := by simp [*]
  exact ⟨.inr (.inl ⟨t, by simp [moved]⟩),
    h.flag.imp_right (.imp_left (marked_moved .queued hother))⟩

theorem awaited_testAndSet (h : Awaited s) : Awaited (step s (.testAndSet t)) := by
  rw [step]
  split
  case isTrue hother => exact h
  case isFalse hqueued =>
    have hother : s.sender t ≠ .marked := by simp [not_not.mp hqueued]
    split
    case isFalse hclear => exact ⟨.inr (.inl ⟨t, by simp [moved]⟩), .inr (.inl ⟨t, moved .marked⟩)⟩
    case isTrue hset =>
      -- The byte that the flag announces also serves this packet.
      have hbyte := (h.flag.resolve_left (by simp [hset])).imp_left (marked_moved .outside hother)
      refine ⟨.inr ?_, .inr hbyte⟩
      refine hbyte.imp (fun ⟨u, hu⟩ => ⟨u, by simp [hu]⟩) (Or.imp_right fun hwoken => ?_)
      exact fun hwaiting => by simp_all [move]

theorem awaited_step (h : Awaited s) (ev : Step Thread Packet) : Awaited (step s ev) := by
  cases ev with
  | push t packet => exact awaited_push h
  | testAndSet t => exact awaited_testAndSet h
  | write t =>
    rw [step]
    split
    · exact ⟨.inr (.inr (.inl s.pipe.succ_pos)), .inr (.inr (.inl s.pipe.succ_pos))⟩
    · exact h
  | read =>
    rw [step]
    split
    · exact ⟨.inr (.inr (.inr Loop.noConfusion)), .inr (.inr (.inr rfl))⟩
    · exact h
  | clear =>
    rw [step]
    split
    · exact ⟨.inr (.inr (.inr Loop.noConfusion)), .inl rfl⟩
    · exact h
  | pop =>
    rw [step]
    split
    case isTrue hother => exact h
    case isFalse hdraining =>
      have hloop := not_not.mp hdraining
      split
      case isTrue hempty =>
        have hflag := h.flag
        rw [hloop] at hflag
        exact ⟨.inl hempty, by simpa using hflag⟩
      case isFalse hfull => exact ⟨.inr (.inr (.inr (by simp [hloop]))), h.flag⟩

end Steps

variable [DecidableEq Thread] (steps : List (Step Thread Packet))

def run : State Thread Packet := steps.foldl step start

theorem awaited_run : Awaited (run steps) :=
  List.foldlRecOn steps step ⟨.inl rfl, .inl rfl⟩ fun _ h ev _ => awaited_step h ev

theorem wakeup_pending (hqueue : (run steps).queue ≠ [])
    (houtside : ∀ t, (run steps).sender t = .outside) :
    0 < (run steps).pipe ∨ (run steps).loop = .woken ∨ (run steps).loop = .draining := by
  have hinside : ¬ ∃ t, (run steps).sender t ≠ .outside := fun ⟨t, ht⟩ => ht (houtside t)
  refine (((awaited_run steps).queue.resolve_left hqueue).resolve_left hinside).imp_right ?_
  intro hloop
  cases h : (run steps).loop with
  | waiting => exact absurd h hloop
  | woken => exact .inl rfl
  | draining => exact .inr rfl

def sent : List (Step Unit Unit) := [.push () (), .testAndSet (), .write ()]

theorem wakeup_pending_sent : 0 < (run sent).pipe :=
  (wakeup_pending sent (by decide) (by decide)).resolve_right (by decide)

/-- Between the read and the clearing of the flag the loop has the byte and does not drain yet. -/
theorem woken_without_byte :
    let s := run (sent ++ [.read])
    s.queue ≠ [] ∧ (∀ t, s.sender t = .outside) ∧ s.pipe = 0 ∧ s.loop ≠ .draining := by
  decide

end Meshlink.Wakeups
