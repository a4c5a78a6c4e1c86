import Meshlink.ChannelLoops
import Meshlink.Histories
import Meshlink.Systems

/-!
What becomes of data that arrives on a channel. It goes to the buffers in the order of
their registration, and what is left when all of them are filled is for the receive
callback, or is ignored when there is none. At the end of the stream all buffers are
handed back. Completion callbacks may hand in further buffers, or close the channel.
-/
namespace Meshlink.ChannelReceives

open List Channels ChannelLoops Histories Systems Machine

section Intake

def deliveredOf : Received → Bytes
  | .delivered data => data
  | _ => []

/-- What was stored in buffers, given to the receive callback or ignored. -/
def takenOf : Received → Bytes
  | .stored _ data => data
  | .given data => data
  | .ignored data => data
  | _ => []

/-- What was stored in buffers or given to the receive callback. -/
def heldOf : Received → Bytes
  | .stored _ data => data
  | .given data => data
  | _ => []

def storedOf (id : ℕ) : Received → Bytes
  | .stored id' data => if id' = id then data else []
  | _ => []

def registeredOf : Received → Option ℕ
  | .registered id _ _ => some id
  | _ => none

def finishedOf : Received → Option ℕ
  | .completed id _ _ _ => some id
  | _ => none

/-- The end of the stream arrives. -/
def isEnd : Received → Bool
  | .delivered data => data.isEmpty
  | _ => false

/-- The end of the stream is reported, or would be if there were a receive callback. -/
def isReport : Received → Bool
  | .given data => data.isEmpty
  | .ignored data => data.isEmpty
  | _ => false

/-- Data is stored in the first buffer that is not completed. A buffer in memory is
completed when it is full, or when the end of the stream has arrived and is not reported
yet. Data is given to the receive callback or ignored, and the end of the stream is
reported, only when all buffers are completed. -/
def Turn (before : List Received) : Received → Prop
  | .stored id _ => id = (before.filterMap finishedOf).length
  | .completed id done data _ => data = none ∨ before.countP isReport < before.countP isEnd ∨
    ∃ cb, .registered id done cb ∈ before
  | .given _ => before.filterMap finishedOf = before.filterMap registeredOf
  | .ignored _ => before.filterMap finishedOf = before.filterMap registeredOf
  | _ => True

/-- A buffer has got the bytes that were stored in it. -/
structure Filled (received : List Received) (id done : ℕ) (data : Option Bytes) (cb : Bool) :
    Prop where
  amount : done = (received.flatMap (storedOf id)).length
  contents : ∀ bytes, data = some bytes → bytes = received.flatMap (storedOf id)
  announced : ∃ len, .registered id len cb ∈ received ∧ done ≤ len

/-- The records of an open channel, with the rest of a delivery in progress and the
number of times that the end of the stream is still to be reported. -/
structure Intake (received : List Received) (queue : List Aio) (next : ℕ) (rest : Bytes)
    (ends : ℕ) : Prop where
  bytes : received.flatMap takenOf ++ rest = received.flatMap deliveredOf
  order : received.filterMap finishedOf ++ queue.map Aio.id = List.range next
  registered : received.filterMap registeredOf = List.range next
  waiting : ∀ aio ∈ queue, Filled received aio.id aio.done aio.data aio.cb ∧
    .registered aio.id aio.len aio.cb ∈ received ∧ aio.done ≤ aio.len
  reported : ∀ id done data called, .completed id done data called ∈ received →
    Filled received id done data called
  known : ∀ id data, .stored id data ∈ received → id < next
  turns : Always Turn received
  ended : received.countP isEnd = received.countP isReport + ends

variable {received : List Received} {queue : List Aio} {aio : Aio} {next ends : ℕ} {rest : Bytes}

theorem intake_nil : Intake [] [] 0 [] 0 := by
  refine ⟨rfl, rfl, rfl, ?_, ?_, ?_, Always.nil _, rfl⟩
  · exact fun aio h => absurd h not_mem_nil
  · exact fun id done data called h => absurd h not_mem_nil
  · exact fun id data h => absurd h not_mem_nil

theorem Filled.grow {x : Received} {id done : ℕ} {data : Option Bytes} {cb : Bool}
    (h : Filled received id done data cb) (hx : storedOf id x = []) :
    Filled (received ++ [x]) id done data cb := by
  obtain ⟨len, hreg, hle⟩ := h.announced
  refine ⟨?_, ?_, len, mem_append_left _ hreg, hle⟩
  · rw [flatMap_concat, hx, append_nil]
    exact h.amount
  · rw [flatMap_concat, hx, append_nil]
    exact h.contents

/-- An entry that is no completion, registration or storing concerns no buffer. -/
theorem Intake.note {x : Received} {rest' : Bytes} {ends' : ℕ}
    (h : Intake received queue next rest ends) (hfinished : finishedOf x = none)
    (hregistered : registeredOf x = none) (hstored : ∀ id, storedOf id x = [])
    (hnot : ∀ id data, x ≠ .stored id data)
    (hbytes : received.flatMap takenOf ++ takenOf x ++ rest' =
      received.flatMap deliveredOf ++ deliveredOf x)
    (hturn : Turn received x)
    (hends : received.countP isEnd + [x].countP isEnd =
      received.countP isReport + [x].countP isReport + ends') :
    Intake (received ++ [x]) queue next rest' ends' := by
  refine ⟨?_, ?_, ?_, ?_, ?_, ?_, ?_, ?_⟩
  · rw [flatMap_concat, flatMap_concat]
    exact hbytes
  · rw [filterMap_concat_none hfinished]
    exact h.order
  · rw [filterMap_concat_none hregistered]
    exact h.registered
  · intro aio haio
    obtain ⟨hfilled, hreg, hle⟩ := h.waiting aio haio
    exact ⟨hfilled.grow (hstored aio.id), mem_append_left _ hreg, hle⟩
  · intro id done data called hmem
    rcases mem_append.mp hmem with hold | hnew
    · exact (h.reported id done data called hold).grow (hstored id)
    · rw [← mem_singleton.mp hnew] at hfinished
      cases hfinished
  · intro id data hmem
    rcases mem_append.mp hmem with hold | hnew
    · exact h.known id data hold
    · exact absurd (mem_singleton.mp hnew).symm (hnot id data)
  · exact (always_concat _ _ _).mpr ⟨h.turns, hturn⟩
  · rw [countP_append, countP_append]
    exact hends

theorem Intake.deliver (h : Intake received queue next rest ends) (data : Bytes) :
    Intake (received ++ [.delivered data]) queue next (rest ++ data)
      (ends + [Received.delivered data].countP isEnd) := by
  refine h.note rfl rfl (fun _ => rfl) (fun _ _ => nofun) ?_ trivial ?_
  · rw [← h.bytes]
    simp [takenOf, deliveredOf]
  · have hended := h.ended
    have hnone : [Received.delivered data].countP isReport = 0 := rfl
    omega

/-- All buffers are completed when the queue is empty. -/
theorem Intake.all_finished (h : Intake received [] next rest ends) :
    received.filterMap finishedOf = received.filterMap registeredOf := by
  have horder := h.order
  rw [map_nil, append_nil] at horder
  rw [horder, h.registered]

/-- What no buffer takes, or the end of the stream, is given to the receive callback or
ignored. -/
theorem Intake.give {x : Received} {data : Bytes}
    (h : Intake received [] next (data ++ rest) ([Received.given data].countP isReport + ends))
    (hx : x = .given data ∨ x = .ignored data) : Intake (received ++ [x]) [] next rest ends := by
  have hended := h.ended
  rcases hx with rfl | rfl
  all_goals
    refine h.note rfl rfl (fun _ => rfl) (fun _ _ => nofun) ?_ h.all_finished ?_
    · rw [← h.bytes]
      simp [takenOf, deliveredOf]
    have hsame : [Received.ignored data].countP isReport = [.given data].countP isReport := rfl
    have hnone : [Received.given data].countP isEnd = 0 := rfl
    have hnone' : [Received.ignored data].countP isEnd = 0 := rfl
    omega

theorem storedOf_next (h : Intake received queue next rest ends) :
    received.flatMap (storedOf next) = [] := by
  rw [flatMap_eq_nil_iff]
  intro x hx
  cases x with
  | stored id data =>
    have hid : id ≠ next := (h.known id data hx).ne
    simp only [storedOf, if_neg hid]
  | _ => rfl

theorem Intake.register (h : Intake received queue next rest ends) (data : Option Bytes)
    (hdata : ∀ bytes, data = some bytes → bytes = []) (len : ℕ) (cb : Bool) :
    Intake (received ++ [.registered next len cb]) (queue ++ [⟨next, data, len, 0, cb⟩])
      (next + 1) rest ends := by
  have hnew : (received ++ [Received.registered next len cb]).flatMap (storedOf next) = [] := by
    rw [flatMap_concat, storedOf_next h]
    rfl
  refine ⟨?_, ?_, ?_, ?_, ?_, ?_, (always_concat _ _ _).mpr ⟨h.turns, trivial⟩, ?_⟩
  · rw [flatMap_concat, flatMap_concat]
    simpa [takenOf, deliveredOf] using h.bytes
  · rw [filterMap_concat_none rfl, map_append, range_succ, ← h.order, append_assoc]
    rfl
  · rw [filterMap_concat_some (f := registeredOf) rfl, h.registered, range_succ]
  · intro aio haio
    rcases mem_append.mp haio with hold | hlast
    · obtain ⟨hfilled, hreg, hle⟩ := h.waiting aio hold
      exact ⟨hfilled.grow rfl, mem_append_left _ hreg, hle⟩
    rw [mem_singleton.mp hlast]
    have hreg : Received.registered next len cb ∈ received ++ [.registered next len cb] :=
      mem_append_right _ (mem_singleton_self _)
    refine ⟨⟨?_, fun bytes hbytes => ?_, len, hreg, Nat.zero_le len⟩, hreg, Nat.zero_le len⟩
    · rw [hnew]
      rfl
    · rw [hnew]
      exact hdata bytes hbytes
  · intro id done data called hmem
    have hold : .completed id done data called ∈ received := by simpa using hmem
    exact (h.reported id done data called hold).grow rfl
  · intro id data hmem
    have hold : .stored id data ∈ received := by simpa using hmem
    exact Nat.lt_succ_of_lt (h.known id data hold)
  · rw [countP_append, countP_append]
    exact h.ended

/-- The first buffer is handed back. -/
theorem Intake.complete (h : Intake received (aio :: queue) next rest ends)
    (hdue : aio.data = none ∨ 0 < ends ∨ aio.done = aio.len) :
    Intake (received ++ [.completed aio.id aio.done aio.data aio.cb]) queue next rest ends := by
  obtain ⟨hfilled, hreg, -⟩ := h.waiting aio mem_cons_self
  have hturn : Turn received (.completed aio.id aio.done aio.data aio.cb) := by
    have hended := h.ended
    rcases hdue with hfile | hends | hfull
    · exact Or.inl hfile
    · exact Or.inr (Or.inl (by omega))
    · rw [← hfull] at hreg
      exact Or.inr (Or.inr ⟨aio.cb, hreg⟩)
  refine ⟨?_, ?_, ?_, ?_, ?_, ?_, (always_concat _ _ _).mpr ⟨h.turns, hturn⟩, ?_⟩
  · rw [flatMap_concat, flatMap_concat]
    simpa [takenOf, deliveredOf] using h.bytes
  · have horder := h.order
    rw [map_cons] at horder
    rw [← horder, filterMap_concat_some (f := finishedOf) rfl, append_assoc]
    rfl
  · rw [filterMap_concat_none rfl]
    exact h.registered
  · intro other hmem
    obtain ⟨hother, hreg, hle⟩ := h.waiting other (mem_cons_of_mem _ hmem)
    exact ⟨hother.grow rfl, mem_append_left _ hreg, hle⟩
  · intro id done data called hmem
    rcases mem_append.mp hmem with hold | hnew
    · exact (h.reported id done data called hold).grow rfl
    have hx := mem_singleton.mp hnew
    injection hx with hid hdone hdata hcalled
    rw [hid, hdone, hdata, hcalled]
    exact hfilled.grow rfl
  · intro id data hmem
    have hold : .stored id data ∈ received := by simpa using hmem
    exact h.known id data hold
  · rw [countP_append, countP_append]
    exact h.ended

/-- Some bytes are stored in the first buffer. -/
theorem Intake.store {data : Bytes} {n : ℕ} (h : Intake received (aio :: queue) next
    (data ++ rest) ends) (hn : n ≤ data.length) (hfits : aio.done + n ≤ aio.len) :
    Intake (received ++ [.stored aio.id (data.take n)])
      ({aio with
        done := aio.done + n
        data := aio.data.map fun old => old ++ data.take n} :: queue)
      next (data.drop n ++ rest) ends := by
  obtain ⟨hturn, hlt, hfinished, hwaiting⟩ := first_waiting h.order
  have hother : ∀ other ∈ queue, other.id ≠ aio.id := fun other hmem heq =>
    hwaiting (heq ▸ mem_map_of_mem hmem)
  have hdone : ∀ id done d called, .completed id done d called ∈ received → id ≠ aio.id :=
    fun id done d called hmem heq => hfinished (heq ▸ mem_filterMap.mpr ⟨_, hmem, rfl⟩)
  obtain ⟨hfilled, hreg, -⟩ := h.waiting aio mem_cons_self
  have hnew : (received ++ [Received.stored aio.id (data.take n)]).flatMap (storedOf aio.id) =
      received.flatMap (storedOf aio.id) ++ data.take n := by
    rw [flatMap_concat, storedOf, if_pos rfl]
  refine ⟨?_, ?_, ?_, ?_, ?_, ?_, (always_concat _ _ _).mpr ⟨h.turns, hturn⟩, ?_⟩
  · rw [flatMap_concat, flatMap_concat, ← h.bytes]
    simp only [takenOf, deliveredOf, append_nil, append_assoc]
    rw [← append_assoc (data.take n), take_append_drop]
  · rw [filterMap_concat_none rfl]
    exact h.order
  · rw [filterMap_concat_none rfl]
    exact h.registered
  · intro other hmem
    rcases mem_cons.mp hmem with rfl | hmem
    · have hreg' := mem_append_left [Received.stored aio.id (data.take n)] hreg
      refine ⟨⟨?_, ?_, aio.len, hreg', hfits⟩, hreg', hfits⟩
      · show aio.done + n = _
        rw [hnew, length_append, ← hfilled.amount, length_take, Nat.min_eq_left hn]
      · intro bytes hbytes
        obtain ⟨old, hold, rfl⟩ := Option.map_eq_some_iff.mp hbytes
        rw [hnew, hfilled.contents old hold]
    · obtain ⟨hother', hreg', hle⟩ := h.waiting other (mem_cons_of_mem _ hmem)
      exact ⟨hother'.grow (if_neg (hother other hmem).symm), mem_append_left _ hreg', hle⟩
  · intro id done d called hmem
    have hold : .completed id done d called ∈ received := by simpa using hmem
    exact (h.reported id done d called hold).grow (if_neg (hdone id done d called hold).symm)
  · intro id d hmem
    rcases mem_append.mp hmem with hold | hlast
    · exact h.known id d hold
    have hx := mem_singleton.mp hlast
    injection hx with hid
    rw [hid]
    exact hlt
  · rw [countP_append, countP_append]
    exact h.ended

end Intake

section Machine

/-- The part of a delivery that is left while callbacks or file operations run. -/
def unread : List Frame → Bytes
  | [] => []
  | .callback (.recv data) :: stack => data ++ unread stack
  | .writing data :: stack => data ++ unread stack
  | _ :: stack => unread stack

/-- How often the end of the stream is still to be reported. -/
def unreported : List Frame → ℕ
  | [] => 0
  | .callback .recvAbort :: stack => unreported stack + 1
  | _ :: stack => unreported stack

/-- What remains true of the records when a channel has been closed. -/
structure Dropped (received : List Received) (next : ℕ) : Prop where
  bytes : received.flatMap takenOf <+: received.flatMap deliveredOf
  order : received.filterMap finishedOf <+: List.range next
  registered : received.filterMap registeredOf = List.range next
  reported : ∀ id done data called, .completed id done data called ∈ received →
    Filled received id done data called
  turns : Always Turn received

/-- The records of an open channel, during and between deliveries. -/
def Taking (m : Machine) : Prop :=
  Intake m.received m.chan.aioReceive m.nextReceive (unread m.stack) (unreported m.stack)

def Recorded (m : Machine) : Prop := (m.chan.c = true → Taking m) ∧ Dropped m.received m.nextReceive

theorem Intake.dropped {received : List Received} {queue : List Aio} {next ends : ℕ}
    {rest : Bytes} (h : Intake received queue next rest ends) : Dropped received next :=
  ⟨⟨rest, h.bytes⟩, ⟨queue.map Aio.id, h.order⟩, h.registered, h.reported, h.turns⟩

theorem Dropped.register {received : List Received} {next : ℕ} (h : Dropped received next)
    (len : ℕ) (cb : Bool) : Dropped (received ++ [.registered next len cb]) (next + 1) := by
  refine ⟨?_, ?_, ?_, ?_, (always_concat _ _ _).mpr ⟨h.turns, trivial⟩⟩
  · rw [flatMap_concat, flatMap_concat]
    simpa [takenOf, deliveredOf] using h.bytes
  · rw [filterMap_concat_none rfl, range_succ]
    exact h.order.trans (prefix_append _ _)
  · rw [filterMap_concat_some (f := registeredOf) rfl, h.registered, range_succ]
  · intro id done data called hmem
    have hold : .completed id done data called ∈ received := by simpa using hmem
    exact (h.reported id done data called hold).grow rfl

variable {m : Machine} {data : Bytes} {ends n : ℕ} {aio : Aio} {queue rest : List Aio}
  {stack : List Frame} {x : Received}

theorem Taking.recorded (h : Taking m) : Recorded m := ⟨fun _ => h, h.dropped⟩

theorem Recorded.pass (hm : Recorded m) : Recorded m.pass := by
  unfold Machine.pass
  split <;> exact hm

theorem sendKept_recorded : SendKept Recorded where
  queue := fun _ _ hm => hm
  note := fun _ _ hm => hm
  link := fun _ _ hm => hm
  pass := fun _ hm => hm.pass
  poll := fun _ _ _ hm => hm
  abort := fun _ _ hm => hm
  pollCb := fun _ _ hm => hm
  reading := fun _ _ hm => hm

/-- The state of the loop: some data is left for the queue. -/
structure Looping (m : Machine) (data : Bytes) (ends : ℕ) (queue : List Aio) : Prop where
  connected : m.chan.c = true
  waiting : m.chan.aioReceive = queue
  records : Intake m.received queue m.nextReceive (data ++ unread m.stack)
    (ends + unreported m.stack)

theorem pass_of_connected (hc : m.chan.c = true) : m.pass = m.leave := if_pos hc

theorem Looping.recvRest (h : Looping m data ([Received.given data].countP isReport) []) :
    Taking (recvRest m data) := by
  unfold Channels.recvRest Taking
  split
  · show Intake _ m.chan.aioReceive _ _ _
    rw [h.waiting]
    exact h.records.give (Or.inl rfl)
  · show Intake _ m.chan.aioReceive _ _ _
    rw [h.waiting]
    exact h.records.give (Or.inr rfl)

/-- A completed buffer leaves the queue. -/
theorem Looping.pop (h : Looping m data ends (aio :: rest))
    (hdue : aio.data = none ∨ 0 < ends ∨ aio.done = aio.len) :
    Looping ((m.withReceive rest).noteReceived
      (.completed aio.id aio.done aio.data (m.chan.c && aio.cb))) data ends rest := by
  refine ⟨h.connected, rfl, ?_⟩
  rw [h.connected]
  exact h.records.complete (hdue.imp_right (Or.imp_left fun hends => Nat.lt_add_right _ hends))

theorem Looping.pass (h : Looping m data ends queue) : Looping m.pass data ends queue := by
  rw [pass_of_connected h.connected]
  exact ⟨h.connected, h.waiting, h.records⟩

theorem Looping.taking (h : Looping m [] 0 queue) : Taking m := by
  have hrecords := h.records
  rw [Nat.zero_add, nil_append, ← h.waiting] at hrecords
  exact hrecords

theorem Looping.abortReceives (h : Looping m [] 1 queue) : Taking (abortReceives m queue) := by
  induction queue generalizing m with
  | nil =>
    have hempty : Looping (m.withReceive []) [] 1 [] := ⟨h.connected, rfl, h.records⟩
    exact hempty.recvRest
  | cons aio rest ih =>
    have hpop := h.pop (Or.inr (Or.inl Nat.one_pos))
    unfold Channels.abortReceives
    dsimp only
    split
    · have hrecords := hpop.records
      rw [Nat.add_comm, nil_append] at hrecords
      exact hrecords
    · exact ih hpop.pass

/-- The loop stops with all data accounted for, or goes on with some left. -/
def Continues (next : Machine × Option Bytes) (queue : List Aio) : Prop :=
  match next with
  | (m, none) => Taking m
  | (m, some data) => data ≠ [] ∧ Looping m data 0 queue

theorem Looping.finishReceive (h : Looping m data 0 (aio :: rest))
    (hdue : aio.data = none ∨ aio.done = aio.len) :
    Continues (finishReceive m aio rest data) rest := by
  have hpop := h.pop (hdue.imp_right Or.inr)
  unfold Channels.finishReceive
  dsimp only
  split
  · have hrecords := hpop.records
    rw [Nat.zero_add] at hrecords
    exact hrecords
  split
  · next hdata =>
    rw [hdata] at hpop
    exact hpop.pass.taking
  · next hdata => exact ⟨hdata, hpop.pass⟩

/-- Some bytes go to the first buffer. -/
theorem Looping.takeIn (h : Looping m data 0 (aio :: rest)) (hn : n ≤ data.length)
    (hfits : aio.done + n ≤ aio.len) : Continues (takeIn m aio rest data n) rest := by
  have hstored : Looping ((m.noteReceived (.stored aio.id (data.take n))).withReceive
      ({aio with
        done := aio.done + n
        data := aio.data.map fun old => old ++ data.take n} :: rest)) (data.drop n) 0
      ({aio with
        done := aio.done + n
        data := aio.data.map fun old => old ++ data.take n} :: rest) :=
    ⟨h.connected, rfl, h.records.store hn hfits⟩
  unfold Channels.takeIn
  dsimp only
  split
  · next hfull => exact hstored.finishReceive (Or.inr hfull)
  split
  · next hdata =>
    rw [hdata] at hstored
    exact hstored.taking
  · have hrecords := hstored.records
    rw [Nat.zero_add] at hrecords
    exact hrecords

theorem Continues.goOn {next : Machine × Option Bytes} {loop : Machine → Bytes → Machine}
    (hnext : Continues next queue)
    (hloop : ∀ m data, data ≠ [] → Looping m data 0 queue → Taking (loop m data)) :
    Taking (goOn next loop) := by
  obtain ⟨m, left⟩ := next
  cases left with
  | none => exact hnext
  | some data => exact hloop m data hnext.1 hnext.2

theorem Looping.recvLoop (h : Looping m data 0 queue) (hdata : data ≠ []) :
    Taking (recvLoop m data queue) := by
  induction queue generalizing m data with
  | nil =>
    have hempty : Looping (m.withReceive []) data 0 [] := ⟨h.connected, rfl, h.records⟩
    have hzero : [Received.given data].countP isReport = 0 := by simp [isReport, hdata]
    rw [← hzero] at hempty
    exact hempty.recvRest
  | cons aio rest ih =>
    unfold Channels.recvLoop
    split
    · have hrecords := h.records
      rw [Nat.zero_add] at hrecords
      exact hrecords
    · have hle := (h.records.waiting aio mem_cons_self).2.2
      refine (h.takeIn (Nat.min_le_right _ _) ?_).goOn fun m data hdata hloop => ih hloop hdata
      omega

theorem Looping.resumeRecv (h : Looping m data 0 m.chan.aioReceive) :
    Taking (resumeRecv m data) := by
  unfold Channels.resumeRecv
  split
  · next hdata =>
    rw [hdata] at h
    exact h.taking
  · next hdata => exact h.recvLoop hdata

theorem Taking.writeDone (hm : Taking m) (hc : m.chan.c = true)
    (hstack : m.stack = .writing data :: stack) :
    Taking (writeDone {m with stack := stack} data n) := by
  have hloop : Looping {m with stack := stack} data 0 m.chan.aioReceive := by
    refine ⟨hc, rfl, ?_⟩
    rw [Nat.zero_add]
    unfold Taking at hm
    rw [hstack] at hm
    exact hm
  unfold Channels.writeDone
  dsimp only
  split
  · exact hloop.resumeRecv
  next aio rest hqueue =>
  rw [hqueue] at hloop
  have hle := (hloop.records.waiting aio mem_cons_self).2.2
  have hnext : Continues (if min n (min (aio.len - aio.done) data.length) = 0 ∧ aio.data = none then
      finishReceive {m with stack := stack} aio rest data
      else takeIn {m with stack := stack} aio rest data
        (min n (min (aio.len - aio.done) data.length))) rest := by
    split
    · next herror => exact hloop.finishReceive (Or.inl herror.2)
    · exact hloop.takeIn (by omega) (by omega)
  exact hnext.goOn fun m data hdata hloop => hloop.recvLoop hdata

theorem Taking.channelRecv (hm : Taking m) (hc : m.chan.c = true) (hstack : m.stack = [])
    (data : Bytes) : Taking (channelRecv m data) := by
  have hnoted := hm.deliver data
  rw [hstack] at hnoted
  unfold Channels.channelRecv
  dsimp only
  split
  · next hdata =>
    subst hdata
    refine Looping.abortReceives ⟨hc, rfl, ?_⟩
    show Intake _ _ _ ([] ++ unread m.stack) (1 + unreported m.stack)
    rw [hstack]
    exact hnoted
  · next hdata =>
    refine Looping.recvLoop ⟨hc, rfl, ?_⟩ hdata
    show Intake _ _ _ (data ++ unread m.stack) (0 + unreported m.stack)
    rw [hstack, show data ++ unread [] = [] ++ data from append_nil data]
    have hnone : [Received.delivered data].countP isEnd = 0 := by
      simp [isEnd, hdata]
    rw [hnone] at hnoted
    exact hnoted

/-- A callback returns; an open channel goes on with what was left. -/
theorem Recorded.callbackDone {after : After} (hm : Recorded m)
    (hstack : m.stack = .callback after :: stack) :
    Recorded (callbackDone {m with stack := stack} after) := by
  unfold Channels.callbackDone
  split
  · next hc =>
    have htaking := hm.1 hc
    unfold Taking at htaking
    rw [hstack] at htaking
    cases after with
    | poll len =>
      have hback : Recorded (regain {m with stack := stack}) := Taking.recorded htaking
      exact sendKept_recorded.resumePoll len hback
    | pollAbort =>
      have hback : Recorded (regain {m with stack := stack}) := Taking.recorded htaking
      exact sendKept_recorded.abortSends _ hback
    | recv data =>
      have hloop : Looping (regain {m with stack := stack}) data 0 m.chan.aioReceive :=
        ⟨hc, rfl, by rw [Nat.zero_add]; exact htaking⟩
      exact hloop.resumeRecv.recorded
    | recvAbort =>
      have hloop : Looping (regain {m with stack := stack}) [] 1 m.chan.aioReceive :=
        ⟨hc, rfl, by rw [Nat.add_comm]; exact htaking⟩
      exact hloop.abortReceives.recorded
  · next hc => exact ⟨fun hopen => absurd hopen hc, hm.2⟩

theorem Recorded.enqueueReceive {data : Option Bytes} {len : ℕ} {cb : Bool} (hm : Recorded m)
    (hdata : ∀ bytes, data = some bytes → bytes = []) :
    Recorded (enqueueReceive m data len cb) :=
  enqueueReceive_kept hm ⟨fun hc => (hm.1 hc).register data hdata len cb, hm.2.register len cb⟩

theorem Recorded.channelClose (hm : Recorded m) : Recorded (channelClose m) := by
  refine ⟨fun hc => ?_, hm.2⟩
  exact absurd ((channelClose_c m).symm.trans hc) (by decide)

theorem Recorded.runCall (hm : Recorded m) (x : Call) : Recorded (runCall m x) := by
  have hqueue : ∀ data len cb, Recorded (enqueueSend m data len cb) := fun _ _ _ => hm
  cases x with
  | aioSend data cb => exact sendKept_recorded.channelAioSend hqueue data cb hm
  | aioFdSend len cb => exact sendKept_recorded.channelAioFdSend hqueue len cb hm
  | send data => exact sendKept_recorded.channelSend data hm
  | aioReceive len cb => exact hm.enqueueReceive fun bytes h => (Option.some.inj h).symm
  | aioFdReceive len cb => exact hm.enqueueReceive fun bytes h => nomatch h
  | setPollCb | setReceiveCb => exact hm
  | close | abort => exact hm.channelClose

theorem Recorded.pop {frame : Frame} (hm : Recorded m) (hstack : m.stack = frame :: stack)
    (hunread : unread (frame :: stack) = unread stack)
    (hunreported : unreported (frame :: stack) = unreported stack) :
    Recorded {m with stack := stack} := by
  unfold Recorded Taking at hm
  rw [hstack, hunread, hunreported] at hm
  exact hm

theorem Recorded.step (hm : Recorded m) (ev : Event) : Recorded (step m ev) := by
  refine Moves.step ?_ hm
  exact {
    call := fun x _ _ => hm.runCall x
    back := fun after stack hstack => hm.callbackDone hstack
    pop := fun frame stack hstack hends =>
      hm.pop hstack (hends.kept (fun _ => rfl) fun _ => rfl)
        (hends.kept (fun _ => rfl) fun _ => rfl)
    read := fun len stack data _ hstack =>
      sendKept_recorded.readDone len data (hm.pop hstack rfl rfl)
    wrote := fun rest stack n hc hstack => ((hm.1 hc).writeDone hc hstack).recorded
    poll := fun _ _ _ => sendKept_recorded.pollLoop _ _ hm
    pollError := fun _ _ _ => sendKept_recorded.pollLoop _ _ hm
    recv := fun data hstack hc => ((hm.1 hc).channelRecv hc hstack data).recorded
    exit := fun _ _ _ => hm.channelClose
    network := fun _ _ _ _ _ => hm }

/-- There is a receive callback, and nothing was ignored. -/
def Listening (m : Machine) : Prop := m.chan.receiveCb = true ∧ ∀ data, .ignored data ∉ m.received

theorem Listening.pass (hm : Listening m) : Listening m.pass := by
  unfold Machine.pass
  split <;> exact hm

theorem Listening.note (hm : Listening m) (hx : ∀ data, x ≠ .ignored data) :
    Listening (m.noteReceived x) := by
  refine ⟨hm.1, fun data hmem => ?_⟩
  rcases mem_append.mp hmem with hold | hnew
  · exact hm.2 data hold
  · exact hx data (mem_singleton.mp hnew).symm

theorem sendKept_listening : SendKept Listening where
  queue := fun _ _ hm => hm
  note := fun _ _ hm => hm
  link := fun _ _ hm => hm
  pass := fun _ hm => hm.pass
  poll := fun _ _ _ hm => hm
  abort := fun _ _ hm => hm
  pollCb := fun _ _ hm => hm
  reading := fun _ _ hm => hm

theorem recvKept_listening : RecvKept Listening where
  queue := fun _ _ hm => hm
  note := fun _ _ hx hm => hm.note (hx hm.1)
  pass := fun _ hm => hm.pass
  recv := fun _ _ _ hm => hm
  abort := fun _ _ hm => hm
  receiveCb := fun _ _ hm => hm
  writing := fun _ _ hm => hm

theorem Listening.channelClose (hm : Listening m) : Listening (channelClose m) := by
  refine ⟨?_, hm.2⟩
  unfold Channels.channelClose
  dsimp only
  split <;> exact hm.1

theorem Listening.runCall {x : Call} (hm : Listening m) (hx : x ≠ .setReceiveCb false) :
    Listening (runCall m x) := by
  cases x with
  | aioSend data cb => exact sendKept_listening.channelAioSend (fun _ _ _ => hm) data cb hm
  | aioFdSend len cb => exact sendKept_listening.channelAioFdSend (fun _ _ _ => hm) len cb hm
  | send data => exact sendKept_listening.channelSend data hm
  | aioReceive | aioFdReceive => exact enqueueReceive_kept hm (hm.note fun _ => nofun)
  | setPollCb cb => exact hm
  | setReceiveCb cb =>
    cases cb with
    | true => exact ⟨rfl, hm.2⟩
    | false => exact absurd rfl hx
  | close | abort => exact hm.channelClose

theorem Listening.step {ev : Event} (hm : Listening m) (hev : ev ≠ .call (.setReceiveCb false)) :
    Listening (step m ev) := by
  refine Moves.step ?_ hm
  exact {
    call := fun x hx _ => hm.runCall fun h => hev (hx.trans (congrArg _ h))
    back := fun after stack _ => by
      unfold callbackDone
      split
      · exact proceed_kept sendKept_listening recvKept_listening after hm
      · exact hm
    pop := fun _ _ _ _ => hm
    read := fun len stack data _ _ => sendKept_listening.readDone len data hm
    wrote := fun rest stack n _ _ => recvKept_listening.writeDone rest n hm
    poll := fun _ _ _ => sendKept_listening.pollLoop _ _ hm
    pollError := fun _ _ _ => sendKept_listening.pollLoop _ _ hm
    recv := fun data _ _ => recvKept_listening.channelRecv data hm
    exit := fun _ _ _ => hm.channelClose
    network := fun _ _ _ _ _ => hm }

end Machine

/-- A channel on which nothing was received yet. -/
structure Unheard (m : Machine) : Prop where
  stack : m.stack = []
  queue : m.chan.aioReceive = []
  received : m.received = []
  next : m.nextReceive = 0

theorem Unheard.recorded {m : Machine} (hm : Unheard m) : Recorded m := by
  refine Taking.recorded ?_
  unfold Taking
  rw [hm.received, hm.queue, hm.next, hm.stack]
  exact intake_nil

/-- As long as a channel is open, what was stored in buffers, given to the receive
callback or ignored, followed by the rest of a delivery in progress, is what was
delivered. Buffers are filled one after the other and completed once each, in the order
of their registration, and each completion tells what was stored in the buffer. A buffer in
memory that is not full is completed only at the end of the stream. Nothing is given to the
receive callback or ignored while a buffer waits, and whenever the end of the stream has
been dealt with, all buffers were completed before. When there is a receive callback,
nothing is ignored. Closing the channel drops what is left. -/
theorem stream_received_in_order (m : Machine) (evs : List Event) (hm : Unheard m) :
    ((run m evs).chan.c = true →
        (run m evs).received.flatMap takenOf ++ unread (run m evs).stack =
          (run m evs).received.flatMap deliveredOf ∧
        (run m evs).received.filterMap finishedOf ++ (run m evs).chan.aioReceive.map Aio.id =
          List.range (run m evs).nextReceive ∧
        ((run m evs).stack = [] →
          (run m evs).received.countP isEnd = (run m evs).received.countP isReport)) ∧
      (run m evs).received.flatMap takenOf <+: (run m evs).received.flatMap deliveredOf ∧
      (run m evs).received.filterMap finishedOf <+: List.range (run m evs).nextReceive ∧
      (run m evs).received.filterMap registeredOf = List.range (run m evs).nextReceive ∧
      (∀ id done data called, .completed id done data called ∈ (run m evs).received →
        Filled (run m evs).received id done data called) ∧
      Always Turn (run m evs).received ∧
      (m.chan.receiveCb = true → (∀ ev ∈ evs, ev ≠ .call (.setReceiveCb false)) →
        ∀ data, .ignored data ∉ (run m evs).received) := by
  have hall : Along step (fun _ _ => True) m evs := along_of_forall fun _ _ => trivial
  have hrun : Recorded (run m evs) := kept_along (fun _ ev _ h => h.step ev) hall hm.recorded
  refine ⟨fun hc => ?_, hrun.2.bytes, hrun.2.order, hrun.2.registered, hrun.2.reported,
    hrun.2.turns, fun hcb hevs => ?_⟩
  · have htaking := hrun.1 hc
    refine ⟨htaking.bytes, htaking.order, fun hstack => ?_⟩
    have hended := htaking.ended
    rw [hstack] at hended
    exact hended
  · have hset : Along step (fun _ ev => ev ≠ .call (.setReceiveCb false)) m evs :=
      along_of_forall hevs
    have hstart : Listening m := ⟨hcb, by simp [hm.received]⟩
    exact (kept_along (I := Listening) (fun _ _ hev h => h.step hev) hset hstart).2

theorem unheard_newChannel (room : ℕ) : Unheard (newChannel room) := ⟨rfl, rfl, rfl, rfl⟩

/-- A buffer is filled, its callback hands in another one, and the stream ends. -/
def refilled : List Event :=
  [.call (.setReceiveCb true), .call (.aioReceive 2 true), .recv [1, 2, 3, 4],
    .call (.aioReceive 1 false), .ret, .ret, .call (.aioReceive 8 true), .recv [5], .recv []]

theorem stream_received_in_order_refilled :
    let m := run (newChannel 0) refilled
    m.received.flatMap takenOf = [1, 2, 3, 4, 5] ∧
      ((m.chan.c = true →
          m.received.flatMap takenOf ++ unread m.stack = m.received.flatMap deliveredOf ∧
          m.received.filterMap finishedOf ++ m.chan.aioReceive.map Aio.id =
            List.range m.nextReceive ∧
          (m.stack = [] → m.received.countP isEnd = m.received.countP isReport)) ∧
        m.received.flatMap takenOf <+: m.received.flatMap deliveredOf ∧
        m.received.filterMap finishedOf <+: List.range m.nextReceive ∧
        m.received.filterMap registeredOf = List.range m.nextReceive ∧
        (∀ id done data called, .completed id done data called ∈ m.received →
          Filled m.received id done data called) ∧
        Always Turn m.received ∧
        ((newChannel 0).chan.receiveCb = true →
          (∀ ev ∈ refilled, ev ≠ .call (.setReceiveCb false)) →
          ∀ data, .ignored data ∉ m.received)) :=
  ⟨by decide, stream_received_in_order (newChannel 0) refilled (unheard_newChannel 0)⟩

/-- Without a receive callback, what arrives while no buffer waits is held by nothing. -/
theorem unclaimed_ignored :
    Unheard (newChannel 0) ∧
      (run (newChannel 0) [.recv [7]]).received.flatMap heldOf = [] ∧
      (run (newChannel 0) [.recv [7]]).received.flatMap deliveredOf = [7] :=
  ⟨unheard_newChannel 0, by decide, by decide⟩

end Meshlink.ChannelReceives
