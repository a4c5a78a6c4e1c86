import Meshlink.ChannelLoops
import Meshlink.Histories
import Meshlink.Systems

/-!
What becomes of buffers that are sent asynchronously. The loop that sends them keeps
the space in the send buffer it was called with in a variable of its own. A buffer
that is handed in from a completion callback is sent from right away, so afterwards
there may be less space than the loop remembers; UTCP then takes less than the loop
asks for, and the loop gives up on all buffers. As long as a buffer that is handed in
leaves the space that loops in progress count on, or there is space for everything that
waits, every buffer is sent completely and in order.
-/
namespace Meshlink.ChannelSends

open List Channels ChannelLoops Histories Systems Machine

section Ledger

/-- The bytes that were handed to UTCP. -/
def handedOf : Sent → Bytes
  | .direct data => data
  | .accepted _ data => data
  | _ => []

/-- The bytes of registered buffers and of accepted direct sends. -/
def askedOf : Sent → Bytes
  | .registered _ data _ => data
  | .direct data => data
  | _ => []

def finishedOf : Sent → Option ℕ
  | .completed id _ _ => some id
  | _ => none

/-- The bytes of one buffer that were handed to UTCP. -/
def acceptedOf (id : ℕ) : Sent → Bytes
  | .accepted id' data => if id' = id then data else []
  | _ => []

def pending (aio : Aio) : Bytes := (aio.data.getD []).drop aio.done

/-- A buffer of which UTCP has accepted as much as it says. -/
structure Waiting (sent : List Sent) (aio : Aio) (data : Bytes) : Prop where
  contents : aio.data = some data
  len : aio.len = data.length
  done : aio.done ≤ data.length
  registered : .registered aio.id data aio.cb ∈ sent
  accepted : sent.flatMap (acceptedOf aio.id) = data.take aio.done

/-- UTCP has accepted all of a buffer, and its callback was told so. -/
def Reported (sent : List Sent) (id done : ℕ) (called : Bool) : Prop :=
  ∃ data, .registered id data called ∈ sent ∧ sent.flatMap (acceptedOf id) = data ∧
    done = data.length

structure Ledger (sent : List Sent) (queue : List Aio) (next : ℕ) : Prop where
  bytes : sent.flatMap handedOf ++ queue.flatMap pending = sent.flatMap askedOf
  order : sent.filterMap finishedOf ++ queue.map Aio.id = List.range next
  waiting : ∀ aio ∈ queue, ∃ data, Waiting sent aio data
  reported : ∀ id done called, .completed id done called ∈ sent → Reported sent id done called
  known : ∀ id data, .accepted id data ∈ sent → id < next

variable {sent : List Sent} {queue rest : List Aio} {aio : Aio} {next : ℕ} {data : Bytes}

theorem ledger_nil : Ledger [] [] 0 := by
  refine ⟨rfl, rfl, ?_, ?_, ?_⟩
  · exact fun aio h => absurd h not_mem_nil
  · exact fun id done called h => absurd h not_mem_nil
  · exact fun id data h => absurd h not_mem_nil

/-- A buffer keeps waiting while nothing of it is handed over. -/
theorem Waiting.grow {x : Sent} (h : Waiting sent aio data) (hx : acceptedOf aio.id x = []) :
    Waiting (sent ++ [x]) aio data := by
  refine ⟨h.contents, h.len, h.done, mem_append_left _ h.registered, ?_⟩
  rw [flatMap_concat, hx, append_nil]
  exact h.accepted

theorem Reported.grow {x : Sent} {id done : ℕ} {called : Bool} (h : Reported sent id done called)
    (hx : acceptedOf id x = []) : Reported (sent ++ [x]) id done called := by
  obtain ⟨data, hreg, hacc, hdone⟩ := h
  refine ⟨data, mem_append_left _ hreg, ?_, hdone⟩
  rw [flatMap_concat, hx, append_nil]
  exact hacc

theorem acceptedOf_next (h : Ledger sent queue next) : sent.flatMap (acceptedOf next) = [] := by
  rw [flatMap_eq_nil_iff]
  intro x hx
  cases x with
  | accepted id data =>
    have hid : id ≠ next := (h.known id data hx).ne
    simp only [acceptedOf, if_neg hid]
  | _ => rfl

theorem Ledger.register (h : Ledger sent queue next) (data : Bytes) (cb : Bool) :
    Ledger (sent ++ [.registered next data cb])
      (queue ++ [⟨next, some data, data.length, 0, cb⟩]) (next + 1) := by
  refine ⟨?_, ?_, ?_, ?_, ?_⟩
  · rw [flatMap_concat, flatMap_concat, flatMap_concat, ← h.bytes]
    simp [handedOf, askedOf, pending]
  · rw [filterMap_concat_none rfl, range_succ, ← h.order]
    simp
  · intro aio haio
    rcases mem_append.mp haio with hold | hnew
    · obtain ⟨d, hd⟩ := h.waiting aio hold
      exact ⟨d, hd.grow rfl⟩
    rw [mem_singleton.mp hnew]
    refine ⟨data, rfl, rfl, Nat.zero_le _, by simp, ?_⟩
    rw [flatMap_concat, acceptedOf_next h]
    rfl
  · intro id done called hmem
    have hold : .completed id done called ∈ sent := by simpa using hmem
    exact (h.reported id done called hold).grow rfl
  · intro id d hmem
    have hold : .accepted id d ∈ sent := by simpa using hmem
    exact Nat.lt_succ_of_lt (h.known id d hold)

theorem Ledger.direct (h : Ledger sent [] next) (data : Bytes) :
    Ledger (sent ++ [.direct data]) [] next := by
  refine ⟨?_, ?_, ?_, ?_, ?_⟩
  · have hbytes := h.bytes
    simp only [flatMap_nil, append_nil] at hbytes
    rw [flatMap_concat, flatMap_concat, hbytes]
    exact append_nil _
  · rw [filterMap_concat_none rfl]
    exact h.order
  · exact fun aio haio => absurd haio not_mem_nil
  · intro id done called hmem
    have hold : .completed id done called ∈ sent := by simpa using hmem
    exact (h.reported id done called hold).grow rfl
  · intro id d hmem
    have hold : .accepted id d ∈ sent := by simpa using hmem
    exact h.known id d hold

/-- UTCP accepts some more of the first buffer. -/
theorem Ledger.accept (h : Ledger sent (aio :: rest) next) (hw : Waiting sent aio data) (n : ℕ) :
    Ledger (sent ++ [.accepted aio.id ((data.drop aio.done).take n)])
      ({aio with done := aio.done + ((data.drop aio.done).take n).length} :: rest) next := by
  obtain ⟨-, hlt, hfinished, hwaiting⟩ := first_waiting h.order
  have hother : ∀ other ∈ rest, other.id ≠ aio.id := fun other hmem heq =>
    hwaiting (heq ▸ mem_map_of_mem hmem)
  have hdone : ∀ id done called, .completed id done called ∈ sent → id ≠ aio.id :=
    fun id done called hmem heq => hfinished (heq ▸ mem_filterMap.mpr ⟨_, hmem, rfl⟩)
  have hle := hw.done
  have hchunk : (data.drop aio.done).take n <+: data.drop aio.done := List.take_prefix n _
  refine ⟨?_, ?_, ?_, ?_, ?_⟩
  · have hbytes := h.bytes
    rw [flatMap_cons] at hbytes
    have hsplit : (data.drop aio.done).take n ++
        pending {aio with done := aio.done + ((data.drop aio.done).take n).length} =
          pending aio := by
      simp only [pending, hw.contents, Option.getD_some]
      rw [← drop_drop]
      exact prefix_iff_eq_append.mp hchunk
    rw [flatMap_concat, flatMap_concat, flatMap_cons, append_assoc,
      ← append_assoc (handedOf _), handedOf, hsplit, hbytes]
    exact (append_nil _).symm
  · rw [filterMap_concat_none rfl]
    exact h.order
  · intro other hmem
    rcases mem_cons.mp hmem with rfl | hmem
    · refine ⟨data, hw.contents, hw.len, ?_, mem_append_left _ hw.registered, ?_⟩
      · show aio.done + ((data.drop aio.done).take n).length ≤ data.length
        rw [length_take, length_drop]
        omega
      show (sent ++ [Sent.accepted aio.id _]).flatMap (acceptedOf aio.id) =
        data.take (aio.done + ((data.drop aio.done).take n).length)
      rw [flatMap_concat, hw.accepted, acceptedOf, if_pos rfl, take_add]
      exact congrArg _ (prefix_iff_eq_take.mp hchunk)
    · obtain ⟨d, hd⟩ := h.waiting other (mem_cons_of_mem _ hmem)
      exact ⟨d, hd.grow (if_neg (hother other hmem).symm)⟩
  · intro id done called hmem
    have hold : .completed id done called ∈ sent := by simpa using hmem
    exact (h.reported id done called hold).grow (if_neg (hdone id done called hold).symm)
  · intro id d hmem
    rcases mem_append.mp hmem with hold | hnew
    · exact h.known id d hold
    have heq : id = aio.id := by
      have hx := mem_singleton.mp hnew
      injection hx
    rw [heq]
    exact hlt

/-- The first buffer was accepted completely and is reported. -/
theorem Ledger.complete (h : Ledger sent (aio :: rest) next) (hdone : aio.done = aio.len) :
    Ledger (sent ++ [.completed aio.id aio.done aio.cb]) rest next := by
  obtain ⟨data, hw⟩ := h.waiting aio mem_cons_self
  have hall : aio.done = data.length := hdone.trans hw.len
  refine ⟨?_, ?_, ?_, ?_, ?_⟩
  · have hbytes := h.bytes
    have hnone : pending aio = [] := by
      simp only [pending, hw.contents, Option.getD_some]
      rw [hall, drop_length]
    rw [flatMap_cons, hnone, nil_append] at hbytes
    rw [flatMap_concat, flatMap_concat, ← hbytes]
    simp [handedOf, askedOf]
  · have horder := h.order
    rw [map_cons] at horder
    rw [← horder, filterMap_concat_some (f := finishedOf) rfl, append_assoc]
    rfl
  · intro other hmem
    obtain ⟨d, hd⟩ := h.waiting other (mem_cons_of_mem _ hmem)
    exact ⟨d, hd.grow rfl⟩
  · intro id done called hmem
    rcases mem_append.mp hmem with hold | hnew
    · exact (h.reported id done called hold).grow rfl
    have hx := mem_singleton.mp hnew
    injection hx with hid hd hc
    rw [hid, hd, hc]
    refine Reported.grow ⟨data, hw.registered, ?_, hall⟩ rfl
    rw [hw.accepted, hall, take_length]
  · intro id d hmem
    have hold : .accepted id d ∈ sent := by simpa using hmem
    exact h.known id d hold

end Ledger

section Flow

/-- The space that the loops below the running callbacks count on. -/
def reserved : List Frame → ℕ
  | [] => 0
  | .callback (.poll len) :: stack => len + reserved stack
  | _ :: stack => reserved stack

/-- What of the buffers in a queue is still to be sent. -/
def queued (queue : List Aio) : ℕ := (queue.map fun aio => aio.len - aio.done).sum

/-- Neither giving up on all buffers nor reading from a file. -/
def PlainFrame : Frame → Prop
  | .callback .pollAbort => False
  | .reading _ => False
  | _ => True

/-- A channel over a working connection, with space for all that waits or with the space
that the loops in progress count on. -/
structure Flows (m : Machine) : Prop where
  c : m.chan.c = true
  state : m.link.state = .sending
  memory : m.link.memory = true
  frames : ∀ frame ∈ m.stack, PlainFrame frame
  room : queued m.chan.aioSend ≤ m.link.room ∨ reserved m.stack ≤ m.link.room
  ledger : Ledger m.sent m.chan.aioSend m.nextSend

variable {m : Machine}

variable {data : Bytes} {len : ℕ}

theorem utcpSend_fits {link : Link} (hstate : link.state = .sending) (hmemory : link.memory = true)
    (hroom : data.length ≤ link.room) :
    utcpSend link data = ((data.length : ℤ), {link with room := link.room - data.length}) := by
  have hpartial : ¬ (link.noPartial = true ∧ link.room < data.length) := fun h => by omega
  simp [utcpSend, hstate, hmemory, hpartial, Nat.min_eq_left hroom]

theorem frames_cons {frame : Frame} {stack : List Frame} (hframe : PlainFrame frame)
    (hstack : ∀ f ∈ stack, PlainFrame f) : ∀ f ∈ frame :: stack, PlainFrame f := by
  intro f hf
  rcases mem_cons.mp hf with rfl | hf
  · exact hframe
  · exact hstack f hf

theorem Flows.pass (hm : Flows m) : Flows m.pass := by
  unfold Machine.pass
  split
  · exact {hm with}
  · exact hm

theorem recvKept_flows : RecvKept Flows where
  queue := fun _ _ hm => {hm with}
  note := fun _ _ _ hm => {hm with}
  pass := fun _ hm => hm.pass
  recv := fun _ _ _ hm => {hm with frames := frames_cons trivial hm.frames}
  abort := fun _ _ hm => {hm with frames := frames_cons trivial hm.frames}
  receiveCb := fun _ _ hm => {hm with frames := frames_cons trivial hm.frames}
  writing := fun _ _ hm => {hm with frames := frames_cons trivial hm.frames}

/-- All buffers are sent, and the loop ends. -/
theorem Flows.pollRest (hm : Flows m) (len : ℕ) : Flows (pollRest m len) := by
  unfold Channels.pollRest
  split
  · exact {hm with frames := frames_cons trivial hm.frames}
  · exact {hm with}

/-- The state of a loop: there is space for what it still means to send. -/
structure Looping (m : Machine) (len : ℕ) (queue : List Aio) : Prop where
  waiting : m.chan.aioSend = queue
  positive : len ≠ 0
  space : queued queue ≤ m.link.room ∨ reserved m.stack + len ≤ m.link.room

/-- The loop ends, or it goes on with the space that is left. -/
def Proceeds (next : Machine × Option ℕ) (rest : List Aio) : Prop :=
  Flows next.1 ∧ ∀ left, next.2 = some left → Looping next.1 left rest

/-- A completed buffer leaves the queue. The loop waits for its callback with the space
that is left, or it ends, or it goes on. -/
theorem Flows.finishSend {aio : Aio} {rest : List Aio} (hm : Flows m)
    (hqueue : m.chan.aioSend = aio :: rest) (hdone : aio.done = aio.len)
    (hroom : queued rest ≤ m.link.room ∨ reserved m.stack + len ≤ m.link.room) :
    Proceeds (finishSend m aio rest len) rest := by
  have hledger := hm.ledger
  rw [hqueue] at hledger
  have hpop : Flows ((m.withSend rest).noteSent
      (.completed aio.id aio.done (m.chan.c && aio.cb))) := by
    refine {hm with room := hroom.imp_right ?_, ledger := ?_}
    · exact Nat.le_trans (Nat.le_add_right _ len)
    · rw [hm.c]
      exact hledger.complete hdone
  unfold Channels.finishSend
  dsimp only
  split
  · refine ⟨⟨hm.c, hm.state, hm.memory, frames_cons trivial hm.frames, hroom.imp_right ?_,
      hpop.ledger⟩, nofun⟩
    exact fun h => (Nat.add_comm len _).trans_le h
  · split
    · exact ⟨hpop.pass, nofun⟩
    next hlen =>
    refine ⟨hpop.pass, fun left hleft => ?_⟩
    cases hleft
    have hpass : ∀ m' : Machine, m'.pass.stack = m'.stack ∧ m'.pass.link = m'.link ∧
        m'.pass.chan.aioSend = m'.chan.aioSend := by
      intro m'
      unfold Machine.pass
      split <;> exact ⟨rfl, rfl, rfl⟩
    obtain ⟨hstack, hlink, haios⟩ := hpass ((m.withSend rest).noteSent
      (.completed aio.id aio.done (m.chan.c && aio.cb)))
    refine ⟨haios, hlen, ?_⟩
    rw [hstack, hlink]
    exact hroom

/-- UTCP takes everything the loop has space for. -/
theorem Flows.sendChunk {aio : Aio} {rest : List Aio} (hm : Flows m)
    (hloop : Looping m len (aio :: rest)) (hdata : aio.data = some data) {chunk : Bytes}
    (hchunk : (data.drop aio.done).take (min (aio.len - aio.done) len) = chunk) :
    Proceeds (sendChunk m aio rest len chunk) rest := by
  have hledger := hm.ledger
  rw [hloop.waiting] at hledger
  obtain ⟨data', hw⟩ := hledger.waiting aio mem_cons_self
  have heq : data' = data := Option.some.inj (hw.contents.symm.trans hdata)
  subst data'
  have hroom := hloop.space
  have hqueued (aio : Aio) : queued (aio :: rest) = aio.len - aio.done + queued rest :=
    sum_cons
  rw [hqueued] at hroom
  have haccept := hledger.accept hw (min (aio.len - aio.done) len)
  rw [hchunk] at haccept
  have hshort : chunk.length = min (aio.len - aio.done) len := by
    rw [← hchunk, length_take, length_drop, hw.len]
    omega
  have hdone := hw.done
  have hlen := hw.len
  have hfits : chunk.length ≤ m.link.room := by omega
  have hsent := utcpSend_fits hm.state hm.memory hfits
  unfold Channels.sendChunk
  dsimp only
  rw [hsent]
  dsimp only
  rw [if_neg (not_not.mpr rfl), Int.toNat_natCast, take_length]
  split
  · refine ⟨{hm with room := ?_, ledger := haccept}, nofun⟩
    show queued (_ :: rest) ≤ m.link.room - chunk.length ∨
      reserved m.stack ≤ m.link.room - chunk.length
    rw [hqueued]
    dsimp only
    omega
  next hfull =>
  have hm' : Flows (({m with
      link := {m.link with room := m.link.room - chunk.length}}.noteSent
        (.accepted aio.id chunk)).withSend
          ({aio with done := aio.done + chunk.length} :: rest)) := by
    refine {hm with room := ?_, ledger := haccept}
    show queued (_ :: rest) ≤ m.link.room - chunk.length ∨
      reserved m.stack ≤ m.link.room - chunk.length
    rw [hqueued]
    dsimp only
    omega
  have hall : aio.done + chunk.length = aio.len := by
    have hnot : ¬ aio.done + chunk.length < aio.len := hfull
    omega
  have hspace : queued rest ≤ m.link.room - chunk.length ∨
      reserved m.stack + (len - chunk.length) ≤ m.link.room - chunk.length := by omega
  exact hm'.finishSend rfl hall hspace

theorem Flows.pollLoop {queue : List Aio} (hm : Flows m) (hloop : Looping m len queue) :
    Flows (pollLoop m len queue) := by
  induction queue generalizing m len with
  | nil =>
    have hempty : Flows (m.withSend []) :=
      {hm with room := Or.inl (Nat.zero_le _), ledger := hloop.waiting ▸ hm.ledger}
    exact hempty.pollRest len
  | cons aio rest ih =>
    have hledger := hm.ledger
    rw [hloop.waiting] at hledger
    obtain ⟨data, hw⟩ := hledger.waiting aio mem_cons_self
    obtain ⟨hnext, hleft⟩ := hm.sendChunk hloop hw.contents rfl
    unfold Channels.pollLoop
    rw [if_neg hloop.positive]
    simp only [hw.contents]
    generalize Channels.sendChunk m aio rest len _ = next at hnext hleft
    obtain ⟨m', left⟩ := next
    cases left with
    | none => exact hnext
    | some left => exact ih hnext (hleft left rfl)

theorem Flows.resumePoll (hm : Flows m)
    (hroom : queued m.chan.aioSend ≤ m.link.room ∨ reserved m.stack + len ≤ m.link.room) :
    Flows (resumePoll m len) := by
  unfold Channels.resumePoll
  split
  · exact hm
  · next hlen => exact hm.pollLoop ⟨rfl, hlen, hroom⟩

/-- A callback returns, and the loop that waited for it goes on. -/
theorem Flows.callbackDone {after : After} {stack : List Frame} (hm : Flows m)
    (hstack : m.stack = .callback after :: stack) :
    Flows (callbackDone {m with stack := stack} after) := by
  have hframes : ∀ frame ∈ .callback after :: stack, PlainFrame frame := hstack ▸ hm.frames
  have hrest : ∀ frame ∈ stack, PlainFrame frame := fun f hf =>
    hframes f (mem_cons_of_mem _ hf)
  have hroom := hm.room
  rw [hstack] at hroom
  unfold Channels.callbackDone
  rw [if_pos hm.c]
  cases after with
  | poll len =>
    have hspace : queued m.chan.aioSend ≤ m.link.room ∨ reserved stack + len ≤ m.link.room :=
      hroom.imp_right fun h => by rw [Nat.add_comm]; exact h
    have hback : Flows (regain {m with stack := stack}) := by
      refine ⟨hm.c, hm.state, hm.memory, hrest, hspace.imp_right fun h => ?_, hm.ledger⟩
      exact (Nat.le_add_right _ len).trans h
    exact hback.resumePoll hspace
  | pollAbort => exact (hframes _ mem_cons_self).elim
  | recv data =>
    have hback : Flows (regain {m with stack := stack}) := {hm with frames := hrest, room := hroom}
    exact recvKept_flows.resumeRecv data hback
  | recvAbort =>
    have hback : Flows (regain {m with stack := stack}) := {hm with frames := hrest, room := hroom}
    exact recvKept_flows.abortReceives _ hback

/-- A buffer that is handed in leaves the space that the loops in progress count on, or
there is space for all that then waits. -/
def LeavesSpace (m : Machine) : Event → Prop
  | .call (.aioSend data _) =>
    reserved m.stack = 0 ∨ reserved m.stack + data.length ≤ m.link.room ∨
      queued m.chan.aioSend + data.length ≤ m.link.room
  | _ => True

/-- The connection stays established, and only memory is sent from. -/
def Established : Event → Prop
  | .call (.aioFdSend _ _) => False
  | .call .close => False
  | .call .abort => False
  | .pollError => False
  | .exit => False
  | .network state _ memory => state = .sending ∧ memory = true
  | _ => True

instance (m : Machine) (ev : Event) : Decidable (LeavesSpace m ev) := by
  unfold LeavesSpace
  split <;> infer_instance

instance : DecidablePred Established := by
  intro ev
  cases ev with
  | call x => cases x <;> unfold Established <;> infer_instance
  | _ => unfold Established; infer_instance

theorem Flows.channelAioSend {cb : Bool} (hm : Flows m)
    (hspace : LeavesSpace m (.call (.aioSend data cb))) : Flows (channelAioSend m data cb) := by
  unfold Channels.channelAioSend
  split
  · exact hm
  dsimp only
  have hroom : roomNow ((enqueueSend m (some data) data.length cb).noteSent
      (.registered m.nextSend data cb)) = m.link.room := by
    simp [roomNow, sndbufFree, enqueueSend, Machine.noteSent, hm.c, hm.state]
  rw [hroom]
  have htodo : queued (m.chan.aioSend ++ [⟨m.nextSend, some data, data.length, 0, cb⟩]) ≤
      m.link.room ∨ reserved m.stack + min data.length m.link.room ≤ m.link.room := by
    have hall : queued (m.chan.aioSend ++ [⟨m.nextSend, some data, data.length, 0, cb⟩]) =
        queued m.chan.aioSend + data.length := by
      simp [queued]
    unfold LeavesSpace at hspace
    omega
  have hqueued : Flows ((enqueueSend m (some data) data.length cb).noteSent
      (.registered m.nextSend data cb)) := by
    refine ⟨hm.c, hm.state, hm.memory, hm.frames, htodo.imp_right ?_, hm.ledger.register data cb⟩
    exact Nat.le_trans (Nat.le_add_right _ _)
  exact hqueued.resumePoll htodo

theorem Flows.channelSend (hm : Flows m) : Flows (channelSend m data) := by
  unfold Channels.channelSend
  split
  · exact hm
  next hrefused =>
  have hqueue : m.chan.aioSend = [] := by
    by_contra h
    exact hrefused (Or.inr (Or.inl h))
  have hledger := hm.ledger
  rw [hqueue] at hledger
  have hlink : (utcpSend m.link data).2.state = .sending ∧
      (utcpSend m.link data).2.memory = true := by
    unfold utcpSend
    split_ifs <;> exact ⟨hm.state, hm.memory⟩
  refine ⟨hm.c, hlink.1, hlink.2, hm.frames, Or.inl ?_, ?_⟩
  · show queued m.chan.aioSend ≤ _
    rw [hqueue]
    exact Nat.zero_le _
  · show Ledger _ m.chan.aioSend m.nextSend
    rw [hqueue]
    exact hledger.direct _

theorem Flows.runCall {x : Call} (hm : Flows m) (hest : Established (.call x))
    (hspace : LeavesSpace m (.call x)) : Flows (runCall m x) := by
  cases x with
  | aioSend data cb => exact hm.channelAioSend hspace
  | aioFdSend len cb => exact hest.elim
  | send data => exact hm.channelSend
  | aioReceive | aioFdReceive => exact enqueueReceive_kept hm {hm with}
  | setPollCb | setReceiveCb => exact {hm with}
  | close | abort => exact hest.elim

theorem Flows.pop {frame : Frame} {stack : List Frame} (hm : Flows m)
    (hstack : m.stack = frame :: stack) (hreserved : reserved (frame :: stack) = reserved stack) :
    Flows {m with stack := stack} := by
  refine {hm with frames := fun f hf => ?_, room := ?_}
  · exact hm.frames f (hstack ▸ mem_cons_of_mem _ hf)
  · rw [← hreserved, ← hstack]
    exact hm.room

theorem Flows.step {ev : Event} (hm : Flows m) (hest : Established ev)
    (hspace : LeavesSpace m ev) : Flows (step m ev) := by
  refine Moves.step ?_ hm
  exact {
    call := fun x hev _ => hm.runCall (hev ▸ hest) (hev ▸ hspace)
    back := fun after stack hstack => hm.callbackDone hstack
    pop := fun frame stack hstack hends =>
      hm.pop hstack (hends.kept (fun _ => rfl) fun _ => rfl)
    read := fun len stack data _ hstack => by
      have hreading : PlainFrame (.reading len) := hm.frames _ (hstack ▸ mem_cons_self)
      exact hreading.elim
    wrote := fun rest stack n _ hstack => recvKept_flows.writeDone rest n (hm.pop hstack rfl)
    poll := fun hstack _ hroom => by
      have hfree : sndbufFree m.link = m.link.room := by simp [sndbufFree, hm.state]
      refine hm.pollLoop ⟨rfl, hroom, Or.inr ?_⟩
      rw [hstack, hfree]
      exact Nat.le_of_eq (Nat.zero_add _)
    pollError := fun hev _ _ => by
      rw [hev] at hest
      exact hest.elim
    recv := fun data _ _ => recvKept_flows.channelRecv data hm
    exit := fun hev _ _ => by
      rw [hev] at hest
      exact hest.elim
    network := fun state room memory hev hstack => by
      rw [hev] at hest
      refine ⟨hm.c, hest.1, hest.2, hm.frames, Or.inr ?_, hm.ledger⟩
      rw [hstack]
      exact Nat.zero_le _ }

end Flow

/-- A reliable channel over a working connection, on which nothing was sent yet. -/
structure Unused (m : Machine) : Prop where
  c : m.chan.c = true
  state : m.link.state = .sending
  memory : m.link.memory = true
  stack : m.stack = []
  queue : m.chan.aioSend = []
  sent : m.sent = []
  next : m.nextSend = 0

theorem Unused.flows {m : Machine} (hm : Unused m) : Flows m := by
  refine ⟨hm.c, hm.state, hm.memory, ?_, Or.inl ?_, ?_⟩
  · rw [hm.stack]
    exact fun frame hframe => absurd hframe not_mem_nil
  · rw [hm.queue]
    exact Nat.zero_le _
  · rw [hm.sent, hm.queue, hm.next]
    exact ledger_nil

/-- As long as every buffer that is handed in leaves the space that loops in progress
count on, or there is space for all that waits: what was handed to UTCP, followed by what
waits in the queue, is what the calls asked for. The buffers are completed once each in the
order of their registration, and each completion reports what UTCP accepted of the buffer,
which is all of it. -/
theorem buffers_sent_in_order (m : Machine) (evs : List Event) (hm : Unused m)
    (hest : ∀ ev ∈ evs, Established ev) (hspace : Along step LeavesSpace m evs) :
    (run m evs).sent.flatMap handedOf ++ (run m evs).chan.aioSend.flatMap pending =
        (run m evs).sent.flatMap askedOf ∧
      (run m evs).sent.filterMap finishedOf ++ (run m evs).chan.aioSend.map Aio.id =
        List.range (run m evs).nextSend ∧
      ∀ id done called, .completed id done called ∈ (run m evs).sent →
        ∃ data, .registered id data called ∈ (run m evs).sent ∧
          (run m evs).sent.flatMap (acceptedOf id) = data ∧ done = data.length := by
  have hrun : Flows (run m evs) := kept_along
    (fun m ev (h : LeavesSpace m ev ∧ Established ev) hm => hm.step h.2 h.1)
    (along_and hspace hest) hm.flows
  exact ⟨hrun.ledger.bytes, hrun.ledger.order, hrun.ledger.reported⟩

theorem unused_newChannel (room : ℕ) : Unused (newChannel room) :=
  ⟨rfl, rfl, rfl, rfl, rfl, rfl, rfl⟩

/-- A buffer waits for space. When there is some, its callback hands in the next one,
which fits, and sends directly. -/
def chained : List Event :=
  [.call (.aioSend [1] true), .network .sending 4 true, .poll, .call (.aioSend [2, 3] false),
    .call (.send [4]), .ret]

/-- A buffer waits for space. When there is some, its callback hands in the next one. -/
def delayed : List Event :=
  [.call (.aioSend [1] true), .network .sending 2 true, .poll, .call (.aioSend [2, 3] false), .ret]

theorem buffers_sent_in_order_chained :
    let m := run (newChannel 0) chained
    m.sent.flatMap handedOf = [1, 2, 3, 4] ∧
      (m.sent.flatMap handedOf ++ m.chan.aioSend.flatMap pending = m.sent.flatMap askedOf ∧
        m.sent.filterMap finishedOf ++ m.chan.aioSend.map Aio.id = List.range m.nextSend ∧
        ∀ id done called, .completed id done called ∈ m.sent →
          ∃ data, .registered id data called ∈ m.sent ∧
            m.sent.flatMap (acceptedOf id) = data ∧ done = data.length) :=
  ⟨by decide, buffers_sent_in_order (newChannel 0) chained (unused_newChannel 0)
    (by decide) (by decide)⟩

/-- The loop that completed the first buffer finds less space than it remembers, and
gives up on the second one after one byte. -/
theorem delayed_not_sent :
    let m := run (newChannel 0) delayed
    Unused (newChannel 0) ∧ (∀ ev ∈ delayed, Established ev) ∧
      m.sent.flatMap handedOf = [1, 2] ∧ m.chan.aioSend = [] ∧
      m.sent.flatMap askedOf = [1, 2, 3] ∧ .completed 1 1 false ∈ m.sent :=
  ⟨unused_newChannel 0, by decide, by decide, by decide, by decide, by decide⟩

end Meshlink.ChannelSends
