import Meshlink.Channels

/-!
What the loops over the queues of a channel keep. The loop over the sends and the one
over the receives are each made of a few small changes to the machine. A property that
these keep is kept by the loops, however many buffers they finish and wherever they stop
to call the application or to wait for a file.
-/
namespace Meshlink.ChannelLoops

open Channels Machine

theorem goOn_kept {α : Type} {I : Machine → Prop} {next : Machine × Option α}
    {loop : Machine → α → Machine} (hnext : I next.1) (hloop : ∀ m left, I m → I (loop m left)) :
    I (goOn next loop) := by
  obtain ⟨m, left⟩ := next
  cases left with
  | none => exact hnext
  | some left => exact hloop m left hnext

section Sending

/-- The changes that channel_poll makes keep a property. -/
structure SendKept (I : Machine → Prop) : Prop where
  queue : ∀ m queue, I m → I (m.withSend queue)
  note : ∀ m x, I m → I (m.noteSent x)
  link : ∀ m link, I m → I {m with link := link}
  pass : ∀ m, I m → I m.pass
  poll : ∀ m len, m.chan.c = true → I m → I (m.enter (.poll len))
  abort : ∀ m, m.chan.c = true → I m → I (m.enter .pollAbort)
  pollCb : ∀ m len, I m → I (m.suspend (.pollCb len))
  reading : ∀ m len, I m → I (m.suspend (.reading len))

namespace SendKept

variable {I : Machine → Prop} (hI : SendKept I) {m : Machine}

include hI

variable (len : ℕ)

theorem pollRest (hm : I m) : I (pollRest m len) := by
  unfold Channels.pollRest
  split
  · exact hI.pollCb m len hm
  · exact hI.link m _ hm

/-- A finished buffer leaves the queue. -/
theorem pop (aio : Aio) (rest : List Aio) (hm : I m) :
    I ((m.withSend rest).noteSent (.completed aio.id aio.done (m.chan.c && aio.cb))) :=
  hI.note _ _ (hI.queue m rest hm)

theorem abortSends (queue : List Aio) (hm : I m) : I (abortSends m queue) := by
  induction queue generalizing m with
  | nil => exact hI.pollRest 0 (hI.queue m [] hm)
  | cons aio rest ih =>
    unfold Channels.abortSends
    dsimp only
    split
    · next hcalls => exact hI.abort _ (Bool.and_eq_true_iff.mp hcalls).1 (hI.pop aio rest hm)
    · exact ih (hI.pass _ (hI.pop aio rest hm))

theorem finishSend (aio : Aio) (rest : List Aio) (len : ℕ) (hm : I m) :
    I (finishSend m aio rest len).1 := by
  unfold Channels.finishSend
  dsimp only
  split
  · next hcalls => exact hI.poll _ len (Bool.and_eq_true_iff.mp hcalls).1 (hI.pop aio rest hm)
  · split <;> exact hI.pass _ (hI.pop aio rest hm)

theorem sendChunk (aio : Aio) (rest : List Aio) (len : ℕ) (chunk : Bytes) (hm : I m) :
    I (sendChunk m aio rest len chunk).1 := by
  have hsent := hI.note _ (.accepted aio.id (chunk.take (utcpSend m.link chunk).1.toNat))
    (hI.link m (utcpSend m.link chunk).2 hm)
  unfold Channels.sendChunk
  dsimp only
  split
  · exact hI.abortSends (aio :: rest) hsent
  · split
    · exact hI.queue _ _ hsent
    · exact hI.finishSend _ rest _ hsent

theorem pollLoop (queue : List Aio) (hm : I m) : I (pollLoop m len queue) := by
  induction queue generalizing m len with
  | nil => exact hI.pollRest len (hI.queue m [] hm)
  | cons aio rest ih =>
    unfold Channels.pollLoop
    split
    · exact hI.abortSends (aio :: rest) hm
    · split
      · exact hI.reading _ len (hI.queue m (aio :: rest) hm)
      · exact goOn_kept (hI.sendChunk aio rest len _ hm) fun m len hm => ih len hm

theorem resumePoll (hm : I m) : I (resumePoll m len) := by
  unfold Channels.resumePoll
  split
  · exact hm
  · exact hI.pollLoop len m.chan.aioSend hm

theorem readDone (data : Bytes) (hm : I m) : I (readDone m len data) := by
  unfold Channels.readDone
  split
  · exact hI.resumePoll len hm
  next aio rest _ =>
  refine goOn_kept ?_ fun m len hm => hI.pollLoop len rest hm
  split
  · exact hI.finishSend aio rest len hm
  · exact hI.sendChunk aio rest len _ hm

end SendKept

end Sending

section Receiving

/-- The changes that channel_recv makes keep a property. -/
structure RecvKept (I : Machine → Prop) : Prop where
  queue : ∀ m queue, I m → I (m.withReceive queue)
  note : ∀ m x, (m.chan.receiveCb = true → ∀ data, x ≠ .ignored data) → I m →
    I (m.noteReceived x)
  pass : ∀ m, I m → I m.pass
  recv : ∀ m data, m.chan.c = true → I m → I (m.enter (.recv data))
  abort : ∀ m, m.chan.c = true → I m → I (m.enter .recvAbort)
  receiveCb : ∀ m data, I m → I (m.suspend (.receiveCb data))
  writing : ∀ m data, I m → I (m.suspend (.writing data))

namespace RecvKept

variable {I : Machine → Prop} (hI : RecvKept I) {m : Machine}

include hI

variable (aio : Aio) (rest : List Aio) (data : Bytes)

theorem recvRest (hm : I m) : I (recvRest m data) := by
  unfold Channels.recvRest
  split
  · exact hI.receiveCb _ data (hI.note m _ (fun _ _ => nofun) hm)
  · next hcb => exact hI.note m _ (fun hcb' => absurd hcb' hcb) hm

theorem pop (hm : I m) : I ((m.withReceive rest).noteReceived
      (.completed aio.id aio.done aio.data (m.chan.c && aio.cb))) :=
  hI.note _ _ (fun _ _ => nofun) (hI.queue m rest hm)

theorem abortReceives (queue : List Aio) (hm : I m) : I (abortReceives m queue) := by
  induction queue generalizing m with
  | nil => exact hI.recvRest [] (hI.queue m [] hm)
  | cons aio rest ih =>
    unfold Channels.abortReceives
    dsimp only
    split
    · next hcalls => exact hI.abort _ (Bool.and_eq_true_iff.mp hcalls).1 (hI.pop aio rest hm)
    · exact ih (hI.pass _ (hI.pop aio rest hm))

theorem finishReceive (hm : I m) : I (finishReceive m aio rest data).1 := by
  unfold Channels.finishReceive
  dsimp only
  split
  · next hcalls => exact hI.recv _ data (Bool.and_eq_true_iff.mp hcalls).1 (hI.pop aio rest hm)
  · split <;> exact hI.pass _ (hI.pop aio rest hm)

theorem takeIn (n : ℕ) (hm : I m) : I (takeIn m aio rest data n).1 := by
  have hstored := hI.note m (.stored aio.id (data.take n)) (fun _ _ => nofun) hm
  unfold Channels.takeIn
  dsimp only
  split
  · exact hI.finishReceive _ rest _ hstored
  · split
    · exact hI.queue _ _ hstored
    · exact hI.writing _ _ (hI.queue _ _ hstored)

theorem recvLoop (queue : List Aio) (hm : I m) : I (recvLoop m data queue) := by
  induction queue generalizing m data with
  | nil => exact hI.recvRest data (hI.queue m [] hm)
  | cons aio rest ih =>
    unfold Channels.recvLoop
    split
    · exact hI.writing _ data (hI.queue m (aio :: rest) hm)
    · exact goOn_kept (hI.takeIn aio rest data _ hm) fun m data hm => ih data hm

theorem resumeRecv (hm : I m) : I (resumeRecv m data) := by
  unfold Channels.resumeRecv
  split
  · exact hm
  · exact hI.recvLoop data m.chan.aioReceive hm

theorem writeDone (n : ℕ) (hm : I m) : I (writeDone m data n) := by
  unfold Channels.writeDone
  split
  · exact hI.resumeRecv data hm
  next aio rest _ =>
  refine goOn_kept ?_ fun m data hm => hI.recvLoop data rest hm
  split
  · exact hI.finishReceive aio rest data hm
  · exact hI.takeIn aio rest data _ hm

theorem channelRecv (hm : I m) : I (channelRecv m data) := by
  have hnoted := hI.note m (.delivered data) (fun _ _ => nofun) hm
  unfold Channels.channelRecv
  dsimp only
  split
  · exact hI.abortReceives _ hnoted
  · exact hI.recvLoop data _ hnoted

end RecvKept

end Receiving

theorem proceed_kept {I : Machine → Prop} (hsend : SendKept I) (hrecv : RecvKept I) {m : Machine}
    (after : After) (hm : I m) : I (proceed m after) := by
  cases after with
  | poll len => exact hsend.resumePoll len hm
  | pollAbort => exact hsend.abortSends _ hm
  | recv data => exact hrecv.resumeRecv data hm
  | recvAbort => exact hrecv.abortReceives _ hm

section Steps

variable {I : Machine → Prop} {m : Machine}

theorem SendKept.channelAioSend (hI : SendKept I)
    (hqueue : ∀ data len cb, I (enqueueSend m data len cb)) (data : Bytes) (cb : Bool)
    (hm : I m) : I (channelAioSend m data cb) := by
  unfold Channels.channelAioSend
  split
  · exact hm
  · exact hI.resumePoll _ (hI.note _ _ (hqueue (some data) data.length cb))

theorem SendKept.channelAioFdSend (hI : SendKept I)
    (hqueue : ∀ data len cb, I (enqueueSend m data len cb)) (len : ℕ) (cb : Bool) (hm : I m) :
    I (channelAioFdSend m len cb) := by
  unfold Channels.channelAioFdSend
  split
  · exact hm
  · exact hI.resumePoll _ (hqueue none len cb)

theorem SendKept.channelSend (hI : SendKept I) (data : Bytes) (hm : I m) :
    I (channelSend m data) := by
  unfold Channels.channelSend
  split
  · exact hm
  · exact hI.note _ _ (hI.link m _ hm)

theorem enqueueReceive_kept {data : Option Bytes} {len : ℕ} {cb : Bool} (hm : I m)
    (hqueue : I {m with
      chan := {m.chan with aioReceive := m.chan.aioReceive ++ [⟨m.nextReceive, data, len, 0, cb⟩]}
      nextReceive := m.nextReceive + 1
      received := m.received ++ [.registered m.nextReceive len cb]}) :
    I (enqueueReceive m data len cb) := by
  unfold enqueueReceive
  split
  · exact hm
  · exact hqueue

theorem channelClose_c (m : Machine) : (channelClose m).chan.c = false := by
  unfold channelClose
  by_cases hc : m.chan.c = true
  · simp [hc]
  · simp [Bool.eq_false_iff.mpr hc]

/-- A frame after which nothing is left to do. -/
def Ends : Frame → Prop
  | .pollCb _ => True
  | .receiveCb _ => True
  | _ => False

theorem Ends.kept {α : Type} {f : List Frame → α} {frame : Frame} {stack : List Frame}
    (h : Ends frame) (hpoll : ∀ len, f (.pollCb len :: stack) = f stack)
    (hreceive : ∀ data, f (.receiveCb data :: stack) = f stack) :
    f (frame :: stack) = f stack := by
  cases frame with
  | pollCb len => exact hpoll len
  | receiveCb data => exact hreceive data
  | _ => exact h.elim

/-- Everything an event can do leads to a property. -/
structure Moves (I : Machine → Prop) (m : Machine) (ev : Event) : Prop where
  call : ∀ x, ev = .call x → m.released = 0 → I (runCall m x)
  back : ∀ after stack, m.stack = .callback after :: stack →
    I (callbackDone {m with stack := stack} after)
  pop : ∀ frame stack, m.stack = frame :: stack → Ends frame → I {m with stack := stack}
  read : ∀ len stack data, m.chan.c = true → m.stack = .reading len :: stack →
    I (readDone {m with stack := stack} len data)
  wrote : ∀ rest stack n, m.chan.c = true → m.stack = .writing rest :: stack →
    I (writeDone {m with stack := stack} rest n)
  poll : m.stack = [] → m.chan.c = true → sndbufFree m.link ≠ 0 →
    I (channelPoll m (sndbufFree m.link))
  pollError : ev = .pollError → m.stack = [] → m.chan.c = true → I (channelPoll m 0)
  recv : ∀ data, m.stack = [] → m.chan.c = true → I (channelRecv m data)
  exit : ev = .exit → m.stack = [] → m.chan.c = true → I (channelClose m)
  network : ∀ state room memory, ev = .network state room memory → m.stack = [] →
    I {m with link := {m.link with state := state, room := room, memory := memory}}

theorem Moves.step {ev : Event} (h : Moves I m ev) (hm : I m) : I (step m ev) := by
  cases ev with
  | call x =>
    simp only [Channels.step]
    split
    · next hcall => exact h.call x rfl hcall.2
    · exact hm
  | ret =>
    simp only [Channels.step, resume]
    split
    · next hstack => exact h.back _ _ hstack
    · next hstack => exact h.pop _ _ hstack trivial
    · next hstack => exact h.pop _ _ hstack trivial
    · exact hm
  | read data =>
    simp only [Channels.step]
    split
    · next hstack =>
      split
      · next hc => exact h.read _ _ data hc hstack
      · exact hm
    · exact hm
  | wrote n =>
    simp only [Channels.step]
    split
    · next hstack =>
      split
      · next hc => exact h.wrote _ _ n hc hstack
      · exact hm
    · exact hm
  | poll =>
    simp only [Channels.step]
    split
    · next hpoll => exact h.poll hpoll.1 hpoll.2.1 hpoll.2.2.2
    · exact hm
  | pollError =>
    simp only [Channels.step]
    split
    · next hpoll => exact h.pollError rfl hpoll.1 hpoll.2.1
    · exact hm
  | recv data =>
    simp only [Channels.step]
    split
    · next hrecv => exact h.recv data hrecv.1 hrecv.2
    · exact hm
  | exit =>
    simp only [Channels.step]
    split
    · next hexit => exact h.exit rfl hexit.1 hexit.2
    · exact hm
  | network state room memory =>
    simp only [Channels.step]
    split
    · next hstack => exact h.network state room memory rfl hstack
    · exact hm

end Steps

end Meshlink.ChannelLoops
