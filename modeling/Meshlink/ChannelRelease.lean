import Meshlink.ChannelLoops
import Meshlink.Systems

/-!
When a channel is released. Closing a channel releases it at once, unless its mark
says that a completion callback runs; then aio_finish_one releases it after the
callback. There is one mark for any number of callbacks: when a callback hands in
another buffer, and this one is completed on the spot, the mark is cleared while the
outer callback still runs. Closing is safe outside of completion callbacks, and inside
of a single one in which no other buffer was completed.
-/
namespace Meshlink.ChannelRelease

open Channels ChannelLoops Systems Machine

/-- The number of completion callbacks that run. -/
def callbacks : List Frame → ℕ
  | [] => 0
  | .callback _ :: stack => callbacks stack + 1
  | _ :: stack => callbacks stack

/-- A close or an abort comes from outside of completion callbacks, or from a single
one, in which no other buffer was completed. -/
def ClosesSafely (m : Machine) : Event → Prop
  | .call .close => callbacks m.stack = 0 ∨ callbacks m.stack = 1 ∧ m.chan.inCallback = true
  | .call .abort => callbacks m.stack = 0 ∨ callbacks m.stack = 1 ∧ m.chan.inCallback = true
  | _ => True

instance (m : Machine) (ev : Event) : Decidable (ClosesSafely m ev) := by
  unfold ClosesSafely
  split <;> infer_instance

/-- A channel that is open, with no call in progress. -/
structure Idle (m : Machine) : Prop where
  c : m.chan.c = true
  inCallback : m.chan.inCallback = false
  stack : m.stack = []
  released : m.released = 0
  fault : m.fault = false

/-- An open channel is there, and its mark is set only inside of a callback. A closed
one is released, or will be by the only callback that runs. -/
structure Owned (m : Machine) : Prop where
  fault : m.fault = false
  kept : m.chan.c = true → m.released = 0 ∧ (m.chan.inCallback = true → 0 < callbacks m.stack)
  closed : m.chan.c = false →
    m.released = 0 ∧ callbacks m.stack = 1 ∧ m.chan.inCallback = true ∨
      m.released = 1 ∧ callbacks m.stack = 0

section Invariant

variable {m : Machine}

theorem Owned.pass (hm : Owned m) : Owned m.pass := by
  unfold Machine.pass
  split
  · next hc =>
    refine ⟨hm.fault, fun _ => ⟨(hm.kept hc).1, nofun⟩, fun hclosed => ?_⟩
    exact absurd (hc.symm.trans hclosed) (by decide)
  · exact hm

theorem Owned.enter (hm : Owned m) (after : After) (hc : m.chan.c = true) :
    Owned (m.enter after) := by
  refine ⟨hm.fault, fun _ => ⟨(hm.kept hc).1, fun _ => Nat.succ_pos _⟩, fun hclosed => ?_⟩
  exact absurd (hc.symm.trans hclosed) (by decide)

theorem sendKept_owned : SendKept Owned where
  queue := fun _ _ hm => {hm with}
  note := fun _ _ hm => {hm with}
  link := fun _ _ hm => {hm with}
  pass := fun _ hm => hm.pass
  poll := fun _ len hc hm => hm.enter (.poll len) hc
  abort := fun _ hc hm => hm.enter .pollAbort hc
  pollCb := fun _ _ hm => {hm with}
  reading := fun _ _ hm => {hm with}

theorem recvKept_owned : RecvKept Owned where
  queue := fun _ _ hm => {hm with}
  note := fun _ _ _ hm => {hm with}
  pass := fun _ hm => hm.pass
  recv := fun _ data hc hm => hm.enter (.recv data) hc
  abort := fun _ hc hm => hm.enter .recvAbort hc
  receiveCb := fun _ _ hm => {hm with}
  writing := fun _ _ hm => {hm with}

/-- The end of a callback releases a channel that was closed in it. -/
theorem Owned.callbackDone {after : After} {stack : List Frame} (hm : Owned m)
    (hstack : m.stack = .callback after :: stack) :
    Owned (callbackDone {m with stack := stack} after) := by
  have hcount : callbacks m.stack = callbacks stack + 1 := by
    rw [hstack]
    rfl
  have hfault : m.released = 0 → (m.fault || decide (0 < m.released)) = false := by
    intro hrel
    rw [hm.fault, hrel]
    rfl
  unfold Channels.callbackDone
  by_cases hc : m.chan.c = true
  · have hrel := (hm.kept hc).1
    have hback : Owned (regain {m with stack := stack}) := by
      refine ⟨hfault hrel, fun _ => ⟨hrel, nofun⟩, fun hclosed => ?_⟩
      exact absurd (hc.symm.trans hclosed) (by decide)
    rw [if_pos hc]
    exact proceed_kept sendKept_owned recvKept_owned after hback
  · rw [if_neg hc]
    rcases hm.closed (Bool.eq_false_iff.mpr hc) with ⟨hrel, hone, -⟩ | ⟨-, hnone⟩
    · have hnone : callbacks stack = 0 := by omega
      refine ⟨hfault hrel, fun hopen => absurd hopen hc, fun _ => Or.inr ⟨?_, hnone⟩⟩
      show m.released + 1 = 1
      rw [hrel]
    · omega

/-- A channel that is closed safely is released now, or by the callback that runs. -/
theorem Owned.channelClose (hm : Owned m) (hrel : m.released = 0)
    (hsafe : callbacks m.stack = 0 ∨ callbacks m.stack = 1 ∧ m.chan.inCallback = true) :
    Owned (channelClose m) := by
  have hmarked : m.chan.inCallback = true → callbacks m.stack = 1 := by
    intro hmark
    rcases hsafe with hnone | ⟨hone, -⟩
    · by_cases hc : m.chan.c = true
      · exact absurd ((hm.kept hc).2 hmark) (by omega)
      · rcases hm.closed (Bool.eq_false_iff.mpr hc) with ⟨-, hone, -⟩ | ⟨hone, -⟩
        · exact hone
        · omega
    · exact hone
  have hmark : (Channels.channelClose m).chan.inCallback = m.chan.inCallback := by
    unfold Channels.channelClose
    by_cases hc : m.chan.c = true
    · simp [hc]
    · simp [Bool.eq_false_iff.mpr hc]
  refine ⟨hm.fault, fun hopen => absurd ((channelClose_c m).symm.trans hopen) (by decide),
    fun _ => ?_⟩
  by_cases hin : m.chan.inCallback = true
  · refine Or.inl ⟨?_, hmarked hin, hmark.trans hin⟩
    exact (if_pos hin).trans hrel
  refine Or.inr ⟨(if_neg hin).trans (by rw [hrel]), ?_⟩
  rcases hsafe with hnone | ⟨-, hin'⟩
  · exact hnone
  · exact absurd hin' hin

theorem Owned.runCall {x : Call} (hm : Owned m) (hrel : m.released = 0)
    (hsafe : ClosesSafely m (.call x)) : Owned (runCall m x) := by
  have hqueue : ∀ data len cb, Owned (enqueueSend m data len cb) := fun _ _ _ => {hm with}
  cases x with
  | aioSend data cb => exact sendKept_owned.channelAioSend hqueue data cb hm
  | aioFdSend len cb => exact sendKept_owned.channelAioFdSend hqueue len cb hm
  | send data => exact sendKept_owned.channelSend data hm
  | aioReceive | aioFdReceive => exact enqueueReceive_kept hm {hm with}
  | setPollCb | setReceiveCb => exact {hm with}
  | close | abort => exact hm.channelClose hrel hsafe

/-- A frame that is no completion callback ends. -/
theorem Owned.pop {frame : Frame} {stack : List Frame} (hm : Owned m)
    (hstack : m.stack = frame :: stack) (hframe : callbacks (frame :: stack) = callbacks stack) :
    Owned {m with stack := stack} := by
  have hcount : callbacks m.stack = callbacks stack := hstack ▸ hframe
  exact {hm with kept := hcount ▸ hm.kept, closed := hcount ▸ hm.closed}

theorem Owned.step {ev : Event} (hm : Owned m) (hsafe : ClosesSafely m ev) : Owned (step m ev) := by
  refine Moves.step ?_ hm
  exact {
    call := fun x hev hrel => hm.runCall hrel (hev ▸ hsafe)
    back := fun after stack hstack => hm.callbackDone hstack
    pop := fun frame stack hstack hends =>
      hm.pop hstack (hends.kept (fun _ => rfl) fun _ => rfl)
    read := fun len stack data _ hstack => sendKept_owned.readDone len data (hm.pop hstack rfl)
    wrote := fun rest stack n _ hstack => recvKept_owned.writeDone rest n (hm.pop hstack rfl)
    poll := fun _ _ _ => sendKept_owned.pollLoop _ _ hm
    pollError := fun _ _ _ => sendKept_owned.pollLoop _ _ hm
    recv := fun data _ _ => recvKept_owned.channelRecv data hm
    exit := fun _ hstack hc => hm.channelClose (hm.kept hc).1 (Or.inl (by rw [hstack]; rfl))
    network := fun _ _ _ _ _ => {hm with} }

theorem Idle.owned (hm : Idle m) : Owned m := by
  refine ⟨hm.fault, fun _ => ⟨hm.released, fun hmark => ?_⟩, fun hclosed => ?_⟩
  · exact absurd (hm.inCallback.symm.trans hmark) Bool.false_ne_true
  · exact absurd (hm.c.symm.trans hclosed) (by decide)

end Invariant

/-- A channel that is only closed safely is never used by aio_finish_one after its
release, is released at most once, and is released by the time all callbacks have
returned. -/
theorem released_once (m : Machine) (evs : List Event) (hm : Idle m)
    (hevs : Along step ClosesSafely m evs) :
    (run m evs).fault = false ∧ (run m evs).released ≤ 1 ∧
      ((run m evs).chan.c = false → (run m evs).stack = [] → (run m evs).released = 1) := by
  have hrun : Owned (run m evs) := kept_along (fun _ _ hsafe h => h.step hsafe) hevs hm.owned
  refine ⟨hrun.fault, ?_, fun hclosed hstack => ?_⟩
  · by_cases hc : (run m evs).chan.c = true
    · rw [(hrun.kept hc).1]
      exact Nat.zero_le 1
    · rcases hrun.closed (Bool.eq_false_iff.mpr hc) with ⟨hrel, -⟩ | ⟨hrel, -⟩
      · omega
      · omega
  · rcases hrun.closed hclosed with ⟨-, hone, -⟩ | ⟨hrel, -⟩
    · rw [hstack] at hone
      exact absurd hone (by decide)
    · exact hrel

theorem idle_newChannel (room : ℕ) : Idle (newChannel room) := ⟨rfl, rfl, rfl, rfl, rfl⟩

theorem released_once_callback :
    let m := run (newChannel 8) [.call (.aioSend [1] true), .call .close, .ret]
    m.chan.c = false ∧ (m.fault = false ∧ m.released ≤ 1 ∧
      (m.chan.c = false → m.stack = [] → m.released = 1)) :=
  ⟨by decide, released_once (newChannel 8) [.call (.aioSend [1] true), .call .close, .ret]
    (idle_newChannel 8) (by decide)⟩

/-- A callback hands in a second buffer, whose callback closes the channel. The inner
aio_finish_one releases the channel, and the outer one uses it and releases it again. -/
theorem nested_close_released_twice :
    let m := run (newChannel 8) [.call (.aioSend [1] true), .call (.aioSend [2] true),
      .call .close, .ret, .ret]
    Idle (newChannel 8) ∧ m.fault = true ∧ m.released = 2 :=
  ⟨idle_newChannel 8, by decide, by decide⟩

end Meshlink.ChannelRelease
