import Meshlink.ConnectionTable
import Meshlink.Deadlines

/-!
How long an application may sleep after utcp_timeout. The loop visits the connections
in turn, resends and polls, and takes the earliest deadline of each connection right
after its visit. The interval it returns is right as long as no callback gives an
earlier deadline to a connection that has been visited before, and adds no connection
in front of the current one: neither is looked at again.
-/
namespace Meshlink.TimeoutInterval

open List hiding after
open UtcpState UtcpTimers UtcpSender Commands UtcpEndpoint UtcpProcess
open ConnectionTable RttEstimate CallPieces Deadlines

/-- The clock has not gone back, and the user timeout is not set to a negative value. -/
def Sane (now : Timespec) (call : Call) : Prop :=
  (∀ k, Reading now (call.env.clk k)) ∧
    ∀ timeout, call.request = .setUserTimeout timeout → 0 ≤ timeout

/-- What stays true of the endpoint while callbacks run. The table does not grow by more
than the calls that are still to be made: those of the scripts, and `credit` more. -/
structure Table (now : Timespec) (bound credit : ℕ) (w : World) : Prop where
  distinct : (w.utcp.connections.map Prod.fst).Nodup
  below : Handles.Below w.utcp.connections w.utcp.nextHandle
  budget : loopFuel w + credit ≤ bound
  timeout : 0 ≤ w.utcp.timeout
  calls : ∀ script ∈ w.scripts, ∀ call ∈ script.calls, Sane now call
  normalised : ∀ x ∈ w.utcp.connections,
    Normalised x.2.connTimeout ∧ Normalised x.2.rtrxTimeout

/-- The connection that is visited is in `P` as well. -/
structure Visiting (now : Timespec) (bound h : ℕ) (P : Conn → Prop) (credit : ℕ) (w : World) :
    Prop extends Table now bound credit w where
  known : h < w.utcp.nextHandle
  held : ∀ c, (h, c) ∈ w.utcp.connections → P c

variable {now : Timespec} {bound h credit : ℕ} {P : Conn → Prop}

section Callbacks

theorem mem_put {t : List (ℕ × Conn)} {k : ℕ} {c : Conn} {x : ℕ × Conn}
    (hx : x ∈ Handles.put t k c) : x ∈ t ∧ x.1 ≠ k ∨ x = (k, c) := by
  obtain ⟨y, hy, rfl⟩ := mem_map.mp hx
  split
  case isTrue heq => exact Or.inr (by rw [heq])
  case isFalse hne => exact Or.inl ⟨hy, hne⟩

/-- A connection is replaced. -/
theorem Visiting.put {w : World} {P' : Conn → Prop} {k : ℕ} {c c' : Conn}
    (hw : Visiting now bound h P credit w)
    (hfind : Handles.find w.utcp.connections k = some c) (pkt : ℕ → UInt8)
    (trace : List (ℕ × Ev)) (hnormal : Normalised c'.connTimeout ∧ Normalised c'.rtrxTimeout)
    (hself : k = h → P c → P' c') (hother : k ≠ h → ∀ d, P d → P' d) :
    Visiting now bound h P' credit
      { w with
        utcp := { w.utcp with connections := Handles.put w.utcp.connections k c', pkt := pkt }
        trace := trace } where
  distinct := by
    dsimp only
    rw [put_fst]
    exact hw.distinct
  below := Handles.put_below _ _ _ _ hw.below
  budget := by
    have hbudget := hw.budget
    unfold loopFuel at hbudget ⊢
    rw [show (Handles.put w.utcp.connections k c').length = _ from length_map _]
    exact hbudget
  timeout := hw.timeout
  calls := hw.calls
  normalised := fun x hx => by
    rcases mem_put hx with ⟨hold, -⟩ | rfl
    · exact hw.normalised x hold
    · exact hnormal
  known := hw.known
  held := fun d hd => by
    rcases mem_put hd with ⟨hold, hne⟩ | heq
    · exact hother (fun heq => hne heq.symm) d (hw.held d hold)
    · obtain ⟨rfl, rfl⟩ := Prod.mk.inj heq
      exact hself rfl (hw.held c (Handles.find_mem _ _ _ hfind))

/-- A command that takes the visited connection from `P` to `P'`. -/
def Turns (now : Timespec) (bound h : ℕ) (P P' : Conn → Prop) (credit : ℕ) {α : Type}
    (x : Command World α) : Prop :=
  Triple (fun _ => True) (Visiting now bound h P credit) x
    fun _ => Visiting now bound h P' credit

/-- What every call keeps of a connection. -/
def Lasting (now : Timespec) (P : Conn → Prop) : Prop := ∀ c c', Rearmed now c c' → P c → P c'

abbrev Lasts (now : Timespec) (bound h : ℕ) (P : Conn → Prop) (credit : ℕ) {α : Type}
    (x : Command World α) : Prop :=
  Turns now bound h P P credit x

theorem pure_lasts {α : Type} (a : α) : Lasts now bound h P credit (pure a) :=
  Triple.pure a fun _ hw => hw

theorem onConn_triple {α : Type} {k : ℕ} {P' : Conn → Prop} {f : Utcp → Conn → Option (Step α)}
    (hnormal : ∀ u c s, 0 ≤ u.timeout → f u c = some s →
      Normalised c.connTimeout ∧ Normalised c.rtrxTimeout →
      Normalised s.conn.connTimeout ∧ Normalised s.conn.rtrxTimeout)
    (hself : k = h → ∀ u c s, 0 ≤ u.timeout → f u c = some s → P c → P' s.conn)
    (hother : k ≠ h → ∀ d, P d → P' d) : Turns now bound h P P' credit (onConn k f) := by
  intro w hw
  unfold onConn
  cases hfind : Handles.find w.utcp.connections k with
  | none => trivial
  | some c =>
    dsimp only
    cases hstep : f w.utcp c with
    | none => trivial
    | some s =>
      have hold := hw.normalised (k, c) (Handles.find_mem _ _ _ hfind)
      exact hw.put hfind s.pkt _ (hnormal _ c s hw.timeout hstep hold)
        (fun heq hc => hself heq _ c s hw.timeout hstep hc) hother

theorem onConn_lasts {α : Type} {k : ℕ} {f : Utcp → Conn → Option (Step α)} (hP : Lasting now P)
    (hf : ∀ u c s, 0 ≤ u.timeout → f u c = some s → Rearmed now c s.conn) :
    Lasts now bound h P credit (onConn k f) :=
  onConn_triple (fun u c s hu hs hc => (hf u c s hu hs).normalised hc)
    (fun _ u c s hu hs hc => hP c s.conn (hf u c s hu hs) hc) fun _ _ hd => hd

theorem Visiting.mono {w : World} {k : ℕ} (hw : Visiting now bound h P (k + credit) w) :
    Visiting now bound h P credit w :=
  { hw with budget := by have hbudget := hw.budget; omega }

/-- Everything but the trace, the packet buffer and the connections stays the same. -/
theorem map_lasts (hP : Lasting now P) {f : Utcp → Conn → Conn}
    (hf : ∀ u c, 0 ≤ u.timeout → Rearmed now c (f u c)) :
    Lasts now bound h P credit (update fun w => { w with utcp := mapConns f w.utcp }) := by
  refine Triple.update _ fun w hw => ?_
  refine ⟨⟨?_, Handles.map_below _ (f w.utcp) _ hw.below, ?_, hw.timeout, hw.calls, ?_⟩,
    hw.known, ?_⟩
  · rw [show (mapConns f w.utcp).connections.map Prod.fst = w.utcp.connections.map Prod.fst from
      map_map]
    exact hw.distinct
  · have hbudget := hw.budget
    unfold loopFuel at hbudget ⊢
    rw [show (mapConns f w.utcp).connections.length = _ from length_map _]
    exact hbudget
  · intro x hx
    obtain ⟨y, hy, rfl⟩ := mem_map.mp hx
    exact (hf w.utcp y.2 hw.timeout).normalised (hw.normalised y hy)
  · intro c hc
    obtain ⟨y, hy, heq⟩ := mem_map.mp hc
    obtain ⟨rfl, rfl⟩ := Prod.mk.inj heq
    exact hP y.2 _ (hf w.utcp y.2 hw.timeout) (hw.held y.2 hy)

/-- A new connection uses up a call, and is not the one that is visited. -/
theorem allocateConnection_triple (e : Env) (dst : UInt16) :
    Triple (fun _ => True) (Visiting now bound h P (credit + 1)) (allocateConnection e 0 dst)
      fun found w => Visiting now bound h P credit w ∧ ∀ k, found = some k → k ≠ h := by
  intro w hw
  have hmono : Visiting now bound h P credit w := Visiting.mono (k := 1) (by rwa [Nat.add_comm])
  rw [allocateConnection_eq]
  cases refused w.utcp 0 dst with
  | true => exact ⟨hmono, nofun⟩
  | false =>
    cases outOfMemory w.utcp e with
    | true => exact ⟨{ hmono with }, nofun⟩
    | false =>
      refine ⟨⟨⟨?_, ?_, ?_, hw.timeout, hw.calls, ?_⟩, Nat.lt_succ_of_lt hw.known, ?_⟩, ?_⟩
      · exact insert_distinct _ hw.distinct hw.below
      · exact Handles.orderedInsert_below portsLe _ _ _ hw.below
      · have hbudget := hw.budget
        unfold loopFuel at hbudget ⊢
        rw [show (withConn w.utcp _).connections.length = _ from
          orderedInsert_length portsLe _ _]
        dsimp only
        omega
      · intro x hx
        rcases (mem_orderedInsert portsLe).mp hx with rfl | hx
        · exact ⟨normalised_clear, normalised_clear⟩
        · exact hw.normalised x hx
      · intro c hc
        rcases (mem_orderedInsert portsLe).mp hc with heq | hc
        · exact absurd (congrArg Prod.fst heq) hw.known.ne
        · exact hw.held c hc
      · rintro _ ⟨rfl⟩
        exact Nat.ne_of_gt hw.known

theorem utcpConnect_triple {e : Env} (he : ∀ k, Reading now (e.clk k)) (dst : UInt16)
    (recv : Bool) (flags : UInt32) :
    Triple (fun _ => True) (Visiting now bound h P (credit + 1)) (utcpConnect e dst recv flags)
      fun _ => Visiting now bound h P credit := by
  refine Triple.bind (allocateConnection_triple e dst) fun found => Triple.assume fun hne => ?_
  cases found with
  | none => exact pure_lasts ()
  | some k =>
    refine Triple.ite (fun _ => Triple.stop fun _ _ => trivial) fun _ => ?_
    refine onConn_triple (fun u c s hu hs _ => ?_) (fun heq => absurd heq (hne k rfl))
      fun _ _ hd => hd
    cases hs
    exact ⟨((he 0).userTimeout hu).normalised, ((he 1).retransmitDeadline _).normalised⟩

theorem emit_lasts (k : ℕ) (ev : Ev) : Lasts now bound h P credit (emit k ev) :=
  Triple.update _ fun _ hw => { hw with }

variable {cb : Command World Bool} (hP : Lasting now P)
  (hcb : ∀ credit, Lasts now bound h P credit cb)

include hcb in
theorem callPoll_lasts (k len : ℕ) : Lasts now bound h P credit (callPoll cb k len) :=
  Triple.bind (emit_lasts k _) fun _ => Triple.bind (hcb credit) fun _ => pure_lasts ()

theorem getConn_lasts (k : ℕ) : Lasts now bound h P credit (getConn k) := by
  intro w hw
  unfold getConn
  cases Handles.find w.utcp.connections k with
  | none => trivial
  | some c => exact hw

include hcb in
theorem notifyClosed_lasts (k : ℕ) (errno : Errno) :
    Lasts now bound h P credit (notifyClosed cb k errno) := by
  have hrecv : Lasts now bound h P credit (callRecvNull cb k errno) := by
    refine Triple.bind (getConn_lasts k) fun c => ?_
    refine Triple.ite (fun _ => ?_) fun _ => pure_lasts ()
    exact Triple.bind (emit_lasts k _) fun _ => Triple.bind (hcb credit) fun _ =>
      pure_lasts ()
  refine Triple.bind hrecv fun _ => Triple.bind (getConn_lasts k) fun c => ?_
  exact Triple.ite (fun _ => callPoll_lasts hcb k 0) fun _ => pure_lasts ()

include hP hcb in
theorem resetAllFrom_lasts (fuel i : ℕ) : Lasts now bound h P credit (resetAllFrom cb fuel i) := by
  induction fuel generalizing i with
  | zero => exact pure_lasts ()
  | succ fuel ih =>
    refine Triple.bind (Triple.read _) fun entry => ?_
    cases entry with
    | none => exact pure_lasts ()
    | some entry =>
      refine Triple.ite (fun _ => ih (i + 1)) fun _ => ?_
      refine Triple.bind (onConn_lasts hP fun u c s _ hs => ?_) fun _ => ?_
      · cases hs
        exact resetConnection_rearmed
      · exact Triple.bind (notifyClosed_lasts hcb _ _) fun _ => ih (i + 1)

include hP hcb in
/-- A call that connects uses up its credit; all others could keep it. -/
theorem perform_triple {call : Call} (hcall : Sane now call) :
    Triple (fun _ => True) (Visiting now bound h P (credit + 1)) (perform cb call)
      fun _ => Visiting now bound h P credit := by
  obtain ⟨he, htimeout⟩ := hcall
  have hspend {x : Command World Unit} (hx : Lasts now bound h P credit x) :
      Triple (fun _ => True) (Visiting now bound h P (credit + 1)) x
        fun _ => Visiting now bound h P credit :=
    hx.mono (fun w hw => Visiting.mono (k := 1) (by rwa [Nat.add_comm])) fun _ _ hw => hw
  unfold perform
  cases hrequest : call.request with
  | on k op =>
    refine hspend (Triple.bind (onConn_lasts hP fun u c s hu hs => ?_) fun _ =>
      pure_lasts ())
    exact trail_rearmed he hu (connCall_trail hs).1
  | connect dst recv flags => exact utcpConnect_triple he dst recv flags
  | setMtu mtu =>
    refine hspend (Triple.update _ fun w hw => ?_)
    unfold setMtu
    split
    · exact hw
    · split
      · exact hw
      · exact { hw with }
  | setUserTimeout timeout =>
    exact hspend (Triple.update _ fun w hw => { hw with timeout := htimeout timeout hrequest })
  | setAcceptCb | setRetransmitCb | setClockGranularity =>
    exact hspend (Triple.update _ fun w hw => { hw with })
  | resetTimers => exact hspend (map_lasts hP fun u c hu => resetTimers_rearmed he hu)
  | offline offline => exact hspend (map_lasts hP fun u c hu => offlineConn_rearmed he hu offline)
  | resetAll =>
    exact hspend (Triple.bind (Triple.read _) fun fuel => resetAllFrom_lasts hP hcb fuel 0)

include hP hcb in
theorem performAll_triple {calls : List Call} (hcalls : ∀ call ∈ calls, Sane now call) :
    Triple (fun _ => True) (Visiting now bound h P (credit + calls.length))
      (performAll cb calls) fun _ => Visiting now bound h P credit := by
  induction calls with
  | nil => exact pure_lasts ()
  | cons call rest ih =>
    refine Triple.bind (perform_triple hP hcb (hcalls call mem_cons_self)) fun _ => ?_
    exact ih fun other hother => hcalls other (mem_cons_of_mem _ hother)

end Callbacks

theorem callback_lasts (hP : Lasting now P) (depth credit : ℕ) :
    Lasts now bound h P credit (callback depth) := by
  induction depth generalizing credit with
  | zero => exact pure_lasts true
  | succ depth ih =>
    refine Triple.bind (Q := fun scripts w => Visiting now bound h P credit w ∧
      w.scripts = scripts) (fun w hw => ⟨hw, rfl⟩) fun scripts => ?_
    cases scripts with
    | nil => exact Triple.pure true fun _ hw => hw.1
    | cons script rest =>
      refine Triple.bind (Q := fun _ w => Visiting now bound h P (credit + script.calls.length) w ∧
        ∀ call ∈ script.calls, Sane now call) (Triple.update _ fun w hw => ?_) fun _ => ?_
      · obtain ⟨hw, hscripts⟩ := hw
        refine ⟨{ hw with budget := ?_, calls := ?_ }, ?_⟩
        · have hbudget := hw.budget
          unfold loopFuel at hbudget ⊢
          rw [hscripts, map_cons, sum_cons] at hbudget
          dsimp only
          omega
        · intro other hother
          exact hw.calls other (hscripts ▸ mem_cons_of_mem _ hother)
        · exact hw.calls script (hscripts ▸ mem_cons_self)
      · refine Triple.assume fun hcalls => ?_
        exact Triple.bind (performAll_triple hP ih hcalls) fun _ =>
          pure_lasts script.accepts

section Visits

/-- What the loop does with a connection that is not closed. -/
def visit (cb : Command World Bool) (now : Timespec) (e : Env) (h : ℕ) (c : Conn) :
    Command World Unit :=
  if timespecIsset c.connTimeout && timespecLt c.connTimeout now then do
    modifyConn h fun _ => timeOut
    notifyClosed cb h .etimedout
  else do
    if timespecIsset c.rtrxTimeout && timespecLt c.rtrxTimeout now then retransmit cb e h
    pollConn cb h

theorem lasting_closed : Lasting now fun c => c.state = .closed :=
  fun _ _ hcalls hc => hcalls.closed hc

theorem lasting_conn : Lasting now fun c => Late now c.connTimeout := by
  intro c c' hcalls hc
  rcases hcalls.connTimeout with heq | hlate
  · rwa [heq]
  · exact hlate

/-- Neither deadline has passed. -/
def Ahead (now : Timespec) (c : Conn) : Prop := Late now c.connTimeout ∧ Late now c.rtrxTimeout

theorem lasting_both : Lasting now (Ahead now) := by
  intro c c' hcalls hc
  refine ⟨lasting_conn c c' hcalls hc.1, ?_⟩
  rcases hcalls.rtrxTimeout with heq | hlate
  · rw [heq]
    exact hc.2
  · exact hlate

variable {cb : Command World Bool} {e : Env}

theorem modifyConn_triple {P P' : Conn → Prop} {f : Utcp → Conn → Conn}
    (hnormal : ∀ u c, Normalised c.connTimeout ∧ Normalised c.rtrxTimeout →
      Normalised (f u c).connTimeout ∧ Normalised (f u c).rtrxTimeout)
    (hself : ∀ u c, P c → P' (f u c)) : Turns now bound h P P' credit (modifyConn h f) := by
  refine onConn_triple (fun u c s _ hs hc => ?_) (fun _ u c s _ hs hc => ?_)
    fun hne => absurd rfl hne
  · cases hs
    exact hnormal u c hc
  · cases hs
    exact hself u c hc

/-- A connection that has timed out is closed when its visit ends. -/
theorem timeOut_triple (hcb : ∀ credit, Lasts now bound h (fun c => c.state = .closed) credit cb) :
    Turns now bound h (fun _ => True) (fun c => c.state = .closed) credit
      (do modifyConn h fun _ => timeOut
          notifyClosed cb h .etimedout) :=
  Triple.bind (modifyConn_triple (fun _ _ hc => hc) fun _ _ _ => rfl)
    fun _ => notifyClosed_lasts hcb h _

/-- A retransmission starts the timer again, or stops it. -/
theorem retransmit_triple (he : ∀ k, Reading now (e.clk k))
    (hcb : ∀ credit, Lasts now bound h (fun c => Late now c.connTimeout) credit cb) :
    Turns now bound h (fun c => Late now c.connTimeout) (Ahead now) credit
      (retransmit cb e h) := by
  refine Triple.bind (getConn_lasts h) fun c => Triple.ite (fun _ => ?_) fun _ => ?_
  · exact modifyConn_triple (fun _ _ hc => ⟨hc.1, normalised_clear⟩) fun _ _ hc => ⟨hc, late_clear⟩
  refine Triple.bind (Triple.read _) fun u => ?_
  have hsend : Turns now bound h (fun c => Late now c.connTimeout) (Ahead now) credit
      (onConn h fun u c => retransmitSend u e c) := by
    refine onConn_triple (fun u c s _ hs hc => ?_) (fun _ u c s _ hs hc => ?_)
      fun hne => absurd rfl hne
    · obtain ⟨hconn, hlate, -⟩ := retransmitSend_late he hs
      rw [hconn]
      exact ⟨hc.1, hlate.normalised⟩
    · obtain ⟨hconn, hlate, -⟩ := retransmitSend_late he hs
      exact ⟨hconn ▸ hc, hlate⟩
  exact Triple.ite (fun _ => Triple.bind (hcb credit) fun _ => hsend) fun _ => hsend

theorem pollConn_lasts {P : Conn → Prop} (hP : Lasting now P)
    (hcb : ∀ credit, Lasts now bound h P credit cb) :
    Lasts now bound h P credit (pollConn cb h) := by
  refine Triple.bind (getConn_lasts h) fun c => Triple.ite (fun _ => ?_) fun _ => pure_lasts ()
  refine Triple.ite (fun _ => ?_) fun _ =>
    Triple.ite (fun _ => callPoll_lasts hcb h 0) fun _ => pure_lasts ()
  refine Triple.bind (onConn_lasts hP fun u c s _ hs => ?_) fun _ => ?_
  · cases hs
    exact ⟨Or.inl rfl, Or.inl rfl, id⟩
  · exact Triple.ite (fun _ => callPoll_lasts hcb h _) fun _ => pure_lasts ()

/-- The state of a connection after its visit, by whether its connection timer had run out. -/
def Settled (now : Timespec) (due : Bool) (c : Conn) : Prop :=
  if due then c.state = .closed else Ahead now c

theorem visit_triple (hnow : Normalised now) (he : ∀ k, Reading now (e.clk k)) (depth : ℕ)
    {c : Conn} (hc : Normalised c.connTimeout ∧ Normalised c.rtrxTimeout) :
    Turns now bound h (fun d => d = c)
      (Settled now (timespecIsset c.connTimeout && timespecLt c.connTimeout now)) credit
      (visit (callback depth) now e h c) := by
  unfold visit Settled
  cases hdue : timespecIsset c.connTimeout && timespecLt c.connTimeout now with
  | true =>
    refine (timeOut_triple fun credit => callback_lasts lasting_closed depth credit).mono
      (fun w hw => { hw with held := fun _ _ => trivial }) fun _ _ hw => hw
  | false =>
    have hconn := late_of_not_due hnow hc.1 hdue
    have hpoll : Lasts now bound h (Ahead now) credit (pollConn (callback depth) h) :=
      pollConn_lasts lasting_both fun credit => callback_lasts lasting_both depth credit
    simp only [Bool.false_eq_true, if_false]
    refine Triple.ite (fun _ => ?_) fun hrtrx => ?_
    · refine Triple.bind (Triple.mono (retransmit_triple he fun credit =>
        callback_lasts lasting_conn depth credit) (fun w hw => ?_) fun _ _ hw => hw) fun _ => hpoll
      exact { hw with held := fun d hd => hw.held d hd ▸ hconn }
    · have hlate := late_of_not_due hnow hc.2 (Bool.eq_false_iff.mpr hrtrx)
      refine hpoll.mono (fun w hw => ?_) fun _ _ hw => hw
      exact { hw with held := fun d hd => hw.held d hd ▸ ⟨hconn, hlate⟩ }

end Visits

section Loop

variable {cb : Command World Bool} {envs : ℕ → Env} {fuel i : ℕ} {next last : Timespec}
  {w w' : World}

/-- One round of the loop of utcp_timeout, in a call that returns `last`. -/
inductive Round (cb : Command World Bool) (now : Timespec) (envs : ℕ → Env) (fuel i : ℕ)
    (next : Timespec) (w : World) (last : Timespec) (w' : World) : Prop
  | done (hentry : w.utcp.connections[i]? = none) (hlast : last = next) (hw : w' = w)
  | reaped (h : ℕ) (c : Conn) (hentry : w.utcp.connections[i]? = some (h, c))
      (hclosed : c.state = .closed) (hreapable : c.reapable = true)
      (hrest : timeoutFrom cb now envs fuel i next (after (freeConnection h) w) = (some last, w'))
  | skipped (h : ℕ) (c : Conn) (hentry : w.utcp.connections[i]? = some (h, c))
      (hclosed : c.state = .closed) (hreapable : c.reapable = false)
      (hrest : timeoutFrom cb now envs fuel (i + 1) next w = (some last, w'))
  | visited (h : ℕ) (c : Conn) (w₁ : World) (next' : Timespec)
      (hentry : w.utcp.connections[i]? = some (h, c)) (hopen : c.state ≠ .closed)
      (hvisit : visit cb now (envs i) h c w = (some (), w₁))
      (hnext : if timespecIsset c.connTimeout && timespecLt c.connTimeout now then next' = next
        else ∃ c₁, Handles.find w₁.utcp.connections h = some c₁ ∧
          next' = earlier c₁.rtrxTimeout (earlier c₁.connTimeout next))
      (hrest : timeoutFrom cb now envs fuel (i + 1) next' w₁ = (some last, w'))

theorem timeoutFrom_round (hrun : timeoutFrom cb now envs (fuel + 1) i next w = (some last, w')) :
    Round cb now envs fuel i next w last w' := by
  rw [timeoutFrom, bind_of_some (show gets _ w = (some _, w) from rfl)] at hrun
  cases hentry : w.utcp.connections[i]? with
  | none =>
    rw [hentry] at hrun
    cases hrun
    exact .done hentry rfl rfl
  | some entry =>
    obtain ⟨h, c⟩ := entry
    rw [hentry] at hrun
    dsimp only at hrun
    split at hrun
    case isTrue hclosed =>
      cases hreapable : c.reapable with
      | true =>
        rw [hreapable] at hrun
        exact .reaped h c hentry hclosed hreapable hrun
      | false =>
        rw [hreapable] at hrun
        exact .skipped h c hentry hclosed hreapable hrun
    case isFalse hopen =>
      split at hrun
      case isTrue hdue =>
        rw [← bind_assoc] at hrun
        obtain ⟨_, w₁, hvisit, hrest⟩ := returned_of_bind hrun
        refine .visited h c w₁ next hentry hopen ?_ ?_ hrest
        · rw [visit, if_pos hdue]
          exact hvisit
        · rw [if_pos hdue]
      case isFalse hdue =>
        have hjoin : (visit cb now (envs i) h c >>= fun _ => getConn h >>= fun c =>
            timeoutFrom cb now envs fuel (i + 1)
              (earlier c.rtrxTimeout (earlier c.connTimeout next))) w = (some last, w') := by
          rw [visit, if_neg hdue]
          split at hrun
          case isTrue hrtrx =>
            simp only [if_pos hrtrx, bind_assoc]
            exact hrun
          case isFalse hrtrx =>
            simp only [if_neg hrtrx]
            exact hrun
        obtain ⟨_, w₁, hvisit, hget⟩ := returned_of_bind hjoin
        obtain ⟨c₁, w₂, hfind, hrest⟩ := returned_of_bind hget
        unfold getConn at hfind
        obtain ⟨hfound, rfl⟩ := Prod.mk.inj hfind
        refine .visited h c w₁ _ hentry hopen hvisit ?_ hrest
        rw [if_neg hdue]
        exact ⟨c₁, hfound, rfl⟩

/-- The deadlines of a connection that are set. -/
def armed (c : Conn) : List Timespec := [c.connTimeout, c.rtrxTimeout].filter timespecIsset

def Covered (next : Timespec) (entries : List (ℕ × Conn)) : Prop :=
  ∀ x ∈ entries, x.2.state ≠ .closed → ∀ d ∈ armed x.2, nanoseconds next ≤ nanoseconds d

/-- The visit of the connection `h` at index `i` gives no earlier deadline to a connection
that was visited before, and puts no other connection at an index that has been passed. -/
def Quiet (i h : ℕ) (w w' : World) : Prop :=
  ∀ x ∈ w'.utcp.connections.take (i + 1), x.1 ≠ h → x.2.state ≠ .closed →
    ∃ y ∈ w.utcp.connections.take i, y.1 = x.1 ∧ y.2.state ≠ .closed ∧
      ∀ d ∈ armed x.2, ∃ d₀ ∈ armed y.2, nanoseconds d₀ ≤ nanoseconds d

/-- Every visit of the loop is quiet. -/
def Undisturbed (cb : Command World Bool) (now : Timespec) (envs : ℕ → Env) :
    ℕ → ℕ → World → Prop
  | 0, _, _ => True
  | fuel + 1, i, w =>
      match w.utcp.connections[i]? with
      | none => True
      | some (h, c) =>
          if c.state = .closed then
            if c.reapable then Undisturbed cb now envs fuel i (after (freeConnection h) w)
            else Undisturbed cb now envs fuel (i + 1) w
          else
            Quiet i h w (after (visit cb now (envs i) h c) w) ∧
              Undisturbed cb now envs fuel (i + 1) (after (visit cb now (envs i) h c) w)

theorem earlier_reading {d : Timespec} (hnext : Reading now next) (hd : Late now d) :
    Reading now (earlier d next) := by
  unfold earlier
  split
  case isTrue hboth =>
    exact ⟨hd.normalised, hd.late (Bool.and_eq_true_iff.mp hboth).1⟩
  case isFalse => exact hnext

theorem earlier_le {d : Timespec} (hnext : Normalised next) (hd : Normalised d) :
    nanoseconds (earlier d next) ≤ nanoseconds next ∧
      (timespecIsset d = true → nanoseconds (earlier d next) ≤ nanoseconds d) := by
  unfold earlier
  split
  case isTrue hboth =>
    have hlt := (timespecLt_iff hd hnext).mp (Bool.and_eq_true_iff.mp hboth).2
    exact ⟨Int.le_of_lt hlt, fun _ => Int.le_refl _⟩
  case isFalse hboth =>
    refine ⟨Int.le_refl _, fun hset => ?_⟩
    rw [hset, Bool.true_and] at hboth
    exact Int.not_lt.mp fun hlt => hboth ((timespecLt_iff hd hnext).mpr hlt)

variable {c : Conn} {h : ℕ}

/-- The next time of the loop after the visit of a connection whose deadlines are late. -/
theorem earlier_both (hnext : Reading now next) (hc : Ahead now c) :
    Reading now (earlier c.rtrxTimeout (earlier c.connTimeout next)) ∧
      nanoseconds (earlier c.rtrxTimeout (earlier c.connTimeout next)) ≤ nanoseconds next ∧
      ∀ d ∈ armed c,
        nanoseconds (earlier c.rtrxTimeout (earlier c.connTimeout next)) ≤ nanoseconds d := by
  have hconn := earlier_reading hnext hc.1
  obtain ⟨hle, hset⟩ := earlier_le hnext.1 hc.1.normalised
  obtain ⟨hle', hset'⟩ := earlier_le hconn.1 hc.2.normalised
  refine ⟨earlier_reading hconn hc.2, Int.le_trans hle' hle, fun d hd => ?_⟩
  obtain ⟨hmem, harmed⟩ := mem_filter.mp hd
  simp only [mem_cons, not_mem_nil, or_false] at hmem
  rcases hmem with rfl | rfl
  · exact Int.le_trans hle' (hset harmed)
  · exact hset' harmed

/-- Freeing the connection at an index moves those behind it. -/
theorem remove_at {t : List (ℕ × Conn)} (ht : (t.map Prod.fst).Nodup)
    (hentry : t[i]? = some (h, c)) :
    (Handles.remove t h).take i = t.take i ∧ (Handles.remove t h).length + 1 = t.length := by
  obtain ⟨hlt, hget⟩ := List.getElem?_eq_some_iff.mp hentry
  have hsplit : t = t.take i ++ (h, c) :: t.drop (i + 1) := by
    rw [← hget, ← drop_eq_getElem_cons hlt, take_append_drop]
  generalize hl : t.take i = l at hsplit
  generalize t.drop (i + 1) = r at hsplit
  have hlength : l.length = i := by
    rw [← hl, length_take]
    omega
  subst hsplit
  rw [map_append, map_cons] at ht
  have hleft : l.filter (fun e => decide (e.1 ≠ h)) = l := by
    refine filter_eq_self.mpr fun x hx => decide_eq_true fun heq => ?_
    exact (nodup_append.mp ht).2.2 x.1 (mem_map_of_mem hx) h mem_cons_self heq
  have hright : r.filter (fun e => decide (e.1 ≠ h)) = r := by
    refine filter_eq_self.mpr fun x hx => decide_eq_true fun heq => ?_
    have hmem : x.1 ∈ r.map Prod.fst := mem_map_of_mem hx
    exact (nodup_cons.mp (nodup_append.mp ht).2.1).1 (heq ▸ hmem)
  have hremove : Handles.remove (l ++ (h, c) :: r) h = l ++ r := by
    rw [Handles.remove, filter_append, filter_cons, hleft, hright]
    simp
  rw [hremove]
  refine ⟨?_, by simp; omega⟩
  rw [← hlength, take_left]

theorem Table.free (hw : Table now (fuel + 1 + i) 0 w)
    (hentry : w.utcp.connections[i]? = some (h, c)) :
    Table now (fuel + i) 0 (after (freeConnection h) w) where
  distinct := hw.distinct.sublist (filter_sublist.map Prod.fst)
  below := Handles.remove_below _ _ _ hw.below
  budget := by
    have hbudget := hw.budget
    have hlength := (remove_at hw.distinct hentry).2
    unfold loopFuel at hbudget ⊢
    change (Handles.remove w.utcp.connections h).length +
      (w.scripts.map fun s => s.calls.length).sum + 1 + 0 ≤ _
    omega
  timeout := hw.timeout
  calls := hw.calls
  normalised := fun x hx => hw.normalised x (mem_of_mem_filter hx)

theorem Table.visiting (hw : Table now bound credit w)
    (hentry : w.utcp.connections[i]? = some (h, c)) :
    Visiting now bound h (fun d => d = c) credit w := by
  have hmem : (h, c) ∈ w.utcp.connections := mem_of_getElem? hentry
  refine ⟨hw, hw.below _ hmem, fun d hd => ?_⟩
  exact congrArg Prod.snd (inj_on_of_nodup_map hw.distinct hd hmem rfl)

/-- What is covered stays covered when an entry is visited quietly. -/
theorem Covered.visit {next' : Timespec} {w₁ : World}
    (hcov : Covered next (w.utcp.connections.take i)) (hquiet : Quiet i h w w₁)
    (hle : nanoseconds next' ≤ nanoseconds next)
    (hself : ∀ c, (h, c) ∈ w₁.utcp.connections → c.state ≠ .closed →
      ∀ d ∈ armed c, nanoseconds next' ≤ nanoseconds d) :
    Covered next' (w₁.utcp.connections.take (i + 1)) := by
  intro x hx hopen d hd
  by_cases heq : x.1 = h
  · exact hself x.2 (heq ▸ mem_of_mem_take hx) hopen d hd
  obtain ⟨y, hy, -, hyopen, hearlier⟩ := hquiet x hx heq hopen
  obtain ⟨d₀, hd₀, hd₀le⟩ := hearlier d hd
  have hcovered := hcov y hy hyopen d₀ hd₀
  omega

theorem timeoutFrom_covers (hnow : Normalised now) (henvs : ∀ i k, Reading now ((envs i).clk k))
    (depth : ℕ) (hw : Table now (fuel + i) 0 w) (hnext : Reading now next)
    (hcov : Covered next (w.utcp.connections.take i))
    (hquiet : Undisturbed (callback depth) now envs fuel i w)
    (hrun : timeoutFrom (callback depth) now envs fuel i next w = (some last, w')) :
    Reading now last ∧ Covered last w'.utcp.connections := by
  induction fuel generalizing i next w with
  | zero =>
    cases hrun
    have hbudget := hw.budget
    unfold loopFuel at hbudget
    rw [take_of_length_le (by omega)] at hcov
    exact ⟨hnext, hcov⟩
  | succ fuel ih =>
    have hstep : fuel + 1 + i = fuel + (i + 1) := by omega
    cases timeoutFrom_round hrun with
    | done hentry hlast hsame =>
      rw [take_of_length_le (List.getElem?_eq_none_iff.mp hentry)] at hcov
      rw [hlast, hsame]
      exact ⟨hnext, hcov⟩
    | reaped h c hentry hclosed hreapable hrest =>
      simp only [Undisturbed, hentry, if_pos hclosed, if_pos hreapable] at hquiet
      refine ih (hw.free hentry) hnext ?_ hquiet hrest
      change Covered next ((Handles.remove w.utcp.connections h).take i)
      rw [(remove_at hw.distinct hentry).1]
      exact hcov
    | skipped h c hentry hclosed hreapable hrest =>
      simp only [Undisturbed, hentry, if_pos hclosed, hreapable, Bool.false_eq_true, if_false]
        at hquiet
      refine ih (hstep ▸ hw) hnext ?_ hquiet hrest
      intro x hx hopen
      rw [take_add_one, hentry] at hx
      rcases mem_append.mp hx with hold | hnew
      · exact hcov x hold hopen
      · obtain rfl := mem_singleton.mp hnew
        exact absurd hclosed hopen
    | visited h c w₁ next' hentry hopen hvisit hnext' hrest =>
      simp only [Undisturbed, hentry, if_neg hopen] at hquiet
      have hafter : after (visit (callback depth) now (envs i) h c) w = w₁ :=
        congrArg Prod.snd hvisit
      rw [hafter] at hquiet
      have hc : Normalised c.connTimeout ∧ Normalised c.rtrxTimeout :=
        hw.normalised _ (mem_of_getElem? hentry)
      have hw₁ := (visit_triple hnow (henvs i) depth hc).returns (hw.visiting hentry) hvisit
      have hheld := hw₁.held
      unfold Settled at hheld
      split at hnext'
      case isTrue hdue =>
        simp only [if_pos hdue] at hheld
        rw [hnext'] at hrest
        refine ih (hstep ▸ hw₁.toTable) hnext ?_ hquiet.2 hrest
        exact hcov.visit hquiet.1 (Int.le_refl _) fun d hd hstate => absurd (hheld d hd) hstate
      case isFalse hdue =>
        simp only [if_neg hdue] at hheld
        obtain ⟨c₁, hfind, rfl⟩ := hnext'
        obtain ⟨hreading, hle, harmed⟩ := earlier_both hnext
          (hheld c₁ (Handles.find_mem _ _ _ hfind))
        refine ih (hstep ▸ hw₁.toTable) hreading ?_ hquiet.2 hrest
        refine hcov.visit hquiet.1 hle fun d hd _ => ?_
        obtain rfl : d = c₁ := eq_of_find (x := (h, d)) hw₁.distinct hfind hd
        exact harmed

end Loop

/-- As long as no visit disturbs a connection that was visited before, and no user timeout
is negative, the interval that utcp_timeout returns ends before every deadline. -/
theorem interval_before_deadlines {envs : ℕ → Env} {interval : Timespec} {w w' : World}
    (hnow : Normalised now) (henvs : ∀ i k, Reading now ((envs i).clk k)) (depth : ℕ)
    (hw : Table now (loopFuel w) 0 w)
    (hquiet : Undisturbed (callback depth) now envs (loopFuel w) 0 w)
    (hrun : utcpTimeout (callback depth) now envs w = (some interval, w')) :
    0 ≤ nanoseconds interval ∧ ∀ x ∈ w'.utcp.connections, x.2.state ≠ .closed →
      ∀ d ∈ armed x.2, nanoseconds interval ≤ nanoseconds d - nanoseconds now := by
  rw [utcpTimeout, bind_of_some (show gets loopFuel w = (some (loopFuel w), w) from rfl)] at hrun
  obtain ⟨last, w₁, hloop, hreturn⟩ := returned_of_bind hrun
  cases hreturn
  have hnext : Reading now ⟨now.sec + 3600, now.nsec⟩ := by
    refine ⟨hnow, ?_⟩
    simp only [nanoseconds, nsecPerSec]
    omega
  obtain ⟨hreading, hcovered⟩ := timeoutFrom_covers (i := 0) hnow henvs depth hw hnext
    (fun x hx => absurd hx not_mem_nil) hquiet hloop
  have hle := hreading.2
  rw [nanoseconds_timespecSub]
  refine ⟨by omega, fun x hx hopen d hd => ?_⟩
  have hd := hcovered x hx hopen d hd
  omega

section Samples

open SendAtomicity (sampleEnv sampleUtcp)

instance (i h : ℕ) (w w' : World) : Decidable (Quiet i h w w') := by
  unfold Quiet
  infer_instance

instance decidableUndisturbed (cb : Command World Bool) (now : Timespec) (envs : ℕ → Env) :
    (fuel i : ℕ) → (w : World) → Decidable (Undisturbed cb now envs fuel i w)
  | 0, _, _ => isTrue trivial
  | fuel + 1, i, w => by
      have rest := decidableUndisturbed cb now envs fuel
      unfold Undisturbed
      split
      · infer_instance
      split
      · split
        · exact rest _ _
        · exact rest _ _
      · have := rest (i + 1)
        infer_instance

/-- The SYN+ACK from a port for the connection that the sample opens to it. -/
def accepted (port : UInt16) : Stimulus × List Script :=
  (.recv (sampleEnv true)
    (.packet ⟨⟨port, 0x8000, 100, 1, 65535, { syn := true, ack := true }, 0⟩, []⟩), [])

/-- Two connections are open and idle, and the second one is to be polled. -/
def twoIdle : World :=
  run ⟨sampleUtcp, [], []⟩
    [(.call ⟨.connect 7 true utcpTcp, sampleEnv true⟩, []), accepted 7,
      (.call ⟨.connect 8 true utcpTcp, sampleEnv true⟩, []), accepted 8,
      (.call ⟨.on 2 (.setPollCb true), sampleEnv true⟩, [])]

/-- The poll callback sends a byte on the connection `h`. -/
def polled (h : ℕ) : World :=
  { twoIdle with scripts := [⟨[⟨.on h (.send (some [1])), sampleEnv true⟩], true⟩] }

def sampleTimeout : Command World Timespec :=
  utcpTimeout (callback 1) ⟨1, 0⟩ fun _ => sampleEnv true

theorem reading_sampleEnv (k : ℕ) : Reading ⟨1, 0⟩ ((sampleEnv true).clk k) := by
  refine ⟨⟨Int.le_refl 0, ?_⟩, Int.le_refl _⟩
  change (0 : Int) < nsecPerSec
  decide

theorem table_polled (h : ℕ) : Table ⟨1, 0⟩ (loopFuel (polled h)) 0 (polled h) where
  distinct := by
    change (twoIdle.utcp.connections.map Prod.fst).Nodup
    decide +kernel
  below := by
    change ∀ x ∈ twoIdle.utcp.connections, x.1 < twoIdle.utcp.nextHandle
    decide +kernel
  budget := (Nat.add_zero _).le
  timeout := by
    change 0 ≤ twoIdle.utcp.timeout
    decide +kernel
  calls := by
    intro script hscript call hcall
    obtain rfl := mem_singleton.mp hscript
    obtain rfl := mem_singleton.mp hcall
    exact ⟨reading_sampleEnv, nofun⟩
  normalised := by
    change ∀ x ∈ twoIdle.utcp.connections,
      (0 ≤ x.2.connTimeout.nsec ∧ x.2.connTimeout.nsec < nsecPerSec) ∧
        (0 ≤ x.2.rtrxTimeout.nsec ∧ x.2.rtrxTimeout.nsec < nsecPerSec)
    decide +kernel

/-- The callback sends on its own connection, and the interval is that of its timer. -/
theorem interval_before_deadlines_own :
    (sampleTimeout (polled 2)).1 = some ⟨1, 0⟩ ∧
      ∀ x ∈ (after sampleTimeout (polled 2)).utcp.connections, x.2.state ≠ .closed →
        ∀ d ∈ armed x.2, nanoseconds ⟨1, 0⟩ ≤ nanoseconds d - nanoseconds ⟨1, 0⟩ := by
  have hvalue : (sampleTimeout (polled 2)).1 = some ⟨1, 0⟩ := by decide +kernel
  have hquiet : Undisturbed (callback 1) ⟨1, 0⟩ (fun _ => sampleEnv true)
      (loopFuel (polled 2)) 0 (polled 2) := by decide +kernel
  have hrun : utcpTimeout (callback 1) ⟨1, 0⟩ (fun _ => sampleEnv true) (polled 2) =
      (some ⟨1, 0⟩, after sampleTimeout (polled 2)) := eq_of_value (x := sampleTimeout) hvalue
  exact ⟨hvalue, (interval_before_deadlines ⟨Int.le_refl 0, by decide⟩ (fun _ => reading_sampleEnv)
    1 (table_polled 2) hquiet hrun).2⟩

/-- The callback sends on the connection that was visited first: its timer runs out after a
second, and the interval is an hour. -/
theorem interval_after_deadline :
    (sampleTimeout (polled 1)).1 = some ⟨3600, 0⟩ ∧
      ∃ x ∈ (after sampleTimeout (polled 1)).utcp.connections, x.2.state ≠ .closed ∧
        ∃ d ∈ armed x.2, nanoseconds d - nanoseconds ⟨1, 0⟩ < nanoseconds ⟨3600, 0⟩ := by
  decide +kernel

end Samples

end Meshlink.TimeoutInterval
