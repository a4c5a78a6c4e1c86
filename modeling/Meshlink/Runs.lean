import Meshlink.WorldMoves

/-!
Every run is made of moves. utcp_recv takes one connection through the stages
of a packet, utcp_timeout moves idle connections, and callbacks keep the stage
because they are made of calls that do. So an invariant of the connections
holds after every run.
-/
namespace Meshlink.Runs

open RingMemory UtcpBuffer UtcpState UtcpTimers UtcpSender UtcpReceiver Commands
open UtcpEndpoint UtcpProcess Moves WorldMoves

variable {R : Rules} {I : Invariant R}

section Receive

variable {cb : Command World Bool} [hcb : ∀ n stages, Staying I n stages cb]

variable (n h : ℕ) (i : Incoming) (e : Env)

/-- A call of recv is recorded, then the callback runs in the new stage. -/
theorem callRecv_triple {c : Conn} (st st' : Stage) (records : List Ev) (data : List UInt8)
    (hmove : ∀ u, Move R u st c st' c (records ++ [.recv data])) :
    Triple (Stopped I n) (fun w => Inv I n (only h st) w ∧ Read h c w)
      (callRecv cb h records data)
      (fun r w => Inv I n (only h st') w ∧ (r = data.length ∨ r = -1)) := by
  apply Triple.bind (emitAll_read I n h st st' _ hmove)
  intro _
  apply Triple.bind (hcb n (only h st')).stays
  intro accepted
  apply Triple.pure
  intro w hw
  refine ⟨hw, ?_⟩
  cases accepted with
  | true => exact Or.inl rfl
  | false => exact Or.inr rfl

/-- buffer_call, for a family of stages that count what has been passed. When it
returns what was asked for, that much has been passed. -/
theorem bufferCall_triple (offset len : ℕ) (stage : ℕ → Stage)
    (hpass : ∀ u c data, Passes c offset len data →
      Move R u (stage offset) c (stage (offset + data.length)) c [.recv data])
    (hrest : ∀ u c before data, PassesRest before c offset len data →
      Move R u (stage (offset + (before.size - realOffset before offset))) c
        (stage (offset + (before.size - realOffset before offset) + data.length)) c
        [.half before c.rcvbuf, .recv data]) (hskip : ∀ u c passed, c.recv = false →
      Move R u (stage passed) c (stage (offset + len)) c []) :
    Triple (Stopped I n) (Inv I n (only h (stage offset))) (bufferCall cb h offset len)
      (fun r w => ∃ passed, Inv I n (only h (stage passed)) w ∧
        (r = len → passed = offset + len)) := by
  apply Triple.bind (getConn_triple I n h _)
  intro c
  dsimp only
  split
  · rename_i hrecv
    apply Triple.pure
    rintro w ⟨hw, hread⟩
    exact ⟨offset + len, inv_record I hw hread (hskip _ c _ hrecv), fun _ => rfl⟩
  · rename_i hrecv
    have hrecv' : c.recv = true := by simpa using hrecv
    split
    · apply Triple.pure
      rintro w ⟨hw, -⟩
      refine ⟨offset, hw, ?_⟩
      intro hzero
      omega
    · rename_i hused
      have hlt : offset < c.rcvbuf.used := by omega
      split
      · rename_i hroom
        have hfirst : Passes c offset len (window c.rcvbuf.data (realOffset c.rcvbuf offset)
            (c.rcvbuf.size - realOffset c.rcvbuf offset)) := by
          refine ⟨hrecv', hlt, ?_⟩
          rw [Nat.min_eq_left (by omega)]
        refine Triple.bind (callRecv_triple n h _ _ [] _ fun u => hpass u c _ hfirst) ?_
        intro rx1
        rw [window_length]
        apply Triple.assume
        intro hrx
        apply Triple.bind (getConn_triple I n h _)
        intro c'
        split
        · apply Triple.pure
          rintro w ⟨hw, -⟩
          refine ⟨_, hw, ?_⟩
          intro hall
          rcases hrx with hrx | hrx <;> omega
        · rename_i hlong
          split
          · rename_i hnone
            apply Triple.pure
            rintro w ⟨hw, hread⟩
            exact ⟨_, inv_record I hw hread (hskip _ c' _ hnone), fun _ => rfl⟩
          · rename_i hsome
            have hsecond : PassesRest c.rcvbuf c' offset len (window c'.rcvbuf.data 0
                (toSize ((min len (c.rcvbuf.used - offset) : ℕ) - (toSize ((c'.rcvbuf.size : Int) -
                  realOffset c.rcvbuf offset) % 2 ^ 32 : ℕ)))) := by
              refine ⟨by simpa using hsome, hroom, ?_, rfl⟩
              rcases hrx with hrx | hrx <;> omega
            refine Triple.bind
              (callRecv_triple n h _ _ [_] _ fun u => hrest u c' c.rcvbuf _ hsecond) ?_
            intro rx2
            apply Triple.assume
            intro hrx2
            apply Triple.pure
            intro w hw
            refine ⟨_, hw, ?_⟩
            intro hall
            split at hall
            · omega
            · rcases hrx with hrx | hrx <;> rcases hrx2 with hrx2 | hrx2 <;> omega
      · rename_i hroom
        have hall : Passes c offset len (window c.rcvbuf.data (realOffset c.rcvbuf offset)
            (min len (c.rcvbuf.used - offset))) := by
          have hmin : min (c.rcvbuf.size - realOffset c.rcvbuf offset)
              (min len (c.rcvbuf.used - offset)) = min len (c.rcvbuf.used - offset) :=
            Nat.min_eq_right (by omega)
          refine ⟨hrecv', hlt, ?_⟩
          rw [hmin]
        refine (callRecv_triple n h _ _ [] _ fun u => hpass u c _ hall).mono (fun _ hw => hw) ?_
        rintro r w ⟨hw, hr⟩
        refine ⟨_, hw, ?_⟩
        intro hlen
        rw [window_length] at hr ⊢
        rcases hr with hr | hr <;> omega

/-- handle_in_order takes a segment that starts at rcv.nxt through its stages. -/
theorem handleInOrder_triple :
    Triple (Stopped I n)
      (fun w => Inv I n (only h (.segment i)) w ∧
        At h (fun c => Takes c i ∧ isReliable c = true ∧ i.hdr.seq - c.rcvNxt = 0) w)
      (handleInOrder cb h i.data) (fun _ => Inv I n (only h (.done i))) := by
  have hrest : Triple (Stopped I n) (Inv I n (only h (.passing i)))
      (reachStored cb h i.data.length) (fun _ => Inv I n (only h (.done i))) := by
    apply Triple.bind (getConn_triple I n h _)
    intro c
    cases hreached : reachedSack c i.data.length with
    | none =>
      exact modifyConn_read I n h _ _ _ fun u => .consume i c hreached
    | some stretch =>
      have hlt : i.data.length < stretch := by
        unfold reachedSack at hreached
        split at hreached
        · simp at hreached
        split at hreached
        · rename_i hsack
          simp only [Option.some.injEq] at hreached
          omega
        · simp at hreached
      refine Triple.bind ((bufferCall_triple n h i.data.length (stretch - i.data.length)
        (fun passed => .reaching i stretch passed)
        (fun u d data hd => .passStored i d stretch data hd)
        (fun u d before data hd => .restStored i d stretch before data hd)
        (fun u d passed hd => by
          rw [show i.data.length + (stretch - i.data.length) = stretch by omega]
          exact .skipStored i d stretch passed hd)).pre
        fun w hw => inv_record I hw.1 hw.2 (.reach i c stretch hreached)) ?_
      intro rxd
      split
      · apply Triple.stop
        rintro w ⟨passed, hw, -⟩
        exact hw.stopped
      rename_i hall
      refine (modifyConn_moves I n h (.reaching i stretch stretch) (.done i) _
        fun u d => .consumeStretch i d stretch).pre ?_
      rintro w ⟨passed, hw, hpassed⟩
      have heq : passed = stretch := by
        have := hpassed (not_not.mp hall)
        omega
      rwa [heq] at hw
  unfold handleInOrder
  apply Triple.bind (getConn_at_triple I n h _ _)
  intro c
  apply Triple.assume
  rintro ⟨hdata, hrel, hseq⟩
  split
  · rename_i hrecv
    refine Triple.bind ((callRecv_triple n h _ _ [.inOrder c i.data] i.data
      fun u => .deliver i c hdata hrel hseq hrecv).mono (fun _ hw => hw) (fun _ _ hw => hw.1)) ?_
    intro rxd
    split
    · exact Triple.bind Staying.stop.stays fun _ => hrest
    · exact hrest
  · rename_i hrecv
    exact Triple.bind (emitAll_read I n h _ _ _ fun u =>
      .skip i c hdata hrel hseq (by simpa using hrecv)) fun _ => hrest

variable (h : ℕ) (i : Incoming)

theorem handleUnreliable_triple (he : R.okEnv e) :
    Triple (Stopped I n)
      (fun w => Inv I n (only h (.segment i)) w ∧
        At h (fun c => Takes c i ∧ isReliable c = false) w)
      (handleUnreliable cb e h i.hdr i.data) (fun _ => Inv I n (only h (.done i))) := by
  apply Triple.bind (getConn_at_triple I n h _ _)
  intro c
  apply Triple.assume
  rintro ⟨hdata, hrel⟩
  dsimp only
  split
  · rename_i hhdr
    have hnxt := modifyConn_moves I n h (.whole i) (.done i) _ fun u d => .wholeNxt i d
    split
    · rename_i hrecv
      exact Triple.bind ((callRecv_triple n h _ _ [] i.data fun u =>
        .whole i c hdata hrel hhdr hrecv).mono (fun _ hw => hw) (fun _ _ hw => hw.1)) fun _ => hnxt
    rename_i hrecv
    refine hnxt.pre ?_
    rintro w ⟨hw, hread⟩
    exact inv_record I hw hread (.wholeUnheard i c hdata hrel hhdr (by simpa using hrecv))
  · rename_i hpart
    split
    · apply Triple.pure
      rintro w ⟨hw, hread⟩
      exact inv_record I hw hread (.drop i c hrel)
    split
    · apply Triple.pure
      rintro w ⟨hw, hread⟩
      exact inv_record I hw hread (.drop i c hrel)
    rename_i hnext
    have hnext' : i.hdr.wnd.toNat = 0 ∨ i.hdr.seq = c.rcvNxt := by tauto
    have hnxt := fun passed =>
      modifyConn_moves I n h (.stored i passed) (.done i) _ fun u d => .storedNxt i d passed
    refine Triple.bind (onConn_read I n h (.segment i)
      (fun stored => if stored then .stored i 0 else .done i)
      (storeFragment e i.hdr.wnd.toNat i.data)
      fun u s hs => .fragment e i c s he hdata hrel hpart hnext' hs) ?_
    intro stored
    cases stored with
    | false => exact Triple.pure () fun _ hw => hw
    | true =>
      simp only [↓reduceIte]
      split
      · rename_i hlast
        refine Triple.bind (bufferCall_triple n h 0 (i.hdr.wnd.toNat + i.data.length)
          (fun passed => .stored i passed)
          (fun u d data hd => .passDatagram i d data hlast hd)
          (fun u d before data hd => .restDatagram i d before data hlast hd)
          (fun u d passed hd => .skipDatagram i d passed hd)) ?_
        rintro rxd w ⟨passed, hw, -⟩
        exact hnxt passed w hw
      · exact hnxt 0

theorem handleIncomingData_triple (he : R.okEnv e) :
    Triple (Stopped I n)
      (fun w => Inv I n (only h (.segment i)) w ∧ At h (fun c => Takes c i) w)
      (handleIncomingData cb e h i) (fun _ => Inv I n (only h (.done i))) := by
  apply Triple.bind (getConn_at_triple I n h _ _)
  intro c
  apply Triple.assume
  intro hdata
  split
  · rename_i hrel
    exact (handleUnreliable_triple n e h i he).pre fun _ hw => ⟨hw.1, hw.2.at ⟨hdata, hrel⟩⟩
  rename_i hrel
  have hrel' : isReliable c = true := by simpa using hrel
  dsimp only
  split
  · rename_i hoffset
    refine onConn_read I n h (.segment i) (fun _ => .done i) _ ?_
    rintro u s hs
    obtain ⟨c', hc', rfl⟩ := Option.map_eq_some_iff.mp hs
    exact .outOfOrder e i c c' he hdata hrel' hoffset hc'
  · rename_i hoffset
    exact (handleInOrder_triple n h i).pre fun _ hw =>
      ⟨hw.1, hw.2.at ⟨hdata, hrel', not_not.mp hoffset⟩⟩

instance {n h : ℕ} {stages : ℕ → Stage} [Fact (Known n h)] (hdr : Hdr) (len : ℕ) :
    Staying I n stages (sendReset h hdr len) :=
  emit_stays I n h stages _ (.reset hdr len)

/-- A packet that is answered with a reset is done with. -/
theorem sendReset_settles [Fact (Known n h)] (st : Stage) (hdr : Hdr) (len : ℕ) (hst : Settled st) :
    Triple (Stopped I n) (Inv I n (only h st)) (sendReset h hdr len)
      (fun _ => Inv I n fun _ => .idle) :=
  Staying.stays.mono (fun _ hw => hw) (fun _ _ hw => inv_settle I hw hst)

theorem finishRecv_triple [Fact (Known n h)] (hasData : Bool) (st : Stage) (he : R.okEnv e)
    (hst : st = .segment i ∧ i.data = [] ∨ st = .done i) :
    Triple (Stopped I n) (Inv I n (only h st)) (finishRecv cb e h i hasData)
      (fun _ => Inv I n fun _ => .idle) := by
  have hsettled : Settled st := by
    rcases hst with ⟨rfl, -⟩ | rfl
    · exact .segment i
    · exact .done i
  have hanswer : ∀ st', Settled st' → Triple (Stopped I n) (Inv I n (only h st')) (do
      let c ← getConn h
      if isReliable c || i.hdr.ctl.syn || i.hdr.ctl.fin then
        onConn h fun u c =>
          (UtcpSender.ack u (e.clk 10) c hasData).map fun s =>
            { s with events := .reply c :: s.events })
      (fun _ => Inv I n fun _ => .idle) := by
    intro st' hst'
    apply Triple.bind Staying.stays
    intro d
    split
    · rw [← only_idle h]
      refine onConn_moves I n h st' (fun _ => .idle) _ ?_
      intro u c s hs
      obtain ⟨t, ht, rfl⟩ := Option.map_eq_some_iff.mp hs
      exact .reply st' e hasData c t hst' he ht
    · exact Triple.pure () fun _ hw => inv_settle I hw hst'
  unfold finishRecv
  apply Triple.bind (getConn_triple I n h _)
  intro c
  apply Triple.bind (Triple.gets World.utcp (Q := fun _ w => Inv I n (only h st) w ∧ Read h c w)
    fun _ hw => hw)
  intro u
  dsimp only
  split
  · exact (sendReset_settles n h st i.hdr _ hsettled).pre fun _ hw => hw.1
  split
  · rename_i hnow
    simp only [Bool.and_eq_true, Bool.or_eq_true, Bool.not_eq_true', decide_eq_true_eq] at hnow
    refine Triple.bind (onConn_read I n h st (fun _ => .finished) _ ?_) ?_
    · rintro v s hs
      obtain ⟨c', hc', rfl⟩ := Option.map_eq_some_iff.mp hs
      refine .fin st e i c c' he hst hnow.1 ?_ hc'
      intro hrel
      rcases hnow.2 with hunrel | hseq
      · rw [hrel] at hunrel
        simp at hunrel
      · exact hseq
    · intro _
      apply Triple.bind Staying.stays
      intro _
      exact hanswer .finished .finished
  · exact (hanswer st hsettled).pre fun _ hw => hw.1

theorem processData_triple [Fact (Known n h)] (hasData : Bool) (he : R.okEnv e) :
    Triple (Stopped I n) (Inv I n (only h (.segment i))) (processData cb e h i hasData)
      (fun _ => Inv I n fun _ => .idle) := by
  unfold processData
  split
  · rename_i hempty
    exact finishRecv_triple n e h i hasData (.segment i) he (Or.inl ⟨rfl, hempty⟩)
  rename_i hdata
  apply Triple.bind (getConn_triple I n h _)
  intro c
  cases hverdict : dataVerdict c with
  | drop => exact Triple.pure () fun _ hw => inv_settle I hw.1 (.segment i)
  | reset =>
    exact (sendReset_settles n h _ i.hdr _ (.segment i)).pre fun _ hw => hw.1
  | take =>
    exact Triple.bind ((handleIncomingData_triple n e h i he).pre fun _ hw =>
      ⟨hw.1, hw.2.at ⟨hdata, hverdict⟩⟩) fun _ =>
        finishRecv_triple n e h i hasData (.done i) he (Or.inr rfl)

theorem processAccept_triple [Fact (Known n h)] (advanced : UInt32) (hasData : Bool)
    (he : R.okEnv e) :
    Triple (Stopped I n) (Inv I n (only h (.segment i)))
      (processAccept cb e h i advanced hasData) (fun _ => Inv I n fun _ => .idle) := by
  unfold processAccept
  apply Triple.bind Staying.stays
  intro c
  split
  · exact processData_triple n e h i hasData he
  split
  · exact sendReset_settles n h _ i.hdr _ (.segment i)
  apply Triple.bind Staying.stays
  intro u
  -- The state is read again after the accept callback, and nothing runs in between.
  have hdecide : Triple (Stopped I n) (Inv I n (only h (.segment i))) (do
      let c ← getConn h
      if c.state = .established then processData cb e h i hasData
      else
        modifyConn h fun _ c => { setState c .closed with reapable := true }
        sendReset h i.hdr i.data.length) (fun _ => Inv I n fun _ => .idle) := by
    apply Triple.bind (getConn_triple I n h _)
    intro d
    split
    · exact (processData_triple n e h i hasData he).pre fun _ hw => hw.1
    rename_i hstate
    refine Triple.bind (modifyConn_read I n h (.segment i) .idle _ fun u =>
      .notAccepted i d hstate) fun _ => ?_
    rw [only_idle]
    exact Staying.stays
  split
  · apply Triple.bind (emit_stays I n h _ _ .acceptCb).stays
    intro _
    exact Triple.bind (hcb n _).stays fun _ => hdecide
  · exact hdecide

theorem handleSyn_synack (c : Conn) (i : Incoming) (advanced : UInt32)
    (h : (handleSyn c i advanced).2 = .synack) :
    (handleSyn c i advanced).1.state = .synReceived := by
  unfold handleSyn at h ⊢
  split at h
  · simp at h
  rename_i hsyn
  rw [if_neg hsyn]
  cases hstate : c.state with
  | synReceived => exact hstate
  | synSent =>
    simp only [hstate] at h
    split at h
    · simp at h
    · split at h <;> simp at h
  | _ => simp [hstate] at h

theorem handleRst_ne_synack (c : Conn) (hasAck : Bool) (r : Conn × Verdict)
    (h : handleRst c hasAck = some r) : r.2 ≠ .synack := by
  unfold handleRst at h
  split at h <;> (try split at h) <;> (try split at h) <;> simp at h <;> subst h <;> simp

/-- The answer to a SYN is repeated only in SYN_RECEIVED. -/
theorem arrive_synack (u : Utcp) (e : Env) (c : Conn) (i : Incoming)
    (s : Step (Incoming × Verdict)) (h : UtcpReceiver.arrive u e c i = some s)
    (hverdict : s.value.2 = .synack) : s.conn.state = .synReceived := by
  have hacknowledge : ∀ c i t, acknowledge u e c i = some t → t.value.2 = .synack →
      t.conn.state = .synReceived := by
    intro c i t ht hv
    unfold acknowledge at ht
    split at ht
    · obtain ⟨a, -, rfl⟩ := Option.map_eq_some_iff.mp ht
      cases hvalue : a.value with
      | none => simp [hvalue] at hv
      | some advanced =>
        simp only [hvalue] at hv ⊢
        exact handleSyn_synack a.conn i advanced hv
    · cases ht
      exact handleSyn_synack c i 0 hv
  have hdispatch : ∀ c i t, dispatch u e c i = some t → t.value.2 = .synack →
      t.conn.state = .synReceived := by
    intro c i t ht hv
    unfold dispatch at ht
    split at ht
    · rename_i r hr
      cases ht
      split at hr
      · exact absurd hv (handleRst_ne_synack c _ r hr)
      · simp at hr
    · exact hacknowledge c i t ht hv
  unfold UtcpReceiver.arrive at h
  split at h
  · cases h
    simp at hverdict
  split at h
  · cases h
    simp at hverdict
  · obtain ⟨t, ht, rfl⟩ := Option.map_eq_some_iff.mp h
    exact hdispatch _ _ t ht hverdict

theorem recvExisting_triple [Fact (Known n h)] (he : R.okEnv e) (hi : R.okIncoming i) :
    Stays I n (fun _ => .idle) (recvExisting cb e h i) := by
  have harrive := onConn_triple I n h .idle (fun _ => True) nextStage
    (fun u c => UtcpReceiver.arrive u e c i) (fun u c s _ hs => .arrive e i c s he hi hs)
  rw [only_idle] at harrive
  refine Triple.bind (harrive.pre fun _ hw => ⟨hw, fun _ _ => trivial⟩) ?_
  rintro ⟨j, verdict⟩
  cases verdict with
  | ignore => exact Triple.pure () fun _ hw => by simpa [nextStage] using hw.1
  | reset | refused | aborted | free =>
    exact Staying.stays.pre fun _ hw => by simpa [nextStage] using hw.1
  | synack =>
    rw [← only_idle h]
    refine (onConn_triple I n h (.answer j) (fun c => c.state = .synReceived) (fun _ => .idle)
      _ ?_).mono (fun w hw => ⟨hw.1, ?_⟩) (fun _ _ hw => hw.1)
    · intro u c s hstate hs
      cases hs
      exact .synack e j c he hstate
    · intro d hd
      obtain ⟨u, c, s, -, hs, hvalue, rfl⟩ := hw.2 d hd
      exact arrive_synack u e c i s hs (by rw [hvalue])
  | proceed advanced =>
    exact (processAccept_triple n e h j advanced _ he).pre fun _ hw => hw.1

instance (n : ℕ) (stages : ℕ → Stage) : Staying I n stages (askListen cb) := by
  unfold askListen
  infer_instance

theorem recvNew_stays (stages : ℕ → Stage) (e : Env) (i : Incoming) (he : R.okEnv e)
    (hi : R.okIncoming i) : Staying I n stages (recvNew cb e i) := by
  have hzero : Fact (Known n 0) := ⟨Or.inr rfl⟩
  unfold recvNew
  refine Staying.of_bind fun u => ?_
  split
  · infer_instance
  split
  · infer_instance
  refine Staying.of_bind fun wanted => ?_
  split
  · infer_instance
  refine ⟨Triple.bind (allocateConnection_triple I n stages e i.hdr.dst i.hdr.src) fun r => ?_⟩
  cases r with
  | none => exact Staying.stays
  | some h =>
    have hanswer : ∀ flags, Triple (Stopped I n) (Allocated I n stages h)
        (onConn h fun u c => some (UtcpReceiver.synack u e { c with flags := flags } i))
        (fun _ => Inv I n stages) := by
      intro flags
      apply opening_triple
      intro u c s hs
      cases hs
      exact .answer e i flags c he hi
    dsimp only
    cases i.init with
    | none => exact hanswer utcpTcp
    | some init =>
      dsimp only
      split
      · exact (stays_known I n h stages _ fun m _ => inferInstance).pre
          fun w hw => allocated_inv I hw
      · exact hanswer _

/-- A connection found by its ports has an old handle. -/
theorem findConnection_triple (stages : ℕ → Stage) (src dst : UInt16) :
    Triple (Stopped I n) (Inv I n stages) (gets fun w : World => findConnection w.utcp src dst)
      (fun r w => Inv I n stages w ∧ ∀ h, r = some h → h < w.utcp.nextHandle) := by
  apply Triple.gets
  intro w hw
  refine ⟨hw, ?_⟩
  intro h hfound
  obtain ⟨entry, hentry, rfl⟩ := Option.map_eq_some_iff.mp hfound
  exact hw.1.below entry (List.mem_of_find?_eq_some hentry)

theorem utcpRecv_stays (d : Datagram) (he : R.okEnv e)
    (hd : ∀ p i, d = .packet p → parsePacket p = some i → R.okIncoming i) :
    Staying I n (fun _ => .idle) (utcpRecv cb e d) := by
  cases d with
  | packet p =>
    simp only [utcpRecv]
    cases hparse : parsePacket p with
    | none => exact Staying.pure _
    | some i =>
      have hi := hd p i rfl hparse
      refine ⟨Triple.bind (findConnection_triple n _ p.hdr.dst p.hdr.src) fun r => ?_⟩
      cases r with
      | none =>
        have hnew : Staying I n (fun _ => .idle) (recvNew cb e i) := recvNew_stays n _ e i he hi
        exact Staying.stays.pre fun _ hw => hw.1
      | some h =>
        refine (stays_known I n h _ _ fun m _ => ?_).pre fun w hw => ⟨hw.1, hw.2 h rfl⟩
        have hold : Staying I m (fun _ => .idle) (recvExisting cb e h i) :=
          ⟨recvExisting_triple m e h i he hi⟩
        infer_instance
  | _ => exact Staying.pure _

/-- A change that an idle connection may take at any time. -/
theorem modifyConn_stays (f : Utcp → Conn → Conn)
    (hmove : ∀ u c, Move R u .idle c .idle (f u c) []) :
    Staying I n (fun _ => .idle) (modifyConn h f) := by
  have hmoved := modifyConn_moves I n h .idle .idle f hmove
  rw [only_idle] at hmoved
  exact ⟨hmoved⟩

theorem retransmit_stays (he : R.okEnv e) :
    Staying I n (fun _ => .idle) (UtcpProcess.retransmit cb e h) := by
  refine ⟨Triple.bind (getConn_triple I n h _) fun c => ?_⟩
  dsimp only
  split
  · rename_i hnothing
    have hstop := modifyConn_read I n h .idle .idle (fun _ => stopRetransmitTimer)
      fun u => .stopTimer c hnothing
    rwa [only_idle] at hstop
  · have hsend := onConn_moves I n h .idle (fun _ => .idle) (fun u c => retransmitSend u e c)
      fun u c s hs => .retransmit e c s he hs
    rw [only_idle] at hsend
    have hsends : Staying I n _ (onConn h fun u c => retransmitSend u e c) := ⟨hsend⟩
    exact Staying.stays.pre fun _ hw => hw.1

instance (n h : ℕ) [Fact (Known n h)] : Staying I n (fun _ => .idle) (pollConn cb h) := by
  have hpolled : Staying I n _ (modifyConn h fun _ c => { c with doPoll := false }) :=
    modifyConn_stays n h _ fun _ d => .polled d
  unfold pollConn
  infer_instance

theorem timeoutFrom_stays (now : Timespec) (envs : ℕ → Env) (henvs : ∀ i, R.okEnv (envs i))
    (fuel i : ℕ) (next : Timespec) :
    Staying I n (fun _ => .idle) (timeoutFrom cb now envs fuel i next) := by
  induction fuel generalizing n i next with
  | zero => exact Staying.pure _
  | succ fuel ih =>
    refine entry_stays n i _ (Staying.pure _) fun h c m _ => ?_
    have htimeOut : Staying I m (fun _ => .idle) (modifyConn h fun _ => UtcpProcess.timeOut) :=
      modifyConn_stays m h _ fun _ d => .timeOut d
    have hretransmit : Staying I m (fun _ => .idle) (UtcpProcess.retransmit cb (envs i) h) :=
      retransmit_stays m (envs i) h (henvs i)
    dsimp only
    infer_instance

theorem utcpTimeout_stays (now : Timespec) (envs : ℕ → Env) (henvs : ∀ i, R.okEnv (envs i)) :
    Staying I n (fun _ => .idle) (utcpTimeout cb now envs) := by
  have hloop := fun fuel next =>
    (timeoutFrom_stays n now envs henvs fuel 0 next : Staying I _ _ (timeoutFrom cb _ _ _ _ _))
  unfold utcpTimeout
  infer_instance

end Receive

variable (I)

theorem load_stays (n : ℕ) (stages : ℕ → Stage) (scripts : List Script)
    (hscripts : R.okScripts scripts) :
    Staying I n stages (update fun w : World => { w with scripts := scripts }) := by
  constructor
  apply Stays.update
  rintro w ⟨hw, hn⟩
  exact ⟨⟨hscripts, hw.endpoint, hw.below, hw.traced, hw.positive, hw.quiet, hw.past, hw.conn⟩,
    hn⟩

/-- Callbacks keep the invariant and the stages: they are made of calls that do. -/
theorem callback_stays (depth n : ℕ) (stages : ℕ → Stage) :
    Staying I n stages (callback depth) := by
  induction depth generalizing n stages with
  | zero => exact Staying.pure true
  | succ depth ih =>
    have hscripts : Triple (Stopped I n) (Inv I n stages) (gets World.scripts)
        (fun scripts w => Inv I n stages w ∧ R.okScripts scripts) :=
      Triple.gets _ fun w hw => ⟨hw, hw.1.scripts⟩
    refine ⟨Triple.bind hscripts fun scripts => Triple.assume fun hok => ?_⟩
    cases scripts with
    | nil => exact Staying.stays
    | cons script rest =>
      have hpop := load_stays I n stages rest fun s hs => hok s (List.mem_cons_of_mem _ hs)
      have hcalls : Staying I n stages (performAll (callback depth) script.calls) :=
        performAll_stays n stages script.calls (hok script (List.mem_cons_self ..))
      exact Staying.stays

/-- What a run may consist of. -/
def okStimulus (R : Rules) : Stimulus → Prop
  | .call c => R.okCall c
  | .recv e d => R.okEnv e ∧ ∀ p i, d = .packet p → parsePacket p = some i → R.okIncoming i
  | .timeout _ envs => ∀ i, R.okEnv (envs i)

def okRun (R : Rules) (stimuli : List (Stimulus × List Script)) : Prop :=
  ∀ s ∈ stimuli, okStimulus R s.1 ∧ R.okScripts s.2

theorem react_stays (n : ℕ) (s : Stimulus) (scripts : List Script) (hs : okStimulus R s)
    (hscripts : R.okScripts scripts) : Staying I n (fun _ => .idle) (react s scripts) := by
  have hload := load_stays I n (fun _ => .idle) scripts hscripts
  have hcb := callback_stays I scripts.length
  refine Staying.of_bind fun _ => ?_
  cases s with
  | call c => exact perform_stays n _ c hs
  | recv e d =>
    have hrecv : Staying I n _ (utcpRecv (callback scripts.length) e d) :=
      utcpRecv_stays n e d hs.1 hs.2
    exact Staying.bind
  | timeout now envs =>
    have htimeout : Staying I n _ (utcpTimeout (callback scripts.length) now envs) :=
      utcpTimeout_stays n now envs hs
    exact Staying.bind

/-- An invariant holds after every run. When the process stopped in the middle of a
packet, a connection may be in some stage. -/
theorem run_holds (stimuli : List (Stimulus × List Script)) (hok : okRun R stimuli) (w : World)
    (hw : I.Holds (fun _ => .idle) w) : ∃ stages, I.Holds stages (run w stimuli) := by
  induction stimuli generalizing w with
  | nil => exact ⟨_, hw⟩
  | cons first rest ih =>
    obtain ⟨s, scripts⟩ := first
    obtain ⟨hs, hscripts⟩ := hok (s, scripts) (List.mem_cons_self ..)
    have hstep := (react_stays I 0 s scripts hs hscripts).stays w ⟨hw, Nat.zero_le _⟩
    unfold run
    cases hreact : react s scripts w with
    | mk value w' =>
      rw [hreact] at hstep
      cases value with
      | none =>
        obtain ⟨stages, hstopped, -⟩ := hstep
        exact ⟨stages, hstopped⟩
      | some _ => exact ih (fun s hs => hok s (List.mem_cons_of_mem _ hs)) w' hstep.1

/-- An endpoint as utcp_init returns it, before anything has happened. -/
structure Start (w : World) : Prop where
  connections : w.utcp.connections = []
  timeout : w.utcp.timeout = defaultUserTimeout
  positive : 0 < w.utcp.nextHandle
  scripts : w.scripts = []
  trace : w.trace = []

theorem start_holds (w : World) (hw : Start w) (hendpoint : I.endpoint w.utcp) :
    I.Holds (fun _ => .idle) w where
  scripts := by
    rw [hw.scripts]
    intro s hs
    simp at hs
  endpoint := hendpoint
  below := by
    rw [hw.connections]
    intro e he
    simp at he
  traced := by
    rw [hw.trace]
    intro e he
    simp at he
  positive := hw.positive
  quiet := fun _ _ => rfl
  past := by
    intro h
    rw [hw.trace]
    exact I.past_nil
  conn := by
    intro h c hc
    rw [hw.connections] at hc
    simp [Handles.find] at hc

/-- Nothing is asked of the calls and environments of a run. -/
def anything : Rules where
  okEnv := fun _ => True
  okOp := fun _ => True
  okRequest := fun _ => True
  okIncoming := fun _ => True

theorem okRun_anything (stimuli : List (Stimulus × List Script)) : okRun anything stimuli := by
  intro s _
  refine ⟨?_, fun _ _ _ _ => ⟨trivial, trivial, fun _ _ _ => trivial⟩⟩
  cases s.1 with
  | call c => exact ⟨trivial, trivial, fun _ _ _ => trivial⟩
  | recv e d => exact ⟨trivial, fun _ _ _ _ => trivial⟩
  | timeout now envs => exact fun _ => trivial

end Meshlink.Runs
