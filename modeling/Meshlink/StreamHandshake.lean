import Meshlink.StreamProgress

/-!
What a stream session does with calls of its application and with the peer's
next handshake record. Both take a session with the fields of some progress to
one with the fields of a later progress, and what is sent on the way continues
the session's stream.
-/
namespace Meshlink.StreamHandshake

open Commands Sptps StreamFlow StreamProgress

variable {p : Primitives} {label : Bytes} {S R : Party}

theorem shape_able (g : Progress) (hout : (shape p label S R g).outstate = true) :
    Able p label S R (sendPos g) (shape p label S R g) := by
  cases g with
  | kex n | sig n =>
    cases n with
    | zero => cases hout
    | succ n => exact ⟨rfl, fun _ => rfl, rfl⟩
  | ack | ready => exact ⟨rfl, fun _ => rfl, rfl⟩

/-- A failure leaves the session and its stream as they were. -/
theorem fail_goes (failure : Failure) (pos : Pos) (w : World) :
    Goes p label S R pos pos (fail failure : Command World Unit) w none (core w) :=
  ⟨_, rfl, rfl, .idle pos [.failed failure] rfl rfl rfl⟩

variable {c : Core}

theorem sptpsSendRecord_goes (he : Healthy S.env) (type : UInt8) (data : Payload) (pos : Pos)
    (w : World) (hcore : core w = c) (hable : c.outstate = true → Able p label S R pos c) :
    ∃ result, Goes p label S R pos pos (sptpsSendRecord p S.env type data) w result c := by
  subst hcore
  by_cases hout : (core w).outstate = true
  · have hnot : ¬ (!w.session.outstate) = true := by simp [show w.session.outstate = true from hout]
    by_cases htype : handshake ≤ type
    · refine ⟨none, .of_eq ?_ (fail_goes .applicationType pos w)⟩
      exact (congrFun (if_neg hnot) w).trans (congrFun (if_pos htype) w)
    have happ : Sends p label S R pos type data.val pos := by
      refine .record pos type data.val (UInt8.not_le.mp htype) data.property ?_
      rw [← (hable hout).key, outKey, if_pos hout]
      exact (hable hout).cipher hout
    refine ⟨some (), .of_eq ?_ (sendRecordPriv_goes he w (hable hout) happ)⟩
    exact (congrFun (if_neg hnot) w).trans (congrFun (if_neg htype) w)
  · refine ⟨none, .of_eq (congrFun (if_pos ?_) w) (fail_goes .notFinished pos w)⟩
    simpa [core] using hout

/-- A new exchange is started only when the last one is complete. -/
theorem sptpsForceKex_idle (pos : Pos) (w : World) (hcore : core w = c)
    (hstate : c.state ≠ .secondaryKex) :
    ∃ result, Goes p label S R pos pos (sptpsForceKex p S.env) w result c := by
  subst hcore
  by_cases hout : w.session.outstate = true
  · refine ⟨some (), w, ?_, rfl, .silent pos rfl rfl⟩
    exact (congrFun (if_neg (by simp [hout])) w).trans (congrFun (if_pos hstate) w)
  · exact ⟨none, .of_eq (congrFun (if_pos (by simp [hout])) w) (fail_goes .cannotForceKex pos w)⟩

theorem sptpsForceKex_ready (he : Healthy S.env) (n : ℕ) (w : World)
    (hcore : core w = shape p label S R (.ready n)) :
    Goes p label S R ⟨n + 1, .kex⟩ ⟨n + 1, .sig⟩ (sptpsForceKex p S.env) w (some ())
      (shape p label S R (.kex (n + 1))) := by
  have hout : w.session.outstate = true := congrArg Core.outstate hcore
  have hstate : w.session.state = .secondaryKex := congrArg Core.state hcore
  let w₁ : World := {w with session := {w.session with state := .kex}}
  have hcore₁ : core w₁ = {shape p label S R (.ready n) with state := .kex} :=
    congrArg (fun c => {c with state := .kex}) hcore
  refine .step w₁ ?_ (.silent _ rfl rfl)
    (sendKex_goes he w₁ hcore₁ rfl rfl ⟨rfl, fun _ => rfl, rfl⟩)
  exact (congrFun (if_neg (by simp [hout])) w).trans (congrFun (if_neg (not_not.mpr hstate)) w)

theorem perform_goes (he : Healthy S.env) (call : Call) (g : Progress) (w : World)
    (hcore : core w = shape p label S R g) :
    ∃ result g', Goes p label S R (sendPos g) (sendPos g') (perform p S.env call) w result
      (shape p label S R g') ∧ recvPos g' = recvPos g := by
  cases call with
  | sendRecord type data =>
    obtain ⟨result, hgoes⟩ := sptpsSendRecord_goes he type data (sendPos g) w hcore (shape_able g)
    exact ⟨result, g, hgoes, rfl⟩
  | forceKex =>
    by_cases hstate : (shape p label S R g).state = .secondaryKex
    · cases g with
      | ready n => exact ⟨some (), .kex (n + 1), sptpsForceKex_ready he n w hcore, rfl⟩
      | _ => cases hstate
    · obtain ⟨result, hgoes⟩ := sptpsForceKex_idle (sendPos g) w hcore hstate
      exact ⟨result, g, hgoes, rfl⟩

theorem attempt_runs {x : Command World Unit} {result : Option Unit} {w w' : World}
    (hrun : x w = (result, w')) (halive : w'.dead = false) :
    attempt x w = (some result.isSome, w') := by
  unfold attempt
  rw [hrun]
  cases result with
  | some _ => rfl
  | none => exact if_neg (by simp [halive])

/-- The world in which the application sees a record. -/
def notified (type : UInt8) (data : Bytes) (w : World) : World :=
  {w with trace := w.trace ++ [.record type data], callbacks := w.callbacks + 1}

section Reactions

/-! The application makes calls while it is being called. They are followed through
a family of states that every call stays in. -/

variable {ι : Type} {c : ι → Core} {pos : ι → Pos}

theorem performAll_goes (hcall : ∀ call i w, core w = c i → ∃ result j,
      Goes p label S R (pos i) (pos j) (perform p S.env call) w result (c j))
    (calls : List Call) (i : ι) (w : World) (hcore : core w = c i) (halive : w.dead = false) :
    ∃ j, Goes p label S R (pos i) (pos j) (performAll p S.env calls) w (some ()) (c j) := by
  induction calls generalizing i w with
  | nil => exact ⟨i, w, rfl, hcore, .silent _ rfl rfl⟩
  | cons call calls ih =>
    obtain ⟨result, j, w₁, hrun, hcore₁, hemits⟩ := hcall call i w hcore
    have halive₁ : w₁.dead = false := hemits.dead.trans halive
    obtain ⟨k, hrest⟩ := ih j w₁ hcore₁ halive₁
    exact ⟨k, .step w₁ (bind_of_some (attempt_runs hrun halive₁)) hemits hrest⟩

theorem receiveRecord_goes (he : Healthy S.env) (hcall : ∀ call i w, core w = c i → ∃ result j,
      Goes p label S R (pos i) (pos j) (perform p S.env call) w result (c j))
    (type : UInt8) (data : Bytes) (i : ι) (w : World) (hcore : core w = c i)
    (halive : w.dead = false) :
    ∃ j, Goes p label S R (pos i) (pos j) (receiveRecord p S.env type data) w (some true)
      (c j) := by
  let w₁ := notified type data w
  have hnotified : Emits p label S R (pos i) (pos i) w w₁ :=
    .idle _ [.record type data] rfl rfl rfl
  obtain ⟨j, w', hrun, hcore', hemits⟩ :=
    performAll_goes hcall (S.env.reaction w.callbacks).calls i w₁ hcore halive
  refine ⟨j, w', (bind_of_some hrun).trans ?_, hcore', hnotified.trans hemits⟩
  rw [he.accepts]
  rfl

end Reactions

/-- The end of an exchange: the application is told and the session is idle again. -/
theorem completion_goes (he : Healthy S.env) (n : ℕ) (state : Phase)
    (hstate : state ≠ .secondaryKex) (w : World)
    (hcore : core w = {shape p label S R (.ready n) with state := state})
    (halive : w.dead = false) :
    Goes p label S R ⟨n + 1, .kex⟩ ⟨n + 1, .kex⟩
      (do let _ ← receiveRecord p S.env handshake []
          modify fun s => {s with state := .secondaryKex}) w (some ())
      (shape p label S R (.ready n)) := by
  let c : Core := {shape p label S R (.ready n) with state := state}
  have hcall : ∀ call (_ : Unit) w, core w = c → ∃ result, ∃ _ : Unit,
      Goes p label S R ⟨n + 1, .kex⟩ ⟨n + 1, .kex⟩ (perform p S.env call) w result c := by
    intro call _ w hcore
    cases call with
    | sendRecord type data =>
      obtain ⟨result, hgoes⟩ := sptpsSendRecord_goes he type data ⟨n + 1, .kex⟩ w hcore
        fun _ => ⟨rfl, fun _ => rfl, rfl⟩
      exact ⟨result, (), hgoes⟩
    | forceKex =>
      obtain ⟨result, hgoes⟩ := sptpsForceKex_idle ⟨n + 1, .kex⟩ w hcore hstate
      exact ⟨result, (), hgoes⟩
  obtain ⟨_, hrecord⟩ := receiveRecord_goes he hcall handshake [] () w hcore halive
  exact hrecord.modify _ (fun c => {c with state := .secondaryKex}) (fun _ => rfl)
    fun _ => .silent _ rfl rfl

/-- The branch of receive_handshake for the peer's KEX, once the session's own has been sent. -/
theorem answerKex_goes (he : Healthy S.env) (n : ℕ) (state : Phase) (w : World)
    (hcore : core w = {shape p label S R (.kex n) with state := state}) :
    Goes p label S R ⟨n, .sig⟩ (Pos.next ⟨n, .sig⟩)
      (do receiveKex p S.env (kexOf p R n)
          modify fun s => {s with state := .sig}) w (some ()) (shape p label S R (.sig n)) :=
  (receiveKex_goes he n state w hcore).modify _ (fun c => {c with state := .sig}) (fun _ => rfl)
    fun _ => .silent _ rfl rfl

theorem Goes.gets {α : Type} {f : Session → Command World α} {pos pos' : Pos} {w : World}
    {result : Option α} (h : Goes p label S R pos pos' (f w.session) w result c) :
    Goes p label S R pos pos' (Commands.gets World.session >>= f) w result c := h

theorem receiveHandshake_kex (he : Healthy S.env) (n : ℕ) (w : World)
    (hcore : core w = shape p label S R (.kex n)) :
    Goes p label S R ⟨n, .sig⟩ (Pos.next ⟨n, .sig⟩) (receiveHandshake p S.env (kexOf p R n)) w
      (some ()) (shape p label S R (.sig n)) := by
  refine Goes.gets ?_
  rw [show w.session.state = .kex from congrArg Core.state hcore]
  exact answerKex_goes he n .kex w hcore

/-- The peer has started the exchange. -/
theorem receiveHandshake_ready (he : Healthy S.env) (n : ℕ) (w : World)
    (hcore : core w = shape p label S R (.ready n)) :
    Goes p label S R ⟨n + 1, .kex⟩ (Pos.next ⟨n + 1, .sig⟩)
      (receiveHandshake p S.env (kexOf p R (n + 1))) w (some ())
      (shape p label S R (.sig (n + 1))) := by
  refine Goes.gets ?_
  rw [show w.session.state = .secondaryKex from congrArg Core.state hcore]
  refine (sendKex_goes he w hcore rfl rfl ⟨rfl, fun _ => rfl, rfl⟩).bind fun w₁ hcore₁ _ => ?_
  exact answerKex_goes he (n + 1) .secondaryKex w₁ hcore₁

/-- The peer's SIG is verified, and then the keys change. -/
theorem receiveSig_goes (hp : Correct p) (hroles : R.initiator = !S.initiator) {n : ℕ}
    {pos pos' : Pos} (w : World) (hcore : core w = shape p label S R (.sig n))
    (hkeys : ∀ w, core w = shape p label S R (.sig n) → Goes p label S R pos pos'
      (changeKeys p S.env (kexOf p S n) (kexOf p R n) (S.env.secret n)) w (some ()) c) :
    Goes p label S R pos pos' (receiveSig p S.env (sigOf p label R S n)) w (some ()) c :=
  .step _ (receiveSig_verifies hp hroles n w hcore)
    (.idle pos [.verified (sigMessage (!S.initiator) (kexOf p R n) (kexOf p S n) label)
      (sigOf p label R S n)] rfl rfl rfl) (hkeys _ hcore)

/-- The first exchange ends with the peer's SIG. -/
theorem receiveHandshake_firstSig (hp : Correct p) (he : Healthy S.env)
    (hroles : R.initiator = !S.initiator) (w : World)
    (hcore : core w = shape p label S R (.sig 0)) (halive : w.dead = false) :
    Goes p label S R ⟨1, .kex⟩ ⟨1, .kex⟩ (receiveHandshake p S.env (sigOf p label R S 0)) w
      (some ()) (shape p label S R (.ready 0)) := by
  refine Goes.gets ?_
  rw [show w.session.state = .sig from congrArg Core.state hcore,
    show w.session.outstate = false from congrArg Core.outstate hcore]
  refine (receiveSig_goes hp hroles w hcore (changeKeys_first hp he ⟨1, .kex⟩)).bind ?_
  intro w₁ hcore₁ hdead₁
  let w₂ : World := {w₁ with session := {w₁.session with outstate := true}}
  have hcore₂ : core w₂ = {core w₁ with outstate := true} := rfl
  rw [hcore₁] at hcore₂
  rw [if_neg Bool.false_ne_true]
  refine Goes.step w₂ rfl (.silent _ rfl rfl) ?_ (y := do
    receiveAck []
    let _ ← receiveRecord p S.env handshake []
    modify fun s => {s with state := .secondaryKex})
  refine (receiveAck_goes hroles 0 ⟨1, .kex⟩ .sig w₂ (congrArg Core.key hcore₂) ?_).bind ?_
  · rw [hcore₂]
    rfl
  · intro w₃ hcore₃ hdead₃
    exact completion_goes he 0 .sig nofun w₃ hcore₃ (hdead₃.trans (hdead₁.trans halive))

/-- In a later exchange the peer's SIG is answered with an ACK. -/
theorem receiveHandshake_nextSig (hp : Correct p) (he : Healthy S.env)
    (hroles : R.initiator = !S.initiator) (n : ℕ) (w : World)
    (hcore : core w = shape p label S R (.sig (n + 1))) :
    Goes p label S R ⟨n + 1, .ack⟩ ⟨n + 2, .kex⟩
      (receiveHandshake p S.env (sigOf p label R S (n + 1))) w (some ())
      (shape p label S R (.ack n)) := by
  refine Goes.gets ?_
  rw [show w.session.state = .sig from congrArg Core.state hcore,
    show w.session.outstate = true from congrArg Core.outstate hcore]
  simp only [if_pos]
  exact (receiveSig_goes hp hroles w hcore (changeKeys_next hp he n)).modify _
    (fun c => {c with state := .ack}) (fun _ => rfl) fun _ => .silent _ rfl rfl

/-- A later exchange ends with the peer's ACK. -/
theorem receiveHandshake_ack (he : Healthy S.env) (hroles : R.initiator = !S.initiator) (n : ℕ)
    (w : World) (hcore : core w = shape p label S R (.ack n)) (halive : w.dead = false) :
    Goes p label S R ⟨n + 2, .kex⟩ ⟨n + 2, .kex⟩ (receiveHandshake p S.env []) w (some ())
      (shape p label S R (.ready (n + 1))) := by
  refine Goes.gets ?_
  rw [show w.session.state = .ack from congrArg Core.state hcore]
  refine (receiveAck_goes hroles (n + 1) ⟨n + 2, .kex⟩ .ack w (congrArg Core.key hcore) ?_).bind ?_
  · rw [hcore]
    rfl
  · intro w₁ hcore₁ hdead₁
    exact completion_goes he (n + 1) .ack nofun w₁ hcore₁ (hdead₁.trans halive)

/-- The next handshake record of the peer's stream is accepted. -/
theorem receiveHandshake_goes (hp : Correct p) (he : Healthy S.env)
    (hroles : R.initiator = !S.initiator) (g : Progress) (w : World)
    (hcore : core w = shape p label S R g) (halive : w.dead = false) :
    ∃ g', Goes p label S R (sendPos g) (sendPos g')
      (receiveHandshake p S.env (handshakeBody p label R S (recvPos g))) w (some ())
      (shape p label S R g') ∧ recvPos g' = (recvPos g).next := by
  cases g with
  | kex n => exact ⟨.sig n, receiveHandshake_kex he n w hcore, rfl⟩
  | ready n => exact ⟨.sig (n + 1), receiveHandshake_ready he n w hcore, rfl⟩
  | ack n => exact ⟨.ready (n + 1), receiveHandshake_ack he hroles n w hcore halive, rfl⟩
  | sig n =>
    cases n with
    | zero => exact ⟨.ready 0, receiveHandshake_firstSig hp he hroles w hcore halive, rfl⟩
    | succ n => exact ⟨.ack n, receiveHandshake_nextSig hp he hroles n w hcore, rfl⟩

/-- A record of the application is handed over. -/
theorem receiveRecord_application (he : Healthy S.env) (type : UInt8) (data : Bytes) (g : Progress)
    (w : World) (hcore : core w = shape p label S R g) (halive : w.dead = false) :
    ∃ g', Goes p label S R (sendPos g) (sendPos g') (receiveRecord p S.env type data) w (some true)
      (shape p label S R g') ∧ recvPos g' = recvPos g := by
  have hcall : ∀ call (i : {g' // recvPos g' = recvPos g}) w, core w = shape p label S R i →
      ∃ result, ∃ j : {g' // recvPos g' = recvPos g}, Goes p label S R (sendPos i) (sendPos j)
        (perform p S.env call) w result (shape p label S R j) := by
    intro call i w hcore
    obtain ⟨result, g', hgoes, hpos⟩ := perform_goes he call i w hcore
    exact ⟨result, ⟨g', hpos.trans i.property⟩, hgoes⟩
  obtain ⟨j, hgoes⟩ := receiveRecord_goes he hcall type data ⟨g, rfl⟩ w hcore halive
  exact ⟨j, hgoes, j.property⟩

end Meshlink.StreamHandshake
