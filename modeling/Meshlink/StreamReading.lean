import Meshlink.StreamChunks
import Meshlink.StreamHandshake

/-!
Reading a stream that arrives in pieces. The session keeps the start of an
unfinished record, and whatever pieces the peer's flow arrives in, every record
of it is taken off in turn, opened with the key and number it was sent with, and
handled without an error.
-/
namespace Meshlink.StreamReading

open List Commands Sptps StreamChunks StreamFlow StreamProgress StreamHandshake

variable (p : Primitives) (label : Bytes) (S R : Party)

/-- The buffer holds an unfinished record, whose length is known from its header. -/
structure Holds (w : World) (buf : Bytes) : Prop where
  inbuf : w.session.inbuf = some buf
  unfinished : buf.length < 2 ∨
    2 ≤ buf.length ∧ w.session.reclen = ntohs buf ∧ buf.length < recordSize w.session

/-- The session has come to `g` and the peer's flow, up to its present end, is
what the session holds followed by `coming`. -/
structure Reading (g : Progress) (coming : Bytes) (pend : List Sealed) (pos : Pos) (seqno : UInt32)
    (w : World) : Prop where
  core : core w = shape p label S R g
  alive : w.dead = false
  flow : ∃ buf, Holds w buf ∧
    Flow p label R S (recvPos g) w.session.inseqno (buf ++ coming) pend pos seqno

/-- From `g` in `w` the session has come to `w'`, with `later` still to come, and has opened
the first of the pending records. -/
def Reads (g : Progress) (later : Bytes) (pend : List Sealed) (pos : Pos) (seqno : UInt32)
    (w w' : World) : Prop :=
  ∃ g' seals pend', pend = seals ++ pend' ∧ Reading p label S R g' later pend' pos seqno w' ∧
    decrypted w'.trace = decrypted w.trace ++ seals ∧
    Writes p label S R (sendPos g) (sendPos g') w w'

variable {p label S R}

/-- The key that the peer's next record is opened with. -/
theorem shape_incipher (g : Progress) :
    (shape p label S R g).instate = (keyAt p label R S (recvPos g)).isSome ∧
      (shape p label S R g).incipher = keyAt p label R S (recvPos g) := by
  cases g with
  | kex n => cases n <;> exact ⟨rfl, rfl⟩
  | sig n => cases n <;> exact ⟨rfl, rfl⟩
  | ack | ready => exact ⟨rfl, rfl⟩

theorem recordSize_ge (s : Session) : s.reclen + 3 ≤ recordSize s := by
  unfold recordSize overhead
  split
  · omega
  · omega

theorem ntohs_append {read : Bytes} (h : 2 ≤ read.length) (rest : Bytes) :
    ntohs (read ++ rest) = ntohs read := by
  unfold ntohs
  rw [getD_append _ _ _ _ (by omega), getD_append _ _ _ _ (by omega)]

/-- Two worlds that differ in the reading of the buffer only. -/
structure SameBut (w w' : World) : Prop where
  core : core w' = core w
  dead : w'.dead = w.dead
  inseqno : w'.session.inseqno = w.session.inseqno
  outseqno : w'.session.outseqno = w.session.outseqno
  trace : w'.trace = w.trace

theorem SameBut.refl (w : World) : SameBut w w := ⟨rfl, rfl, rfl, rfl, rfl⟩

variable {w : World}

theorem SameBut.trans {w' w'' : World} (h : SameBut w w') (h' : SameBut w' w'') : SameBut w w'' :=
  ⟨h'.core.trans h.core, h'.dead.trans h.dead, h'.inseqno.trans h.inseqno,
    h'.outseqno.trans h.outseqno, h'.trace.trans h.trace⟩

/-- Either the data ended before the body of the record, or the header is complete. -/
theorem readLength_runs {e : Env} (he : Healthy e) {data buf : Bytes} (hdata : data ≠ [])
    (hbuf : Holds w buf) :
    (∃ w', readLength e data w = (some none, w') ∧ SameBut w w' ∧ Holds w' (buf ++ data)) ∨
      ∃ w' read body, readLength e data w = (some (some body), w') ∧ SameBut w w' ∧
        Holds w' read ∧ 2 ≤ read.length ∧ read ++ body = buf ++ data ∧ body ≠ [] ∧
        body.length ≤ data.length := by
  by_cases hlong : 2 ≤ buf.length
  · exact .inr ⟨w, buf, data, readLength_long hbuf.inbuf hlong, .refl w, hbuf, hlong, rfl, hdata,
      le_refl _⟩
  by_cases hshort : buf.length + data.length < 2
  · refine .inl ⟨_, readLength_short hbuf.inbuf hshort, ⟨rfl, rfl, rfl, rfl, rfl⟩, rfl, .inl ?_⟩
    rwa [length_append]
  let read := buf ++ data.take (2 - buf.length)
  let rest := data.drop (2 - buf.length)
  let w₁ : World := {w with
    allocs := w.allocs + 1
    session := {w.session with reclen := ntohs read, inbuf := some read}}
  have hall : read ++ rest = buf ++ data := by
    rw [append_assoc, take_append_drop]
  have hlen : read.length = 2 := by
    rw [length_append, length_take]
    omega
  have hheader : takeHeader e read w = (some (), w₁) := bind_of_some (alloc_runs he _)
  have hrun := (readLength_full (e := e) hbuf.inbuf (by omega) (by omega)).trans
    (bind_of_some hheader)
  have hheld : Holds w₁ read := by
    refine ⟨rfl, .inr ⟨hlen.ge, rfl, ?_⟩⟩
    have hsize := recordSize_ge w₁.session
    omega
  by_cases hrest : rest = []
  · refine .inl ⟨w₁, hrun.trans (congrFun (if_pos hrest) w₁), ⟨rfl, rfl, rfl, rfl, rfl⟩, ?_⟩
    rwa [← hall, hrest, append_nil]
  refine .inr ⟨w₁, read, rest, hrun.trans (congrFun (if_neg hrest) w₁),
    ⟨rfl, rfl, rfl, rfl, rfl⟩, hheld, hlen.ge, hall, hrest, ?_⟩
  rw [length_drop]
  omega

/-- Either the data ended before the record, or the buffer holds exactly the record. -/
theorem readBody_runs {read body : Bytes} (hread : Holds w read) (hheader : 2 ≤ read.length)
    (hbody : body ≠ []) :
    (∃ w', readBody body w = (some none, w') ∧ SameBut w w' ∧ Holds w' (read ++ body)) ∨
      ∃ w' whole rest, readBody body w = (some (some rest), w') ∧ SameBut w w' ∧
        w'.session.inbuf = some whole ∧ w'.session.reclen = ntohs read ∧
        whole.length = recordSize w'.session ∧ whole ++ rest = read ++ body ∧
        rest.length < body.length := by
  have hknown : w.session.reclen = ntohs read ∧ read.length < recordSize w.session := by
    rcases hread.unfinished with hshort | ⟨_, hknown⟩
    · omega
    · exact hknown
  obtain ⟨hreclen, hlt⟩ := hknown
  let whole := read ++ body.take (recordSize w.session - read.length)
  let rest := body.drop (recordSize w.session - read.length)
  have hall : whole ++ rest = read ++ body := by
    rw [append_assoc, take_append_drop]
  have hwhole : whole.length =
      read.length + min (recordSize w.session - read.length) body.length := by
    rw [length_append, length_take]
  have hrun := readBody_held hread.inbuf body
  by_cases hshort : whole.length < recordSize w.session
  · have hrest : rest = [] := drop_eq_nil_iff.mpr (by omega)
    rw [hrest, append_nil] at hall
    refine .inl ⟨_, hrun.trans (congrFun (if_pos hshort) _), ⟨rfl, rfl, rfl, rfl, rfl⟩, ?_,
      .inr ⟨?_, ?_, ?_⟩⟩
    · exact congrArg some hall
    · rw [← hall]
      omega
    · rw [ntohs_append hheader]
      exact hreclen
    · rw [← hall]
      exact hshort
  · have hpos : 0 < body.length := length_pos_iff.mpr hbody
    refine .inr ⟨_, whole, rest, hrun.trans (congrFun (if_neg hshort) _),
      ⟨rfl, rfl, rfl, rfl, rfl⟩, rfl, hreclen, ?_, hall, ?_⟩
    · change whole.length = recordSize w.session
      omega
    · rw [length_drop]
      omega

/-- A complete record at the front of the peer's flow is what the peer sent first. -/
theorem record_at_front {pos pos' : Pos} {seqno seqno' : UInt32} {bytes whole rest : Bytes}
    {seals : List Sealed} {s : Session} (hflow : Flow p label R S pos seqno bytes seals pos' seqno')
    (hbytes : whole ++ rest = bytes) (hlen : whole.length = recordSize s)
    (hreclen : s.reclen = ntohs bytes)
    (hinstate : s.instate = (keyAt p label R S pos).isSome) :
    ∃ type body pos₁ seals', Sends p label R S pos type body pos₁ ∧
      whole = encode p (keyAt p label R S pos) seqno type body ∧ s.reclen = body.length ∧
      seals = sealing (keyAt p label R S pos) seqno (type :: body) ++ seals' ∧
      Flow p label R S pos₁ (seqno + 1) rest seals' pos' seqno' := by
  cases hflow with
  | nil =>
    have hsize := recordSize_ge s
    have hnone := (append_eq_nil_iff.mp hbytes).1
    rw [hnone] at hlen
    rw [length_nil] at hlen
    omega
  | @cons _ pos₁ _ _ _ type body bytes' seals' hsends hrest =>
    have hbody : s.reclen = body.length := by
      rw [hreclen, encode, append_assoc]
      exact ntohs_htons body.length hsends.length_lt _
    have hsame : whole.length = (encode p (keyAt p label R S pos) seqno type body).length := by
      rw [hlen, encode_length, recordSize, hbody, hinstate]
    obtain ⟨hwhole, hrest'⟩ := append_inj hbytes hsame
    rw [← hrest'] at hrest
    exact ⟨type, body, pos₁, seals', hsends, hwhole, hbody, rfl, hrest⟩

/-- The record is opened with the key and the number it was sent with. -/
theorem openRecord_runs (hp : Correct p) {key : Option Bytes} {type : UInt8} {body : Bytes}
    (hinbuf : w.session.inbuf = some (encode p key w.session.inseqno type body))
    (hreclen : w.session.reclen = body.length) (hinstate : w.session.instate = key.isSome)
    (hincipher : w.session.incipher = key) :
    ∃ w', openRecord p w = (some (type :: body), w') ∧ core w' = core w ∧ w'.dead = w.dead ∧
      w'.session.inseqno = w.session.inseqno + 1 ∧
      w'.session.outseqno = w.session.outseqno ∧ sentBytes w'.trace = sentBytes w.trace ∧
      encrypted w'.trace = encrypted w.trace ∧
      decrypted w'.trace =
        decrypted w.trace ++ sealing key w.session.inseqno (type :: body) := by
  have hdrop : (encode p key w.session.inseqno type body).drop 2 =
      protect p key w.session.inseqno (type :: body) := rfl
  have htake : (protect p key w.session.inseqno (type :: body)).take
      (w.session.reclen + if key.isSome then 17 else 1) =
        protect p key w.session.inseqno (type :: body) := by
    refine take_of_length_le ?_
    rw [protect_length, hreclen, length_cons]
    split
    · omega
    · omega
  let w₁ : World := {w with session := {w.session with inseqno := w.session.inseqno + 1}}
  cases key with
  | none =>
    refine ⟨w₁, ?_, rfl, rfl, rfl, rfl, rfl, rfl, (append_nil _).symm⟩
    rw [openRecord, gets_bind, hinbuf]
    refine (congrFun (if_neg (by simp [hinstate])) w₁).trans ?_
    rw [hdrop]
    exact congrArg (fun plain => (some plain, w₁)) htake
  | some key =>
    let opened := encode p (some key) w.session.inseqno type body
    let w₂ : World := {w₁ with
      trace := w₁.trace ++ [.decrypted key w.session.inseqno (type :: body)]
      session := {w₁.session with
        inbuf := some (opened.take 2 ++ (type :: body) ++ [0] ++
          opened.drop (w₁.session.reclen + 4))}}
    refine ⟨w₂, ?_, rfl, rfl, rfl, rfl, ?_, ?_, ?_⟩
    · rw [openRecord, gets_bind, hinbuf, hincipher]
      refine (congrFun (if_pos hinstate) w₁).trans ?_
      have hplain : p.decrypt key w.session.inseqno
          (((encode p (some key) w.session.inseqno type body).drop 2).take
            (w.session.reclen + 17)) = some (type :: body) := by
        rw [hdrop]
        exact (congrArg (p.decrypt key w.session.inseqno) htake).trans (hp.decrypt_encrypt _ _ _)
      simp only [hplain]
      rfl
    · exact (sentBytes_append _ _).trans (append_nil _)
    · exact (encrypted_append _ _).trans (append_nil _)
    · exact decrypted_append _ _

section Turns

variable (hp : Correct p) (he : Healthy S.env) (hroles : R.initiator = !S.initiator)
  {g : Progress} {data later : Bytes} {pend : List Sealed} {pos : Pos} {seqno : UInt32} {w : World}

include hp he hroles

/-- A record that belongs at this place of the peer's stream is handled. -/
theorem handleRecord_goes {type : UInt8} {body : Bytes} (hcore : core w = shape p label S R g)
    (halive : w.dead = false) (hsends : Sends p label R S (recvPos g) type body pos) :
    ∃ g', Goes p label S R (sendPos g) (sendPos g') (handleRecord p S.env (type :: body)) w
      (some ()) (shape p label S R g') ∧ recvPos g' = pos := by
  cases hsends with
  | handshake => exact receiveHandshake_goes hp he hroles g w hcore halive
  | record _ _ htype _ hkey =>
    obtain ⟨g', ⟨w', hrun, hcore', hemits⟩, hpos⟩ :=
      receiveRecord_application he type body g w hcore halive
    have hinstate : w.session.instate = true :=
      (congrArg Core.instate hcore).trans ((shape_incipher g).1.trans hkey)
    refine ⟨g', ⟨w', (congrFun (if_pos htype) w).trans ?_, hcore', hemits⟩, hpos⟩
    exact (congrFun (if_neg (by simp [hinstate])) w).trans (bind_of_some hrun)

omit hp he hroles in
/-- The buffer of a session that goes on reading holds what it held and the new data. -/
theorem reads_of_stored {buf : Bytes} {w' : World} (hcore : core w = shape p label S R g)
    (halive : w.dead = false)
    (hflow : Flow p label R S (recvPos g) w.session.inseqno (buf ++ (data ++ later)) pend pos seqno)
    (hsame : SameBut w w') (hheld : Holds w' (buf ++ data)) :
    Reads p label S R g later pend pos seqno w w' := by
  refine ⟨g, [], pend, rfl, ⟨hsame.core.trans hcore, hsame.dead.trans halive, buf ++ data, hheld,
    ?_⟩, ?_, .refl _ hsame.trace hsame.outseqno⟩
  · rw [hsame.inseqno, append_assoc]
    exact hflow
  · rw [hsame.trace, append_nil]

/-- The outcome of a turn that found a complete record. -/
theorem turn_record {whole rest : Bytes} (hcore : core w = shape p label S R g)
    (halive : w.dead = false) (hinbuf : w.session.inbuf = some whole)
    (hlen : whole.length = recordSize w.session)
    (hreclen : w.session.reclen = ntohs (whole ++ rest))
    (hflow : Flow p label R S (recvPos g) w.session.inseqno (whole ++ rest) pend pos seqno) :
    ∃ plain w₁ w₂, openRecord p w = (some plain, w₁) ∧
      handleRecord p S.env plain w₁ = (some (), w₂) ∧
      Reads p label S R g rest pend pos seqno w
        {w₂ with session := {w₂.session with inbuf := some []}} := by
  have hinstate : w.session.instate = (keyAt p label R S (recvPos g)).isSome :=
    (congrArg Core.instate hcore).trans (shape_incipher g).1
  have hincipher : w.session.incipher = keyAt p label R S (recvPos g) :=
    (congrArg Core.incipher hcore).trans (shape_incipher g).2
  obtain ⟨type, body, pos₁, pend', hsends, hwhole, hbody, hpend, hrest⟩ :=
    record_at_front hflow rfl hlen hreclen hinstate
  rw [hwhole] at hinbuf
  obtain ⟨w₁, hopen, hcore₁, hdead₁, hinseqno₁, houtseqno₁, hsent₁, hencrypted₁, hdecrypted₁⟩ :=
    openRecord_runs hp hinbuf hbody hinstate hincipher
  obtain ⟨g', ⟨w₂, hhandle, hcore₂, hemits⟩, hpos⟩ := handleRecord_goes hp he hroles
    (hcore₁.trans hcore) (hdead₁.trans halive) hsends
  refine ⟨type :: body, w₁, w₂, hopen, hhandle, g', _, pend', hpend, ?_, ?_, ?_⟩
  · refine ⟨hcore₂, hemits.dead.trans (hdead₁.trans halive), [], ⟨rfl, .inl Nat.zero_lt_two⟩, ?_⟩
    rw [hpos]
    change Flow p label R S pos₁ w₂.session.inseqno rest pend' pos seqno
    rw [hemits.inseqno, hinseqno₁]
    exact hrest
  · exact hemits.decrypted.trans hdecrypted₁
  · obtain ⟨bytes, seals, hbytes, hseals, hwritten⟩ := hemits.flow
    rw [houtseqno₁] at hwritten
    rw [hsent₁] at hbytes
    rw [hencrypted₁] at hseals
    exact ⟨bytes, seals, hbytes, hseals, hwritten⟩

/-- A turn either uses up the data or takes one record off the peer's flow. -/
theorem receiveTurn_reading (hdata : data ≠ [])
    (h : Reading p label S R g (data ++ later) pend pos seqno w) :
    ∃ result w', receiveTurn p S.env data w = (some result, w') ∧
      (result.getD []).length < data.length ∧
      Reads p label S R g (result.getD [] ++ later) pend pos seqno w w' := by
  obtain ⟨buf, hbuf, hflow⟩ := h.flow
  have hpos : 0 < data.length := length_pos_iff.mpr hdata
  rcases readLength_runs he hdata hbuf with ⟨w₁, hrun, hsame, hheld⟩ |
    ⟨w₁, read, body, hrun, hsame, hheld, hheader, hall, hbody, hshorter⟩
  · exact ⟨none, w₁, bind_of_some hrun, hpos, reads_of_stored h.core h.alive hflow hsame hheld⟩
  have hall' : read ++ (body ++ later) = buf ++ (data ++ later) := by
    rw [← append_assoc, hall, append_assoc]
  rw [← hall'] at hflow
  rcases readBody_runs hheld hheader hbody with ⟨w₂, hrun₂, hsame₂, hheld₂⟩ |
    ⟨w₂, whole, rest, hrun₂, hsame₂, hinbuf, hreclen, hlen, hsplit, hless⟩
  · exact ⟨none, w₂, (bind_of_some hrun).trans (bind_of_some hrun₂), hpos,
      reads_of_stored h.core h.alive hflow (hsame.trans hsame₂) hheld₂⟩
  have hboth := hsame.trans hsame₂
  have hsplit' : whole ++ (rest ++ later) = read ++ (body ++ later) := by
    rw [← append_assoc, hsplit, append_assoc]
  rw [← hsplit', ← hboth.inseqno] at hflow
  have hreclen' : w₂.session.reclen = ntohs (whole ++ (rest ++ later)) := by
    rw [hreclen, hsplit', ntohs_append hheader]
  obtain ⟨plain, w₃, w₄, hopen, hhandle, g', seals, pend', hpend, hreading, hdecrypted,
    hwrites⟩ := turn_record hp he hroles (hboth.core.trans h.core) (hboth.dead.trans h.alive)
      hinbuf hlen hreclen' hflow
  refine ⟨some rest, _, ?_, hless.trans_le hshorter, g', seals, pend', hpend, hreading, ?_, ?_⟩
  · refine (bind_of_some hrun).trans ((bind_of_some hrun₂).trans ?_)
    exact (bind_of_some hopen).trans (bind_of_some hhandle)
  · exact hdecrypted.trans (by rw [hboth.trace])
  · exact (Writes.refl (sendPos g) hboth.trace hboth.outseqno).trans hwrites

/-- All the data is read, and every record that it completes has been opened. -/
theorem receiveLoop_reading {turns : ℕ} (hturns : data.length < turns)
    (h : Reading p label S R g (data ++ later) pend pos seqno w) :
    ∃ w', receiveLoop p S.env turns data w = (some (), w') ∧
      Reads p label S R g later pend pos seqno w w' := by
  induction turns generalizing g data pend w with
  | zero => exact absurd hturns (Nat.not_lt_zero _)
  | succ turns ih =>
    by_cases hdata : data = []
    · subst hdata
      refine ⟨w, congrFun (if_pos rfl) w, g, [], pend, rfl, h, (append_nil _).symm, ?_⟩
      exact .refl _ rfl rfl
    obtain ⟨result, w₁, hrun, hless, hreads⟩ := receiveTurn_reading hp he hroles hdata h
    cases result with
    | none => exact ⟨w₁, (congrFun (if_neg hdata) w).trans (bind_of_some hrun), hreads⟩
    | some rest =>
      have hturn : receiveLoop p S.env (turns + 1) data w = receiveLoop p S.env turns rest w₁ :=
        (congrFun (if_neg hdata) w).trans (bind_of_some hrun)
      have hrest : rest.length < turns := by
        change rest.length < data.length at hless
        omega
      obtain ⟨g₁, seals, pend₁, hpend, hreading, hdecrypted, hwrites⟩ := hreads
      obtain ⟨w', hrun', g', seals', pend', hpend', hreading', hdecrypted', hwrites'⟩ :=
        ih hrest hreading
      refine ⟨w', hturn.trans hrun', g', seals ++ seals', pend', ?_, hreading', ?_,
        hwrites.trans hwrites'⟩
      · rw [hpend, hpend', append_assoc]
      · rw [hdecrypted', hdecrypted, append_assoc]

/-- Any piece of the peer's flow is accepted. -/
theorem sptpsReceiveData_reading (h : Reading p label S R g (data ++ later) pend pos seqno w) :
    ∃ w', sptpsReceiveData p S.env data w = (some (), w') ∧
      Reads p label S R g later pend pos seqno w w' := by
  obtain ⟨w', hrun, hreads⟩ := receiveLoop_reading hp he hroles (Nat.lt_succ_self data.length) h
  refine ⟨w', ?_, hreads⟩
  have hstarted : Started w := by
    refine ⟨fun hzero => ?_, (congrArg Core.datagram h.core).trans (by cases g <;> rfl)⟩
    have hshape := (congrArg Core.state h.core).symm.trans hzero
    cases g <;> cases hshape
  exact (sptpsReceiveData_started hstarted data).trans hrun

end Turns

end Meshlink.StreamReading
