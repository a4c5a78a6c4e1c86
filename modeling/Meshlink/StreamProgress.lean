import Meshlink.StreamFlow
import Meshlink.SptpsEffects

/-!
The handshake of a stream session when nothing fails. The fields that the
handshake uses are determined by how far the session has come, and each call
moves the session on and appends the records to its stream that belong there.
-/
namespace Meshlink.StreamProgress

open Commands Sptps SptpsEffects StreamFlow

/-- Allocation and transport work, and the application accepts every record. -/
structure Healthy (e : Env) : Prop where
  allocates : ∀ n, e.allocates n = true
  delivers : ∀ n, e.delivers n = true
  accepts : ∀ n, (e.reaction n).accepts = true

/-- The primitives undo each other. -/
structure Correct (p : Primitives) : Prop where
  verify_sign : ∀ key msg, p.verify (p.publicKey key) msg (p.sign key msg) = true
  decrypt_encrypt : ∀ key seqno plain,
    p.decrypt key seqno (p.encrypt key seqno plain) = some plain
  shared_comm : ∀ a b, p.ecdhShared a (p.ecdhPublic b) = p.ecdhShared b (p.ecdhPublic a)

/-- The fields that the handshake reads and writes. -/
structure Core where
  initiator : Bool
  datagram : Bool
  instate : Bool
  outstate : Bool
  state : Phase
  incipher : Option Bytes
  outcipher : Option Bytes
  mykey : Bytes
  hiskey : Bytes
  ecdh : Option Bytes
  mykex : Option Bytes
  hiskex : Option Bytes
  key : Option Bytes
  label : Bytes
  kexes : ℕ

def core (w : World) : Core where
  initiator := w.session.initiator
  datagram := w.session.datagram
  instate := w.session.instate
  outstate := w.session.outstate
  state := w.session.state
  incipher := w.session.incipher
  outcipher := w.session.outcipher
  mykey := w.session.mykey
  hiskey := w.session.hiskey
  ecdh := w.session.ecdh
  mykex := w.session.mykex
  hiskex := w.session.hiskex
  key := w.session.key
  label := w.session.label
  kexes := w.kexes

/-- How far a session has come: it has sent the KEX, or also the SIG, of an
exchange, it has sent the ACK of exchange `n + 1`, or it has completed exchange `n`. -/
inductive Progress
  | kex (n : ℕ)
  | sig (n : ℕ)
  | ack (n : ℕ)
  | ready (n : ℕ)

/-- The place in the session's own stream. -/
def sendPos : Progress → Pos
  | .kex n => ⟨n, .sig⟩
  | .sig n => Pos.next ⟨n, .sig⟩
  | .ack n => ⟨n + 2, .kex⟩
  | .ready n => ⟨n + 1, .kex⟩

/-- The place in the peer's stream. -/
def recvPos : Progress → Pos
  | .kex n => ⟨n, .kex⟩
  | .sig n => ⟨n, .sig⟩
  | .ack n => ⟨n + 1, .ack⟩
  | .ready n => ⟨n + 1, .kex⟩

variable (p : Primitives) (label : Bytes) (S R : Party)

def shape : Progress → Core
  | .kex n => ⟨S.initiator, false, n != 0, n != 0, .kex, keyAt p label R S ⟨n, .kex⟩,
      keyAt p label S R ⟨n, .kex⟩, S.key, p.publicKey R.key, some (S.env.secret n),
      some (kexOf p S n), none, none, label, n + 1⟩
  | .sig n => ⟨S.initiator, false, n != 0, n != 0, .sig, keyAt p label R S ⟨n, .kex⟩,
      keyAt p label S R ⟨n, .kex⟩, S.key, p.publicKey R.key, some (S.env.secret n),
      some (kexOf p S n), some (kexOf p R n), none, label, n + 1⟩
  | .ack n => ⟨S.initiator, false, true, true, .ack, some (streamKey p label R S n),
      some (streamKey p label S R (n + 1)), S.key, p.publicKey R.key, none, none, none,
      some (material p label S R (n + 1)), label, n + 2⟩
  | .ready n => ⟨S.initiator, false, true, true, .secondaryKex, some (streamKey p label R S n),
      some (streamKey p label S R n), S.key, p.publicKey R.key, none, none, none, none, label,
      n + 1⟩

def sentBytes (trace : List Event) : Bytes := (sentData trace).flatten

def encrypted (trace : List Event) : List Sealed :=
  trace.filterMap fun
    | .encrypted key seqno plain => some (key, seqno, plain)
    | _ => none

def decrypted (trace : List Event) : List Sealed :=
  trace.filterMap fun
    | .decrypted key seqno plain => some (key, seqno, plain)
    | _ => none

/-- What was written takes the stream from `pos` to `pos'`. -/
def Writes (pos pos' : Pos) (w w' : World) : Prop :=
  ∃ bytes seals, sentBytes w'.trace = sentBytes w.trace ++ bytes ∧
    encrypted w'.trace = encrypted w.trace ++ seals ∧
    Flow p label S R pos w.session.outseqno bytes seals pos' w'.session.outseqno

/-- Nothing was read, and what was written takes the stream from `pos` to `pos'`. -/
structure Emits (pos pos' : Pos) (w w' : World) : Prop where
  dead : w'.dead = w.dead
  inbuf : w'.session.inbuf = w.session.inbuf
  reclen : w'.session.reclen = w.session.reclen
  inseqno : w'.session.inseqno = w.session.inseqno
  decrypted : decrypted w'.trace = decrypted w.trace
  flow : Writes p label S R pos pos' w w'

/-- Events that are neither sent nor received data. -/
def isIdle : Event → Bool
  | .sent _ _ | .encrypted _ _ _ | .decrypted _ _ _ => false
  | _ => true

variable {p label S R}

theorem sentBytes_append (trace evs : List Event) :
    sentBytes (trace ++ evs) = sentBytes trace ++ sentBytes evs := by
  simp [sentBytes, sentData]

theorem encrypted_append (trace evs : List Event) :
    encrypted (trace ++ evs) = encrypted trace ++ encrypted evs :=
  List.filterMap_append

theorem decrypted_append (trace evs : List Event) :
    decrypted (trace ++ evs) = decrypted trace ++ decrypted evs :=
  List.filterMap_append

theorem idle_lists {evs : List Event} (h : evs.all isIdle = true) :
    sentBytes evs = [] ∧ encrypted evs = [] ∧ decrypted evs = [] := by
  induction evs with
  | nil => exact ⟨rfl, rfl, rfl⟩
  | cons ev evs ih =>
    obtain ⟨hidle, hidles⟩ := (Bool.and_eq_true _ _).mp h
    obtain ⟨hsent, hencrypted, hdecrypted⟩ := ih hidles
    cases ev with
    | sent _ _ => cases hidle
    | encrypted _ _ _ => cases hidle
    | decrypted _ _ _ => cases hidle
    | _ => exact ⟨hsent, hencrypted, hdecrypted⟩

variable (w : World) {w' : World} (pos : Pos) {pos' : Pos} (n : ℕ) {e : Env}

/-- Where a session is in its streams. -/
def places (w : World) :=
  (w.dead, w.session.inbuf, w.session.reclen, w.session.inseqno, w.session.outseqno)

theorem Emits.idle {w : World} (evs : List Event) (hplaces : places w' = places w)
    (htrace : w'.trace = w.trace ++ evs) (hevs : evs.all isIdle = true) :
    Emits p label S R pos pos w w' := by
  obtain ⟨hsent, hencrypted, hdecrypted⟩ := idle_lists hevs
  simp only [places, Prod.mk.injEq] at hplaces
  obtain ⟨hdead, hinbuf, hreclen, hinseqno, houtseqno⟩ := hplaces
  refine ⟨hdead, hinbuf, hreclen, hinseqno, ?_, [], [], ?_, ?_, ?_⟩
  · rw [htrace, decrypted_append, hdecrypted, List.append_nil]
  · rw [htrace, sentBytes_append, hsent]
  · rw [htrace, encrypted_append, hencrypted]
  · rw [houtseqno]
    exact .nil _ _

/-- Changes of the world that leave the stream alone. -/
theorem Emits.silent {w : World} (hplaces : places w' = places w) (htrace : w'.trace = w.trace) :
    Emits p label S R pos pos w w' :=
  .idle pos [] hplaces (by rw [htrace, List.append_nil]) rfl

theorem Writes.refl {w : World} (htrace : w'.trace = w.trace)
    (hseqno : w'.session.outseqno = w.session.outseqno) : Writes p label S R pos pos w w' := by
  refine ⟨[], [], ?_, ?_, ?_⟩
  · rw [htrace, List.append_nil]
  · rw [htrace, List.append_nil]
  · rw [hseqno]
    exact .nil _ _

variable {pos : Pos}

theorem Writes.trans {pos'' : Pos} {w w'' : World} (h : Writes p label S R pos pos' w w')
    (h' : Writes p label S R pos' pos'' w' w'') : Writes p label S R pos pos'' w w'' := by
  obtain ⟨bytes, seals, hbytes, hseals, hflow⟩ := h
  obtain ⟨bytes', seals', hbytes', hseals', hflow'⟩ := h'
  refine ⟨bytes ++ bytes', seals ++ seals', ?_, ?_, hflow.trans hflow'⟩
  · rw [hbytes', hbytes, List.append_assoc]
  · rw [hseals', hseals, List.append_assoc]

theorem Emits.trans {pos'' : Pos} {w w'' : World} (h : Emits p label S R pos pos' w w')
    (h' : Emits p label S R pos' pos'' w' w'') : Emits p label S R pos pos'' w w'' :=
  ⟨h'.dead.trans h.dead, h'.inbuf.trans h.inbuf, h'.reclen.trans h.reclen,
    h'.inseqno.trans h.inseqno, h'.decrypted.trans h.decrypted, Writes.trans h.flow h'.flow⟩

section Going

variable {α β : Type} {x : Command World α} {pos pos' pos'' : Pos} {w : World} {c : Core}

variable (p label S R) in
/-- The command ends with `result` and the fields `c`, and takes the stream from
`pos` to `pos'`. -/
def Goes (pos pos' : Pos) (x : Command World α) (w : World) (result : Option α) (c : Core) : Prop :=
  ∃ w', x w = (result, w') ∧ core w' = c ∧ Emits p label S R pos pos' w w'

/-- The command runs up to `w₁` and goes on there as `y` does. -/
theorem Goes.step {y : Command World α} {result : Option α} (w₁ : World) (hrun : x w = y w₁)
    (hemits : Emits p label S R pos pos' w w₁) (h : Goes p label S R pos' pos'' y w₁ result c) :
    Goes p label S R pos pos'' x w result c := by
  obtain ⟨w', hrest, hcore, hemits'⟩ := h
  exact ⟨w', hrun.trans hrest, hcore, hemits.trans hemits'⟩

theorem Goes.of_eq {y : Command World α} {result : Option α} (hrun : x w = y w)
    (h : Goes p label S R pos pos' y w result c) : Goes p label S R pos pos' x w result c := by
  obtain ⟨w', hrest, hcore⟩ := h
  exact ⟨w', hrun.trans hrest, hcore⟩

theorem Goes.bind {f : α → Command World β} {a : α} {result : Option β} {c' : Core}
    (h : Goes p label S R pos pos' x w (some a) c) (hf : ∀ w', core w' = c → w'.dead = w.dead →
      Goes p label S R pos' pos'' (f a) w' result c') :
    Goes p label S R pos pos'' (x >>= f) w result c' := by
  obtain ⟨w', hrun, hcore, hemits⟩ := h
  exact .step w' (bind_of_some hrun) hemits (hf w' hcore hemits.dead)

/-- The session is changed, but not where it is in its streams. -/
theorem Goes.modify {a : α} (h : Goes p label S R pos pos' x w (some a) c)
    (f : Session → Session) (g : Core → Core)
    (hcore : ∀ w, core (after (Sptps.modify f) w) = g (core w))
    (hsilent : ∀ w, Emits p label S R pos' pos' w (after (Sptps.modify f) w)) :
    Goes p label S R pos pos' (x >>= fun _ => Sptps.modify f) w (some ()) (g c) :=
  h.bind fun w' hcore' _ => ⟨_, rfl, (hcore w').trans (congrArg g hcore'), hsilent w'⟩

end Going

/-- The key that the session sends its next record with. -/
def outKey (c : Core) : Option Bytes := if c.outstate then c.outcipher else none

variable (p label S R) in
/-- The session has the key that its place in the stream asks for. -/
structure Able (pos : Pos) (c : Core) : Prop where
  stream : c.datagram = false
  cipher : c.outstate = true → c.outcipher.isSome = true
  key : outKey c = keyAt p label S R pos

theorem alloc_runs (he : Healthy e) (w : World) :
    alloc e w = (some (), {w with allocs := w.allocs + 1}) := by
  change (if e.allocates w.allocs = true then pure () else fail .outOfMemory :
    Command World Unit) {w with allocs := w.allocs + 1} = _
  rw [if_pos (he.allocates _)]
  rfl

theorem sendData_runs (he : Healthy e) (type : UInt8) (data : Bytes) (w : World) :
    sendData e type data w =
      (some (), {w with trace := w.trace ++ [.sent type data], sends := w.sends + 1}) := by
  change (if e.delivers w.sends = true then pure () else stop : Command World Unit)
    {w with trace := w.trace ++ [.sent type data], sends := w.sends + 1} = _
  rw [if_pos (he.delivers _)]
  rfl

variable (p) in
/-- The events of sending a record. -/
def transmission (key : Option Bytes) (seqno : UInt32) (type : UInt8) (body : Bytes) : List Event :=
  (key.toList.map fun key => Event.encrypted key seqno (type :: body)) ++
    [.sent type (encode p key seqno type body)]

variable (p) in
def transmitted (w : World) (type : UInt8) (body : Bytes) : World :=
  {w with
    session := {w.session with outseqno := w.session.outseqno + 1}
    sends := w.sends + 1
    trace := w.trace ++ transmission p (outKey (core w)) w.session.outseqno type body}

theorem sendRecordPriv_runs (he : Healthy e) (type : UInt8) (body : Bytes) (w : World)
    (hstream : w.session.datagram = false)
    (hcipher : w.session.outstate = true → w.session.outcipher.isSome = true) :
    sendRecordPriv p e type body w = (some (), transmitted p w type body) := by
  rw [sendRecordPriv_eq]
  have hheader : header w.session body = htons body.length := by
    unfold header
    rw [hstream]
    rfl
  unfold encryptBody transmitted
  rw [hheader]
  cases hout : w.session.outstate with
  | false =>
    rw [show outKey (core w) = none from if_neg (by simp [core, hout])]
    exact sendData_runs he type (htons body.length ++ type :: body)
      {w with session := {w.session with outseqno := w.session.outseqno + 1}}
  | true =>
    obtain ⟨key, hsome⟩ := Option.isSome_iff_exists.mp (hcipher hout)
    rw [show outKey (core w) = some key from (if_pos hout).trans hsome, hsome]
    refine (sendData_runs he type (htons body.length ++
      p.encrypt key w.session.outseqno (type :: body)) {w with
        session := {w.session with outseqno := w.session.outseqno + 1}
        trace := w.trace ++ [.encrypted key w.session.outseqno (type :: body)]}).trans ?_
    simp [transmission, encode, protect]

theorem transmitted_emits {type : UInt8} {body : Bytes}
    (hkey : outKey (core w) = keyAt p label S R pos) (h : Sends p label S R pos type body pos') :
    Emits p label S R pos pos' w (transmitted p w type body) := by
  refine ⟨rfl, rfl, rfl, rfl, ?_, _, _, ?_, ?_, Flow.single _ h⟩
  · change decrypted (_ ++ _) = _
    rw [decrypted_append]
    cases outKey (core w) <;> exact List.append_nil _
  · change sentBytes (_ ++ _) = _
    rw [sentBytes_append, hkey]
    cases keyAt p label S R pos <;> simp [transmission, sentBytes, sentData]
  · change encrypted (_ ++ _) = _
    rw [encrypted_append, hkey]
    cases keyAt p label S R pos <;> rfl

/-- A session with a key for its place in the stream sends a record that belongs there. -/
theorem sendRecordPriv_goes {type : UInt8} {body : Bytes} (he : Healthy S.env) (w : World)
    (hable : Able p label S R pos (core w)) (h : Sends p label S R pos type body pos') :
    Goes p label S R pos pos' (sendRecordPriv p S.env type body) w (some ()) (core w) :=
  ⟨_, sendRecordPriv_runs he type body w hable.stream hable.cipher, rfl,
    transmitted_emits w hable.key h⟩

theorem sendKex_goes {n : ℕ} {c : Core} (he : Healthy S.env) (w : World) (hcore : core w = c)
    (hmykex : c.mykex = none) (hkexes : c.kexes = n) (hable : Able p label S R ⟨n, .kex⟩ c) :
    Goes p label S R ⟨n, .kex⟩ ⟨n, .sig⟩ (sendKex p S.env) w (some ()) {c with
      mykex := some (kexOf p S n), ecdh := some (S.env.secret n), kexes := n + 1} := by
  subst hcore hkexes
  let w₁ : World := {w with
    allocs := w.allocs + 1
    kexes := w.kexes + 1
    session := {w.session with
      mykex := some (kexOf p S w.kexes), ecdh := some (S.env.secret w.kexes)}}
  refine .step w₁ ?_ (.silent _ rfl rfl) (sendRecordPriv_goes he w₁
    ⟨hable.stream, hable.cipher, hable.key⟩ (.handshake ⟨w.kexes, .kex⟩))
  have hnone : ¬ (core w).mykex.isSome = true := by simp [hmykex]
  exact (congrFun (if_neg hnone) w).trans (bind_of_some (alloc_runs he w))

/-- In an exchange the session sends with the key of the one before. -/
theorem able_shape (state : Phase) :
    Able p label S R ⟨n, .sig⟩ {shape p label S R (.sig n) with state := state} := by
  cases n with
  | zero => exact ⟨rfl, nofun, rfl⟩
  | succ n => exact ⟨rfl, fun _ => rfl, rfl⟩

theorem sendSig_goes (he : Healthy S.env) (n : ℕ) (state : Phase) (w : World)
    (hcore : core w = {shape p label S R (.sig n) with state := state}) :
    Goes p label S R ⟨n, .sig⟩ (Pos.next ⟨n, .sig⟩) (sendSig p S.env) w (some ())
      {shape p label S R (.sig n) with state := state} := by
  let msg := sigMessage S.initiator (kexOf p S n) (kexOf p R n) label
  let w₁ : World := {w with trace := w.trace ++ [.signed msg]}
  have hable : Able p label S R ⟨n, .sig⟩ (core w) := hcore ▸ able_shape n state
  rw [← hcore]
  refine .step w₁ ?_ (.idle _ [.signed msg] rfl rfl rfl)
    (sendRecordPriv_goes he w₁ hable (.handshake ⟨n, .sig⟩))
  have hmykex : w.session.mykex = some (kexOf p S n) := congrArg Core.mykex hcore
  have hhiskex : w.session.hiskex = some (kexOf p R n) := congrArg Core.hiskex hcore
  have hinitiator : w.session.initiator = S.initiator := congrArg Core.initiator hcore
  have hlabel : w.session.label = label := congrArg Core.label hcore
  have hmykey : w.session.mykey = S.key := congrArg Core.mykey hcore
  rw [sendSig, gets_bind, hmykex, hhiskex, hinitiator, hlabel, hmykey]
  rfl

/-- The peer's KEX is stored and answered with a SIG. -/
theorem receiveKex_goes (he : Healthy S.env) (n : ℕ) (state : Phase) (w : World)
    (hcore : core w = {shape p label S R (.kex n) with state := state}) :
    Goes p label S R ⟨n, .sig⟩ (Pos.next ⟨n, .sig⟩) (receiveKex p S.env (kexOf p R n)) w (some ())
      {shape p label S R (.sig n) with state := state} := by
  let w₁ : World := {w with
    allocs := w.allocs + 1
    session := {w.session with hiskex := some (kexOf p R n)}}
  have hcore₁ : core w₁ = {core w with hiskex := some (kexOf p R n)} := rfl
  rw [hcore] at hcore₁
  refine .step w₁ ?_ (.silent _ rfl rfl) (sendSig_goes he n state w₁ hcore₁)
  have hlen : ¬ (kexOf p R n).length ≠ kexSize := not_not.mpr (kexOf_length R n)
  have hnone : ¬ (core w).hiskex.isSome = true := by simp [hcore, shape]
  refine (congrFun (if_neg hlen) w).trans ((congrFun (if_neg hnone) w).trans ?_)
  exact bind_of_some (alloc_runs he w)

theorem kexOf_nonce (S : Party) (n : ℕ) : kexNonce (kexOf p S n) = (S.env.nonce n).toList := by
  have hlen : (S.env.nonce n).toList.length = 32 := by simp
  exact List.take_left' hlen

theorem kexOf_public (S : Party) (n : ℕ) :
    (kexOf p S n).drop 33 = p.ecdhPublic (S.env.secret n) := by
  have hlen : (S.env.nonce n).toList.length = 32 := by simp
  exact List.drop_left' hlen

/-- Both ends compute the key material of the exchange. -/
theorem computed_material (hp : Correct p) (n : ℕ) :
    p.prf (p.ecdhShared (S.env.secret n) ((kexOf p R n).drop 33))
      (keySeed S.initiator (kexOf p S n) (kexOf p R n) label) (2 * cipherKeySize) =
      material p label S R n := by
  rw [kexOf_public, keySeed, kexOf_nonce, kexOf_nonce, material]
  cases S.initiator with
  | true => rfl
  | false =>
    rw [hp.shared_comm]
    rfl

/-- The key that the session takes for the peer's half of the stream. -/
theorem received_key (hroles : R.initiator = !S.initiator) (n : ℕ) :
    sendingKey (!S.initiator) (material p label S R n) = streamKey p label R S n := by
  unfold streamKey material
  rw [hroles]
  cases S.initiator <;> rfl

/-- The first call also allocates the cipher contexts. -/
def keyedSession (s : Session) (key : Bytes) : Session :=
  {s with
    incipher := if s.outstate then s.incipher else some []
    outcipher := if s.outstate then s.outcipher else some []
    key := some key}

theorem generateKeyMaterial_runs (he : Healthy e) (mykex hiskex shared : Bytes) (w : World) :
    generateKeyMaterial p e mykex hiskex shared w = (some (), {w with
      allocs := w.allocs + 1
      session := keyedSession w.session (p.prf shared
        (keySeed w.session.initiator mykex hiskex w.session.label) (2 * cipherKeySize))}) := by
  let key := p.prf shared (keySeed w.session.initiator mykex hiskex w.session.label)
    (2 * cipherKeySize)
  have htail (w₁ : World) : (alloc e >>= fun _ => modify fun s => {s with key := some key}) w₁ =
      (some (), {w₁ with
        allocs := w₁.allocs + 1, session := {w₁.session with key := some key}}) :=
    bind_of_some (alloc_runs he w₁)
  by_cases hout : w.session.outstate = true
  · rw [keyedSession, if_pos hout, if_pos hout]
    exact (congrFun (when_bind_of_false (by simp [hout])) w).trans
      (htail {w with session := {w.session with key := none}})
  · rw [keyedSession, if_neg hout, if_neg hout]
    exact (congrFun (when_bind_of_true (by simp [hout])) w).trans (htail {w with
      session := {w.session with incipher := some [], outcipher := some [], key := none}})

variable (p label S R) in
/-- The keys have been generated and the messages of the exchange are forgotten. -/
def keyedWorld (n : ℕ) (w : World) : World :=
  {w with
    allocs := w.allocs + 1
    trace := w.trace ++ [.keyed (kexOf p S n) (kexOf p R n)]
    session := {keyedSession {w.session with ecdh := none} (material p label S R n) with
      mykex := none, hiskex := none}}

theorem keyedWorld_emits (pos : Pos) (w : World) :
    Emits p label S R pos pos w (keyedWorld p label S R n w) :=
  .idle pos [.keyed (kexOf p S n) (kexOf p R n)] rfl rfl rfl

theorem core_keyedWorld (w : World) :
    core (keyedWorld p label S R n w) = {core w with
      incipher := if (core w).outstate then (core w).incipher else some []
      outcipher := if (core w).outstate then (core w).outcipher else some []
      ecdh := none, mykex := none, hiskex := none, key := some (material p label S R n)} := rfl

theorem changeKeys_generates (hp : Correct p) (he : Healthy S.env) (n : ℕ) (w : World)
    (hcore : core w = shape p label S R (.sig n)) :
    changeKeys p S.env (kexOf p S n) (kexOf p R n) (S.env.secret n) w =
      (do when w.session.outstate (sendAck p S.env)
          modify fun s => {s with outcipher := s.key.map (sendingKey s.initiator)})
        (keyedWorld p label S R n w) := by
  have hgen := generateKeyMaterial_runs (p := p) he (kexOf p S n) (kexOf p R n)
    (p.ecdhShared (S.env.secret n) ((kexOf p R n).drop 33))
    {w with session := {w.session with ecdh := none}}
  have hinitiator : w.session.initiator = S.initiator := congrArg Core.initiator hcore
  have hlabel : w.session.label = label := congrArg Core.label hcore
  have hmaterial := @computed_material p label S R hp n
  rw [← hinitiator, ← hlabel] at hmaterial
  rw [keyedWorld, ← hlabel, ← hmaterial]
  exact bind_of_some hgen

/-- In the first exchange the new key is used at once. -/
theorem changeKeys_first (hp : Correct p) (he : Healthy S.env) (pos : Pos) (w : World)
    (hcore : core w = shape p label S R (.sig 0)) :
    Goes p label S R pos pos
      (changeKeys p S.env (kexOf p S 0) (kexOf p R 0) (S.env.secret 0)) w (some ())
      {shape p label S R (.ready 0) with
        state := .sig, instate := false, outstate := false, incipher := some []
        key := some (material p label S R 0)} := by
  have hout : w.session.outstate = false := congrArg Core.outstate hcore
  let w₁ := keyedWorld p label S R 0 w
  have hcore₁ : core w₁ = _ := core_keyedWorld 0 w
  rw [hcore] at hcore₁
  refine .step w₁ ?_ (keyedWorld_emits 0 pos w) ?_
    (y := modify fun s => {s with outcipher := s.key.map (sendingKey s.initiator)})
  · rw [changeKeys_generates hp he 0 w hcore, when_bind_of_false hout]
  refine ⟨_, rfl, ?_, .silent _ rfl rfl⟩
  change {core w₁ with outcipher := (core w₁).key.map (sendingKey (core w₁).initiator)} = _
  rw [hcore₁]
  rfl

/-- In every later exchange an ACK is sent with the old key before the new one is used. -/
theorem changeKeys_next (hp : Correct p) (he : Healthy S.env) (n : ℕ) (w : World)
    (hcore : core w = shape p label S R (.sig (n + 1))) :
    Goes p label S R ⟨n + 1, .ack⟩ ⟨n + 2, .kex⟩
      (changeKeys p S.env (kexOf p S (n + 1)) (kexOf p R (n + 1)) (S.env.secret (n + 1))) w
      (some ()) {shape p label S R (.ack n) with state := .sig} := by
  have hout : w.session.outstate = true := congrArg Core.outstate hcore
  let w₁ := keyedWorld p label S R (n + 1) w
  have hcore₁ : core w₁ = _ := core_keyedWorld (n + 1) w
  rw [hcore] at hcore₁
  have hable : Able p label S R ⟨n + 1, .ack⟩ (core w₁) := by
    rw [hcore₁]
    exact ⟨rfl, fun _ => rfl, rfl⟩
  have hack := (sendRecordPriv_goes he w₁ hable (.handshake ⟨n + 1, .ack⟩)).modify
    (fun s => {s with outcipher := s.key.map (sendingKey s.initiator)})
    (fun c => {c with outcipher := c.key.map (sendingKey c.initiator)}) (fun _ => rfl)
    fun _ => .silent _ rfl rfl
  rw [hcore₁] at hack
  refine .step w₁ ?_ (keyedWorld_emits _ _ w) hack
  rw [changeKeys_generates hp he (n + 1) w hcore, when_bind_of_true hout]
  rfl

/-- The peer's signature is over the exchange that the session is in. -/
theorem receiveSig_verifies (hp : Correct p) (hroles : R.initiator = !S.initiator) (n : ℕ)
    (w : World) (hcore : core w = shape p label S R (.sig n)) :
    receiveSig p S.env (sigOf p label R S n) w =
      changeKeys p S.env (kexOf p S n) (kexOf p R n) (S.env.secret n) {w with
        trace := w.trace ++ [.verified (sigMessage (!S.initiator) (kexOf p R n) (kexOf p S n) label)
          (sigOf p label R S n)]} := by
  have hlen : ¬ (sigOf p label R S n).length ≠ sigSize := not_not.mpr (sigOf_length R S n)
  have hvalid : p.verify (p.publicKey R.key)
      (sigMessage (!S.initiator) (kexOf p R n) (kexOf p S n) label)
      (sigOf p label R S n) = true := by
    rw [sigOf, hroles]
    exact hp.verify_sign _ _
  refine (congrFun (if_neg hlen) w).trans ?_
  rw [show w.session.mykex = _ from congrArg Core.mykex hcore,
    show w.session.hiskex = _ from congrArg Core.hiskex hcore,
    show w.session.initiator = _ from congrArg Core.initiator hcore,
    show w.session.hiskey = _ from congrArg Core.hiskey hcore,
    show w.session.label = _ from congrArg Core.label hcore,
    show w.session.ecdh = _ from congrArg Core.ecdh hcore]
  exact (congrFun (if_neg (by simp [shape, hvalid])) w).trans rfl

/-- The peer's half of the key material is used from now on. -/
theorem receiveAck_goes (hroles : R.initiator = !S.initiator) (n : ℕ) (pos : Pos) (state : Phase)
    (w : World) (hkey : w.session.key = some (material p label S R n))
    (hcore : {core w with instate := true, key := none, incipher := none} =
      {shape p label S R (.ready n) with state := state, incipher := none}) :
    Goes p label S R pos pos (receiveAck []) w (some ())
      {shape p label S R (.ready n) with state := state} := by
  have hinitiator : w.session.initiator = S.initiator := congrArg Core.initiator hcore
  refine ⟨{w with session := {w.session with
    incipher := some (sendingKey (!w.session.initiator) (material p label S R n)), key := none
    instate := true}}, ?_, ?_, .silent _ rfl rfl⟩
  · rw [receiveAck, gets_bind, if_neg (by simp), hkey]
    rfl
  · rw [hinitiator, received_key hroles]
    exact congrArg (fun c => {c with incipher := some (streamKey p label R S n)}) hcore

end Meshlink.StreamProgress
