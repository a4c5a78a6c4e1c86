import Meshlink.Bitmaps
import Meshlink.Commands

/-!
The session layer of sptps.c: key exchange, record encryption, the parser of
the stream format and the datagram format with its replay window. The vendored
ciphers and curve operations are parameters that only promise the sizes of
their outputs. Randomness, allocation, the transport and the application's
reactions to records are read from an environment.

A command that stops has returned false to its caller; the session keeps what
was written to it until then. A call to abort() or the use of a null pointer
also marks the session's process as dead.
-/
namespace Meshlink.Sptps

open Commands Bitmaps

abbrev Bytes := List UInt8

def kexSize : ℕ := 1 + 32 + 32

def sigSize : ℕ := 64

def cipherKeySize : ℕ := 64

def handshake : UInt8 := 128

/-- SPTPS_OVERHEAD: two length bytes, the type and a 16 byte tag. -/
def overhead : ℕ := 19

/-- SPTPS_DATAGRAM_OVERHEAD: four sequence number bytes, the type and a 16 byte tag. -/
def datagramOverhead : ℕ := 21

/-- sptps_start always chooses 32 bytes for the replay window. -/
abbrev replaywin : ℕ := 32

instance : NeZero replaywin := ⟨by decide⟩

structure Primitives where
  publicKey : Bytes → Bytes
  sign : Bytes → Bytes → Bytes
  verify : Bytes → Bytes → Bytes → Bool
  ecdhPublic : Bytes → Bytes
  ecdhShared : Bytes → Bytes → Bytes
  prf : Bytes → Bytes → ℕ → Bytes
  encrypt : Bytes → UInt32 → Bytes → Bytes
  decrypt : Bytes → UInt32 → Bytes → Option Bytes
  sign_length : ∀ key msg, (sign key msg).length = sigSize
  ecdhPublic_length : ∀ secret, (ecdhPublic secret).length = 32
  prf_length : ∀ secret seed n, (prf secret seed n).length = n
  encrypt_length : ∀ key seqno plain, (encrypt key seqno plain).length = plain.length + 16
  decrypt_length : ∀ key seqno data plain,
    decrypt key seqno data = some plain → plain.length + 16 = data.length

/-- Application data; its length is passed as a 16 bit integer. -/
abbrev Payload := {data : Bytes // data.length < 65536}

inductive Call
  | sendRecord (type : UInt8) (data : Payload)
  | forceKex

/-- What the application does in one call of receive_record. -/
structure Reaction where
  calls : List Call
  accepts : Bool

structure Env where
  nonce : ℕ → Vector UInt8 32
  secret : ℕ → Bytes
  allocates : ℕ → Bool
  delivers : ℕ → Bool
  reaction : ℕ → Reaction

inductive Phase
  | zero
  | kex
  | secondaryKex
  | sig
  | ack
  deriving DecidableEq, Repr

structure Session where
  initiator : Bool
  datagram : Bool
  instate : Bool
  outstate : Bool
  state : Phase
  /-- The first `buflen` bytes of the record being read; `none` is a null pointer. -/
  inbuf : Option Bytes
  reclen : ℕ
  /-- The key set in the context; the empty key stands for a context without one. -/
  incipher : Option Bytes
  inseqno : UInt32
  late : Bitmap replaywin
  outcipher : Option Bytes
  outseqno : UInt32
  decryptedBufferLen : UInt64
  /-- The number of bytes `decrypted_buffer` really points to. -/
  decryptedBuffer : ℕ
  mykey : Bytes
  hiskey : Bytes
  ecdh : Option Bytes
  mykex : Option Bytes
  hiskex : Option Bytes
  key : Option Bytes
  label : Bytes
  deriving DecidableEq

inductive Failure
  | invalidArgument
  | notFinished
  | applicationType
  | outOfMemory
  | ackLength
  | kexLength
  | sigLength
  | secondKex
  | signature
  | cannotForceKex
  | stateZero
  | invalidState
  | shortPacket
  | packetSeqno (seqno expected : UInt32)
  | tooEarly
  | packetForged
  | replayed (seqno expected : UInt32)
  | recordForged
  | recordType (type : UInt8)
  deriving DecidableEq, Repr

/-- What can be observed of a session. -/
inductive Event
  | encrypted (key : Bytes) (seqno : UInt32) (plain : Bytes)
  | sent (type : UInt8) (data : Bytes)
  | signed (msg : Bytes)
  | verified (msg sig : Bytes)
  | keyed (mykex hiskex : Bytes)
  | plaintext (seqno : UInt32) (type : UInt8)
  | unpacked (held len : ℕ)
  | decrypted (key : Bytes) (seqno : UInt32) (plain : Bytes)
  | accepted (seqno : UInt32)
  | record (type : UInt8) (data : Bytes)
  | failed (failure : Failure)
  deriving DecidableEq

structure World where
  session : Session
  kexes : ℕ
  allocs : ℕ
  sends : ℕ
  callbacks : ℕ
  dead : Bool
  trace : List Event
  deriving DecidableEq

def htons (n : ℕ) : Bytes := [UInt8.ofNat (n / 256), UInt8.ofNat n]

def ntohs (data : Bytes) : ℕ := (data.getD 0 0).toNat * 256 + (data.getD 1 0).toNat

def htonl (n : UInt32) : Bytes := htons (n.toNat / 65536) ++ htons n.toNat

def ntohl (data : Bytes) : UInt32 :=
  UInt32.ofNat (ntohs (data.take 2) * 65536 + ntohs ((data.drop 2).take 2))

variable {α : Type}

def modify (f : Session → Session) : Command World Unit :=
  update fun w => {w with session := f w.session}

def emit (ev : Event) : Command World Unit := update fun w => {w with trace := w.trace ++ [ev]}

def fail (failure : Failure) : Command World α := do
  emit (.failed failure)
  stop

def crash : Command World α := do
  update fun w => {w with dead := true}
  stop

variable (p : Primitives) (e : Env)

def alloc : Command World Unit := do
  let n ← gets World.allocs
  update fun w => {w with allocs := n + 1}
  if e.allocates n then pure () else fail .outOfMemory

def sendData (type : UInt8) (data : Bytes) : Command World Unit := do
  emit (.sent type data)
  let n ← gets World.sends
  update fun w => {w with sends := n + 1}
  if e.delivers n then pure () else stop

/-- The type and data of a record, encrypted once the first handshake has finished. -/
def encryptBody (s : Session) (plain : Bytes) : Command World Bytes :=
  if s.outstate then
    match s.outcipher with
    | none => crash
    | some key => do
      emit (.encrypted key s.outseqno plain)
      pure (p.encrypt key s.outseqno plain)
  else pure plain

def sendRecordPrivDatagram (type : UInt8) (data : Bytes) : Command World Unit := do
  let s ← gets World.session
  let body ← encryptBody p s (type :: data)
  modify fun s => {s with outseqno := s.outseqno + 1}
  sendData e type (htonl s.outseqno ++ body)

def sendRecordPriv (type : UInt8) (data : Bytes) : Command World Unit := do
  let s ← gets World.session
  if s.datagram then sendRecordPrivDatagram p e type data
  else do
    let body ← encryptBody p s (type :: data)
    modify fun s => {s with outseqno := s.outseqno + 1}
    sendData e type (htons data.length ++ body)

def sptpsSendRecord (type : UInt8) (data : Payload) : Command World Unit := do
  let s ← gets World.session
  if !s.outstate then fail .notFinished
  else if handshake ≤ type then fail .applicationType
  else sendRecordPriv p e type data.val

/-- The KEX message: the version, a nonce and an ECDH public key. -/
def kexMessage (nonce : Vector UInt8 32) (secret : Bytes) : Bytes :=
  0 :: (nonce.toList ++ p.ecdhPublic secret)

def sendKex : Command World Unit := do
  let s ← gets World.session
  if s.mykex.isSome then stop
  else do
    alloc e
    let n ← gets World.kexes
    let kex := kexMessage p (e.nonce n) (e.secret n)
    update fun w => {w with kexes := n + 1}
    modify fun s => {s with mykex := some kex, ecdh := some (e.secret n)}
    sendRecordPriv p e handshake kex

/-- The signed string: who signs, the signer's KEX, the other KEX and the label. -/
def sigMessage (initiator : Bool) (kex other label : Bytes) : Bytes :=
  (if initiator then 1 else 0) :: (kex ++ other ++ label)

def sendSig : Command World Unit := do
  let s ← gets World.session
  match s.mykex, s.hiskex with
  | some mykex, some hiskex => do
    let msg := sigMessage s.initiator mykex hiskex s.label
    emit (.signed msg)
    sendRecordPriv p e handshake (p.sign s.mykey msg)
  | _, _ => crash

/-- "key expansion" -/
def seedPrefix : Bytes := [107, 101, 121, 32, 101, 120, 112, 97, 110, 115, 105, 111, 110]

def kexNonce (kex : Bytes) : Bytes := (kex.drop 1).take 32

def keySeed (initiator : Bool) (mykex hiskex label : Bytes) : Bytes :=
  seedPrefix ++
    (if initiator then kexNonce mykex ++ kexNonce hiskex else kexNonce hiskex ++ kexNonce mykex) ++
    label

def generateKeyMaterial (mykex hiskex shared : Bytes) : Command World Unit := do
  let s ← gets World.session
  when (!s.outstate) (modify fun s => {s with incipher := some [], outcipher := some []})
  modify fun s => {s with key := none}
  alloc e
  let seed := keySeed s.initiator mykex hiskex s.label
  modify fun s => {s with key := some (p.prf shared seed (2 * cipherKeySize))}

def sendAck : Command World Unit := sendRecordPriv p e handshake []

/-- The half of the key material that the initiator, or the responder, encrypts with. -/
def sendingKey (initiator : Bool) (key : Bytes) : Bytes :=
  if initiator then key.drop cipherKeySize else key.take cipherKeySize

def receiveAck (data : Bytes) : Command World Unit := do
  let s ← gets World.session
  if data.length ≠ 0 then fail .ackLength
  else match s.key with
  | none => crash
  | some key =>
    modify fun s =>
      {s with incipher := some (sendingKey (!s.initiator) key), key := none, instate := true}

def receiveKex (data : Bytes) : Command World Unit := do
  let s ← gets World.session
  if data.length ≠ kexSize then fail .kexLength
  else if s.hiskex.isSome then fail .secondKex
  else do
    alloc e
    modify fun s => {s with hiskex := some data}
    sendSig p e

/-- The second half of receive_sig, once the signature has been verified. -/
def changeKeys (mykex hiskex secret : Bytes) : Command World Unit := do
  let s ← gets World.session
  modify fun s => {s with ecdh := none}
  generateKeyMaterial p e mykex hiskex (p.ecdhShared secret (hiskex.drop 33))
  emit (.keyed mykex hiskex)
  modify fun s => {s with mykex := none, hiskex := none}
  when s.outstate (sendAck p e)
  modify fun s => {s with outcipher := s.key.map (sendingKey s.initiator)}

def receiveSig (data : Bytes) : Command World Unit := do
  let s ← gets World.session
  if data.length ≠ sigSize then fail .sigLength
  else match s.mykex, s.hiskex with
  | some mykex, some hiskex => do
    let msg := sigMessage (!s.initiator) hiskex mykex s.label
    if !p.verify s.hiskey msg data then fail .signature
    else do
      emit (.verified msg data)
      match s.ecdh with
      | none => crash
      | some secret => changeKeys p e mykex hiskex secret
  | _, _ => crash

def sptpsForceKex : Command World Unit := do
  let s ← gets World.session
  if !s.outstate then fail .cannotForceKex
  else if s.state ≠ .secondaryKex then pure ()
  else do
    modify fun s => {s with state := .kex}
    sendKex p e

def perform : Call → Command World Unit
  | .sendRecord type data => sptpsSendRecord p e type data
  | .forceKex => sptpsForceKex p e

/-- The caller looks at the result and goes on, unless the process has died. -/
def attempt (x : Command World Unit) : Command World Bool := fun w =>
  match x w with
  | (some (), w') => (some true, w')
  | (none, w') => if w'.dead then (none, w') else (some false, w')

def performAll : List Call → Command World Unit
  | [] => pure ()
  | call :: calls => do
    let _ ← attempt (perform p e call)
    performAll calls

def receiveRecord (type : UInt8) (data : Bytes) : Command World Bool := do
  emit (.record type data)
  let n ← gets World.callbacks
  update fun w => {w with callbacks := n + 1}
  performAll p e (e.reaction n).calls
  pure (e.reaction n).accepts

def receiveHandshake (data : Bytes) : Command World Unit := do
  let s ← gets World.session
  match s.state with
  | .secondaryKex => do
    sendKex p e
    receiveKex p e data
    modify fun s => {s with state := .sig}
  | .kex => do
    receiveKex p e data
    modify fun s => {s with state := .sig}
  | .sig => do
    receiveSig p e data
    if s.outstate then modify fun s => {s with state := .ack}
    else do
      modify fun s => {s with outstate := true}
      receiveAck []
      let _ ← receiveRecord p e handshake []
      modify fun s => {s with state := .secondaryKex}
  | .ack => do
    receiveAck data
    let _ ← receiveRecord p e handshake []
    modify fun s => {s with state := .secondaryKex}
  | .zero => fail .invalidState

/-- Lengths handed to receive_handshake and receive_record are 16 bits wide. -/
def truncate (data : Bytes) : Bytes := data.take (data.length % 65536)

/-- The size of the replay window, in sequence numbers. -/
def window : UInt32 := UInt32.ofNat (8 * replaywin)

/-- The bitmap after the check of a received sequence number; `none` drops the
packet as late or replayed. A set bit means that the packet has not been received. -/
def replayCheck (s : Session) (seqno : UInt32) : Option (Bitmap replaywin) :=
  if seqno ≠ s.inseqno then
    if s.inseqno + window ≤ seqno then some (full replaywin)
    else if seqno < s.inseqno then
      if (window ≤ s.inseqno ∧ seqno < s.inseqno - window) ∨ test s.late seqno.toNat = false then
        none
      else some s.late
    else some (markFrom s.late s.inseqno.toNat (seqno.toNat - s.inseqno.toNat))
  else some s.late

/-- Move the window after a packet that passed the check. -/
def advance (s : Session) (late : Bitmap replaywin) (seqno : UInt32) : Session :=
  {s with
    late := clear late seqno.toNat
    inseqno := if s.inseqno ≤ seqno then seqno + 1 else s.inseqno}

def growDecryptedBuffer (len : ℕ) : Command World Unit := do
  let s ← gets World.session
  if s.decryptedBufferLen.toNat < len then do
    modify fun s => {s with decryptedBufferLen := s.decryptedBufferLen * 2}
    alloc e
    modify fun s => {s with decryptedBuffer := s.decryptedBufferLen.toNat}
  else pure ()

def handlePacket (plain : Bytes) : Command World Unit :=
  let type := plain.getD 0 0
  let data := truncate (plain.drop 1)
  if type < handshake then do
    let accepted ← receiveRecord p e type data
    if accepted then pure () else crash
  else if type = handshake then do
    let handled ← attempt (receiveHandshake p e data)
    if handled then pure () else crash
  else fail (.recordType type)

def receivePlaintext (seqno : UInt32) (data : Bytes) : Command World Unit := do
  let s ← gets World.session
  if seqno ≠ s.inseqno then fail (.packetSeqno seqno s.inseqno)
  else do
    modify fun s => {s with inseqno := seqno + 1}
    let type := data.getD 0 0
    emit (.plaintext seqno type)
    if type ≠ handshake then fail .tooEarly
    else receiveHandshake p e (truncate (data.drop 1))

def receivePacket (seqno : UInt32) (data : Bytes) : Command World Unit := do
  growDecryptedBuffer e (data.length + 4)
  let s ← gets World.session
  emit (.unpacked s.decryptedBuffer (data.length + 4))
  match s.incipher with
  | none => crash
  | some key =>
    match p.decrypt key seqno data with
    | none => fail .packetForged
    | some plain => do
      emit (.decrypted key seqno plain)
      match replayCheck s seqno with
      | none => fail (.replayed seqno s.inseqno)
      | some late => do
        modify fun s => advance s late seqno
        emit (.accepted seqno)
        handlePacket p e plain

def sptpsReceiveDataDatagram (data : Bytes) : Command World Unit := do
  let s ← gets World.session
  if data.length < (if s.instate then datagramOverhead else 5) then fail .shortPacket
  else if !s.instate then receivePlaintext p e (ntohl data) (data.drop 4)
  else receivePacket p e (ntohl data) (data.drop 4)

/-- Read the length of a record; `none` when the data ended before its body. -/
def readLength (data : Bytes) : Command World (Option Bytes) := do
  let s ← gets World.session
  match s.inbuf with
  | none => crash
  | some buf =>
    if 2 ≤ buf.length then pure (some data)
    else do
      let read := buf ++ data.take (2 - buf.length)
      let rest := data.drop (2 - buf.length)
      modify fun s => {s with inbuf := some read}
      if read.length < 2 then pure none
      else do
        modify fun s => {s with reclen := ntohs read, inbuf := none}
        alloc e
        modify fun s => {s with inbuf := some read}
        if rest = [] then pure none else pure (some rest)

/-- The number of bytes of the record being read, with its header. -/
def recordSize (s : Session) : ℕ := s.reclen + if s.instate then overhead else 3

/-- Read up to the end of a record; `none` when the data ended before that. -/
def readBody (data : Bytes) : Command World (Option Bytes) := do
  let s ← gets World.session
  match s.inbuf with
  | none => crash
  | some buf => do
    let read := buf ++ data.take (recordSize s - buf.length)
    modify fun s => {s with inbuf := some read}
    if read.length < recordSize s then pure none
    else pure (some (data.drop (recordSize s - buf.length)))

/-- The type and data of the record in `inbuf`, decrypted in place. -/
def openRecord : Command World Bytes := do
  let s ← gets World.session
  modify fun s => {s with inseqno := s.inseqno + 1}
  match s.inbuf with
  | none => crash
  | some buf =>
    if s.instate then
      match s.incipher with
      | none => crash
      | some key =>
        match p.decrypt key s.inseqno ((buf.drop 2).take (s.reclen + 17)) with
        | none => fail .recordForged
        | some plain => do
          emit (.decrypted key s.inseqno plain)
          modify fun s =>
            {s with inbuf := some (buf.take 2 ++ plain ++ [0] ++ buf.drop (s.reclen + 4))}
          pure plain
    else pure ((buf.drop 2).take (s.reclen + 1))

def handleRecord (plain : Bytes) : Command World Unit := do
  let s ← gets World.session
  let type := plain.getD 0 0
  if type < handshake then
    if !s.instate then fail .tooEarly
    else do
      let accepted ← receiveRecord p e type (plain.drop 1)
      if accepted then pure () else stop
  else if type = handshake then receiveHandshake p e (plain.drop 1)
  else fail (.recordType type)

/-- One turn of the loop over the received bytes; what is left of them, if any. -/
def receiveTurn (data : Bytes) : Command World (Option Bytes) := do
  let body ← readLength e data
  match body with
  | none => pure none
  | some body => do
    let rest ← readBody body
    match rest with
    | none => pure none
    | some rest => do
      let plain ← openRecord p
      handleRecord p e plain
      modify fun s => {s with inbuf := some []}
      pure (some rest)

def receiveLoop : ℕ → Bytes → Command World Unit
  | 0, _ => pure ()
  | turns + 1, data =>
    if data = [] then pure ()
    else do
      let rest ← receiveTurn p e data
      match rest with
      | none => pure ()
      | some rest => receiveLoop turns rest

/-- Every turn but the first takes at least one byte. -/
def sptpsReceiveData (data : Bytes) : Command World Unit := do
  let s ← gets World.session
  if s.state = .zero then fail .stateZero
  else if s.datagram then sptpsReceiveDataDatagram p e data
  else receiveLoop p e (data.length + 1) data

structure Args where
  initiator : Bool
  datagram : Bool
  mykey : Bytes
  hiskey : Bytes
  label : Bytes

/-- The session after memset and the assignments in sptps_start. -/
def newSession (args : Args) : Session where
  initiator := args.initiator
  datagram := args.datagram
  instate := false
  outstate := false
  state := .zero
  inbuf := none
  reclen := 0
  incipher := none
  inseqno := 0
  late := Vector.replicate replaywin 0
  outcipher := none
  outseqno := 0
  decryptedBufferLen := 1024
  decryptedBuffer := 1024
  mykey := args.mykey
  hiskey := args.hiskey
  ecdh := none
  mykex := none
  hiskex := none
  key := none
  label := args.label

/-- The buffers are allocated one after another: decrypted_buffer, late, label and inbuf. -/
def sptpsStart (args : Args) : Command World Unit :=
  if args.label = [] then fail .invalidArgument
  else do
    modify fun _ => newSession args
    alloc e
    alloc e
    alloc e
    when (!args.datagram) do
      alloc e
      modify fun s => {s with inbuf := some []}
    modify fun s => {s with state := .kex}
    sendKex p e

def blank (args : Args) : World where
  session := newSession args
  kexes := 0
  allocs := 0
  sends := 0
  callbacks := 0
  dead := false
  trace := []

inductive Input
  | call (call : Call)
  | receive (data : Bytes)

def handle : Input → Command World Unit
  | .call call => perform p e call
  | .receive data => sptpsReceiveData p e data

def step (w : World) (input : Input) : World :=
  if w.dead then w else after (handle p e input) w

def run (w : World) (inputs : List Input) : World := inputs.foldl (step p e) w

def start (args : Args) : World := after (sptpsStart p e args) (blank args)

def resized (n : ℕ) (data : Bytes) : Bytes := (data ++ List.replicate n 0).take n

theorem resized_length (n : ℕ) (data : Bytes) : (resized n data).length = n := by
  simp [resized]

/-- Toy primitives, to evaluate the model with: nothing is hidden, a tag shows
the sequence number and the key, and a signature shows the key and the message. -/
def toyPrimitives : Primitives where
  publicKey key := key
  sign key msg := resized 64 (key ++ msg)
  verify key msg sig := sig == resized 64 (key ++ msg)
  ecdhPublic secret := resized 32 secret
  ecdhShared secret other := List.zipWith (· + ·) (resized 32 secret) other
  prf secret seed n := resized n (secret ++ seed)
  encrypt key seqno plain := plain ++ resized 16 (htonl seqno ++ key)
  decrypt key seqno data :=
    if 16 ≤ data.length ∧ data.drop (data.length - 16) = resized 16 (htonl seqno ++ key) then
      some (data.take (data.length - 16))
    else none
  sign_length key msg := resized_length 64 (key ++ msg)
  ecdhPublic_length := resized_length 32
  prf_length secret seed n := resized_length n (secret ++ seed)
  encrypt_length key seqno plain := by
    rw [List.length_append, resized_length]
  decrypt_length key seqno data plain h := by
    split at h
    · rename_i hdata
      rw [← Option.some.inj h, List.length_take]
      omega
    · cases h

/-- Nothing fails and the application accepts every record. -/
def quietEnv (name : UInt8) : Env where
  nonce _ := Vector.replicate 32 name
  secret n := [name, UInt8.ofNat n]
  allocates _ := true
  delivers _ := true
  reaction _ := ⟨[], true⟩

/-- What a session has handed to its transport. -/
def sentData (trace : List Event) : List Bytes :=
  trace.filterMap fun
    | .sent _ data => some data
    | _ => none

def sampleArgs (datagram initiator : Bool) : Args :=
  if initiator then ⟨true, datagram, [1], [2], [76]⟩ else ⟨false, datagram, [2], [1], [76]⟩

def sampleStart (datagram : Bool) : World :=
  start toyPrimitives (quietEnv 1) (sampleArgs datagram true)

/-- The peer's KEX and SIG, the latter in answer to the session's own KEX. -/
def sampleHandshake (datagram : Bool) : List Input :=
  let peer := start toyPrimitives (quietEnv 2) (sampleArgs datagram false)
  let kex := (sentData (sampleStart datagram).trace).map Input.receive
  (sentData (run toyPrimitives (quietEnv 2) peer kex).trace).map .receive

end Meshlink.Sptps
