import Meshlink.Sptps

/-!
The bytes that one end of a stream session sends. Its handshake records come
in a fixed order: KEX and SIG in the clear, then KEX, SIG and ACK again for
every further exchange. Application records may stand between them once there
is a key. A flow is a sequence of such records, encrypted with the key that
belongs to their place and numbered one after another.
-/
namespace Meshlink.StreamFlow

open Sptps

/-- One end of a session. -/
structure Party where
  initiator : Bool
  env : Env
  key : Bytes

inductive Stage
  | kex
  | sig
  | ack

/-- A place in the stream, named by the next handshake record. -/
structure Pos where
  exchange : ℕ
  stage : Stage

/-- There is no ACK in the first exchange. -/
def Pos.next : Pos → Pos
  | ⟨n, .kex⟩ => ⟨n, .sig⟩
  | ⟨0, .sig⟩ => ⟨1, .kex⟩
  | ⟨n + 1, .sig⟩ => ⟨n + 1, .ack⟩
  | ⟨n, .ack⟩ => ⟨n + 1, .kex⟩

variable (p : Primitives) (label : Bytes)

def kexOf (S : Party) (n : ℕ) : Bytes := kexMessage p (S.env.nonce n) (S.env.secret n)

/-- The key material of an exchange between an initiator and a responder. -/
def sharedMaterial (I R : Party) (n : ℕ) : Bytes :=
  p.prf (p.ecdhShared (I.env.secret n) (p.ecdhPublic (R.env.secret n)))
    (seedPrefix ++ ((I.env.nonce n).toList ++ (R.env.nonce n).toList) ++ label)
    (2 * cipherKeySize)

def material (S R : Party) (n : ℕ) : Bytes :=
  if S.initiator then sharedMaterial p label S R n else sharedMaterial p label R S n

/-- The key that `S` encrypts with after exchange `n`. -/
def streamKey (S R : Party) (n : ℕ) : Bytes := sendingKey S.initiator (material p label S R n)

def keyAt (S R : Party) (pos : Pos) : Option Bytes :=
  match pos.exchange with
  | 0 => none
  | n + 1 => some (streamKey p label S R n)

def sigOf (S R : Party) (n : ℕ) : Bytes :=
  p.sign S.key (sigMessage S.initiator (kexOf p S n) (kexOf p R n) label)

def handshakeBody (S R : Party) (pos : Pos) : Bytes :=
  match pos.stage with
  | .kex => kexOf p S pos.exchange
  | .sig => sigOf p label S R pos.exchange
  | .ack => []

def protect (key : Option Bytes) (seqno : UInt32) (plain : Bytes) : Bytes :=
  match key with
  | none => plain
  | some key => p.encrypt key seqno plain

/-- A record as it is sent. -/
def encode (key : Option Bytes) (seqno : UInt32) (type : UInt8) (body : Bytes) : Bytes :=
  htons body.length ++ protect p key seqno (type :: body)

/-- A record that `S` may send at `pos`, and the place after it. -/
inductive Sends (S R : Party) : Pos → UInt8 → Bytes → Pos → Prop
  | handshake (pos : Pos) : Sends S R pos handshake (handshakeBody p label S R pos) pos.next
  | record (pos : Pos) (type : UInt8) (body : Bytes) (htype : type < handshake)
      (hlen : body.length < 65536) (hkey : (keyAt p label S R pos).isSome = true) :
      Sends S R pos type body pos

abbrev Sealed := Bytes × UInt32 × Bytes

/-- The encryption of a record, if it is encrypted. -/
def sealing (key : Option Bytes) (seqno : UInt32) (plain : Bytes) : List Sealed :=
  key.toList.map fun key => (key, seqno, plain)

/-- The bytes of consecutive records and their encryptions. -/
inductive Flow (S R : Party) : Pos → UInt32 → Bytes → List Sealed → Pos → UInt32 → Prop
  | nil (pos : Pos) (seqno : UInt32) : Flow S R pos seqno [] [] pos seqno
  | cons {pos pos' pos'' : Pos} {seqno seqno' : UInt32} {type : UInt8} {body bytes : Bytes}
      {seals : List Sealed} (hsends : Sends p label S R pos type body pos')
      (hflow : Flow S R pos' (seqno + 1) bytes seals pos'' seqno') :
      Flow S R pos seqno (encode p (keyAt p label S R pos) seqno type body ++ bytes)
        (sealing (keyAt p label S R pos) seqno (type :: body) ++ seals) pos'' seqno'

variable {p label} {S R : Party}

theorem Flow.single {pos pos' : Pos} {type : UInt8} {body : Bytes} (seqno : UInt32)
    (h : Sends p label S R pos type body pos') :
    Flow p label S R pos seqno (encode p (keyAt p label S R pos) seqno type body)
      (sealing (keyAt p label S R pos) seqno (type :: body)) pos' (seqno + 1) := by
  have hflow : Flow p label S R pos seqno _ _ pos' (seqno + 1) := .cons h (.nil _ _)
  rw [List.append_nil, List.append_nil] at hflow
  exact hflow

theorem Flow.trans {pos pos' pos'' : Pos} {seqno seqno' seqno'' : UInt32} {bytes bytes' : Bytes}
    {seals seals' : List Sealed} (h : Flow p label S R pos seqno bytes seals pos' seqno')
    (h' : Flow p label S R pos' seqno' bytes' seals' pos'' seqno'') :
    Flow p label S R pos seqno (bytes ++ bytes') (seals ++ seals') pos'' seqno'' := by
  induction h with
  | nil => exact h'
  | cons hsends _ ih =>
    rw [List.append_assoc, List.append_assoc]
    exact .cons hsends (ih h')

theorem kexOf_length (S : Party) (n : ℕ) : (kexOf p S n).length = kexSize := by
  simp [kexOf, kexMessage, p.ecdhPublic_length, kexSize]

theorem sigOf_length (S R : Party) (n : ℕ) : (sigOf p label S R n).length = sigSize :=
  p.sign_length _ _

theorem Sends.length_lt {pos pos' : Pos} {type : UInt8} {body : Bytes}
    (h : Sends p label S R pos type body pos') : body.length < 65536 := by
  cases h with
  | record _ _ _ hlen _ => exact hlen
  | handshake =>
    obtain ⟨n, stage⟩ := pos
    cases stage with
    | kex => exact (kexOf_length S n).trans_lt (by decide)
    | sig => exact (sigOf_length S R n).trans_lt (by decide)
    | ack => exact Nat.zero_lt_succ _

theorem htons_length (n : ℕ) : (htons n).length = 2 := rfl

theorem ntohs_htons (n : ℕ) (h : n < 65536) (rest : Bytes) : ntohs (htons n ++ rest) = n := by
  change (UInt8.ofNat (n / 256)).toNat * 256 + (UInt8.ofNat n).toNat = n
  rw [UInt8.toNat_ofNat', UInt8.toNat_ofNat']
  omega

theorem protect_length (key : Option Bytes) (seqno : UInt32) (plain : Bytes) :
    (protect p key seqno plain).length = plain.length + if key.isSome then 16 else 0 := by
  cases key with
  | none => rfl
  | some key => exact p.encrypt_length key seqno plain

/-- The length of a record, as the receiver computes it. -/
theorem encode_length (key : Option Bytes) (seqno : UInt32) (type : UInt8) (body : Bytes) :
    (encode p key seqno type body).length =
      body.length + if key.isSome then overhead else 3 := by
  rw [encode, List.length_append, htons_length, protect_length, List.length_cons]
  unfold overhead
  split
  · omega
  · omega

end Meshlink.StreamFlow
