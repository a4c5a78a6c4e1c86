import Meshlink.Sptps
import Meshlink.Systems

/-!
What a session's code can do, one effect at a time. Every call is a sequence
of these effects, whatever the environment does, so a property of all runs is
checked once per effect.
-/
namespace Meshlink.SptpsEffects

open Commands Bitmaps Sptps Relation

/-- Events that no invariant of a session depends on. -/
def isNote : Event → Bool
  | .unpacked _ _ | .decrypted _ _ _ => true
  | .record type _ => type < handshake
  | .failed (.replayed _ _) => false
  | .failed _ => true
  | _ => false

def header (s : Session) (data : Bytes) : Bytes :=
  if s.datagram then htonl s.outseqno else htons data.length

/-- The effects of a session's code. The sequence number of a received datagram
is only used when `ok` holds of it and the session; a plaintext record also
shows its type. The buffer that datagrams are decrypted into is only touched for
an encrypted datagram. -/
inductive Effect (p : Primitives) (e : Env) (ok : Session → UInt32 → Option UInt8 → Prop) :
    World → World → Prop
  | tally (w : World) (allocs sends callbacks : ℕ) :
      Effect p e ok w {w with allocs := allocs, sends := sends, callbacks := callbacks}
  | die (w : World) : Effect p e ok w {w with dead := true}
  | note (w : World) (ev : Event) (hnote : isNote ev = true)
      (hok : ∀ held len, ev = .unpacked held len → ∃ seqno, ok w.session seqno none) :
      Effect p e ok w {w with trace := w.trace ++ [ev]}
  | buffers (w : World) (inbuf : Option Bytes) (reclen : ℕ) (len : UInt64) (held : ℕ)
      (hok : len = w.session.decryptedBufferLen ∧ held = w.session.decryptedBuffer ∨
        ∃ seqno, ok w.session seqno none) :
      Effect p e ok w {w with session := {w.session with
        inbuf := inbuf, reclen := reclen, decryptedBufferLen := len, decryptedBuffer := held}}
  | sendPlain (w : World) (type : UInt8) (data : Bytes) (hout : w.session.outstate = false) :
      Effect p e ok w {w with
        session := {w.session with outseqno := w.session.outseqno + 1}
        trace := w.trace ++ [.sent type (header w.session data ++ type :: data)]}
  | sendSealed (w : World) (type : UInt8) (data key : Bytes) (hout : w.session.outstate = true)
      (hkey : w.session.outcipher = some key) :
      Effect p e ok w {w with
        session := {w.session with outseqno := w.session.outseqno + 1}
        trace := w.trace ++ [.encrypted key w.session.outseqno (type :: data), .sent type
          (header w.session data ++ p.encrypt key w.session.outseqno (type :: data))]}
  | kex (w : World) (hnone : w.session.mykex = none) :
      Effect p e ok w {w with
        session := {w.session with
          mykex := some (kexMessage p (e.nonce w.kexes) (e.secret w.kexes))
          ecdh := some (e.secret w.kexes)}
        kexes := w.kexes + 1}
  | hear (w : World) (data : Bytes) (hlen : data.length = kexSize)
      (hnone : w.session.hiskex = none) :
      Effect p e ok w {w with session := {w.session with hiskex := some data}}
  | sign (w : World) (mykex hiskex : Bytes) (hmy : w.session.mykex = some mykex)
      (hhis : w.session.hiskex = some hiskex) :
      Effect p e ok w {w with trace := w.trace ++
        [.signed (sigMessage w.session.initiator mykex hiskex w.session.label)]}
  | verify (w : World) (mykex hiskex sig : Bytes) (hmy : w.session.mykex = some mykex)
      (hhis : w.session.hiskex = some hiskex)
      (hsig : p.verify w.session.hiskey
        (sigMessage (!w.session.initiator) hiskex mykex w.session.label) sig = true) :
      Effect p e ok w {w with trace := w.trace ++
        [.verified (sigMessage (!w.session.initiator) hiskex mykex w.session.label) sig]}
  | prepare (w : World) (incipher outcipher key : Option Bytes)
      (hout : w.session.outstate = true →
        incipher = w.session.incipher ∧ outcipher = w.session.outcipher)
      (hkey : key = w.session.key ∨ key = none) :
      Effect p e ok w {w with session := {w.session with
        ecdh := none, incipher := incipher, outcipher := outcipher, key := key}}
  | agree (w : World) (mykex hiskex key sig : Bytes) (hmy : w.session.mykex = some mykex)
      (hhis : w.session.hiskex = some hiskex)
      (hsig : .verified (sigMessage (!w.session.initiator) hiskex mykex w.session.label) sig ∈
        w.trace) :
      Effect p e ok w {w with
        session := {w.session with key := some key, mykex := none, hiskex := none}
        trace := w.trace ++ [.keyed mykex hiskex]}
  | install (w : World) (outcipher : Option Bytes) :
      Effect p e ok w {w with session := {w.session with outcipher := outcipher}}
  | phase (w : World) (state : Phase) (hstate : state ≠ .zero) :
      Effect p e ok w {w with session := {w.session with state := state}}
  | enable (w : World) :
      Effect p e ok w {w with session := {w.session with outstate := true}}
  | complete (w : World) (key : Bytes) (hkey : w.session.key = some key) :
      Effect p e ok w {w with
        session := {w.session with
          incipher := some (sendingKey (!w.session.initiator) key), key := none, instate := true}
        trace := w.trace ++ [.record handshake []]}
  | plaintext (w : World) (seqno : UInt32) (type : UInt8) (hin : w.session.instate = false)
      (hseqno : seqno = w.session.inseqno) (hok : ok w.session seqno (some type)) :
      Effect p e ok w {w with
        session := {w.session with inseqno := seqno + 1}
        trace := w.trace ++ [.plaintext seqno type]}
  | accept (w : World) (seqno : UInt32) (late : Bitmap replaywin)
      (hcheck : replayCheck w.session seqno = some late) (hok : ok w.session seqno none) :
      Effect p e ok w {w with
        session := advance w.session late seqno, trace := w.trace ++ [.accepted seqno]}
  | reject (w : World) (seqno : UInt32) (hcheck : replayCheck w.session seqno = none)
      (hok : ok w.session seqno none) :
      Effect p e ok w {w with trace := w.trace ++ [.failed (.replayed seqno w.session.inseqno)]}
  | count (w : World) (hstream : w.session.datagram = false) :
      Effect p e ok w {w with session := {w.session with inseqno := w.session.inseqno + 1}}

variable {α : Type} {p : Primitives} {e : Env} {ok : Session → UInt32 → Option UInt8 → Prop}

variable (seqno : UInt32) (type : UInt8) (data : Bytes) (w : World)

variable (p e ok) in
/-- What the code does in a world is a sequence of effects. -/
abbrev Acts (x : Command World α) (w : World) : Prop := Reaches (Effect p e ok) x w

/-- A change of the world that is an effect, and what follows it. -/
theorem effect_bind {f : World → World} {g : Unit → Command World α} {w : World}
    (h : Effect p e ok w (f w)) (hg : Acts p e ok (g ()) (f w)) :
    Acts p e ok (update f >>= g) w :=
  Reaches.update_bind (ReflTransGen.single h) hg

/-- The record that is being read is kept apart from the datagrams' buffer. -/
theorem effect_inbuf (inbuf : Option Bytes) (reclen : ℕ) (w : World) : Effect p e ok w {w with
    session := {w.session with inbuf := inbuf, reclen := reclen}} :=
  .buffers w inbuf reclen _ _ (.inl ⟨rfl, rfl⟩)

theorem fail_reaches (failure : Failure) (hnote : isNote (.failed failure) = true) (w : World) :
    Acts p e ok (fail failure : Command World α) w :=
  effect_bind (.note w _ hnote nofun) (Reaches.stop _)

theorem crash_reaches : Acts p e ok (crash : Command World α) w :=
  effect_bind (.die w) (Reaches.stop _)

theorem alloc_reaches : Acts p e ok (alloc e) w := by
  refine Reaches.gets_bind (effect_bind (.tally w _ _ _) ?_)
  split
  · exact Reaches.pure _ _
  · exact fail_reaches _ rfl _

theorem sendData_after : after (sendData e type data) w =
      {w with trace := w.trace ++ [.sent type data], sends := w.sends + 1} := by
  have hrun : ∀ w' : World,
      ((if e.delivers w.sends = true then pure () else stop : Command World Unit) w').2 = w' := by
    intro w'
    split <;> rfl
  exact hrun _

theorem sendData_tally : Effect p e ok {w with trace := w.trace ++ [.sent type data]}
      (after (sendData e type data) w) := by
  rw [sendData_after]
  exact .tally _ w.allocs (w.sends + 1) w.callbacks

/-- The records of both formats differ in their header only. -/
theorem sendRecordPriv_eq : sendRecordPriv p e type data w =
      (do let body ← encryptBody p w.session (type :: data)
          modify fun s => {s with outseqno := s.outseqno + 1}
          sendData e type (header w.session data ++ body)) w := by
  unfold header
  cases hdatagram : w.session.datagram with
  | true =>
    have hcall : sendRecordPriv p e type data w = sendRecordPrivDatagram p e type data w := by
      change (if w.session.datagram = true then _ else _ : Command World Unit) w = _
      rw [if_pos hdatagram]
    rw [hcall]
    rfl
  | false =>
    change (if w.session.datagram = true then _ else _ : Command World Unit) w = _
    rw [hdatagram]
    rfl

theorem sendRecordPriv_reaches : Acts p e ok (sendRecordPriv p e type data) w := by
  unfold Acts Reaches after
  rw [sendRecordPriv_eq]
  cases hout : w.session.outstate with
  | false =>
    have hbody : encryptBody p w.session (type :: data) = pure (type :: data) := by
      unfold encryptBody
      rw [hout]
      rfl
    rw [hbody]
    exact (ReflTransGen.single (.sendPlain w type data hout)).tail (sendData_tally _ _ _)
  | true =>
    cases hkey : w.session.outcipher with
    | none =>
      have hbody : encryptBody p w.session (type :: data) = crash := by
        unfold encryptBody
        rw [hout, hkey]
        rfl
      rw [hbody]
      exact ReflTransGen.single (.die w)
    | some key =>
      have hbody : encryptBody p w.session (type :: data) = (do
          emit (.encrypted key w.session.outseqno (type :: data))
          pure (p.encrypt key w.session.outseqno (type :: data))) := by
        unfold encryptBody
        rw [hout, hkey]
        rfl
      rw [hbody]
      have hsent : Effect p e ok _ _ := sendData_tally type
        (header w.session data ++ p.encrypt key w.session.outseqno (type :: data))
        {w with
          session := {w.session with outseqno := w.session.outseqno + 1}
          trace := w.trace ++ [.encrypted key w.session.outseqno (type :: data)]}
      rw [List.append_assoc] at hsent
      exact (ReflTransGen.single (.sendSealed w type data key hout hkey)).tail hsent

theorem sptpsSendRecord_reaches (data : Payload) (w : World) :
    Acts p e ok (sptpsSendRecord p e type data) w := by
  refine Reaches.gets_bind ?_
  split
  · exact fail_reaches _ rfl w
  · split
    · exact fail_reaches _ rfl w
    · exact sendRecordPriv_reaches type data.val w

/-- An allocation changes no more than the counters and the trace. -/
theorem alloc_session {w w' : World} {result : Unit} (h : alloc e w = (some result, w')) :
    w' = {w with allocs := w.allocs + 1} := by
  change (if e.allocates w.allocs = true then pure () else fail .outOfMemory :
    Command World Unit) {w with allocs := w.allocs + 1} = (some result, w') at h
  split at h
  · exact (Prod.mk.inj h).2.symm
  · cases (Prod.mk.inj h).1

theorem sendKex_reaches : Acts p e ok (sendKex p e) w := by
  refine Reaches.gets_bind ?_
  split
  · exact Reaches.stop w
  rename_i hsome
  have hnone := Option.not_isSome_iff_eq_none.mp hsome
  refine Reaches.bind (alloc_reaches w) ?_
  intro _ w' halloc
  obtain rfl := alloc_session halloc
  exact ReflTransGen.head (.kex {w with allocs := w.allocs + 1} hnone)
    (sendRecordPriv_reaches handshake _ _)

theorem sendSig_reaches : Acts p e ok (sendSig p e) w := by
  refine Reaches.gets_bind ?_
  split
  · rename_i mykex hiskex hmy hhis
    exact effect_bind (.sign w mykex hiskex hmy hhis)
      (sendRecordPriv_reaches handshake _ _)
  · exact crash_reaches w

theorem receiveKex_reaches : Acts p e ok (receiveKex p e data) w := by
  refine Reaches.gets_bind ?_
  split
  · exact fail_reaches _ rfl w
  rename_i hlen
  split
  · exact fail_reaches _ rfl w
  rename_i hsome
  have hnone := Option.not_isSome_iff_eq_none.mp hsome
  refine Reaches.bind (alloc_reaches w) ?_
  intro _ w' halloc
  obtain rfl := alloc_session halloc
  exact effect_bind (.hear _ data (not_not.mp hlen) hnone) (sendSig_reaches _)

/-- The key material is written last, and the two KEX messages are still there. -/
theorem generateKeyMaterial_cases (ok : Session → UInt32 → Option UInt8 → Prop)
    (mykex hiskex shared : Bytes) (w : World) :
    match generateKeyMaterial p e mykex hiskex shared {w with
        session := {w.session with ecdh := none}} with
    | (none, w') => ReflTransGen (Effect p e ok) w w'
    | (some (), w') => ∃ incipher outcipher key allocs,
        (w.session.outstate = true →
          incipher = w.session.incipher ∧ outcipher = w.session.outcipher) ∧
        w' = {w with
          session := {w.session with
            ecdh := none, incipher := incipher, outcipher := outcipher, key := some key}
          allocs := allocs} := by
  let material := p.prf shared (keySeed w.session.initiator mykex hiskex w.session.label)
    (2 * cipherKeySize)
  -- Both branches of the first test reach the same allocation.
  have hrun : ∃ incipher outcipher w₁, (w.session.outstate = true →
        incipher = w.session.incipher ∧ outcipher = w.session.outcipher) ∧
      w₁ = {w with session := {w.session with
        ecdh := none, incipher := incipher, outcipher := outcipher, key := none}} ∧
      generateKeyMaterial p e mykex hiskex shared {w with
          session := {w.session with ecdh := none}} =
        (alloc e >>= fun _ => modify fun s => {s with key := some material}) w₁ := by
    cases hout : w.session.outstate with
    | false =>
      refine ⟨some [], some [], _, by simp, rfl, ?_⟩
      change (when (!w.session.outstate) _ >>= _) _ = _
      rw [hout]
      rfl
    | true =>
      refine ⟨w.session.incipher, w.session.outcipher, _, by simp, rfl, ?_⟩
      change (when (!w.session.outstate) _ >>= _) _ = _
      rw [hout]
      rfl
  obtain ⟨incipher, outcipher, w₁, hciphers, hw₁, hrun⟩ := hrun
  rw [hrun]
  have hprepare : Effect p e ok w w₁ := by
    rw [hw₁]
    exact .prepare w incipher outcipher none hciphers (Or.inr rfl)
  have halloc := ReflTransGen.head hprepare (alloc_reaches w₁)
  unfold after at halloc
  cases hstep : alloc e w₁ with
  | mk result w' =>
    rw [hstep] at halloc
    cases result with
    | none =>
      rw [bind_of_none hstep]
      exact halloc
    | some _ =>
      rw [bind_of_some hstep]
      obtain rfl := alloc_session hstep
      subst hw₁
      exact ⟨incipher, outcipher, material, _, hciphers, rfl⟩

theorem changeKeys_reaches (mykex hiskex secret sig : Bytes) (w : World)
    (hmy : w.session.mykex = some mykex) (hhis : w.session.hiskex = some hiskex)
    (hsig : .verified (sigMessage (!w.session.initiator) hiskex mykex w.session.label) sig ∈
      w.trace) :
    Acts p e ok (changeKeys p e mykex hiskex secret) w := by
  have hcases := generateKeyMaterial_cases (p := p) (e := e) ok mykex hiskex
    (p.ecdhShared secret (hiskex.drop 33)) w
  refine Reaches.gets_bind ?_
  change ReflTransGen _ w ((generateKeyMaterial p e mykex hiskex
    (p.ecdhShared secret (hiskex.drop 33)) >>= _) {w with
      session := {w.session with ecdh := none}}).2
  cases hgen : generateKeyMaterial p e mykex hiskex (p.ecdhShared secret (hiskex.drop 33)) {w with
      session := {w.session with ecdh := none}} with
  | mk result w' =>
    rw [hgen] at hcases
    cases result with
    | none =>
      rw [bind_of_none hgen]
      exact hcases
    | some _ =>
      rw [bind_of_some hgen]
      obtain ⟨incipher, outcipher, key, allocs, hciphers, rfl⟩ := hcases
      have hprepare : Effect p e ok w _ := .prepare w incipher outcipher none hciphers (Or.inr rfl)
      have htally : Effect p e ok _ _ := .tally {w with session := {w.session with
        ecdh := none, incipher := incipher, outcipher := outcipher, key := none}}
          allocs w.sends w.callbacks
      have hagree : Effect p e ok _ _ := .agree {w with
        session := {w.session with
          ecdh := none, incipher := incipher, outcipher := outcipher, key := none}
        allocs := allocs} mykex hiskex key sig hmy hhis hsig
      have hend : ∀ w₄, Acts p e ok (do
          when w.session.outstate (sendAck p e)
          modify fun s => {s with outcipher := s.key.map (sendingKey s.initiator)}) w₄ :=
        fun w₄ => Reaches.bind (Reaches.when fun _ => sendRecordPriv_reaches handshake [] w₄)
          fun _ w₅ _ => ReflTransGen.single (.install w₅ _)
      exact .head hprepare (.head htally (.head hagree (hend _)))

theorem receiveSig_reaches : Acts p e ok (receiveSig p e data) w := by
  refine Reaches.gets_bind ?_
  split
  · exact fail_reaches _ rfl w
  split
  · rename_i mykex hiskex hmy hhis
    dsimp only
    split
    · exact fail_reaches _ rfl w
    rename_i hverify
    rw [Bool.not_eq_true, Bool.not_eq_false'] at hverify
    refine effect_bind (.verify w mykex hiskex data hmy hhis hverify) ?_
    split
    · exact crash_reaches _
    · exact changeKeys_reaches mykex hiskex _ data _ hmy hhis (by simp)
  · exact crash_reaches w

theorem sptpsForceKex_reaches : Acts p e ok (sptpsForceKex p e) w := by
  refine Reaches.gets_bind ?_
  split
  · exact fail_reaches _ rfl w
  split
  · exact Reaches.pure () w
  · exact effect_bind (.phase w .kex nofun) (sendKex_reaches _)

theorem perform_reaches (call : Call) (w : World) : Acts p e ok (perform p e call) w := by
  cases call with
  | sendRecord type data => exact sptpsSendRecord_reaches type data w
  | forceKex => exact sptpsForceKex_reaches w

theorem attempt_after (x : Command World Unit) (w : World) : after (attempt x) w = after x w := by
  unfold after attempt
  cases hx : x w with
  | mk result w' =>
    cases result with
    | some _ => rfl
    | none =>
      dsimp only
      split <;> rfl

theorem attempt_reaches {x : Command World Unit} {w : World} (h : Acts p e ok x w) :
    Acts p e ok (attempt x) w := by
  unfold Acts Reaches
  rw [attempt_after]
  exact h

theorem performAll_reaches (calls : List Call) (w : World) :
    Acts p e ok (performAll p e calls) w := by
  induction calls generalizing w with
  | nil => exact Reaches.pure () w
  | cons call calls ih =>
    exact Reaches.bind (attempt_reaches (perform_reaches call w)) fun _ w' _ => ih w'

/-- What follows the report of a record to the application. -/
theorem reaction_reaches (n : ℕ) (w : World) :
    Acts p e ok (do
      update fun w : World => {w with callbacks := n + 1}
      performAll p e (e.reaction n).calls
      pure (e.reaction n).accepts) w :=
  effect_bind (.tally w w.allocs w.sends (n + 1))
    (Reaches.bind (performAll_reaches _ _) fun _ _ _ => Reaches.pure _ _)

theorem receiveRecord_reaches (happ : type < handshake) (w : World) :
    Acts p e ok (receiveRecord p e type data) w := by
  refine effect_bind (.note w _ ?_ nofun) ?_
  · exact decide_eq_true happ
  · exact reaction_reaches w.callbacks _

/-- An ACK is refused, or it moves the pending key to the receiving cipher. -/
theorem receiveAck_cases :
    (∃ failure, isNote (.failed failure) = true ∧ receiveAck data w = fail failure w) ∨
      receiveAck data w = crash w ∨
      ∃ key, w.session.key = some key ∧ receiveAck data w = (some (), {w with
        session := {w.session with
          incipher := some (sendingKey (!w.session.initiator) key), key := none
          instate := true}}) := by
  by_cases hlen : data.length = 0
  · rw [receiveAck, gets_bind, if_neg (not_not.mpr hlen)]
    cases w.session.key with
    | none => exact Or.inr (Or.inl rfl)
    | some key => exact Or.inr (Or.inr ⟨key, rfl, rfl⟩)
  · refine Or.inl ⟨.ackLength, rfl, ?_⟩
    exact congrFun (if_pos hlen) w

/-- The end of a key exchange: the receiving key changes and the application is told. -/
theorem completion_reaches :
    Acts p e ok (do
      receiveAck data
      let _ ← receiveRecord p e handshake []
      modify fun s => {s with state := .secondaryKex}) w := by
  unfold Acts Reaches after
  rcases receiveAck_cases data w with ⟨failure, hnote, hrun⟩ | hrun | ⟨key, hkey, hrun⟩
  · rw [bind_of_none hrun]
    exact ReflTransGen.single (.note w _ hnote nofun)
  · rw [bind_of_none hrun]
    exact ReflTransGen.single (.die w)
  rw [bind_of_some hrun]
  refine ReflTransGen.head (.complete w key hkey) ?_
  exact Reaches.bind (reaction_reaches w.callbacks _) fun _ w' _ =>
    ReflTransGen.single (.phase w' .secondaryKex nofun)

theorem receiveHandshake_reaches : Acts p e ok (receiveHandshake p e data) w := by
  have hsig : ∀ w', Acts p e ok (modify fun s => {s with state := .sig}) w' :=
    fun w' => ReflTransGen.single (.phase w' .sig nofun)
  refine Reaches.gets_bind ?_
  split
  · exact Reaches.bind (sendKex_reaches w) fun _ w₁ _ =>
      Reaches.bind (receiveKex_reaches data w₁) fun _ w₂ _ => hsig w₂
  · exact Reaches.bind (receiveKex_reaches data w) fun _ w₁ _ => hsig w₁
  · refine Reaches.bind (receiveSig_reaches data w) fun _ w₁ _ => ?_
    split
    · exact ReflTransGen.single (.phase w₁ .ack nofun)
    · exact effect_bind (.enable w₁) (completion_reaches [] _)
  · exact completion_reaches data w
  · exact fail_reaches _ rfl w

theorem growDecryptedBuffer_reaches (len : ℕ) (w : World)
    (hok : ∀ s : Session, s.inseqno = w.session.inseqno → ok s seqno none) :
    Acts p e ok (growDecryptedBuffer e len) w := by
  refine Reaches.gets_bind ?_
  split
  · refine effect_bind (.buffers w w.session.inbuf w.session.reclen
      (w.session.decryptedBufferLen * 2) w.session.decryptedBuffer (.inr ⟨seqno, hok _ rfl⟩)) ?_
    refine Reaches.bind (alloc_reaches _) fun _ w₁ halloc => ?_
    obtain rfl := alloc_session halloc
    exact ReflTransGen.single (.buffers _ _ _ _ _ (.inr ⟨seqno, hok _ rfl⟩))
  · exact Reaches.pure () w

theorem handlePacket_reaches (plain : Bytes) (w : World) :
    Acts p e ok (handlePacket p e plain) w := by
  unfold handlePacket
  dsimp only
  split
  · rename_i happ
    refine Reaches.bind (receiveRecord_reaches _ _ happ w) fun accepted w₁ _ => ?_
    split
    · exact Reaches.pure () w₁
    · exact crash_reaches w₁
  · split
    · refine Reaches.bind (attempt_reaches (receiveHandshake_reaches _ w)) fun handled w₁ _ => ?_
      split
      · exact Reaches.pure () w₁
      · exact crash_reaches w₁
    · exact fail_reaches _ rfl w

theorem receivePlaintext_reaches
    (hin : w.session.instate = false) (hok : ok w.session seqno (some (data.getD 0 0))) :
    Acts p e ok (receivePlaintext p e seqno data) w := by
  refine Reaches.gets_bind ?_
  split
  · exact fail_reaches _ rfl w
  rename_i hseqno
  have hplain : Effect p e ok w _ := .plaintext w seqno (data.getD 0 0) hin (not_not.mp hseqno) hok
  refine ReflTransGen.head hplain ?_
  change Acts p e ok (if data.getD 0 0 ≠ handshake then _ else _) _
  split
  · exact fail_reaches _ rfl _
  · exact receiveHandshake_reaches _ _

theorem growDecryptedBuffer_inseqno {len : ℕ} {w w' : World} {result : Unit}
    (h : growDecryptedBuffer e len w = (some result, w')) :
    w'.session.inseqno = w.session.inseqno := by
  rw [growDecryptedBuffer, gets_bind] at h
  split at h
  · obtain ⟨_, w₁, hdoubled, hrest⟩ := returned_of_bind h
    obtain ⟨_, w₂, halloc, hset⟩ := returned_of_bind hrest
    cases hdoubled
    obtain rfl := alloc_session halloc
    cases hset
    rfl
  · cases h
    rfl

theorem receivePacket_reaches
    (hok : ∀ s : Session, s.inseqno = w.session.inseqno → ok s seqno none) :
    Acts p e ok (receivePacket p e seqno data) w := by
  refine Reaches.bind (growDecryptedBuffer_reaches seqno _ w hok) fun _ w₁ hgrow => ?_
  have hok₁ := hok w₁.session (growDecryptedBuffer_inseqno hgrow)
  refine Reaches.gets_bind (effect_bind (.note w₁ _ rfl fun _ _ _ => ⟨seqno, hok₁⟩) ?_)
  split
  · exact crash_reaches _
  split
  · exact fail_reaches _ rfl _
  refine effect_bind (.note _ _ rfl nofun) ?_
  split
  · rename_i hcheck
    exact effect_bind (.reject _ seqno hcheck hok₁)
      (Reaches.stop _)
  · rename_i late hcheck
    exact ReflTransGen.head (Effect.accept _ seqno late hcheck hok₁) (handlePacket_reaches _ _)

theorem sptpsReceiveDataDatagram_reaches
    (hplain : w.session.instate = false → ok w.session (ntohl data) (some (data.getD 4 0)))
    (hsealed : ∀ s : Session, s.inseqno = w.session.inseqno → ok s (ntohl data) none) :
    Acts p e ok (sptpsReceiveDataDatagram p e data) w := by
  refine Reaches.gets_bind (Reaches.ite (fun _ => fail_reaches _ rfl w) fun _ => ?_)
  split
  · rename_i hin
    have hin' : w.session.instate = false := by simpa using hin
    refine receivePlaintext_reaches _ _ w hin' ?_
    have htype : (data.drop 4).getD 0 0 = data.getD 4 0 := by simp [List.getD_eq_getElem?_getD]
    rw [htype]
    exact hplain hin'
  · exact receivePacket_reaches _ _ w hsealed

theorem readLength_reaches : Acts p e ok (readLength e data) w := by
  refine Reaches.gets_bind ?_
  split
  · exact crash_reaches w
  split
  · exact Reaches.pure _ w
  refine effect_bind (effect_inbuf _ w.session.reclen w) ?_
  split
  · exact Reaches.pure _ _
  refine effect_bind (effect_inbuf _ _ _) ?_
  refine Reaches.bind (alloc_reaches _) fun _ w₁ _ => ?_
  refine effect_bind (effect_inbuf _ w₁.session.reclen w₁) ?_
  split <;> exact Reaches.pure _ _

theorem readBody_reaches : Acts p e ok (readBody data) w := by
  refine Reaches.gets_bind ?_
  split
  · exact crash_reaches w
  refine effect_bind (effect_inbuf _ w.session.reclen w) ?_
  split <;> exact Reaches.pure _ _

theorem openRecord_reaches (hstream : w.session.datagram = false) :
    Acts p e ok (openRecord p) w := by
  refine Reaches.gets_bind (effect_bind (.count w hstream) ?_)
  split
  · exact crash_reaches _
  split
  · split
    · exact crash_reaches _
    split
    · exact fail_reaches _ rfl _
    · refine effect_bind (.note _ _ rfl nofun) ?_
      exact effect_bind (effect_inbuf _ w.session.reclen _) (Reaches.pure _ _)
  · exact Reaches.pure _ _

theorem handleRecord_reaches (plain : Bytes) (w : World) :
    Acts p e ok (handleRecord p e plain) w := by
  refine Reaches.gets_bind ?_
  dsimp only
  split
  · rename_i happ
    split
    · exact fail_reaches _ rfl w
    refine Reaches.bind (receiveRecord_reaches _ _ happ w) fun accepted w₁ _ => ?_
    split
    · exact Reaches.pure () w₁
    · exact Reaches.stop w₁
  split
  · exact receiveHandshake_reaches _ w
  · exact fail_reaches _ rfl w

/-- What sptps_start was given; no effect changes it. -/
def argsOf (s : Session) : Args := ⟨s.initiator, s.datagram, s.mykey, s.hiskey, s.label⟩

theorem effect_args {w w' : World} (h : Effect p e ok w w') :
    argsOf w'.session = argsOf w.session := by
  cases h <;> rfl

theorem effects_args {w w' : World} (h : ReflTransGen (Effect p e ok) w w') :
    argsOf w'.session = argsOf w.session :=
  kept_by_steps (I := fun w' => argsOf w'.session = argsOf w.session)
    (fun _ _ ih hlast => (effect_args hlast).trans ih) h rfl

theorem effects_datagram {w w' : World} (h : ReflTransGen (Effect p e ok) w w') :
    w'.session.datagram = w.session.datagram :=
  congrArg Args.datagram (effects_args h)

/-- The trace only grows. -/
theorem effects_trace {w w' : World} (h : ReflTransGen (Effect p e ok) w w') :
    w.trace <+: w'.trace := by
  refine kept_by_steps (I := fun w' => w.trace <+: w'.trace) ?_ h (List.prefix_refl _)
  intro w₁ w₂ hle heffect
  refine hle.trans ?_
  cases heffect <;> first | exact List.prefix_append _ _ | exact List.prefix_refl _

theorem receiveTurn_reaches (hstream : w.session.datagram = false) :
    Acts p e ok (receiveTurn p e data) w := by
  have hlength : Acts p e ok (readLength e data) w := readLength_reaches data w
  refine Reaches.bind hlength fun body w₁ hrun₁ => ?_
  have hstream₁ : w₁.session.datagram = false := by
    rw [effects_datagram (hlength.returns hrun₁), hstream]
  split
  · exact Reaches.pure _ w₁
  rename_i body
  have hbody : Acts p e ok (readBody body) w₁ := readBody_reaches body w₁
  refine Reaches.bind hbody fun rest w₂ hrun₂ => ?_
  have hstream₂ : w₂.session.datagram = false := by
    rw [effects_datagram (hbody.returns hrun₂), hstream₁]
  split
  · exact Reaches.pure _ w₂
  · refine Reaches.bind (openRecord_reaches w₂ hstream₂) fun plain w₃ _ => ?_
    refine Reaches.bind (handleRecord_reaches plain w₃) fun _ w₄ _ => ?_
    exact effect_bind (effect_inbuf (some []) w₄.session.reclen w₄) (Reaches.pure _ _)

theorem receiveLoop_reaches (turns : ℕ) (data : Bytes) (w : World)
    (hstream : w.session.datagram = false) :
    Acts p e ok (receiveLoop p e turns data) w := by
  induction turns generalizing data w with
  | zero => exact Reaches.pure () w
  | succ turns ih =>
    unfold receiveLoop
    split
    · exact Reaches.pure () w
    have hturn : Acts p e ok (receiveTurn p e data) w := receiveTurn_reaches data w hstream
    refine Reaches.bind hturn fun rest w₁ hrun => ?_
    split
    · exact Reaches.pure () w₁
    · refine ih _ w₁ ?_
      rw [effects_datagram (hturn.returns hrun), hstream]

/-- The datagram that `input` presents to the session of `w`, in any later
state of the same call that still expects the same sequence number. -/
def Given (w : World) (input : Input) (s : Session) (seqno : UInt32) (type : Option UInt8) : Prop :=
  ∃ data, input = .receive data ∧ s.inseqno = w.session.inseqno ∧ seqno = ntohl data ∧
    ∀ t, type = some t → w.session.instate = false ∧ t = data.getD 4 0

theorem step_effects (input : Input) :
    ReflTransGen (Effect p e (Given w input)) w (step p e w input) := by
  unfold step
  split
  · exact ReflTransGen.refl
  cases input with
  | call call => exact perform_reaches call w
  | receive data =>
    refine Reaches.gets_bind (Reaches.ite (fun _ => fail_reaches _ rfl w) fun _ => ?_)
    refine Reaches.ite (fun _ => ?_) fun hstream => ?_
    · refine sptpsReceiveDataDatagram_reaches data w ?_ ?_
      · intro hin
        refine ⟨data, rfl, rfl, rfl, ?_⟩
        intro t ht
        exact ⟨hin, (Option.some.inj ht).symm⟩
      · intro s hs
        refine ⟨data, rfl, hs, rfl, ?_⟩
        intro t ht
        cases ht
    · exact receiveLoop_reaches _ data w (Bool.eq_false_of_not_eq_true hstream)

theorem start_effects (args : Args) :
    ReflTransGen (Effect p e ok) (blank args) (start p e args) := by
  have hfirst : Acts p e ok (sptpsStart p e args) (blank args) := by
    refine Reaches.ite (fun _ => fail_reaches _ rfl _) fun _ => ?_
    refine Reaches.update_bind ReflTransGen.refl ?_
    refine Reaches.bind (alloc_reaches _) fun _ w₁ _ => ?_
    refine Reaches.bind (alloc_reaches _) fun _ w₂ _ => ?_
    refine Reaches.bind (alloc_reaches _) fun _ w₃ _ => ?_
    refine Reaches.bind (Reaches.when fun _ => ?_) fun _ w₄ _ => ?_
    · refine Reaches.bind (alloc_reaches _) fun _ w₄ _ => ?_
      exact ReflTransGen.single (effect_inbuf (some []) w₄.session.reclen w₄)
    · exact effect_bind (.phase w₄ .kex nofun) (sendKex_reaches _)
  exact hfirst

variable (p e) in
/-- Every input satisfies `P` in the world it is given to. -/
abbrev Along (P : World → Input → Prop) : World → List Input → Prop :=
  Systems.Along (step p e) P

/-- What every effect of an admissible input keeps holds after every admissible run. -/
theorem run_invariant {P : World → Input → Prop} {I : World → Prop}
    (hI : ∀ w input w₁ w₂, P w input → I w₁ → Effect p e (Given w input) w₁ w₂ → I w₂)
    (w : World) (inputs : List Input) (hP : Along p e P w inputs) (hw : I w) :
    I (run p e w inputs) :=
  Systems.kept_along (fun w input hinput => kept_by_steps
    (fun w₁ w₂ => hI w input w₁ w₂ hinput) (step_effects w input)) hP hw

theorem start_invariant {I : World → Prop} (args : Args)
    (hI : ∀ w₁ w₂, I w₁ → Effect p e (fun _ _ _ => False) w₁ w₂ → I w₂) (hblank : I (blank args)) :
    I (start p e args) :=
  kept_by_steps hI (start_effects args) hblank

end Meshlink.SptpsEffects
