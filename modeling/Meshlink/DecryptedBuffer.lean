import Meshlink.SptpsEffects

/-!
The buffer that datagrams are decrypted into. It is doubled once for a datagram that is
longer, and its recorded length is doubled before it is known that the memory can be had.
As long as each datagram fits after one doubling, and no doubling fails, every datagram has
room.
-/
namespace Meshlink.DecryptedBuffer

open Commands Sptps SptpsEffects Relation

variable {α : Type} {p : Primitives} {e : Env} {w w' : World}

/-- Every datagram that was given to the cipher had room in the buffer. -/
def HadRoom (trace : List Event) : Prop := ∀ held len, .unpacked held len ∈ trace → len ≤ held

theorem HadRoom.append {trace new : List Event} (h : HadRoom trace) (hnew : HadRoom new) :
    HadRoom (trace ++ new) := by
  intro held len hmem
  rcases List.mem_append.mp hmem with hold | hlast
  · exact h held len hold
  · exact hnew held len hlast

/-- The buffer is as long as it is recorded to be. -/
structure Sized (w : World) : Prop where
  held : w.session.decryptedBuffer = w.session.decryptedBufferLen.toNat
  room : HadRoom w.trace

/-- The buffer is long enough, or will be when it is doubled. -/
def Fits (e : Env) (w : World) (len : ℕ) : Prop :=
  len ≤ w.session.decryptedBufferLen.toNat ∨
    e.allocates w.allocs = true ∧ len ≤ (w.session.decryptedBufferLen * 2).toNat

section Steps

/-- Without an encrypted datagram the buffer is left alone. -/
theorem Sized.step {ok : Session → UInt32 → Option UInt8 → Prop}
    (hok : ∀ s seqno, ¬ ok s seqno none) (w w' : World) (hw : Sized w)
    (h : Effect p e ok w w') : Sized w' := by
  cases h with
  | note ev hnote hev =>
    refine ⟨hw.held, hw.room.append fun held len hmem => ?_⟩
    obtain ⟨seqno, hnone⟩ := hev held len (List.mem_singleton.mp hmem).symm
    exact absurd hnone (hok _ seqno)
  | buffers inbuf reclen len held hsame =>
    rcases hsame with ⟨rfl, rfl⟩ | ⟨seqno, hnone⟩
    · exact ⟨hw.held, hw.room⟩
    · exact absurd hnone (hok _ seqno)
  | accept seqno late hcheck hnone => exact absurd hnone (hok _ seqno)
  | reject seqno hcheck hnone => exact absurd hnone (hok _ seqno)
  | sendPlain | sendSealed | sign | verify | agree | complete | plaintext =>
    exact ⟨hw.held, hw.room.append fun _ _ hmem => by simp at hmem⟩
  | _ => exact ⟨hw.held, hw.room⟩

/-- Effects in which no encrypted datagram is accepted. -/
abbrev Plain (p : Primitives) (e : Env) : World → World → Prop :=
  Effect p e fun _ _ type => type.isSome = true

variable (p e) in
theorem sized_of_plain (h : ReflTransGen (Plain p e) w w') (hw : Sized w) : Sized w' :=
  kept_by_steps (Sized.step fun _ _ => nofun) h hw

theorem grow_of_fits {len : ℕ} (hfits : Fits e w len) (hw : Sized w) :
    ∃ w₁, growDecryptedBuffer e len w = (some (), w₁) ∧ Sized w₁ ∧
      len ≤ w₁.session.decryptedBuffer := by
  rw [growDecryptedBuffer, gets_bind]
  split
  · rename_i hlong
    obtain hshort | ⟨halloc, hdouble⟩ := hfits
    · omega
    refine ⟨{w with
      session := {w.session with
        decryptedBufferLen := w.session.decryptedBufferLen * 2
        decryptedBuffer := (w.session.decryptedBufferLen * 2).toNat}
      allocs := w.allocs + 1}, ?_, ⟨rfl, hw.room⟩, hdouble⟩
    have hrun : ∀ w' : World, w'.allocs = w.allocs →
        alloc e w' = (some (), {w' with allocs := w'.allocs + 1}) := by
      intro w' hallocs
      rw [alloc, gets_bind, hallocs, halloc]
      rfl
    exact bind_of_some (hrun {w with session := {w.session with
      decryptedBufferLen := w.session.decryptedBufferLen * 2}} rfl)
  · rename_i hshort
    refine ⟨w, rfl, hw, ?_⟩
    rw [hw.held]
    omega

theorem receivePacket_sized {seqno : UInt32} {data : Bytes} (hfits : Fits e w (data.length + 4))
    (hw : Sized w) : Sized (after (receivePacket p e seqno data) w) := by
  obtain ⟨w₁, hgrow, hw₁, hlen⟩ := grow_of_fits hfits hw
  set ev : Event := .unpacked w₁.session.decryptedBuffer (data.length + 4) with hev
  have hunpacked : Sized {w₁ with trace := w₁.trace ++ [ev]} := by
    refine ⟨hw₁.held, hw₁.room.append fun held len hmem => ?_⟩
    cases (List.mem_singleton.mp hmem).trans hev
    exact hlen
  have hread : gets World.session w₁ = (some w₁.session, w₁) := rfl
  have hemit : emit ev w₁ = (some (), {w₁ with trace := w₁.trace ++ [ev]}) := rfl
  rw [receivePacket, after_bind hgrow, after_bind hread, ← hev, after_bind hemit]
  split
  · exact sized_of_plain p e (crash_reaches _) hunpacked
  split
  · exact sized_of_plain p e (fail_reaches .packetForged rfl _) hunpacked
  rename_i key _ _ plain _
  have hnew (ev : Event) (hev : ∀ held len, ev ≠ .unpacked held len) : HadRoom [ev] :=
    fun held len hmem => absurd (List.mem_singleton.mp hmem).symm (hev held len)
  have hdecrypted := hunpacked.room.append (hnew (.decrypted key seqno plain) nofun)
  cases hcheck : replayCheck w₁.session seqno with
  | none => exact ⟨hw₁.held, hdecrypted.append (hnew _ nofun)⟩
  | some late =>
    exact sized_of_plain p e (handlePacket_reaches plain _)
      ⟨hw₁.held, hdecrypted.append (hnew (.accepted seqno) nofun)⟩

end Steps

/-- What a datagram has to meet once the keys are active. -/
def Fitting (e : Env) (w : World) : Input → Prop
  | .call _ => True
  | .receive data => w.session.instate = true → Fits e w data.length

instance : DecidablePred (Fitting e w) := fun input =>
  match input with
  | .call _ => isTrue trivial
  | .receive _ => inferInstanceAs (Decidable (_ → _ ∨ _ ∧ _))

theorem step_sized {input : Input} (hinput : Fitting e w input) (hw : Sized w) :
    Sized (step p e w input) := by
  unfold step
  split
  · exact hw
  cases input with
  | call call => exact sized_of_plain p e (perform_reaches call w) hw
  | receive data =>
    have hread : gets World.session w = (some w.session, w) := rfl
    rw [handle, sptpsReceiveData, after_bind hread]
    split
    · exact sized_of_plain p e (fail_reaches .stateZero rfl w) hw
    split
    · rw [sptpsReceiveDataDatagram, after_bind hread]
      cases hin : w.session.instate with
      | false =>
        simp only [Bool.false_eq_true, Bool.not_false, if_true, if_false]
        split
        · exact sized_of_plain p e (fail_reaches .shortPacket rfl w) hw
        · exact sized_of_plain p e (receivePlaintext_reaches _ _ w hin rfl) hw
      | true =>
        simp only [Bool.not_true, Bool.false_eq_true, if_true, if_false]
        split
        · exact sized_of_plain p e (fail_reaches .shortPacket rfl w) hw
        rename_i hlong
        have hlen : (data.drop 4).length + 4 = data.length := by
          have hover : datagramOverhead ≤ data.length := Nat.le_of_not_lt hlong
          unfold datagramOverhead at hover
          rw [List.length_drop]
          omega
        exact receivePacket_sized (hlen ▸ hinput hin) hw
    · rename_i hstream
      exact sized_of_plain p e (receiveLoop_reaches _ data w (by simpa using hstream)) hw

/-- If every datagram fits after one doubling, and each doubling succeeds, every datagram
has room. -/
theorem datagrams_have_room (p : Primitives) (e : Env) (args : Args) (inputs : List Input)
    (hinputs : Along p e (Fitting e) (start p e args) inputs) :
    HadRoom (run p e (start p e args) inputs).trace := by
  have hstart : Sized (start p e args) :=
    sized_of_plain p e (start_effects args) ⟨rfl, fun _ _ hmem => absurd hmem List.not_mem_nil⟩
  suffices h : ∀ w, Sized w → Along p e (Fitting e) w inputs → Sized (run p e w inputs) from
    (h _ hstart hinputs).room
  clear hinputs
  induction inputs with
  | nil => exact fun w hw _ => hw
  | cons input inputs ih => exact fun w hw h => ih _ (step_sized h.1 hw) h.2

section Samples

/-- A datagram of 1100 bytes that the peer encrypted with the key of the first exchange. -/
def longPacket (seqno : UInt32) : Input :=
  let w := run toyPrimitives (quietEnv 1) (sampleStart true) (sampleHandshake true)
  .receive (htonl seqno ++ toyPrimitives.encrypt (w.session.incipher.getD []) seqno
    (7 :: List.replicate 1079 65))

theorem datagrams_have_room_doubled :
    .unpacked 2048 1100 ∈ (run toyPrimitives (quietEnv 1)
      (start toyPrimitives (quietEnv 1) (sampleArgs true true))
      (sampleHandshake true ++ [longPacket 2])).trace ∧
    HadRoom (run toyPrimitives (quietEnv 1)
      (start toyPrimitives (quietEnv 1) (sampleArgs true true))
      (sampleHandshake true ++ [longPacket 2])).trace :=
  ⟨by decide +kernel, datagrams_have_room toyPrimitives (quietEnv 1) (sampleArgs true true) _
    (by decide +kernel)⟩

/-- One allocation fails. -/
def failingEnv (n : ℕ) : Env := {quietEnv 1 with allocates := fun k => k ≠ n}

/-- The second datagram is decrypted into a buffer that could not be doubled for the first. -/
theorem datagram_without_room :
    ¬ HadRoom (run toyPrimitives (failingEnv 6)
      (start toyPrimitives (failingEnv 6) (sampleArgs true true))
      (sampleHandshake true ++ [longPacket 2, longPacket 3])).trace := by
  have hmem : .unpacked 1024 1100 ∈ (run toyPrimitives (failingEnv 6)
      (start toyPrimitives (failingEnv 6) (sampleArgs true true))
      (sampleHandshake true ++ [longPacket 2, longPacket 3])).trace := by decide +kernel
  intro h
  exact absurd (h 1024 1100 hmem) (by decide)

end Samples

end Meshlink.DecryptedBuffer
