import Meshlink.Histories
import Meshlink.SptpsEffects

/-!
The sequence numbers that records are encrypted with. Every record takes the
next number of a 32 bit counter that is never reset, so a number comes back
after 2^32 records, and two records share key and number when the key is still
the same by then.
-/
namespace Meshlink.RecordNumbers

open List Sptps SptpsEffects Histories

/-- The number of records that a session has sent. -/
def recordsSent (trace : List Event) : ℕ :=
  trace.countP fun
    | .sent _ _ => true
    | _ => false

/-- The keys and sequence numbers that records were encrypted with. -/
def encryptions (trace : List Event) : List (Bytes × UInt32) :=
  trace.filterMap fun
    | .encrypted key seqno _ => some (key, seqno)
    | _ => none

/-- The number of records sent since the key was first used, that record included. -/
def keyAge (key : Bytes) (trace : List Event) : ℕ :=
  recordsSent (trace.dropWhile fun
    | .encrypted other _ _ => other ≠ key
    | _ => true)

/-- A record is encrypted while its key has been in use for less than 2^32 records. -/
def KeyYoung (before : List Event) (ev : Event) : Prop :=
  ∀ key seqno plain, ev = .encrypted key seqno plain → keyAge key before < 2 ^ 32

/-- Every encryption is followed at once by the record that carries it. -/
def Followed (trace : List Event) : Prop :=
  ∀ before key seqno plain after, trace = before ++ .encrypted key seqno plain :: after →
    ∃ type data rest, after = .sent type data :: rest

/-- A record is encrypted with the number of records sent before it. -/
def NumberedByCount (before : List Event) (ev : Event) : Prop :=
  ∀ key seqno plain, ev = .encrypted key seqno plain → seqno = UInt32.ofNat (recordsSent before)

structure Numbered (w : World) : Prop where
  counter : w.session.outseqno = UInt32.ofNat (recordsSent w.trace)
  numbers : Always NumberedByCount w.trace
  followed : Followed w.trace

theorem recordsSent_append (trace evs : List Event) :
    recordsSent (trace ++ evs) = recordsSent trace + recordsSent evs :=
  countP_append

theorem Followed.append {trace evs : List Event} (h : Followed trace) (hevs : Followed evs) :
    Followed (trace ++ evs) := by
  intro before key seqno plain after heq
  rcases append_eq_append_iff.mp heq with ⟨mid, -, hsplit⟩ | ⟨mid, hleft, hright⟩
  · exact hevs mid key seqno plain after hsplit
  cases mid with
  | nil => exact hevs [] key seqno plain after hright.symm
  | cons ev mid =>
    obtain ⟨rfl, rfl⟩ := List.cons.inj hright
    obtain ⟨type, data, rest, rfl⟩ := h before key seqno plain mid hleft
    exact ⟨type, data, rest ++ evs, rfl⟩

/-- The events of an effect that sends no record. -/
def isSilent : Event → Bool
  | .encrypted _ _ _ | .sent _ _ => false
  | _ => true

theorem Numbered.silent {w w' : World} (h : Numbered w) (evs : List Event)
    (houtseqno : w'.session.outseqno = w.session.outseqno) (htrace : w'.trace = w.trace ++ evs)
    (hsilent : ∀ ev ∈ evs, isSilent ev = true) : Numbered w' := by
  have hcount : recordsSent evs = 0 := by
    rw [recordsSent, countP_eq_zero]
    intro ev hev
    have := hsilent ev hev
    cases ev <;> simp_all [isSilent]
  have hnone : ∀ ev ∈ evs, ∀ key seqno plain, ev ≠ .encrypted key seqno plain := by
    rintro ev hev key seqno plain rfl
    cases hsilent _ hev
  refine ⟨?_, ?_, ?_⟩
  · rw [houtseqno, htrace, recordsSent_append, hcount, h.counter, Nat.add_zero]
  · rw [htrace, always_append]
    refine ⟨h.numbers, Always.of_mem ?_⟩
    intro before ev _ hev key seqno plain heq
    exact absurd heq (hnone ev hev key seqno plain)
  · rw [htrace]
    refine h.followed.append ?_
    rintro before key seqno plain after rfl
    exact absurd rfl (hnone (.encrypted key seqno plain) (by simp) key seqno plain)

theorem Numbered.sent {w w' : World} (h : Numbered w) (type : UInt8) (data : Bytes)
    (evs : List Event)
    (hevs : evs = [] ∨ ∃ key plain, evs = [.encrypted key w.session.outseqno plain])
    (houtseqno : w'.session.outseqno = w.session.outseqno + 1)
    (htrace : w'.trace = w.trace ++ (evs ++ [.sent type data])) : Numbered w' := by
  have hcount : recordsSent (evs ++ [.sent type data]) = 1 := by
    rcases hevs with rfl | ⟨key, plain, rfl⟩
    · rfl
    · rfl
  refine ⟨?_, ?_, ?_⟩
  · rw [houtseqno, htrace, recordsSent_append, hcount, h.counter, UInt32.ofNat_add]
    rfl
  · rw [htrace, always_append]
    refine ⟨h.numbers, ?_⟩
    rcases hevs with rfl | ⟨key, plain, rfl⟩
    · rw [nil_append, always_singleton]
      intro key seqno plain heq
      cases heq
    rw [always_append, always_singleton, always_singleton]
    constructor
    · intro key' seqno plain' heq
      obtain ⟨-, rfl, -⟩ := Event.encrypted.inj heq
      rw [append_nil, h.counter]
    · intro key' seqno plain' heq
      cases heq
  · rw [htrace]
    refine h.followed.append ?_
    intro before key seqno plain after heq
    rcases hevs with rfl | ⟨key', plain', rfl⟩
    · cases before with
      | nil => cases (List.cons.inj heq).1
      | cons head tail => simp at heq
    cases before with
    | nil =>
      obtain ⟨-, rfl⟩ := List.cons.inj heq
      exact ⟨type, data, [], rfl⟩
    | cons head tail =>
      obtain ⟨-, htail⟩ := List.cons.inj heq
      cases tail with
      | nil => cases (List.cons.inj htail).1
      | cons head' tail' => simp at htail

section Effects

variable {p : Primitives} {e : Env} {ok : Session → UInt32 → Option UInt8 → Prop}

theorem note_silent {ev : Event} (h : isNote ev = true) : isSilent ev = true := by
  cases ev <;> first | rfl | cases h

theorem Numbered.step (w w' : World) (h : Numbered w) (heffect : Effect p e ok w w') :
    Numbered w' := by
  cases heffect with
  | note ev hnote => exact h.silent [ev] rfl rfl (by simpa using note_silent hnote)
  | sendPlain type data _ => exact h.sent type _ [] (Or.inl rfl) rfl rfl
  | sendSealed type data key _ _ => exact h.sent type _ [_] (Or.inr ⟨key, _, rfl⟩) rfl rfl
  | sign | verify | agree | complete | plaintext | accept | reject =>
    exact h.silent [_] rfl rfl (by simp [isSilent])
  | _ => exact h.silent [] rfl (append_nil _).symm (by simp)

theorem run_numbered (p : Primitives) (e : Env) (args : Args) (inputs : List Input) :
    Numbered (run p e (start p e args) inputs) := by
  have hblank : Numbered (blank args) := by
    refine ⟨rfl, Always.nil _, ?_⟩
    intro before key seqno plain after heq
    simp [blank] at heq
  exact run_invariant (fun w input w₁ w₂ _ => Numbered.step w₁ w₂) _ inputs
    (Systems.along_of_forall fun _ _ => trivial) (start_invariant args Numbered.step hblank)

end Effects

theorem suffix_dropWhile {α : Type} (f : α → Bool) (before : List α) (x : α) (after : List α)
    (hx : f x = false) : x :: after <:+ (before ++ x :: after).dropWhile f := by
  induction before with
  | nil => simp [hx]
  | cons y before ih =>
    cases hy : f y with
    | true => simpa [hy] using ih
    | false =>
      simp only [cons_append, dropWhile_cons, hy]
      exact suffix_append (y :: before) (x :: after)

theorem recordsSent_le_keyAge (before after : List Event) (key : Bytes) (seqno : UInt32)
    (plain : Bytes) :
    recordsSent after ≤ keyAge key (before ++ .encrypted key seqno plain :: after) := by
  have hsuffix := suffix_dropWhile (fun ev : Event => match ev with
    | .encrypted other _ _ => decide (other ≠ key)
    | _ => true) before (.encrypted key seqno plain) after (by simp)
  exact le_trans (List.Sublist.countP_le (sublist_cons_self _ _))
    (List.Sublist.countP_le hsuffix.sublist)

theorem mem_encryptions {trace : List Event} {key : Bytes} {seqno : UInt32} :
    (key, seqno) ∈ encryptions trace ↔ ∃ plain, .encrypted key seqno plain ∈ trace := by
  unfold encryptions
  rw [mem_filterMap]
  constructor
  · rintro ⟨ev, hev, hsome⟩
    cases ev with
    | encrypted key' seqno' plain =>
      obtain ⟨rfl, rfl⟩ := Prod.mk.inj (Option.some.inj hsome)
      exact ⟨plain, hev⟩
    | _ => cases hsome
  · rintro ⟨plain, hmem⟩
    exact ⟨_, hmem, rfl⟩

/-- While no key is older than 2^32 records, no two records share key and number. -/
theorem encryptions_nodup (p : Primitives) (e : Env) (args : Args) (inputs : List Input)
    (hyoung : Always KeyYoung (run p e (start p e args) inputs).trace) :
    (encryptions (run p e (start p e args) inputs).trace).Nodup := by
  have hrun := run_numbered p e args inputs
  generalize run p e (start p e args) inputs = w at hyoung hrun
  refine nodup_filterMap_of_always _ w.trace ?_
  intro before ev after hsplit value hvalue hmem
  cases ev with
  | encrypted key seqno plain =>
    obtain rfl := Option.some.inj hvalue
    obtain ⟨plain', hmem'⟩ := mem_encryptions.mp hmem
    obtain ⟨before₁, between, rfl⟩ := append_of_mem hmem'
    have hage := hyoung _ _ _ hsplit key seqno plain rfl
    have hbetween := recordsSent_le_keyAge before₁ between key seqno plain'
    have hnumber := hrun.numbers _ _ _ hsplit key seqno plain rfl
    have hsplit₁ : w.trace = before₁ ++ .encrypted key seqno plain' ::
        (between ++ .encrypted key seqno plain :: after) := by
      rw [hsplit, append_assoc, cons_append]
    have hnumber₁ := hrun.numbers _ _ _ hsplit₁ key seqno plain' rfl
    -- The first record was sent in between, so the count has moved by less than 2^32.
    obtain ⟨type, data, rest, hsent⟩ := hrun.followed _ _ _ _ _ hsplit₁
    have hpos : 0 < recordsSent between := by
      cases between with
      | nil => cases (List.cons.inj hsent).1
      | cons head tail =>
        obtain ⟨rfl, -⟩ := List.cons.inj hsent
        simp [recordsSent]
    have hcount : recordsSent (before₁ ++ .encrypted key seqno plain' :: between) =
        recordsSent before₁ + recordsSent between := by
      rw [recordsSent_append]
      rfl
    rw [hcount, hnumber₁] at hnumber
    have hmod := congrArg UInt32.toNat hnumber
    rw [UInt32.toNat_ofNat', UInt32.toNat_ofNat'] at hmod
    omega
  | _ => cases hvalue

theorem keyYoung_of_short {trace : List Event} (h : trace.length < 2 ^ 32) :
    Always KeyYoung trace := by
  intro before ev after heq key seqno plain _
  have hbefore : before.length ≤ trace.length := by
    rw [heq, length_append]
    omega
  have hage : keyAge key before ≤ before.length :=
    le_trans countP_le_length (List.Sublist.length_le (dropWhile_sublist _))
  omega

def sampleSend : Input := .call (.sendRecord 7 ⟨[65], by decide⟩)

theorem encryptions_nodup_twoRecords :
    (encryptions (run toyPrimitives (quietEnv 1)
      (start toyPrimitives (quietEnv 1) (sampleArgs false true))
      (sampleHandshake false ++ [sampleSend, sampleSend])).trace).Nodup :=
  encryptions_nodup toyPrimitives (quietEnv 1) (sampleArgs false true) _
    (keyYoung_of_short (by decide +kernel))

section Wrap

variable {p : Primitives} {e : Env}

/-- A session with a sending key encrypts every record the application sends. -/
theorem sendRecord_step (w : World) (type : UInt8) (data : Payload) (key : Bytes)
    (hdead : w.dead = false) (hout : w.session.outstate = true)
    (hkey : w.session.outcipher = some key) (htype : type < handshake) :
    ∃ bytes, step p e w (.call (.sendRecord type data)) = {w with
      session := {w.session with outseqno := w.session.outseqno + 1}
      sends := w.sends + 1
      trace := w.trace ++
        [.encrypted key w.session.outseqno (type :: data.val), .sent type bytes]} := by
  have hcall : Commands.after (sptpsSendRecord p e type data) w =
      Commands.after (sendRecordPriv p e type data.val) w := by
    change ((if (!w.session.outstate) = true then _ else if handshake ≤ type then _ else _ :
      Commands.Command World Unit) w).2 = _
    rw [hout, if_neg (by decide), if_neg (by exact UInt8.not_le.mpr htype)]
    rfl
  have hbody : encryptBody p w.session (type :: data.val) = (do
      emit (.encrypted key w.session.outseqno (type :: data.val))
      pure (p.encrypt key w.session.outseqno (type :: data.val))) := by
    unfold encryptBody
    rw [hout, hkey]
    rfl
  refine ⟨header w.session data.val ++
    p.encrypt key w.session.outseqno (type :: data.val), ?_⟩
  change (if w.dead = true then w else Commands.after (sptpsSendRecord p e type data) w) = _
  rw [if_neg (by rw [hdead]; decide), hcall, Commands.after, sendRecordPriv_eq, hbody]
  have hsent := sendData_after (e := e) type
    (header w.session data.val ++ p.encrypt key w.session.outseqno (type :: data.val)) {w with
      session := {w.session with outseqno := w.session.outseqno + 1}
      trace := w.trace ++ [.encrypted key w.session.outseqno (type :: data.val)]}
  refine hsent.trans ?_
  simp only [append_assoc]
  rfl

theorem encryptions_sends (n : ℕ) (w : World) (key : Bytes) (hdead : w.dead = false)
    (hout : w.session.outstate = true) (hkey : w.session.outcipher = some key) :
    encryptions (run p e w (List.replicate n sampleSend)).trace =
      encryptions w.trace ++
        (List.range n).map fun i => (key, w.session.outseqno + UInt32.ofNat i) := by
  induction n generalizing w with
  | zero => simp [run]
  | succ n ih =>
    obtain ⟨bytes, hstep⟩ :=
      sendRecord_step (p := p) (e := e) w 7 ⟨[65], by decide⟩ key hdead hout hkey (by decide)
    have hrun : run p e w (List.replicate (n + 1) sampleSend) =
        run p e (step p e w sampleSend) (List.replicate n sampleSend) := rfl
    rw [hrun, ih]
    · have htrace := congrArg World.trace hstep
      have hseqno : (step p e w sampleSend).session.outseqno = w.session.outseqno + 1 :=
        congrArg (fun w => w.session.outseqno) hstep
      have hencryptions : encryptions (step p e w sampleSend).trace =
          encryptions w.trace ++ [(key, w.session.outseqno)] := by
        rw [sampleSend, htrace, encryptions, filterMap_append]
        rfl
      rw [hencryptions, hseqno, append_assoc, range_succ_eq_map]
      congr 1
      simp only [map_cons, map_map, singleton_append]
      congr 1
      · simp
      · apply map_congr_left
        intro i _
        change (key, w.session.outseqno + 1 + UInt32.ofNat i) =
          (key, w.session.outseqno + UInt32.ofNat (i + 1))
        rw [UInt32.ofNat_add, UInt32.add_assoc, UInt32.add_comm 1]
        rfl
    · exact (congrArg World.dead hstep).trans hdead
    · exact (congrArg (fun w => w.session.outstate) hstep).trans hout
    · exact (congrArg (fun w => w.session.outcipher) hstep).trans hkey

end Wrap

/-- After 2^32 records under one key the first number is used again. -/
theorem encryption_repeated :
    ¬ (encryptions (run toyPrimitives (quietEnv 1)
      (start toyPrimitives (quietEnv 1) (sampleArgs false true))
      (sampleHandshake false ++ List.replicate (2 ^ 32 + 1) sampleSend)).trace).Nodup := by
  let w := run toyPrimitives (quietEnv 1) (start toyPrimitives (quietEnv 1) (sampleArgs false true))
    (sampleHandshake false)
  have hready : w.dead = false ∧ w.session.outstate = true ∧ w.session.outcipher.isSome = true := by
    decide +kernel
  obtain ⟨hdead, hout, hcipher⟩ := hready
  obtain ⟨key, hkey⟩ := Option.isSome_iff_exists.mp hcipher
  have hrun : run toyPrimitives (quietEnv 1)
      (start toyPrimitives (quietEnv 1) (sampleArgs false true))
      (sampleHandshake false ++ List.replicate (2 ^ 32 + 1) sampleSend) =
        run toyPrimitives (quietEnv 1) w (List.replicate (2 ^ 32 + 1) sampleSend) :=
    foldl_append
  rw [hrun, encryptions_sends _ w key hdead hout hkey]
  intro hnodup
  have hinj := inj_on_of_nodup_map (nodup_append.mp hnodup).2.1
  have hzero : (0 : ℕ) = 2 ^ 32 := by
    refine hinj (mem_range.mpr (Nat.succ_pos _)) (mem_range.mpr (Nat.lt_succ_self _)) ?_
    have hwrap : UInt32.ofNat (2 ^ 32) = UInt32.ofNat 0 := by decide
    rw [hwrap]
  exact absurd hzero (by decide)

end Meshlink.RecordNumbers
