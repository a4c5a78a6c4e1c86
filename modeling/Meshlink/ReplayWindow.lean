import Meshlink.Histories
import Meshlink.SptpsEffects

/-!
The replay window of a datagram session. A set bit of the window means that
the packet has not been received, and the window covers the 256 sequence
numbers before the next expected one. The end of that range is computed in 32
bits, so near the end of the sequence numbers it lies behind the window.
-/
namespace Meshlink.ReplayWindow

open Bitmaps Sptps SptpsEffects Histories

/-- How a sequence number passes the check, and the bitmap it leaves. -/
inductive Passes (s : Session) (seqno : UInt32) : Bitmap replaywin → Prop
  | next (heq : seqno = s.inseqno) : Passes s seqno s.late
  | jump (hne : seqno ≠ s.inseqno)
      (hfar : (s.inseqno.toNat + 256) % 2 ^ 32 ≤ seqno.toNat) : Passes s seqno (full replaywin)
  | late (hlt : seqno.toNat < s.inseqno.toNat)
      (hnear : seqno.toNat < (s.inseqno.toNat + 256) % 2 ^ 32)
      (hwindow : s.inseqno.toNat ≤ seqno.toNat + 256) (htest : test s.late seqno.toNat = true) :
      Passes s seqno s.late
  | skip (hlt : s.inseqno.toNat < seqno.toNat)
      (hnear : seqno.toNat < (s.inseqno.toNat + 256) % 2 ^ 32) :
      Passes s seqno (markFrom s.late s.inseqno.toNat (seqno.toNat - s.inseqno.toNat))

theorem end_of_window (q : UInt32) : (q + window).toNat = (q.toNat + 256) % 2 ^ 32 := by
  rw [UInt32.toNat_add]
  rfl

theorem behind_window (q seqno : UInt32) :
    (window ≤ q ∧ seqno < q - window) ↔ seqno.toNat + 256 < q.toNat := by
  have hwindow : window.toNat = 256 := rfl
  rw [UInt32.le_iff_toNat_le, UInt32.lt_iff_toNat_lt, hwindow]
  constructor
  · rintro ⟨hle, hlt⟩
    rw [UInt32.toNat_sub_of_le _ _ (UInt32.le_iff_toNat_le.mpr (hwindow ▸ hle)), hwindow] at hlt
    omega
  · intro h
    have hle : window ≤ q := UInt32.le_iff_toNat_le.mpr (by rw [hwindow]; omega)
    rw [UInt32.toNat_sub_of_le _ _ hle, hwindow]
    omega

variable {s : Session} {seqno : UInt32}

/-- A packet is dropped when it lies behind the window or its bit is clear. -/
theorem replayCheck_cases (s : Session) (seqno : UInt32) :
    (∃ late, replayCheck s seqno = some late ∧ Passes s seqno late) ∨
      replayCheck s seqno = none ∧ seqno.toNat < s.inseqno.toNat ∧
        seqno.toNat < (s.inseqno.toNat + 256) % 2 ^ 32 ∧
        (seqno.toNat + 256 < s.inseqno.toNat ∨ test s.late seqno.toNat = false) := by
  unfold replayCheck
  simp only [behind_window]
  simp only [UInt32.le_iff_toNat_le, end_of_window, UInt32.lt_iff_toNat_lt]
  split
  · rename_i hne
    split
    · rename_i hfar
      exact .inl ⟨_, rfl, .jump hne hfar⟩
    split
    · rename_i hnear hlt
      split
      · rename_i hdrop
        exact .inr ⟨rfl, hlt, by omega, hdrop⟩
      rename_i hpass
      rw [not_or, Bool.not_eq_false] at hpass
      exact .inl ⟨_, rfl, .late hlt (by omega) (by omega) hpass.2⟩
    · rename_i hnear hge
      have hne' : seqno.toNat ≠ s.inseqno.toNat := fun heq => hne (UInt32.toNat_inj.mp heq)
      exact .inl ⟨_, rfl, .skip (by omega) (by omega)⟩
  · rename_i heq
    exact .inl ⟨_, rfl, .next (not_not.mp heq)⟩

theorem toNat_succ {q : UInt32} (h : q.toNat ≠ 2 ^ 32 - 1) : (q + 1).toNat = q.toNat + 1 := by
  have hlt := q.toNat_lt
  rw [UInt32.toNat_add]
  change (q.toNat + 1) % 2 ^ 32 = _
  omega

theorem advance_inseqno (s : Session) (late : Bitmap replaywin) (seqno : UInt32)
    (hlast : seqno.toNat ≠ 2 ^ 32 - 1) :
    (advance s late seqno).inseqno.toNat = max s.inseqno.toNat (seqno.toNat + 1) := by
  unfold advance
  dsimp only
  split
  · rename_i hle
    rw [UInt32.le_iff_toNat_le] at hle
    rw [toNat_succ hlast]
    omega
  · rename_i hgt
    rw [UInt32.le_iff_toNat_le] at hgt
    omega

def accepted (trace : List Event) : List UInt32 :=
  trace.filterMap fun
    | .accepted seqno => some seqno
    | _ => none

/-- The arithmetic on `seqno` wraps: the number after it is zero, or it is an
old number that lies beyond the wrapped end of the window. -/
def Wraps (s : Session) (seqno : UInt32) : Prop :=
  seqno.toNat = 2 ^ 32 - 1 ∨
    seqno.toNat < s.inseqno.toNat ∧ 2 ^ 32 ≤ s.inseqno.toNat + 256 ∧
      s.inseqno.toNat + 256 ≤ seqno.toNat + 2 ^ 32

instance (s : Session) (seqno : UInt32) : Decidable (Wraps s seqno) := by
  unfold Wraps
  infer_instance

/-- The input presents no packet whose number wraps. -/
def InRange (w : World) : Input → Prop
  | .receive data => ¬ Wraps w.session (ntohl data)
  | .call _ => True

instance (w : World) (input : Input) : Decidable (InRange w input) := by
  cases input <;> (unfold InRange; infer_instance)

/-- Accepted numbers stay behind the window or have their bit cleared. -/
def Guarded (s : Session) (seen : List UInt32) : Prop :=
  ∀ q ∈ seen, q.toNat < s.inseqno.toNat ∧ (q.toNat + 256 < s.inseqno.toNat ∨
    test s.late q.toNat = false ∨ 2 ^ 32 ≤ s.inseqno.toNat + 256)

theorem Guarded.not_mem {seen : List UInt32} (h : Guarded s seen) {late : Bitmap replaywin}
    (hpass : Passes s seqno late) (hwrap : ¬ Wraps s seqno) : seqno ∉ seen := by
  intro hmem
  obtain ⟨hlt, hbit⟩ := h seqno hmem
  have hbound := s.inseqno.toNat_lt
  unfold Wraps at hwrap
  cases hpass with
  | next heq =>
    rw [heq] at hlt
    exact lt_irrefl _ hlt
  | jump hne hfar => omega
  | late _ hnear hwindow htest =>
    rcases hbit with hbehind | hclear | hend
    · omega
    · rw [htest] at hclear
      cases hclear
    · omega
  | skip hgt _ => omega

theorem Guarded.advance {seen : List UInt32} (h : Guarded s seen) {late : Bitmap replaywin}
    (hpass : Passes s seqno late) (hwrap : ¬ Wraps s seqno) :
    Guarded (advance s late seqno) (seen ++ [seqno]) := by
  have hlast : seqno.toNat ≠ 2 ^ 32 - 1 := fun heq => hwrap (Or.inl heq)
  have hinseqno := advance_inseqno s late seqno hlast
  have hbound := s.inseqno.toNat_lt
  have hlate : (Sptps.advance s late seqno).late = clear late seqno.toNat := rfl
  intro q hq
  rw [hinseqno, hlate, test_clear]
  rcases List.mem_append.mp hq with hold | hnew
  · obtain ⟨hlt, hbit⟩ := h q hold
    refine ⟨by omega, ?_⟩
    rcases hbit with hbehind | hclear | hend
    · exact Or.inl (by omega)
    · cases hpass with
      | next heq => exact Or.inr (Or.inl (by rw [hclear]; rfl))
      | jump hne hfar => omega
      | late _ _ _ _ => exact Or.inr (Or.inl (by rw [hclear]; rfl))
      | skip hgt hnear =>
        -- A bit that is set again belongs to a number that leaves the window.
        by_cases hmark : ∃ i < seqno.toNat - s.inseqno.toNat,
            (s.inseqno.toNat + i) % (8 * replaywin) = q.toNat % (8 * replaywin)
        · obtain ⟨i, hi, hmod⟩ := hmark
          have hmod' : (s.inseqno.toNat + i) % 256 = q.toNat % 256 := hmod
          exact Or.inl (by omega)
        have hunmarked : test (markFrom s.late s.inseqno.toNat
            (seqno.toNat - s.inseqno.toNat)) q.toNat = false := by
          rw [← Bool.not_eq_true, test_markFrom, hclear]
          simpa using hmark
        exact Or.inr (Or.inl (by rw [hunmarked]; rfl))
    · exact Or.inr (Or.inr (by omega))
  · obtain rfl := List.mem_singleton.mp hnew
    exact ⟨by omega, Or.inr (Or.inl (by simp))⟩

/-- The events that depend on the window. -/
def isWindowEvent : Event → Bool
  | .accepted _ | .plaintext _ _ | .failed (.replayed _ _) => true
  | _ => false

/-- What an effect does to the window of a datagram session. -/
inductive WindowMove (ok : Session → UInt32 → Option UInt8 → Prop) (w w' : World) : Prop
  | none (evs : List Event) (hinseqno : w'.session.inseqno = w.session.inseqno)
      (hlate : w'.session.late = w.session.late) (htrace : w'.trace = w.trace ++ evs)
      (hother : ∀ ev ∈ evs, isWindowEvent ev = false)
  | plaintext (type : UInt8) (hok : ok w.session w.session.inseqno (some type))
      (hinseqno : w'.session.inseqno = w.session.inseqno + 1)
      (hlate : w'.session.late = w.session.late)
      (htrace : w'.trace = w.trace ++ [.plaintext w.session.inseqno type])
  | accept (seqno : UInt32) (late : Bitmap replaywin) (hpass : Passes w.session seqno late)
      (hok : ok w.session seqno none) (hsession : w'.session = advance w.session late seqno)
      (htrace : w'.trace = w.trace ++ [.accepted seqno])
  | reject (seqno : UInt32) (hcheck : replayCheck w.session seqno = none)
      (hok : ok w.session seqno none) (hsession : w'.session = w.session)
      (htrace : w'.trace = w.trace ++ [.failed (.replayed seqno w.session.inseqno)])

section Effects

variable {p : Primitives} {e : Env} {ok : Session → UInt32 → Option UInt8 → Prop}

theorem note_not_window {ev : Event} (h : isNote ev = true) : isWindowEvent ev = false := by
  cases ev with
  | failed failure => cases failure <;> first | rfl | cases h
  | _ => first | rfl | cases h

theorem effect_window {w w' : World} (h : Effect p e ok w w')
    (hdatagram : w.session.datagram = true) :
    WindowMove ok w w' := by
  cases h with
  | note ev hnote => exact .none [ev] rfl rfl rfl (by simpa using note_not_window hnote)
  | plaintext seqno type _ hseqno hok =>
    subst hseqno
    exact .plaintext type hok rfl rfl rfl
  | accept seqno late hcheck hok =>
    rcases replayCheck_cases w.session seqno with ⟨late', hsome, hpass⟩ | ⟨hnone, -⟩
    · rw [Option.some.inj (hcheck.symm.trans hsome)]
      exact .accept seqno late' hpass hok rfl rfl
    · cases hcheck.symm.trans hnone
  | reject seqno hcheck hok => exact .reject seqno hcheck hok rfl rfl
  | count hstream =>
    rw [hdatagram] at hstream
    cases hstream
  | sendPlain type data _ => exact .none [_] rfl rfl rfl (by simp [isWindowEvent])
  | sendSealed type data key _ _ => exact .none [_, _] rfl rfl rfl (by simp [isWindowEvent])
  | sign | verify | agree | complete => exact .none [_] rfl rfl rfl (by simp [isWindowEvent])
  | _ => exact .none [] rfl rfl (List.append_nil _).symm (by simp)

end Effects

section Replays

theorem accepted_append (trace evs : List Event) :
    accepted (trace ++ evs) = accepted trace ++ accepted evs :=
  List.filterMap_append

theorem accepted_other {evs : List Event} (h : ∀ ev ∈ evs, isWindowEvent ev = false) :
    accepted evs = [] := by
  rw [accepted, List.filterMap_eq_nil_iff]
  intro ev hev
  have hother := h ev hev
  cases ev <;> first | rfl | cases hother

theorem accepted_silent {trace trace' evs : List Event} (h : trace' = trace ++ evs)
    (hevs : accepted evs = []) : accepted trace' = accepted trace := by
  rw [h, accepted_append, hevs, List.append_nil]

/-- No accepted number repeats, and the window still guards all of them. -/
structure Unrepeated (w : World) : Prop where
  datagram : w.session.datagram = true
  nodup : (accepted w.trace).Nodup
  guarded : Guarded w.session (accepted w.trace)

theorem Guarded.next {s s' : Session} {seen : List UInt32} (h : Guarded s seen)
    (hnext : s'.inseqno.toNat = s.inseqno.toNat + 1) (hlate : s'.late = s.late) :
    Guarded s' seen := by
  intro q hq
  obtain ⟨hlt, hbit⟩ := h q hq
  rw [hnext, hlate]
  refine ⟨by omega, ?_⟩
  rcases hbit with hbehind | hclear | hend
  · exact Or.inl (by omega)
  · exact Or.inr (Or.inl hclear)
  · exact Or.inr (Or.inr (by omega))

theorem Guarded.same {s s' : Session} {seen : List UInt32} (h : Guarded s seen)
    (hinseqno : s'.inseqno = s.inseqno) (hlate : s'.late = s.late) : Guarded s' seen := by
  unfold Guarded
  rw [hinseqno, hlate]
  exact h

variable {p : Primitives} {e : Env} {ok : Session → UInt32 → Option UInt8 → Prop}

theorem Unrepeated.step (hok : ∀ s seqno type, ok s seqno type → ¬ Wraps s seqno) (w w' : World)
    (h : Unrepeated w) (heffect : Effect p e ok w w') : Unrepeated w' := by
  have hdatagram : w'.session.datagram = true := by
    rw [effects_datagram (Relation.ReflTransGen.single heffect), h.datagram]
  rcases effect_window heffect h.datagram with
    ⟨evs, hinseqno, hlate, htrace, hother⟩ | ⟨type, hgiven, hinseqno, hlate, htrace⟩ |
    ⟨seqno, late, hpass, hgiven, hsession, htrace⟩ | ⟨seqno, _, _, hsession, htrace⟩
  · have hsame := accepted_silent htrace (accepted_other hother)
    refine ⟨hdatagram, hsame ▸ h.nodup, ?_⟩
    rw [hsame]
    exact h.guarded.same hinseqno hlate
  · have hsame := accepted_silent htrace rfl
    refine ⟨hdatagram, hsame ▸ h.nodup, ?_⟩
    rw [hsame]
    refine h.guarded.next ?_ hlate
    rw [hinseqno, toNat_succ fun heq => hok _ _ _ hgiven (Or.inl heq)]
  · have hwrap := hok _ _ _ hgiven
    have hmore : accepted w'.trace = accepted w.trace ++ [seqno] := by
      rw [htrace, accepted_append]
      rfl
    refine ⟨hdatagram, ?_, ?_⟩
    · rw [hmore, List.nodup_append]
      refine ⟨h.nodup, List.nodup_cons.mpr ⟨List.not_mem_nil, List.nodup_nil⟩, ?_⟩
      intro a ha b hb
      obtain rfl := List.mem_singleton.mp hb
      exact fun heq => h.guarded.not_mem hpass hwrap (heq ▸ ha)
    · rw [hmore, hsession]
      exact h.guarded.advance hpass hwrap
  · have hsame := accepted_silent htrace rfl
    refine ⟨hdatagram, hsame ▸ h.nodup, ?_⟩
    rw [hsame, hsession]
    exact h.guarded

theorem blank_unrepeated (args : Args) (hdatagram : args.datagram = true) :
    Unrepeated (blank args) := by
  refine ⟨hdatagram, List.nodup_nil, ?_⟩
  intro q hq
  cases hq

/-- As long as no sequence number makes the arithmetic of the window wrap, none
is accepted twice, however the keys change in between. -/
theorem accepted_numbers_nodup (p : Primitives) (e : Env) (args : Args) (inputs : List Input)
    (hdatagram : args.datagram = true)
    (hwrap : Along p e InRange (start p e args) inputs) :
    (accepted (run p e (start p e args) inputs).trace).Nodup := by
  have hstart : Unrepeated (start p e args) :=
    start_invariant args (Unrepeated.step fun _ _ _ hfalse => hfalse.elim)
      (blank_unrepeated args hdatagram)
  refine (run_invariant ?_ (start p e args) inputs hwrap hstart).nodup
  intro w input w₁ w₂ hinput h₁ heffect
  refine Unrepeated.step ?_ w₁ w₂ h₁ heffect
  rintro s seqno type ⟨data, rfl, hinseqno, rfl, -⟩ hbad
  apply hinput
  unfold Wraps at hbad ⊢
  rw [hinseqno] at hbad
  exact hbad

/-- A packet that the peer encrypted with the key of the first exchange. -/
def samplePacket (seqno : UInt32) : Input :=
  let w := run toyPrimitives (quietEnv 1) (sampleStart true) (sampleHandshake true)
  let key := w.session.incipher.getD []
  .receive (htonl seqno ++ toyPrimitives.encrypt key seqno [7, 65])

theorem accepted_numbers_nodup_inOrder :
    (accepted (run toyPrimitives (quietEnv 1)
      (start toyPrimitives (quietEnv 1) (sampleArgs true true))
      (sampleHandshake true ++ [samplePacket 3, samplePacket 2, samplePacket 3])).trace).Nodup := by
  refine accepted_numbers_nodup toyPrimitives (quietEnv 1) (sampleArgs true true) _ rfl ?_
  decide +kernel

/-- With the next expected number in the last 256 a packet is accepted again and again. -/
theorem number_accepted_twice :
    ¬ (accepted (run toyPrimitives (quietEnv 1)
      (start toyPrimitives (quietEnv 1) (sampleArgs true true)) (sampleHandshake true ++
        [samplePacket 4294967096, samplePacket 4294967096])).trace).Nodup := by
  decide +kernel

end Replays

section Lateness

/-- The packet was accepted, or it was consumed as a plaintext handshake record. -/
def Seen (trace : List Event) (seqno : UInt32) : Prop :=
  .accepted seqno ∈ trace ∨ .plaintext seqno handshake ∈ trace

theorem Seen.append {trace : List Event} {seqno : UInt32} (h : Seen trace seqno)
    (evs : List Event) : Seen (trace ++ evs) seqno := by
  rcases h with h | h
  · exact Or.inl (List.mem_append_left evs h)
  · exact Or.inr (List.mem_append_left evs h)

/-- Below the last 256 numbers, a clear bit of the window belongs to a packet that was seen. -/
structure Covered (s : Session) (trace : List Event) : Prop where
  bound : s.inseqno.toNat ≤ 2 ^ 32 - 256
  seen : s.inseqno.toNat < 2 ^ 32 - 256 → ∀ q : UInt32, q.toNat < s.inseqno.toNat →
    s.inseqno.toNat ≤ q.toNat + 256 → test s.late q.toNat = false → Seen trace q

theorem Covered.same {s s' : Session} {trace : List Event} (h : Covered s trace)
    (hinseqno : s'.inseqno = s.inseqno) (hlate : s'.late = s.late) (evs : List Event) :
    Covered s' (trace ++ evs) := by
  refine ⟨hinseqno ▸ h.bound, ?_⟩
  rw [hinseqno, hlate]
  intro hlt q hq hwindow hclear
  exact (h.seen hlt q hq hwindow hclear).append evs

theorem Covered.next {s s' : Session} {trace : List Event} (h : Covered s trace)
    (hsmall : s.inseqno.toNat < 2 ^ 32 - 256)
    (hnext : s'.inseqno.toNat = s.inseqno.toNat + 1) (hlate : s'.late = s.late) :
    Covered s' (trace ++ [.plaintext s.inseqno handshake]) := by
  refine ⟨by omega, ?_⟩
  rw [hnext, hlate]
  intro _ q hq hwindow hclear
  rcases Nat.lt_succ_iff_lt_or_eq.mp hq with hold | hnew
  · exact (h.seen hsmall q hold (by omega) hclear).append _
  · obtain rfl := UInt32.toNat_inj.mp hnew
    exact Or.inr (by simp)

theorem Covered.advance {s : Session} {trace : List Event} (h : Covered s trace) {seqno : UInt32}
    {late : Bitmap replaywin} (hpass : Passes s seqno late)
    (hsmall : seqno.toNat < 2 ^ 32 - 256) :
    Covered (advance s late seqno) (trace ++ [.accepted seqno]) := by
  have hbound := h.bound
  have hinseqno := advance_inseqno s late seqno (by omega)
  have hlate : (Sptps.advance s late seqno).late = clear late seqno.toNat := rfl
  refine ⟨by omega, ?_⟩
  rw [hinseqno, hlate]
  intro hlt q hq hwindow hclear
  have hnew : q = seqno → Seen (trace ++ [.accepted seqno]) q := by
    rintro rfl
    exact Or.inl (by simp)
  rw [test_clear, Bool.and_eq_false_iff, Bool.not_eq_false', decide_eq_true_iff] at hclear
  have hcell : ∀ i j : ℕ, i % (8 * replaywin) = j % (8 * replaywin) ↔ i % 256 = j % 256 :=
    fun _ _ => Iff.rfl
  rw [hcell] at hclear
  -- Two numbers in the window that share a bit are equal.
  cases hpass with
  | next heq =>
    subst heq
    rcases hclear with hclear | hsame
    · by_cases hqeq : q.toNat = s.inseqno.toNat
      · exact hnew (UInt32.toNat_inj.mp hqeq)
      · exact (h.seen (by omega) q (by omega) (by omega) hclear).append _
    · exact hnew (UInt32.toNat_inj.mp (by omega))
  | jump hne hfar =>
    rcases hclear with hclear | hsame
    · rw [test_full] at hclear
      cases hclear
    · exact hnew (UInt32.toNat_inj.mp (by omega))
  | late hold hnear hback htest =>
    rcases hclear with hclear | hsame
    · exact (h.seen (by omega) q (by omega) (by omega) hclear).append _
    · exact hnew (UInt32.toNat_inj.mp (by omega))
  | skip hgt hnear =>
    rcases hclear with hclear | hsame
    · rw [← Bool.not_eq_true, test_markFrom, not_or, Bool.not_eq_true] at hclear
      obtain ⟨hbit, hunmarked⟩ := hclear
      by_cases hskipped : s.inseqno.toNat ≤ q.toNat
      · by_cases hqeq : q.toNat = seqno.toNat
        · exact hnew (UInt32.toNat_inj.mp hqeq)
        · refine absurd ⟨q.toNat - s.inseqno.toNat, by omega, ?_⟩ hunmarked
          rw [Nat.add_sub_cancel' hskipped]
      · exact (h.seen (by omega) q (by omega) (by omega) hbit).append _
    · exact hnew (UInt32.toNat_inj.mp (by omega))

/-- A packet in the window is only dropped when it was seen before. -/
def DroppedWhenSeen (before : List Event) (ev : Event) : Prop :=
  ∀ seqno expected : UInt32, ev = .failed (.replayed seqno expected) →
    expected.toNat ≤ seqno.toNat + 256 → Seen before seqno

structure Settled (w : World) : Prop where
  datagram : w.session.datagram = true
  covered : Covered w.session w.trace
  dropped : Always DroppedWhenSeen w.trace

theorem droppedWhenSeen_other {trace evs : List Event} (h : Always DroppedWhenSeen trace)
    (hother : ∀ ev ∈ evs, ∀ seqno expected, ev ≠ .failed (.replayed seqno expected)) :
    Always DroppedWhenSeen (trace ++ evs) := by
  rw [always_append]
  refine ⟨h, Always.of_mem ?_⟩
  intro before ev _ hev seqno expected heq
  exact absurd heq (hother ev hev seqno expected)

/-- A number outside the last 256, and a packet that is taken as plaintext is a handshake
record. A packet that overtakes the handshake has another number and is refused. -/
def Genuine (w : World) : Input → Prop
  | .receive data => (ntohl data).toNat < 2 ^ 32 - 256 ∧
      (w.session.instate = false → ntohl data = w.session.inseqno → data.getD 4 0 = handshake)
  | .call _ => True

instance (w : World) (input : Input) : Decidable (Genuine w input) := by
  cases input <;> (unfold Genuine; infer_instance)

variable {p : Primitives} {e : Env} {ok : Session → UInt32 → Option UInt8 → Prop}

theorem Settled.step (hok : ∀ s seqno type, ok s seqno type → seqno.toNat < 2 ^ 32 - 256 ∧
      (seqno = s.inseqno → ∀ t, type = some t → t = handshake)) (w w' : World)
    (h : Settled w) (heffect : Effect p e ok w w') : Settled w' := by
  have hdatagram : w'.session.datagram = true := by
    rw [effects_datagram (Relation.ReflTransGen.single heffect), h.datagram]
  rcases effect_window heffect h.datagram with
    ⟨evs, hinseqno, hlate, htrace, hother⟩ | ⟨type, hgiven, hinseqno, hlate, htrace⟩ |
    ⟨seqno, late, hpass, hgiven, hsession, htrace⟩ | ⟨seqno, hcheck, _, hsession, htrace⟩
  · refine ⟨hdatagram, htrace ▸ h.covered.same hinseqno hlate evs, ?_⟩
    rw [htrace]
    refine droppedWhenSeen_other h.dropped ?_
    rintro ev hev seqno expected rfl
    have hwindow := hother _ hev
    cases hwindow
  · obtain ⟨hsmall, htype⟩ := hok _ _ _ hgiven
    obtain rfl := htype rfl type rfl
    have hnext : w'.session.inseqno.toNat = w.session.inseqno.toNat + 1 := by
      rw [hinseqno, toNat_succ (by omega)]
    refine ⟨hdatagram, htrace ▸ h.covered.next hsmall hnext hlate, ?_⟩
    rw [htrace]
    exact droppedWhenSeen_other h.dropped (by simp)
  · refine ⟨hdatagram, ?_, ?_⟩
    · rw [htrace, hsession]
      exact h.covered.advance hpass (hok _ _ _ hgiven).1
    · rw [htrace]
      exact droppedWhenSeen_other h.dropped (by simp)
  · refine ⟨hdatagram, ?_, ?_⟩
    · rw [htrace]
      exact h.covered.same (congrArg Session.inseqno hsession) (congrArg Session.late hsession) _
    rcases replayCheck_cases w.session seqno with ⟨_, hsome, -⟩ | ⟨-, hlt, hnear, hreason⟩
    · cases hcheck.symm.trans hsome
    have hbound := h.covered.bound
    rw [htrace, always_append]
    refine ⟨h.dropped, ?_⟩
    intro before ev after hsplit q expected hev hwindow
    obtain ⟨rfl, rfl⟩ : before = [] ∧ ev = .failed (.replayed seqno w.session.inseqno) := by
      cases before with
      | nil => exact ⟨rfl, (List.cons.inj hsplit).1.symm⟩
      | cons head tail => simp at hsplit
    obtain ⟨rfl, rfl⟩ : seqno = q ∧ w.session.inseqno = expected := by simpa using hev
    rw [List.append_nil]
    rcases hreason with hbehind | hclear
    · omega
    · exact h.covered.seen (by omega) seqno hlt hwindow hclear

theorem blank_settled (args : Args) (hdatagram : args.datagram = true) : Settled (blank args) := by
  refine ⟨hdatagram, ⟨Nat.zero_le _, ?_⟩, Always.nil _⟩
  intro _ q hq
  exact absurd hq (Nat.not_lt_zero _)

/-- A packet at most 256 below the next expected number is dropped as a replay
only if its number was accepted before or consumed by the plaintext handshake. -/
theorem replay_check_drops_only_seen (p : Primitives) (e : Env) (args : Args)
    (inputs : List Input) (hdatagram : args.datagram = true)
    (hgenuine : Along p e Genuine (start p e args) inputs) :
    Always DroppedWhenSeen (run p e (start p e args) inputs).trace := by
  have hstart : Settled (start p e args) :=
    start_invariant args (Settled.step fun _ _ _ hfalse => hfalse.elim)
      (blank_settled args hdatagram)
  refine (run_invariant ?_ (start p e args) inputs hgenuine hstart).dropped
  intro w input w₁ w₂ hinput h₁ heffect
  refine Settled.step ?_ w₁ w₂ h₁ heffect
  rintro s seqno type ⟨data, rfl, hinseqno, rfl, htype⟩
  refine ⟨hinput.1, ?_⟩
  intro hnext t ht
  obtain ⟨hin, rfl⟩ := htype t ht
  exact hinput.2 hin (hnext.trans hinseqno)

theorem replay_check_drops_only_seen_reordered :
    Always DroppedWhenSeen (run toyPrimitives (quietEnv 1)
      (start toyPrimitives (quietEnv 1) (sampleArgs true true))
      (sampleHandshake true ++ [samplePacket 300, samplePacket 299, samplePacket 299])).trace := by
  refine replay_check_drops_only_seen toyPrimitives (quietEnv 1) (sampleArgs true true) _ rfl ?_
  decide +kernel

end Lateness

end Meshlink.ReplayWindow
