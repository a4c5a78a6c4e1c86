import Meshlink.KeyAgreement

/-!
The keys of a session over its whole life: once a record was encrypted no
record leaves in the clear any more, and keys are never agreed on again with a
KEX message that was used before.
-/
namespace Meshlink.SessionKeys

open Sptps SptpsEffects Histories KeyAgreement

variable (p : Primitives) (e : Env)

/-- A record that is sent after an encryption was encrypted right before. -/
def SealedAfter (before : List Event) (ev : Event) : Prop :=
  ∀ type data, ev = .sent type data → (∃ key seqno plain, .encrypted key seqno plain ∈ before) →
    ∃ key seqno payload header,
      before.getLast? = some (.encrypted key seqno (type :: payload)) ∧
      data = header ++ p.encrypt key seqno (type :: payload)

/-- The KEX message with number `n` is younger than all that keys were agreed on with. -/
def Newest (trace : List Event) (n : ℕ) (kex : Bytes) : Prop :=
  kex = kexMessage p (e.nonce n) (e.secret n) ∧
    ∀ mykex hiskex, .keyed mykex hiskex ∈ trace → OwnKex p e n mykex

def Renewed (before : List Event) (ev : Event) : Prop :=
  ∀ mykex hiskex, ev = .keyed mykex hiskex → ∃ n, Newest p e before n mykex

structure Guarded (w : World) : Prop where
  enabled : ∀ key seqno plain, .encrypted key seqno plain ∈ w.trace → w.session.outstate = true
  records : Always (SealedAfter p) w.trace
  used : ∀ mykex hiskex, .keyed mykex hiskex ∈ w.trace → OwnKex p e w.kexes mykex
  pending : ∀ kex, w.session.mykex = some kex → ∃ n < w.kexes, Newest p e w.trace n kex
  renewed : Always (Renewed p e) w.trace

/-- The events that tell of neither records nor keys. -/
def isQuiet : Event → Bool
  | .encrypted _ _ _ | .sent _ _ | .keyed _ _ => false
  | _ => true

variable {p e} {ok : Session → UInt32 → Option UInt8 → Prop} {w w' : World}

theorem note_quiet {ev : Event} (h : isNote ev = true) : isQuiet ev = true := by
  cases ev <;> first | rfl | cases h

theorem Guarded.quiet {ev : Event} (h : Guarded p e w) (hev : isQuiet ev = true)
    (htrace : w'.trace = w.trace ++ [ev]) (hout : w'.session.outstate = w.session.outstate)
    (hkexes : w'.kexes = w.kexes) (hmykex : w'.session.mykex = w.session.mykex) :
    Guarded p e w' := by
  cases ev with
  | encrypted | sent | keyed => cases hev
  | _ =>
    refine ⟨?_, ?_, ?_, ?_, ?_⟩
    · simpa [htrace, hout] using h.enabled
    · rw [htrace, always_concat]
      exact ⟨h.records, nofun⟩
    · simpa [htrace, hkexes] using h.used
    · simpa [Newest, htrace, hkexes, hmykex] using h.pending
    · rw [htrace, always_concat]
      exact ⟨h.renewed, nofun⟩

theorem Guarded.step (w w' : World) (h : Guarded p e w) (heffect : Effect p e ok w w') :
    Guarded p e w' := by
  cases heffect with
  | note ev hnote => exact h.quiet (note_quiet hnote) rfl rfl rfl rfl
  | enable => exact ⟨fun _ _ _ _ => rfl, h.records, h.used, h.pending, h.renewed⟩
  | sendPlain type data hout =>
    -- In the clear, so nothing was encrypted before.
    have hnone : ∀ key seqno plain, .encrypted key seqno plain ∉ w.trace := by
      intro key seqno plain hmem
      rw [h.enabled key seqno plain hmem] at hout
      cases hout
    refine ⟨by simp [hnone], (always_concat _ _ _).mpr ⟨h.records, ?_⟩, by simpa using h.used,
      by simpa [Newest] using h.pending, (always_concat _ _ _).mpr ⟨h.renewed, nofun⟩⟩
    rintro type' data' - ⟨key, seqno, plain, hmem⟩
    exact absurd hmem (hnone key seqno plain)
  | sendSealed type data key hout hkey =>
    refine ⟨fun _ _ _ _ => hout, ?_, by simpa using h.used, by simpa [Newest] using h.pending,
      (always_append _ _ [_, _]).mpr ⟨h.renewed, (always_concat _ [_] _).mpr
        ⟨(always_singleton _ _).mpr nofun, nofun⟩⟩⟩
    refine (always_append _ _ [_, _]).mpr ⟨h.records, (always_concat _ [_] _).mpr
      ⟨(always_singleton _ _).mpr nofun, ?_⟩⟩
    rintro type' data' heq -
    obtain ⟨rfl, rfl⟩ := Event.sent.inj heq
    exact ⟨key, _, data, _, by simp, rfl⟩
  | kex hnone =>
    refine ⟨h.enabled, h.records, ?_, ?_, h.renewed⟩
    · exact fun mykex hiskex hmem => (h.used mykex hiskex hmem).mono (Nat.le_succ _)
    · exact fun kex hkex => ⟨_, Nat.lt_succ_self _, (Option.some.inj hkex).symm, h.used⟩
  | agree mykex hiskex key sig hmy hhis hsig =>
    obtain ⟨n, hn, hnewest⟩ := h.pending mykex hmy
    refine ⟨by simpa using h.enabled, (always_concat _ _ _).mpr ⟨h.records, nofun⟩, ?_, nofun,
      (always_concat _ _ _).mpr ⟨h.renewed, ?_⟩⟩
    · intro mykex' hiskex' hmem
      rcases List.mem_append.mp hmem with hmem | hmem
      · exact h.used mykex' hiskex' hmem
      · obtain ⟨rfl, -⟩ := Event.keyed.inj (List.mem_singleton.mp hmem)
        exact ⟨n, hn, hnewest.1⟩
    · intro mykex' hiskex' heq
      obtain ⟨rfl, -⟩ := Event.keyed.inj heq
      exact ⟨n, hnewest⟩
  | sign | verify | complete | plaintext | accept | reject => exact h.quiet rfl rfl rfl rfl rfl
  | _ => exact ⟨h.enabled, h.records, h.used, h.pending, h.renewed⟩

variable (p e) (args : Args) (inputs : List Input)

theorem run_guarded : Guarded p e (run p e (start p e args) inputs) :=
  run_invariant (fun _ _ w₁ w₂ _ => Guarded.step w₁ w₂) _ inputs
    (Systems.along_of_forall fun _ _ => trivial)
    (start_invariant args Guarded.step ⟨nofun, Always.nil _, nofun, nofun, Always.nil _⟩)

/-- Whatever is received and whatever fails, once a session has encrypted a
record each further record, of any type, leaves encrypted. -/
theorem records_stay_sealed : Always (SealedAfter p) (run p e (start p e args) inputs).trace :=
  (run_guarded p e args inputs).records

/-- Keys are only agreed on with a KEX message whose nonce and secret were drawn
after those of all agreements before. -/
theorem exchanges_renewed : Always (Renewed p e) (run p e (start p e args) inputs).trace :=
  (run_guarded p e args inputs).renewed

end Meshlink.SessionKeys
