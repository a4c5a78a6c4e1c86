import Meshlink.Histories
import Meshlink.SptpsEffects

/-!
Authentication of the key exchange. Any number of sessions run next to each
other and whatever they receive is chosen by an attacker. A session signs its
own KEX message before the one it received, after a flag that tells the two
ends of a session apart, and verifies the mirror image of that string.
-/
namespace Meshlink.KeyAgreement

open List hiding Vector
open Sptps SptpsEffects Histories

section Layout

variable (p : Primitives)

theorem kexMessage_length (nonce : Vector UInt8 32) (secret : Bytes) :
    (kexMessage p nonce secret).length = kexSize := by
  simp [kexMessage, p.ecdhPublic_length, kexSize]

theorem kexMessage_nonce {p : Primitives} {nonce nonce' : Vector UInt8 32} {secret secret' : Bytes}
    (h : kexMessage p nonce secret = kexMessage p nonce' secret') : nonce = nonce' := by
  have htail := (List.cons.inj h).2
  have hnonce := (append_inj htail (by simp)).1
  exact Vector.toList_inj.mp hnonce

/-- The signed string determines the flag, both KEX messages and the label. -/
theorem sigMessage_injective {initiator initiator' : Bool}
    {kex kex' other other' label label' : Bytes} (hkex : kex.length = kex'.length)
    (hother : other.length = other'.length)
    (h : sigMessage initiator kex other label = sigMessage initiator' kex' other' label') :
    initiator = initiator' ∧ kex = kex' ∧ other = other' ∧ label = label' := by
  obtain ⟨hflag, htail⟩ := List.cons.inj h
  obtain ⟨hboth, hlabel⟩ := append_inj htail (by simp [hkex, hother])
  obtain ⟨hfirst, hsecond⟩ := append_inj hboth hkex
  refine ⟨?_, hfirst, hsecond, hlabel⟩
  cases initiator <;> cases initiator' <;> first | rfl | exact absurd hflag (by decide)

end Layout

/-- The KEX messages of the key exchange that has been authenticated but is not
yet complete, if there is one. -/
def agreedOn (trace : List Event) : Option (Bytes × Bytes) :=
  trace.foldl (fun agreed ev =>
    match ev with
    | .keyed mykex hiskex => some (mykex, hiskex)
    | .record type _ => if type = handshake then none else agreed
    | _ => agreed) none

/-- The events that end or start an exchange. -/
def isExchangeEvent : Event → Bool
  | .keyed _ _ => true
  | .record type _ => type = handshake
  | _ => false

theorem agreedOn_append_other (trace evs : List Event)
    (h : ∀ ev ∈ evs, isExchangeEvent ev = false) : agreedOn (trace ++ evs) = agreedOn trace := by
  induction evs using List.reverseRecOn with
  | nil => rw [append_nil]
  | append_singleton evs ev ih =>
    have hev := h ev (by simp)
    have hevs := ih fun ev' hmem => h ev' (mem_append_left _ hmem)
    rw [← append_assoc, ← hevs]
    unfold agreedOn
    rw [foldl_append, foldl_cons, foldl_nil]
    cases ev <;> simp_all [isExchangeEvent]

theorem agreedOn_keyed (trace : List Event) (mykex hiskex : Bytes) :
    agreedOn (trace ++ [.keyed mykex hiskex]) = some (mykex, hiskex) := by
  simp [agreedOn]

section Session

variable (p : Primitives) (e : Env)

/-- One of the first `made` KEX messages that the session itself made. -/
def OwnKex (made : ℕ) (kex : Bytes) : Prop :=
  ∃ n < made, kex = kexMessage p (e.nonce n) (e.secret n)

theorem OwnKex.mono {p : Primitives} {e : Env} {made made' : ℕ} {kex : Bytes}
    (h : OwnKex p e made kex) (hle : made ≤ made') : OwnKex p e made' kex := by
  obtain ⟨n, hn, heq⟩ := h
  exact ⟨n, lt_of_lt_of_le hn hle, heq⟩

/-- The session has checked a signature over the mirror image of its own view. -/
structure Authenticated (args : Args) (made : ℕ) (trace : List Event) (mykex hiskex : Bytes) :
    Prop where
  own : OwnKex p e made mykex
  length : hiskex.length = kexSize
  verified : ∃ sig,
    .verified (sigMessage (!args.initiator) hiskex mykex args.label) sig ∈ trace

theorem Authenticated.append {p : Primitives} {e : Env} {args : Args} {made made' : ℕ}
    {trace : List Event} {mykex hiskex : Bytes}
    (h : Authenticated p e args made trace mykex hiskex) (hle : made ≤ made')
    (evs : List Event) : Authenticated p e args made' (trace ++ evs) mykex hiskex := by
  obtain ⟨sig, hsig⟩ := h.verified
  exact ⟨h.own.mono hle, h.length, sig, mem_append_left evs hsig⟩

/-- The end of an exchange comes after the authentication of its KEX messages. -/
def CompletedWhenAgreed (args : Args) (made : ℕ) (before : List Event) (ev : Event) : Prop :=
  ev = .record handshake [] → ∃ mykex hiskex,
    agreedOn before = some (mykex, hiskex) ∧ Authenticated p e args made before mykex hiskex

theorem completedWhenAgreed_mono {p : Primitives} {e : Env} {args : Args} {made made' : ℕ}
    {trace : List Event} (h : Always (CompletedWhenAgreed p e args made) trace)
    (hle : made ≤ made') : Always (CompletedWhenAgreed p e args made') trace := by
  refine h.mono ?_
  intro before ev hcompleted hev
  obtain ⟨mykex, hiskex, hagreed, hauth⟩ := hcompleted hev
  have hauth' := hauth.append hle []
  rw [append_nil] at hauth'
  exact ⟨mykex, hiskex, hagreed, hauth'⟩

structure Exchanging (args : Args) (w : World) : Prop where
  args_eq : argsOf w.session = args
  mykex : ∀ kex, w.session.mykex = some kex → OwnKex p e w.kexes kex
  hiskex : ∀ kex, w.session.hiskex = some kex → kex.length = kexSize
  signed : ∀ msg, .signed msg ∈ w.trace → ∃ kex other, OwnKex p e w.kexes kex ∧
    other.length = kexSize ∧ msg = sigMessage args.initiator kex other args.label
  agreed : ∀ mykex hiskex, agreedOn w.trace = some (mykex, hiskex) →
    Authenticated p e args w.kexes w.trace mykex hiskex
  pending : w.session.key.isSome = true → (agreedOn w.trace).isSome = true
  completed : Always (CompletedWhenAgreed p e args w.kexes) w.trace

variable {p e} {args : Args} {ok : Session → UInt32 → Option UInt8 → Prop}

/-- An effect that neither starts nor ends an exchange. -/
theorem Exchanging.other {w w' : World} (h : Exchanging p e args w) (evs : List Event)
    (hargs : argsOf w'.session = argsOf w.session)
    (hkexes : w.kexes ≤ w'.kexes)
    (hmykex : ∀ kex, w'.session.mykex = some kex → OwnKex p e w'.kexes kex)
    (hhiskex : ∀ kex, w'.session.hiskex = some kex → kex.length = kexSize)
    (hkey : w'.session.key.isSome = true → w.session.key.isSome = true)
    (htrace : w'.trace = w.trace ++ evs)
    (hevs : ∀ ev ∈ evs, isExchangeEvent ev = false)
    (hsigned : ∀ msg, .signed msg ∈ evs → ∃ kex other, OwnKex p e w'.kexes kex ∧
      other.length = kexSize ∧ msg = sigMessage args.initiator kex other args.label) :
    Exchanging p e args w' := by
  have hagreed : agreedOn w'.trace = agreedOn w.trace := by
    rw [htrace, agreedOn_append_other _ _ hevs]
  refine ⟨hargs.trans h.args_eq, hmykex, hhiskex, ?_, ?_, ?_, ?_⟩
  · intro msg hmsg
    rw [htrace] at hmsg
    rcases mem_append.mp hmsg with hold | hnew
    · obtain ⟨kex, other, hown, hother, rfl⟩ := h.signed msg hold
      exact ⟨kex, other, hown.mono hkexes, hother, rfl⟩
    · exact hsigned msg hnew
  · intro mykex hiskex hsome
    rw [hagreed] at hsome
    rw [htrace]
    exact (h.agreed mykex hiskex hsome).append hkexes evs
  · intro hsome
    rw [hagreed]
    exact h.pending (hkey hsome)
  · rw [htrace, always_append]
    refine ⟨completedWhenAgreed_mono h.completed hkexes, Always.of_mem ?_⟩
    rintro before ev _ hev rfl
    have hother := hevs _ hev
    simp [isExchangeEvent] at hother

theorem Exchanging.agree {w w' : World} (h : Exchanging p e args w) (mykex hiskex : Bytes)
    (hargs : argsOf w'.session = argsOf w.session) (hkexes : w'.kexes = w.kexes)
    (hmykex : w'.session.mykex = none) (hhiskex : w'.session.hiskex = none)
    (htrace : w'.trace = w.trace ++ [.keyed mykex hiskex])
    (hauth : Authenticated p e args w.kexes w.trace mykex hiskex) : Exchanging p e args w' := by
  have hagreed : agreedOn w'.trace = some (mykex, hiskex) := by
    rw [htrace, agreedOn_keyed]
  refine ⟨hargs.trans h.args_eq, ?_, ?_, ?_, ?_, ?_, ?_⟩
  · intro kex hkex
    rw [hmykex] at hkex
    cases hkex
  · intro kex hkex
    rw [hhiskex] at hkex
    cases hkex
  · intro msg hmsg
    rw [htrace] at hmsg
    rw [hkexes]
    exact h.signed msg (by simpa using hmsg)
  · intro mykex' hiskex' hsome
    rw [hagreed] at hsome
    obtain ⟨rfl, rfl⟩ := Prod.mk.inj (Option.some.inj hsome)
    rw [htrace, hkexes]
    exact hauth.append le_rfl _
  · intro _
    rw [hagreed]
    rfl
  · rw [htrace, hkexes, always_append, always_singleton]
    refine ⟨h.completed, ?_⟩
    intro hev
    cases hev

theorem Exchanging.complete {w w' : World} (h : Exchanging p e args w)
    (hkey : w.session.key.isSome = true) (hargs : argsOf w'.session = argsOf w.session)
    (hkexes : w'.kexes = w.kexes)
    (hmykex : w'.session.mykex = w.session.mykex) (hhiskex : w'.session.hiskex = w.session.hiskex)
    (hnone : w'.session.key = none) (htrace : w'.trace = w.trace ++ [.record handshake []]) :
    Exchanging p e args w' := by
  have hagreed : agreedOn w'.trace = none := by
    rw [htrace]
    simp [agreedOn]
  obtain ⟨⟨mykex, hiskex⟩, hsome⟩ := Option.isSome_iff_exists.mp (h.pending hkey)
  refine ⟨hargs.trans h.args_eq, ?_, hhiskex ▸ h.hiskex, ?_, ?_, ?_, ?_⟩
  · rw [hmykex, hkexes]
    exact h.mykex
  · intro msg hmsg
    rw [htrace] at hmsg
    rw [hkexes]
    exact h.signed msg (by simpa using hmsg)
  · intro mykex' hiskex' hsome'
    rw [hagreed] at hsome'
    cases hsome'
  · intro hsome'
    rw [hnone] at hsome'
    cases hsome'
  · rw [htrace, hkexes, always_append, always_singleton]
    refine ⟨h.completed, ?_⟩
    intro _
    rw [append_nil]
    exact ⟨mykex, hiskex, hsome, h.agreed mykex hiskex hsome⟩

theorem note_not_exchange {ev : Event} (h : isNote ev = true) : isExchangeEvent ev = false := by
  cases ev with
  | record type data =>
    have hlt : type < handshake := by simpa [isNote] using h
    simp only [isExchangeEvent, decide_eq_false_iff_not]
    rintro rfl
    exact absurd hlt (by decide)
  | _ => first | rfl | cases h

theorem Exchanging.step (w w' : World) (h : Exchanging p e args w) (heffect : Effect p e ok w w') :
    Exchanging p e args w' := by
  have hinitiator : w.session.initiator = args.initiator := congrArg Args.initiator h.args_eq
  have hlabel : w.session.label = args.label := congrArg Args.label h.args_eq
  cases heffect with
  | note ev hnote =>
    refine h.other [ev] rfl le_rfl h.mykex h.hiskex id rfl
      (by simpa using note_not_exchange hnote) ?_
    intro msg hmsg
    obtain rfl := mem_singleton.mp hmsg
    cases hnote
  | sendPlain type data _ =>
    exact h.other [_] rfl le_rfl h.mykex h.hiskex id rfl (by simp [isExchangeEvent]) (by simp)
  | sendSealed type data key _ _ =>
    exact h.other [_, _] rfl le_rfl h.mykex h.hiskex id rfl (by simp [isExchangeEvent]) (by simp)
  | kex _ =>
    refine h.other [] rfl (Nat.le_succ _) ?_ h.hiskex id (append_nil _).symm (by simp) (by simp)
    intro kex hkex
    exact ⟨w.kexes, Nat.lt_succ_self _, (Option.some.inj hkex).symm⟩
  | hear data hlen _ =>
    refine h.other [] rfl le_rfl h.mykex ?_ id (append_nil _).symm (by simp) (by simp)
    intro kex hkex
    rw [← Option.some.inj hkex, hlen]
  | sign mykex hiskex hmy hhis =>
    refine h.other [_] rfl le_rfl h.mykex h.hiskex id rfl (by simp [isExchangeEvent]) ?_
    intro msg hmsg
    obtain rfl := Event.signed.inj (mem_singleton.mp hmsg)
    exact ⟨mykex, hiskex, h.mykex _ hmy, h.hiskex _ hhis, by rw [hinitiator, hlabel]⟩
  | verify _ _ _ _ _ _ =>
    exact h.other [_] rfl le_rfl h.mykex h.hiskex id rfl (by simp [isExchangeEvent]) (by simp)
  | prepare incipher outcipher key _ hkey =>
    refine h.other [] rfl le_rfl h.mykex h.hiskex ?_ (append_nil _).symm (by simp) (by simp)
    intro hsome
    rcases hkey with rfl | rfl
    · exact hsome
    · cases hsome
  | agree mykex hiskex key sig hmy hhis hsig =>
    rw [hinitiator, hlabel] at hsig
    exact h.agree mykex hiskex rfl rfl rfl rfl rfl
      ⟨h.mykex _ hmy, h.hiskex _ hhis, sig, hsig⟩
  | complete key hkey => exact h.complete (by rw [hkey]; rfl) rfl rfl rfl rfl rfl rfl
  | plaintext | accept | reject =>
    exact h.other [_] rfl le_rfl h.mykex h.hiskex id rfl (by simp [isExchangeEvent]) (by simp)
  | _ => exact h.other [] rfl le_rfl h.mykex h.hiskex id (append_nil _).symm (by simp) (by simp)

theorem blank_exchanging (args : Args) : Exchanging p e args (blank args) := by
  refine ⟨rfl, ?_, ?_, ?_, ?_, ?_, Always.nil _⟩
  · intro kex hkex
    cases hkex
  · intro kex hkex
    cases hkex
  · intro msg hmsg
    cases hmsg
  · intro mykex hiskex hsome
    cases hsome
  · intro hsome
    cases hsome

end Session

section Network

/-- Sessions by number, and everything that was observed of them in order. -/
structure Net where
  worlds : ℕ → Option World
  log : List (ℕ × Event)

/-- The attacker starts sessions of honest parties, makes their applications
call, and delivers any bytes to them. -/
inductive Act
  | start (i : ℕ)
  | input (i : ℕ) (input : Input)

def Net.empty : Net := ⟨fun _ => none, []⟩

/-- Replace the world of session `i`, whose trace was `before`. -/
def Net.put (net : Net) (i : ℕ) (w : World) (before : List Event) : Net where
  worlds := Function.update net.worlds i (some w)
  log := net.log ++ (w.trace.drop before.length).map fun ev => (i, ev)

variable (p : Primitives) (args : ℕ → Args) (env : ℕ → Env)

def act (net : Net) : Act → Net
  | .start i =>
    match net.worlds i with
    | none => net.put i (start p (env i) (args i)) []
    | some _ => net
  | .input i input =>
    match net.worlds i with
    | none => net
    | some w => net.put i (step p (env i) w input) w.trace

def play (acts : List Act) : Net := acts.foldl (act p args env) Net.empty

/-- What was observed of one session. -/
def ofSession (i : ℕ) (log : List (ℕ × Event)) : List Event :=
  log.filterMap fun entry => if entry.1 = i then some entry.2 else none

theorem mem_ofSession {i : ℕ} {ev : Event} {log : List (ℕ × Event)} :
    ev ∈ ofSession i log ↔ (i, ev) ∈ log := by
  unfold ofSession
  rw [mem_filterMap]
  constructor
  · rintro ⟨⟨j, ev'⟩, hmem, hsome⟩
    split at hsome
    · rename_i heq
      obtain rfl : j = i := heq
      obtain rfl := Option.some.inj hsome
      exact hmem
    · cases hsome
  · intro hmem
    exact ⟨(i, ev), hmem, if_pos rfl⟩

theorem ofSession_append (i : ℕ) (log log' : List (ℕ × Event)) :
    ofSession i (log ++ log') = ofSession i log ++ ofSession i log' :=
  filterMap_append

theorem ofSession_own (i : ℕ) (evs : List Event) :
    ofSession i (evs.map fun ev => (i, ev)) = evs := by
  simp [ofSession]

theorem ofSession_other {i j : ℕ} (hne : i ≠ j) (evs : List Event) :
    ofSession j (evs.map fun ev => (i, ev)) = [] := by
  rw [ofSession, filterMap_eq_nil_iff]
  intro entry hentry
  obtain ⟨ev, -, rfl⟩ := mem_map.mp hentry
  exact if_neg hne

/-- Every session satisfies its invariant, and the log holds its trace. -/
def Consistent (net : Net) : Prop :=
  ∀ i, match net.worlds i with
    | none => ofSession i net.log = []
    | some w => ofSession i net.log = w.trace ∧ Exchanging p (env i) (args i) w

variable {p args env}

/-- A session that was observed has a world, and its trace is in the log. -/
theorem Consistent.session {net : Net} (h : Consistent p args env net) {i : ℕ} {ev : Event}
    (hmem : (i, ev) ∈ net.log) : ∃ w, net.worlds i = some w ∧
      ofSession i net.log = w.trace ∧ Exchanging p (env i) (args i) w := by
  have hi := h i
  cases hworld : net.worlds i with
  | none =>
    rw [hworld] at hi
    have hnone := mem_ofSession.mpr hmem
    rw [hi] at hnone
    cases hnone
  | some w =>
    rw [hworld] at hi
    exact ⟨w, rfl, hi⟩

theorem Consistent.put {net : Net} (h : Consistent p args env net) (i : ℕ) (w : World)
    (before : List Event) (hbefore : ofSession i net.log = before) (hgrows : before <+: w.trace)
    (hw : Exchanging p (env i) (args i) w) : Consistent p args env (net.put i w before) := by
  intro j
  by_cases hij : j = i
  · subst hij
    have hworld : (net.put j w before).worlds j = some w := Function.update_self ..
    rw [hworld]
    refine ⟨?_, hw⟩
    obtain ⟨evs, hevs⟩ := hgrows
    rw [Net.put, ofSession_append, ofSession_own, hbefore, ← hevs, drop_left]
  · have hworld : (net.put i w before).worlds j = net.worlds j := Function.update_of_ne hij ..
    have hlog : ofSession j (net.put i w before).log = ofSession j net.log := by
      rw [Net.put, ofSession_append, ofSession_other (Ne.symm hij), append_nil]
    rw [hworld, hlog]
    exact h j

theorem Consistent.act {net : Net} (h : Consistent p args env net) (a : Act) :
    Consistent p args env (act p args env net a) := by
  cases a with
  | start i =>
    unfold KeyAgreement.act
    have hi := h i
    dsimp only
    split
    · rename_i hnone
      rw [hnone] at hi
      refine h.put i _ [] hi nil_prefix ?_
      exact start_invariant (args i) Exchanging.step (blank_exchanging (args i))
    · exact h
  | input i input =>
    unfold KeyAgreement.act
    have hi := h i
    dsimp only
    split
    · exact h
    rename_i w hsome
    rw [hsome] at hi
    have heffects := step_effects (p := p) (e := env i) w input
    exact h.put i _ w.trace hi.1 (effects_trace heffects)
      (Commands.kept_by_steps Exchanging.step heffects hi.2)

theorem play_consistent (acts : List Act) : Consistent p args env (play p args env acts) := by
  unfold play
  induction acts using List.reverseRecOn with
  | nil =>
    intro i
    rfl
  | append_singleton acts a ih =>
    rw [foldl_append]
    exact ih.act a

variable (p args env)

/-- A signature that verifies was made before, by a session of the key's owner. -/
def SignedBefore (before : List (ℕ × Event)) : ℕ × Event → Prop
  | (i, .verified msg _) => ∃ entry ∈ before,
      entry.2 = .signed msg ∧ p.publicKey (args entry.1).mykey = (args i).hiskey
  | _ => True

instance (before : List (ℕ × Event)) (entry : ℕ × Event) :
    Decidable (SignedBefore p args before entry) := by
  obtain ⟨i, ev⟩ := entry
  cases ev <;> (unfold SignedBefore; infer_instance)

/-- The nonces that the sessions have drawn are pairwise different. -/
def NoncesFresh (net : Net) : Prop :=
  ∀ i j wi wj, net.worlds i = some wi → net.worlds j = some wj → ∀ n < wi.kexes, ∀ m < wj.kexes,
    (env i).nonce n = (env j).nonce m → i = j ∧ n = m

/-- Session `i` completes an exchange of two different KEX messages, and another
session of the peer's owner, with the opposite flag and the same label, has made
the second one itself and signed the two. -/
def PeerSigned (before : List (ℕ × Event)) (i : ℕ) : Prop :=
  ∃ mykex hiskex j, agreedOn (ofSession i before) = some (mykex, hiskex) ∧ mykex ≠ hiskex ∧
    j ≠ i ∧ p.publicKey (args j).mykey = (args i).hiskey ∧
    (args j).initiator = !(args i).initiator ∧ (args j).label = (args i).label ∧
    (∃ n, hiskex = kexMessage p ((env j).nonce n) ((env j).secret n)) ∧
    (j, .signed (sigMessage (args j).initiator hiskex mykex (args j).label)) ∈ before

/-- In every run in which no signature is forged and no nonce repeats, whoever
completes a key exchange has a partner that signed the same KEX messages. -/
theorem completed_exchange_has_partner (acts : List Act)
    (hsigned : Always (SignedBefore p args) (play p args env acts).log)
    (hfresh : NoncesFresh env (play p args env acts)) :
    Always (fun before entry => entry.2 = .record handshake [] →
      PeerSigned p args env before entry.1) (play p args env acts).log := by
  have hplay : Consistent p args env (play p args env acts) := play_consistent acts
  generalize play p args env acts = net at hsigned hfresh hplay
  rintro before ⟨i, ev⟩ after hlog rfl
  -- What session `i` has authenticated, from its own history.
  have hend : (i, .record handshake []) ∈ net.log := by
    simp [hlog]
  obtain ⟨wi, hwi, htrace, hi⟩ := hplay.session hend
  have hsplit : wi.trace = ofSession i before ++ .record handshake [] :: ofSession i after := by
    rw [← htrace, hlog, ofSession_append]
    simp [ofSession]
  obtain ⟨mykex, hiskex, hagreed, ⟨n, hn, hmykex⟩, hlength, sig, hverified⟩ :=
    hi.completed _ _ _ hsplit rfl
  -- The signature was made by a session of the key's owner.
  obtain ⟨before₁, after₁, hbefore⟩ := append_of_mem (mem_ofSession.mp hverified)
  have hmade := hsigned before₁ _ (after₁ ++ (i, .record handshake []) :: after)
    (by rw [hlog, hbefore, append_assoc, cons_append])
  obtain ⟨⟨j, ev'⟩, hmem, rfl, howner⟩ := hmade
  have hmem' : (j, .signed (sigMessage (!(args i).initiator) hiskex mykex (args i).label)) ∈
      before := by
    rw [hbefore]
    exact mem_append_left _ hmem
  have hmemlog : (j, .signed (sigMessage (!(args i).initiator) hiskex mykex (args i).label)) ∈
      net.log := by
    rw [hlog]
    exact mem_append_left _ hmem'
  obtain ⟨wj, hwj, htracej, hj⟩ := hplay.session hmemlog
  obtain ⟨kex, other, ⟨m, hm, hkex⟩, hother, hmsg⟩ :=
    hj.signed _ (htracej ▸ mem_ofSession.mpr hmemlog)
  have hmykexlen : mykex.length = kexSize := by
    rw [hmykex, kexMessage_length]
  have hkexlen : kex.length = kexSize := by
    rw [hkex, kexMessage_length]
  obtain ⟨hflag, rfl, rfl, hlabel⟩ := sigMessage_injective (hlength.trans hkexlen.symm)
    (hmykexlen.trans hother.symm) hmsg
  have hne : j ≠ i := by
    rintro rfl
    exact Bool.not_ne_self _ hflag
  refine ⟨mykex, hiskex, j, hagreed, ?_, hne, howner, hflag.symm, hlabel.symm, ⟨m, hkex⟩, ?_⟩
  · intro heq
    rw [hmykex, hkex] at heq
    exact hne (hfresh i j wi wj hwi hwj n hn m hm (kexMessage_nonce heq)).1.symm
  · rw [← hflag, ← hlabel]
    exact hmem'

variable {p args env}

theorem put_worlds {net : Net} {i j : ℕ} {w w' : World} {before : List Event}
    (h : (net.put i w before).worlds j = some w') : j = i ∨ net.worlds j = some w' := by
  by_cases hij : j = i
  · exact Or.inl hij
  · have hother : (net.put i w before).worlds j = net.worlds j := Function.update_of_ne hij ..
    exact Or.inr (hother ▸ h)

/-- Only sessions that were started have a world. -/
theorem started_of_world (acts : List Act) {i : ℕ} {w : World}
    (h : (play p args env acts).worlds i = some w) : .start i ∈ acts := by
  induction acts using List.reverseRecOn generalizing w with
  | nil => cases h
  | append_singleton acts a ih =>
    rw [mem_append]
    have hplay : play p args env (acts ++ [a]) = act p args env (play p args env acts) a :=
      foldl_append
    rw [hplay] at h
    cases a with
    | start j =>
      unfold act at h
      dsimp only at h
      split at h
      · rcases put_worlds h with rfl | hold
        · exact Or.inr (mem_singleton.mpr rfl)
        · exact Or.inl (ih hold)
      · exact Or.inl (ih h)
    | input j input =>
      unfold act at h
      dsimp only at h
      split at h
      · exact Or.inl (ih h)
      rename_i w' hw'
      rcases put_worlds h with rfl | hold
      · exact Or.inl (ih hw')
      · exact Or.inl (ih hold)

def samplePartyArgs (i : ℕ) : Args := sampleArgs false (i == 0)

def samplePartyEnv (i : ℕ) : Env := quietEnv (UInt8.ofNat (i + 1))

/-- Two sessions, the KEX of the first for the second and all answers back. -/
def sampleActs : List Act :=
  [.start 0, .start 1] ++
    (sentData (sampleStart false).trace).map (fun data => .input 1 (.receive data)) ++
    (sampleHandshake false).map (.input 0)

theorem sampleActs_nonces :
    NoncesFresh samplePartyEnv (play toyPrimitives samplePartyArgs samplePartyEnv sampleActs) := by
  intro i j wi wj hi hj n hn m hm heq
  have hstarted : ∀ k w, (play toyPrimitives samplePartyArgs samplePartyEnv sampleActs).worlds k =
      some w → k = 0 ∨ k = 1 := by
    intro k w hk
    have hmem := started_of_world sampleActs hk
    simpa [sampleActs] using hmem
  have hkexes : ∀ k w, (play toyPrimitives samplePartyArgs samplePartyEnv sampleActs).worlds k =
      some w → w.kexes = 1 := by
    intro k w hk
    have hone : ∀ k < 2, ((play toyPrimitives samplePartyArgs samplePartyEnv sampleActs).worlds
        k).map World.kexes = some 1 := by
      decide +kernel
    have hkone := hone k (by rcases hstarted k w hk with rfl | rfl <;> decide)
    rw [hk] at hkone
    exact Option.some.inj hkone
  have hn0 : n = 0 := by have := hkexes i wi hi; omega
  have hm0 : m = 0 := by have := hkexes j wj hj; omega
  subst hn0 hm0
  refine ⟨?_, rfl⟩
  rcases hstarted i wi hi with rfl | rfl <;> rcases hstarted j wj hj with rfl | rfl <;>
    first | rfl | exact absurd heq (by decide)

theorem completed_exchange_has_partner_sample :
    (0, .record handshake []) ∈
        (play toyPrimitives samplePartyArgs samplePartyEnv sampleActs).log ∧
      Always (fun before entry => entry.2 = .record handshake [] →
        PeerSigned toyPrimitives samplePartyArgs samplePartyEnv before entry.1)
        (play toyPrimitives samplePartyArgs samplePartyEnv sampleActs).log :=
  ⟨by decide +kernel, completed_exchange_has_partner toyPrimitives samplePartyArgs samplePartyEnv
    sampleActs (by decide +kernel) sampleActs_nonces⟩

end Network

end Meshlink.KeyAgreement
