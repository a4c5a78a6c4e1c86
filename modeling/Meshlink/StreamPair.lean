import Meshlink.StreamReading

/-!
Two stream sessions with each other's keys, joined by two byte channels that
lose nothing. Either end may be called at any time, and any number of the bytes
in flight may be delivered at once. Each end reads the other's flow from where
it has come to, so no delivery fails and what was encrypted is what is decrypted.
-/
namespace Meshlink.StreamPair

open List Function Commands Sptps StreamFlow StreamProgress StreamHandshake StreamReading

variable (p : Primitives) (label : Bytes) (party : Bool → Party)

/-- The two sessions, and how much of the other end's stream each has been given. -/
structure Pair where
  world : Bool → World
  got : Bool → ℕ

def inflight (s : Pair) (side : Bool) : Bytes :=
  (sentBytes (s.world (!side)).trace).drop (s.got side)

inductive Move
  | call (side : Bool) (call : Call)
  | deliver (side : Bool) (n : ℕ)

def act (s : Pair) (side : Bool) (input : Input) (taken : ℕ) : Pair where
  world := Function.update s.world side (step p (party side).env (s.world side) input)
  got := Function.update s.got side (s.got side + taken)

def move (s : Pair) : Move → Pair
  | .call side call => act p party s side (.call call) 0
  | .deliver side n =>
    let data := (inflight s side).take n
    act p party s side (.receive data) data.length

def argsFor (side : Bool) : Args where
  initiator := (party side).initiator
  datagram := false
  mykey := (party side).key
  hiskey := p.publicKey (party (!side)).key
  label := label

def initial : Pair where
  world side := start p (party side).env (argsFor p label party side)
  got _ := 0

def play (moves : List Move) : Pair := moves.foldl (move p party) (initial p label party)

/-- The end `side` has come to a place in the other's flow, whose encryptions are
those it has decrypted and those still to come. -/
structure LinkTo (g : Bool → Progress) (s : Pair) (side : Bool) (pend : List Sealed) : Prop where
  reading : Reading p label (party side) (party (!side)) (g side) (inflight s side) pend
    (sendPos (g (!side))) (s.world (!side)).session.outseqno (s.world side)
  sealed : encrypted (s.world (!side)).trace = decrypted (s.world side).trace ++ pend
  got : s.got side ≤ (sentBytes (s.world (!side)).trace).length

def Linked (s : Pair) : Prop :=
  ∃ g : Bool → Progress, ∀ side, ∃ pend, LinkTo p label party g s side pend

variable {p label party}

theorem start_emits {S R : Party} (he : Healthy S.env) (hlabel : label ≠ []) :
    ∃ w, sptpsStart p S.env ⟨S.initiator, false, S.key, p.publicKey R.key, label⟩
        (blank ⟨S.initiator, false, S.key, p.publicKey R.key, label⟩) = (some (), w) ∧
      core w = shape p label S R (.kex 0) ∧ w.dead = false ∧ w.session.inbuf = some [] ∧
      w.session.inseqno = 0 ∧ decrypted w.trace = [] ∧
      Flow p label S R ⟨0, .kex⟩ 0 (sentBytes w.trace) (encrypted w.trace) ⟨0, .sig⟩
        w.session.outseqno := by
  let args : Args := ⟨S.initiator, false, S.key, p.publicKey R.key, label⟩
  let w₁ : World := {blank args with
    allocs := 4
    session := {newSession args with inbuf := some [], state := .kex}}
  obtain ⟨w, hrun, hcore, hemits⟩ := @sendKex_goes p label S R 0 _ he w₁ rfl rfl rfl
    ⟨rfl, nofun, rfl⟩
  have hinbuf : (do alloc S.env; modify fun s => {s with inbuf := some []})
      {blank args with allocs := 3} = (some (), {blank args with
        allocs := 4, session := {newSession args with inbuf := some []}}) :=
    bind_of_some (alloc_runs he _)
  have hstart : sptpsStart p S.env args (blank args) = sendKex p S.env w₁ := by
    refine (congrFun (if_neg hlabel) _).trans ?_
    refine (bind_of_some (alloc_runs he _)).trans ?_
    refine (bind_of_some (alloc_runs he _)).trans ?_
    refine (bind_of_some (alloc_runs he _)).trans ?_
    exact (congrFun (when_bind_of_true rfl) _).trans (bind_of_some hinbuf)
  obtain ⟨bytes, seals, hbytes, hseals, hflow⟩ := hemits.flow
  refine ⟨w, hstart.trans hrun, hcore, hemits.dead, hemits.inbuf, hemits.inseqno,
    hemits.decrypted, ?_⟩
  rw [hbytes, hseals]
  exact hflow

/-- What the peer writes extends the flow that the session is reading. -/
theorem reading_extend {S R : Party} {g : Progress} {coming bytes : Bytes}
    {pend seals : List Sealed} {pos pos' : Pos} {seqno seqno' : UInt32} {w : World}
    (h : Reading p label S R g coming pend pos seqno w)
    (hflow : Flow p label R S pos seqno bytes seals pos' seqno') :
    Reading p label S R g (coming ++ bytes) (pend ++ seals) pos' seqno' w := by
  obtain ⟨buf, hbuf, hcoming⟩ := h.flow
  refine ⟨h.core, h.alive, buf, hbuf, ?_⟩
  rw [← append_assoc]
  exact hcoming.trans hflow

/-- When all that the peer has written has arrived, nothing is left to be opened. -/
theorem reading_done {S R : Party} {g : Progress} {pend : List Sealed} {pos : Pos}
    {seqno : UInt32} {w : World} (h : Reading p label S R g [] pend pos seqno w) : pend = [] := by
  obtain ⟨buf, hbuf, hflow⟩ := h.flow
  rw [append_nil] at hflow
  have hinstate : w.session.instate = (keyAt p label R S (recvPos g)).isSome :=
    (congrArg Core.instate h.core).trans (shape_incipher g).1
  generalize hpos : recvPos g = place at hflow hinstate
  cases hflow with
  | nil => rfl
  | @cons _ _ _ _ _ type body bytes seals hsends hrest =>
    exfalso
    have hlen := encode_length (p := p) (keyAt p label R S place) w.session.inseqno type body
    have hthree : 3 ≤ if (keyAt p label R S place).isSome = true then overhead else 3 := by
      split
      · decide
      · exact le_refl 3
    rcases hbuf.unfinished with hshort | ⟨_, hreclen, hlt⟩
    · rw [length_append, hlen] at hshort
      omega
    · rw [encode, append_assoc, ntohs_htons _ hsends.length_lt] at hreclen
      rw [length_append, hlen, recordSize, hinstate, hreclen] at hlt
      omega

section Linking

variable {s : Pair} {g : Bool → Progress}

/-- One end reads `taken` of the bytes in flight to it, and writes. -/
theorem linked_update {side : Bool} {w' : World} {pend peerPend : List Sealed} {taken : ℕ}
    (hlink : LinkTo p label party g s side pend)
    (hpeer : LinkTo p label party g s (!side) peerPend)
    (htaken : taken ≤ (inflight s side).length)
    (hreads : Reads p label (party side) (party (!side)) (g side) ((inflight s side).drop taken)
      pend (sendPos (g (!side))) (s.world (!side)).session.outseqno (s.world side) w') :
    Linked p label party ⟨Function.update s.world side w',
      Function.update s.got side (s.got side + taken)⟩ := by
  obtain ⟨_, hsealed, hgot⟩ := hlink
  obtain ⟨hpeerReading, hpeerSealed, hpeerGot⟩ := hpeer
  rw [Bool.not_not] at hpeerReading hpeerSealed hpeerGot
  obtain ⟨g', seals, pend', hpend, hreading, hdecrypted, bytes, written, hbytes, hwritten,
    hflow⟩ := hreads
  have hother : (!side) ≠ side := Bool.not_ne_self side
  refine ⟨Function.update g side g', fun x => ?_⟩
  rcases Bool.eq_or_eq_not x side with rfl | rfl
  · refine ⟨pend', ?_, ?_, ?_⟩
    · unfold inflight
      simp only [update_self, update_of_ne hother]
      rw [← drop_drop]
      exact hreading
    · simp only [update_self, update_of_ne hother]
      rw [hsealed, hdecrypted, hpend, append_assoc]
    · simp only [update_self, update_of_ne hother]
      rw [inflight, length_drop] at htaken
      omega
  · refine ⟨peerPend ++ written, ?_, ?_, ?_⟩
    · unfold inflight at hpeerReading ⊢
      simp only [update_self, update_of_ne hother, Bool.not_not]
      rw [hbytes, drop_append_of_le_length hpeerGot]
      rw [Bool.not_not] at hpeerReading
      exact reading_extend hpeerReading hflow
    · simp only [update_self, update_of_ne hother, Bool.not_not]
      rw [hwritten, hpeerSealed, append_assoc]
    · simp only [update_self, update_of_ne hother, Bool.not_not]
      rw [hbytes, length_append]
      omega

/-- What is held stays unfinished while the session only writes. -/
theorem holds_of_emits {S R : Party} {g g' : Progress} {pos pos' : Pos} {w w' : World} {buf : Bytes}
    (hcore : core w = shape p label S R g) (hcore' : core w' = shape p label S R g')
    (hpos : recvPos g' = recvPos g) (hemits : Emits p label S R pos pos' w w')
    (hbuf : Holds w buf) : Holds w' buf := by
  have hinstate : w'.session.instate = w.session.instate := by
    rw [show w'.session.instate = _ from congrArg Core.instate hcore', (shape_incipher g').1, hpos,
      ← (shape_incipher g).1]
    exact (congrArg Core.instate hcore).symm
  refine ⟨hemits.inbuf.trans hbuf.inbuf, ?_⟩
  rw [recordSize, hemits.reclen, hinstate]
  exact hbuf.unfinished

theorem linked_call (he : ∀ side, Healthy (party side).env) (hlinked : Linked p label party s)
    (side : Bool) (call : Call) : Linked p label party (move p party s (.call side call)) := by
  obtain ⟨g, hlinks⟩ := hlinked
  obtain ⟨pend, hlink⟩ := hlinks side
  obtain ⟨peerPend, hpeer⟩ := hlinks (!side)
  have hreading := hlink.reading
  obtain ⟨result, g', ⟨w', hrun, hcore', hemits⟩, hpos⟩ :=
    perform_goes (he side) call (g side) (s.world side) hreading.core
  obtain ⟨buf, hbuf, hflow⟩ := hreading.flow
  have hstep : step p (party side).env (s.world side) (.call call) = w' := by
    refine (if_neg (by simp [hreading.alive])).trans ?_
    exact congrArg Prod.snd hrun
  change Linked p label party (act p party s side (.call call) 0)
  unfold act
  rw [hstep]
  refine linked_update hlink hpeer (Nat.zero_le _)
    ⟨g', [], pend, (nil_append pend).symm, ?_, ?_, hemits.flow⟩
  · refine ⟨hcore', hemits.dead.trans hreading.alive, buf,
      holds_of_emits hreading.core hcore' hpos hemits hbuf, ?_⟩
    rw [hpos, hemits.inseqno, drop_zero]
    exact hflow
  · rw [hemits.decrypted, append_nil]

theorem linked_initial (he : ∀ side, Healthy (party side).env) (hlabel : label ≠ []) :
    Linked p label party (initial p label party) := by
  refine ⟨fun _ => .kex 0, fun side => ?_⟩
  obtain ⟨w, hrun, hcore, halive, hinbuf, hinseqno, hdecrypted, _⟩ :=
    @start_emits p label (party side) (party (!side)) (he side) hlabel
  obtain ⟨w', hrun', _, _, _, _, _, hflow⟩ :=
    @start_emits p label (party (!side)) (party side) (he (!side)) hlabel
  have hworld : (initial p label party).world side = w := congrArg Prod.snd hrun
  have hworld' : (initial p label party).world (!side) = w' := by
    change (sptpsStart p _ (argsFor p label party (!side)) (blank _)).2 = w'
    rw [argsFor, Bool.not_not]
    exact congrArg Prod.snd hrun'
  refine ⟨encrypted w'.trace, ?_, ?_, Nat.zero_le _⟩
  · unfold inflight
    rw [hworld, hworld']
    refine ⟨hcore, halive, [], ⟨hinbuf, .inl Nat.zero_lt_two⟩, ?_⟩
    rw [hinseqno]
    exact hflow
  · rw [hworld, hworld', hdecrypted, nil_append]

variable (hp : Correct p) (he : ∀ side, Healthy (party side).env)
  (hroles : ∀ side, (party (!side)).initiator = !(party side).initiator)

include hp he hroles

/-- The delivery of a piece of what is in flight. -/
theorem linked_deliver (hlinked : Linked p label party s) (side : Bool) (n : ℕ) :
    (sptpsReceiveData p (party side).env ((inflight s side).take n) (s.world side)).1 = some () ∧
      Linked p label party (move p party s (.deliver side n)) := by
  obtain ⟨g, hlinks⟩ := hlinked
  obtain ⟨pend, hlink⟩ := hlinks side
  obtain ⟨peerPend, hpeer⟩ := hlinks (!side)
  let data := (inflight s side).take n
  have hsplit : data ++ (inflight s side).drop data.length = inflight s side :=
    prefix_iff_eq_append.mp (List.take_prefix n _)
  have hreading := hlink.reading
  rw [← hsplit] at hreading
  obtain ⟨w', hrun, hreads⟩ := sptpsReceiveData_reading hp (he side) (hroles side) hreading
  have hstep : step p (party side).env (s.world side) (.receive data) = w' := by
    refine (if_neg (by simp [hreading.alive])).trans ?_
    exact congrArg Prod.snd hrun
  refine ⟨congrArg Prod.fst hrun, ?_⟩
  change Linked p label party (act p party s side (.receive data) data.length)
  unfold act
  rw [hstep]
  exact linked_update hlink hpeer (length_take_le' n _) hreads

theorem linked_moves (moves : List Move) (s : Pair) (hlinked : Linked p label party s) :
    Linked p label party (moves.foldl (move p party) s) := by
  induction moves generalizing s with
  | nil => exact hlinked
  | cons m moves ih =>
    apply ih
    cases m with
    | call side call => exact linked_call he hlinked side call
    | deliver side n => exact (linked_deliver hp he hroles hlinked side n).2

/-- Whatever the two ends are called with and however their streams are cut into
pieces, no delivery is refused, each end decrypts with the keys and the sequence
numbers that the other end encrypted with, in the same order, and it has decrypted
everything once everything has arrived. -/
theorem every_record_is_opened (hlabel : label ≠ []) (moves : List Move) (side : Bool) :
    let s := play p label party moves
    (s.world side).dead = false ∧
      (∀ n, (sptpsReceiveData p (party side).env ((inflight s side).take n) (s.world side)).1 =
        some ()) ∧
      decrypted (s.world side).trace <+: encrypted (s.world (!side)).trace ∧
      (inflight s side = [] →
        decrypted (s.world side).trace = encrypted (s.world (!side)).trace) := by
  intro s
  have hlinked : Linked p label party s :=
    linked_moves hp he hroles moves _ (linked_initial he hlabel)
  have hdeliver := linked_deliver hp he hroles hlinked side
  obtain ⟨g, hlinks⟩ := hlinked
  obtain ⟨pend, hlink⟩ := hlinks side
  refine ⟨hlink.reading.alive, fun n => (hdeliver n).1, ⟨pend, hlink.sealed.symm⟩, ?_⟩
  intro hempty
  have hreading := hlink.reading
  rw [hempty] at hreading
  rw [hlink.sealed, reading_done hreading, append_nil]

end Linking

theorem toyPrimitives_correct : Correct toyPrimitives where
  verify_sign key msg := beq_self_eq_true _
  decrypt_encrypt key seqno plain := by
    let tag := resized 16 (htonl seqno ++ key)
    have hlen : (plain ++ tag).length = plain.length + 16 := by
      rw [length_append, resized_length]
    change (if 16 ≤ (plain ++ tag).length ∧ (plain ++ tag).drop ((plain ++ tag).length - 16) = tag
      then some ((plain ++ tag).take ((plain ++ tag).length - 16)) else none) = some plain
    rw [hlen, Nat.add_sub_cancel, drop_left, take_left]
    exact if_pos ⟨Nat.le_add_left 16 _, rfl⟩
  shared_comm a b := zipWith_comm_of_comm UInt8.add_comm

def sampleParty (initiator : Bool) : Party :=
  ⟨initiator, quietEnv (if initiator then 1 else 2), [if initiator then 1 else 2]⟩

theorem sampleParty_healthy (side : Bool) : Healthy (sampleParty side).env :=
  ⟨fun _ => rfl, fun _ => rfl, fun _ => rfl⟩

/-- A first exchange in pieces, then both ends start the second one at the same time. -/
def sampleMoves : List Move :=
  [.deliver true 10, .deliver false 1000, .deliver true 1000, .deliver false 1000,
    .call true .forceKex, .call false .forceKex, .call true (.sendRecord 5 ⟨[1, 2], by decide⟩),
    .deliver true 1000, .deliver false 1000, .deliver true 1000, .deliver false 1000,
    .deliver true 1000, .call true (.sendRecord 5 ⟨[3], by decide⟩), .deliver false 100]

theorem every_record_is_opened_simultaneousRekey :
    let s := play toyPrimitives [76] sampleParty sampleMoves
    (decrypted (s.world false).trace).length = 5 ∧
      decrypted (s.world false).trace = encrypted (s.world true).trace := by
  refine ⟨by decide +kernel, ?_⟩
  exact (every_record_is_opened toyPrimitives_correct sampleParty_healthy
    (fun _ => rfl) (by decide) sampleMoves false).2.2.2 (by decide +kernel)

end Meshlink.StreamPair
