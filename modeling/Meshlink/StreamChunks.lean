import Meshlink.SptpsEffects

/-!
A stream may be cut anywhere. When a turn of the receiving loop runs out of data, the
session holds what was read, and a turn over the next piece does what the first one
would have done with both pieces. So the loop over a concatenation is the loop over
the first part followed by the loop over the second, whatever the bytes are.
-/
namespace Meshlink.StreamChunks

open List Commands Sptps SptpsEffects

variable {p : Primitives} {e : Env} {a b buf : Bytes} {w : World}

/-- What is left for a reader that was given `b` behind its data. -/
def goOn (b : Bytes) (again : Command World (Option Bytes)) :
    Option Bytes → Command World (Option Bytes)
  | none => again
  | some rest => pure (some (rest ++ b))

/-- The two bytes of the length are there, and space for the record is made. -/
def takeHeader (e : Env) (read : Bytes) : Command World Unit := do
  modify fun s => {s with reclen := ntohs read, inbuf := none}
  alloc e
  modify fun s => {s with inbuf := some read}

/-- A session that holds the start of a record may use no byte in its next turn. -/
def slack (w : World) : ℕ := if w.session.inbuf = some [] then 0 else 1

theorem slack_le (w : World) : slack w ≤ 1 := by
  unfold slack
  split
  · exact Nat.zero_le 1
  · exact le_refl 1

theorem readLength_long (hbuf : w.session.inbuf = some buf) (hlong : 2 ≤ buf.length) :
    readLength e a w = (some (some a), w) := by
  rw [readLength, gets_bind, hbuf]
  exact congrFun (if_pos hlong) w

theorem readLength_short (hbuf : w.session.inbuf = some buf) (hshort : buf.length + a.length < 2) :
    readLength e a w =
      (some none, {w with session := {w.session with inbuf := some (buf ++ a)}}) := by
  have htake : a.take (2 - buf.length) = a := take_of_length_le (by omega)
  have hread : (buf ++ a).length < 2 := by rwa [length_append]
  rw [readLength, gets_bind, hbuf]
  simp only [htake]
  refine (congrFun (if_neg (by omega)) w).trans ?_
  exact congrFun (if_pos hread) _

theorem readLength_full (hbuf : w.session.inbuf = some buf) (hlt : buf.length < 2)
    (hfull : 2 ≤ buf.length + a.length) :
    readLength e a w = (takeHeader e (buf ++ a.take (2 - buf.length)) >>= fun _ =>
      if a.drop (2 - buf.length) = [] then pure none
      else pure (some (a.drop (2 - buf.length)))) w := by
  have hread : ¬ (buf ++ a.take (2 - buf.length)).length < 2 := by
    rw [length_append, length_take]
    omega
  rw [readLength, gets_bind, hbuf]
  refine (congrFun (if_neg (by omega)) w).trans ?_
  refine (congrFun (if_neg hread)
    {w with session := {w.session with inbuf := some (buf ++ a.take (2 - buf.length))}}).trans ?_
  simp only [takeHeader, bind_assoc]
  rfl

theorem takeHeader_inbuf {read : Bytes} {w' : World} {u : Unit}
    (h : takeHeader e read w = (some u, w')) : w'.session.inbuf = some read := by
  obtain ⟨_, w₁, _, hrest⟩ := returned_of_bind h
  obtain ⟨_, w₂, _, hset⟩ := returned_of_bind hrest
  cases hset
  rfl

theorem readLength_append (hb : b ≠ []) (w : World) :
    readLength e (a ++ b) w = (readLength e a >>= goOn b (readLength e b)) w := by
  cases hbuf : w.session.inbuf with
  | none =>
    have hcrash : ∀ data, readLength e data w = crash w := by
      intro data
      rw [readLength, gets_bind, hbuf]
    rw [hcrash, bind_of_none (hcrash a)]
    rfl
  | some buf =>
    by_cases hlong : 2 ≤ buf.length
    · rw [readLength_long hbuf hlong, bind_of_some (readLength_long hbuf hlong)]
      rfl
    by_cases hshort : buf.length + a.length < 2
    · rw [bind_of_some (readLength_short hbuf hshort)]
      let w₁ : World := {w with session := {w.session with inbuf := some (buf ++ a)}}
      change _ = readLength e b w₁
      have hlen : (buf ++ a).length = buf.length + a.length := length_append
      by_cases hboth : buf.length + (a ++ b).length < 2
      · rw [length_append] at hboth
        rw [readLength_short hbuf (by rw [length_append]; omega),
          readLength_short (w := w₁) rfl (by omega), append_assoc]
      rw [length_append] at hboth
      rw [readLength_full hbuf (by omega) (by rw [length_append]; omega),
        readLength_full (w := w₁) rfl (by omega) (by omega), hlen, append_assoc,
        take_append, drop_append, take_of_length_le (l := a) (by omega),
        drop_of_length_le (l := a) (by omega), Nat.sub_sub]
      rfl
    · have htake : (a ++ b).take (2 - buf.length) = a.take (2 - buf.length) :=
        take_append_of_le_length (by omega)
      have hdrop : (a ++ b).drop (2 - buf.length) = a.drop (2 - buf.length) ++ b :=
        drop_append_of_le_length (by omega)
      have hrest : a.drop (2 - buf.length) ++ b ≠ [] := by simp [hb]
      rw [readLength_full hbuf (by omega) (by rw [length_append]; omega), htake, hdrop,
        if_neg hrest]
      rcases hhead : takeHeader e (buf ++ a.take (2 - buf.length)) w with ⟨value, w₁⟩
      have hfull := readLength_full (e := e) hbuf (by omega) (a := a) (by omega)
      cases value with
      | none => rw [bind_of_none hhead, bind_of_none (hfull.trans (bind_of_none hhead))]
      | some _ =>
        rw [bind_of_some hhead]
        by_cases hempty : a.drop (2 - buf.length) = []
        · rw [bind_of_some
            (hfull.trans ((bind_of_some hhead).trans (congrFun (if_pos hempty) w₁))), hempty]
          refine (readLength_long (takeHeader_inbuf hhead) ?_).symm
          rw [length_append, length_take]
          omega
        · rw [bind_of_some
            (hfull.trans ((bind_of_some hhead).trans (congrFun (if_neg hempty) w₁)))]
          rfl

theorem readBody_held (hbuf : w.session.inbuf = some buf) (data : Bytes) :
    readBody data w =
      (if (buf ++ data.take (recordSize w.session - buf.length)).length < recordSize w.session
        then pure none
        else pure (some (data.drop (recordSize w.session - buf.length))) :
          Command World (Option Bytes))
        {w with session := {w.session with
          inbuf := some (buf ++ data.take (recordSize w.session - buf.length))}} := by
  rw [readBody, gets_bind, hbuf]
  rfl

theorem readBody_append (w : World) :
    readBody (a ++ b) w = (readBody a >>= goOn b (readBody b)) w := by
  cases hbuf : w.session.inbuf with
  | none =>
    have hcrash : ∀ data, readBody data w = crash w := by
      intro data
      rw [readBody, gets_bind, hbuf]
    rw [hcrash, bind_of_none (hcrash a)]
    rfl
  | some buf =>
    have hread := readBody_held hbuf
    by_cases hshort : (buf ++ a.take (recordSize w.session - buf.length)).length <
        recordSize w.session
    · rw [bind_of_some ((hread a).trans (congrFun (if_pos hshort) _)), hread (a ++ b)]
      rw [length_append, length_take] at hshort
      have hlen : a.length ≤ recordSize w.session - buf.length := by omega
      let w₁ : World := {w with session := {w.session with inbuf := some (buf ++ a)}}
      simp only [take_append, drop_append, take_of_length_le hlen,
        drop_of_length_le hlen, nil_append]
      refine Eq.trans ?_ (readBody_held (w := w₁) rfl b).symm
      rw [show (buf ++ a).length = _ from length_append, ← Nat.sub_sub, append_assoc]
      rfl
    · have hlen : recordSize w.session - buf.length ≤ a.length := by
        rw [length_append, length_take] at hshort
        omega
      rw [bind_of_some ((hread a).trans (congrFun (if_neg hshort) _)), hread (a ++ b),
        take_append_of_le_length hlen, drop_append_of_le_length hlen]
      exact congrFun (if_neg hshort) _

/-- The length was read: at least a header is held, and bytes were used unless it was there. -/
theorem readLength_some {body : Bytes} {w' : World}
    (h : readLength e a w = (some (some body), w')) :
    (∃ buf, w'.session.inbuf = some buf ∧ 2 ≤ buf.length) ∧
      body.length + 1 ≤ a.length + slack w := by
  cases hbuf : w.session.inbuf with
  | none =>
    rw [readLength, gets_bind, hbuf] at h
    cases h
  | some buf =>
    by_cases hlong : 2 ≤ buf.length
    · rw [readLength_long hbuf hlong] at h
      cases h
      refine ⟨⟨buf, hbuf, hlong⟩, ?_⟩
      have hslack : slack w = 1 := if_neg (by rw [hbuf]; rintro ⟨⟩; cases hlong)
      omega
    by_cases hshort : buf.length + a.length < 2
    · rw [readLength_short hbuf hshort] at h
      cases h
    rw [readLength_full hbuf (by omega) (by omega)] at h
    obtain ⟨_, w₁, hhead, hrest⟩ := returned_of_bind h
    split at hrest
    · cases hrest
    cases hrest
    refine ⟨⟨_, takeHeader_inbuf hhead, ?_⟩, ?_⟩
    · rw [length_append, length_take]
      omega
    · rw [length_drop]
      omega

section Turns

variable (p e)

/-- A complete record is opened and handled. -/
def takeRecord : Option Bytes → Command World (Option Bytes)
  | none => pure none
  | some rest => do
    let plain ← openRecord p
    handleRecord p e plain
    modify fun s => {s with inbuf := some []}
    pure (some rest)

def takeBody : Option Bytes → Command World (Option Bytes)
  | none => pure none
  | some body => readBody body >>= takeRecord p e

variable {p e}

theorem receiveTurn_eq (data : Bytes) :
    receiveTurn p e data = readLength e data >>= takeBody p e := by
  refine bind_congr fun body => ?_
  cases body with
  | none => rfl
  | some body =>
    refine bind_congr fun rest => ?_
    cases rest with
    | none => rfl
    | some rest => rfl

theorem takeRecord_append (rest : Bytes) (again : Command World (Option Bytes)) :
    takeRecord p e (some (rest ++ b)) = takeRecord p e (some rest) >>= goOn b again := by
  simp only [takeRecord, bind_assoc]
  rfl

theorem receiveTurn_append (hb : b ≠ []) (w : World) :
    receiveTurn p e (a ++ b) w = (receiveTurn p e a >>= goOn b (receiveTurn p e b)) w := by
  have hlength := readLength_append (e := e) (a := a) hb w
  rw [receiveTurn_eq, receiveTurn_eq a, bind_assoc]
  rcases hrun : readLength e a w with ⟨value, w₁⟩
  match value with
  | none =>
    rw [bind_of_none hrun] at hlength
    rw [bind_of_none hlength, bind_of_none hrun]
  | some none =>
    rw [bind_of_some hrun] at hlength
    rw [bind_of_eq hlength, bind_of_some hrun]
    exact congrFun (receiveTurn_eq b).symm w₁
  | some (some body) =>
    rw [bind_of_some hrun] at hlength
    rw [bind_of_some hlength, bind_of_some hrun]
    obtain ⟨⟨buf, hbuf, hlong⟩, -⟩ := readLength_some hrun
    have hbody := readBody_append (a := body) (b := b) w₁
    change (readBody (body ++ b) >>= takeRecord p e) w₁ =
      ((readBody body >>= takeRecord p e) >>= goOn b (receiveTurn p e b)) w₁
    rw [bind_assoc]
    rcases hrun' : readBody body w₁ with ⟨value', w₂⟩
    match value' with
    | none =>
      rw [bind_of_none hrun'] at hbody
      rw [bind_of_none hbody, bind_of_none hrun']
    | some none =>
      rw [bind_of_some hrun'] at hbody
      rw [bind_of_eq hbody, bind_of_some hrun']
      have hheld : w₂.session.inbuf =
          some (buf ++ body.take (recordSize w₁.session - buf.length)) := by
        rw [readBody_held hbuf] at hrun'
        split at hrun'
        · cases hrun'
          rfl
        · cases hrun'
      change _ = receiveTurn p e b w₂
      rw [receiveTurn_eq, bind_of_some (readLength_long hheld (by rw [length_append]; omega))]
      rfl
    | some (some rest) =>
      rw [bind_of_some hrun'] at hbody
      rw [bind_of_some hbody, bind_of_some hrun']
      exact congrFun (takeRecord_append rest _) w₂

/-- After a turn that goes on, the buffer is empty. -/
theorem receiveTurn_some {rest : Bytes} {w' : World}
    (h : receiveTurn p e a w = (some (some rest), w')) :
    slack w' = 0 ∧ rest.length + 1 ≤ a.length + slack w := by
  rw [receiveTurn_eq] at h
  obtain ⟨value, w₁, hlength, hrest⟩ := returned_of_bind h
  cases value with
  | none => cases hrest
  | some body =>
    obtain ⟨⟨buf, hbuf, -⟩, hless⟩ := readLength_some hlength
    obtain ⟨value, w₂, hbody, hrest⟩ := returned_of_bind hrest
    cases value with
    | none => cases hrest
    | some rest' =>
      obtain ⟨_, w₃, _, hrest⟩ := returned_of_bind hrest
      obtain ⟨_, w₄, _, hrest⟩ := returned_of_bind hrest
      cases hrest
      refine ⟨if_pos rfl, ?_⟩
      rw [readBody_held hbuf] at hbody
      split at hbody
      · cases hbody
      · cases hbody
        rw [length_drop]
        omega

end Turns

section Loops

theorem receiveLoop_nil (turns : ℕ) : receiveLoop p e turns [] = pure () := by
  cases turns with
  | zero => rfl
  | succ turns => exact if_pos rfl

theorem receiveLoop_cons {n : ℕ} (ha : a ≠ []) (hn : 0 < n) :
    receiveLoop p e n a = receiveTurn p e a >>= fun rest => match rest with
      | none => pure ()
      | some rest => receiveLoop p e (n - 1) rest := by
  obtain ⟨n, rfl⟩ : ∃ k, n = k + 1 := ⟨n - 1, by omega⟩
  exact if_neg ha

/-- With a turn for every byte, more turns make no difference. -/
theorem receiveLoop_turns {a : Bytes} {w : World} {n m : ℕ} (hn : a.length + slack w ≤ n)
    (hm : a.length + slack w ≤ m) :
    receiveLoop p e n a w = receiveLoop p e m a w := by
  by_cases ha : a = []
  · rw [ha, receiveLoop_nil, receiveLoop_nil]
  have hpos : 0 < a.length := length_pos_iff.mpr ha
  rw [receiveLoop_cons ha (by omega), receiveLoop_cons ha (by omega)]
  rcases hrun : receiveTurn p e a w with ⟨value, w₁⟩
  match value with
  | none => rw [bind_of_none hrun, bind_of_none hrun]
  | some none => rw [bind_of_some hrun, bind_of_some hrun]
  | some (some rest) =>
    obtain ⟨hslack, hless⟩ := receiveTurn_some hrun
    rw [bind_of_some hrun, bind_of_some hrun]
    exact receiveLoop_turns (a := rest) (n := n - 1) (m := m - 1) (by omega) (by omega)
  termination_by n

theorem receiveLoop_append {a : Bytes} {w : World} {n m k : ℕ}
    (hn : (a ++ b).length + slack w ≤ n) (hm : a.length + slack w ≤ m) (hk : b.length + 1 ≤ k) :
    receiveLoop p e n (a ++ b) w = (receiveLoop p e m a >>= fun _ => receiveLoop p e k b) w := by
  have hslack := slack_le w
  by_cases ha : a = []
  · subst ha
    rw [receiveLoop_nil]
    exact receiveLoop_turns (a := b) (m := k) hn (by omega)
  by_cases hb : b = []
  · subst hb
    rw [append_nil] at hn ⊢
    rw [receiveLoop_nil k, receiveLoop_turns hn hm]
    exact congrFun (bind_pure (receiveLoop p e m a)).symm w
  have hpos : 0 < a.length := length_pos_iff.mpr ha
  rw [length_append] at hn
  have hturn := receiveTurn_append (p := p) (e := e) (a := a) hb w
  rw [receiveLoop_cons (append_ne_nil_of_left_ne_nil ha b) (by omega),
    receiveLoop_cons ha (by omega), bind_assoc]
  rcases hrun : receiveTurn p e a w with ⟨value, w₁⟩
  match value with
  | none =>
    rw [bind_of_none hrun] at hturn
    rw [bind_of_none hturn, bind_of_none hrun]
  | some none =>
    rw [bind_of_some hrun] at hturn
    have hslack₁ := slack_le w₁
    rw [bind_of_eq hturn, bind_of_some hrun]
    refine (congrFun (receiveLoop_cons hb (by omega)).symm w₁).trans ?_
    exact receiveLoop_turns (a := b) (n := n) (m := k) (by omega) (by omega)
  | some (some rest) =>
    obtain ⟨hslack, hless⟩ := receiveTurn_some hrun
    rw [bind_of_some hrun] at hturn
    rw [bind_of_some hturn, bind_of_some hrun]
    have hfewer : n - 1 < n := by omega
    exact receiveLoop_append (a := rest) (n := n - 1) (m := m - 1)
      (by rw [length_append]; omega) (by omega) hk
  termination_by n

end Loops

/-- A stream session that has been started. -/
def Started (w : World) : Prop := w.session.state ≠ .zero ∧ w.session.datagram = false

theorem started_of_effects {ok : Session → UInt32 → Option UInt8 → Prop} {w w' : World}
    (h : Relation.ReflTransGen (Effect p e ok) w w') (hw : Started w) : Started w' := by
  refine ⟨?_, (effects_datagram h).trans hw.2⟩
  refine kept_by_steps (I := fun w => w.session.state ≠ .zero) (fun _ _ hstate heffect => ?_) h hw.1
  cases heffect <;> assumption

theorem sptpsReceiveData_started (hw : Started w) (data : Bytes) :
    sptpsReceiveData p e data w = receiveLoop p e (data.length + 1) data w := by
  refine (congrFun (if_neg hw.1) w).trans ?_
  exact congrFun (if_neg (by simp [hw.2])) w

/-- Whatever pieces a stream is received in, and whatever is in it, the session ends up
as if it had been received at once. Nothing more is given to it once it has refused a piece. -/
theorem received_in_pieces (chunks : List Bytes) (w : World) (hw : Started w) :
    forEach chunks (sptpsReceiveData p e) w = sptpsReceiveData p e chunks.flatten w := by
  induction chunks generalizing w with
  | nil => exact ((sptpsReceiveData_started hw []).trans (congrFun (receiveLoop_nil 1) w)).symm
  | cons chunk chunks ih =>
    have hslack := slack_le w
    rw [flatten_cons, sptpsReceiveData_started hw, receiveLoop_append
      (m := chunk.length + 1) (k := chunks.flatten.length + 1) (by omega) (by omega) le_rfl]
    have hfirst := sptpsReceiveData_started (p := p) (e := e) hw chunk
    have heffects : Reaches (Effect p e fun _ _ _ => True)
        (receiveLoop p e (chunk.length + 1) chunk) w := receiveLoop_reaches _ chunk w hw.2
    change (sptpsReceiveData p e chunk >>= fun _ => forEach chunks (sptpsReceiveData p e)) w = _
    rcases hrun : receiveLoop p e (chunk.length + 1) chunk w with ⟨value, w₁⟩
    rw [hrun] at hfirst
    cases value with
    | none => rw [bind_of_none hfirst, bind_of_none hrun]
    | some _ =>
      have hw₁ := started_of_effects (heffects.returns hrun) hw
      rw [bind_of_some hfirst, bind_of_some hrun, ih w₁ hw₁, sptpsReceiveData_started hw₁]

def sampleSession : World :=
  run toyPrimitives (quietEnv 1) (sampleStart false) (sampleHandshake false)

/-- A record as the peer of the sample session would send it. -/
def sampleBytes : Bytes :=
  htons 2 ++ toyPrimitives.encrypt (sampleSession.session.incipher.getD [])
    sampleSession.session.inseqno [5, 1, 2]

theorem received_in_pieces_bytewise :
    .record 5 [1, 2] ∈
        (after (sptpsReceiveData toyPrimitives (quietEnv 1) sampleBytes) sampleSession).trace ∧
      forEach (sampleBytes.map fun x => [x]) (sptpsReceiveData toyPrimitives (quietEnv 1))
          sampleSession =
        sptpsReceiveData toyPrimitives (quietEnv 1) sampleBytes sampleSession := by
  refine ⟨by decide +kernel, ?_⟩
  have hflatten : (sampleBytes.map fun x => [x]).flatten = sampleBytes := by decide +kernel
  rw [received_in_pieces _ sampleSession (by unfold Started; decide +kernel), hflatten]

end Meshlink.StreamChunks
