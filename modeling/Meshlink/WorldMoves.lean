import Meshlink.Moves

/-!
Moves of the connections of a process, and the calls an application makes. For
an invariant that new connections satisfy and moves keep, each piece of the
process keeps it, given that callbacks do. The bound `n` on the next handle
says that handles seen before are still old after a callback. Code that
callbacks can run leaves every connection in its stage.
-/
namespace Meshlink.WorldMoves

open UtcpBuffer UtcpState UtcpTimers UtcpSender Commands
open UtcpEndpoint UtcpProcess Handles Moves

variable {R : Rules} (I : Invariant R)

/-- The invariant, at a point where the handles below `n` have been given out. -/
def Inv (n : ℕ) (stages : ℕ → Stage) (w : World) : Prop := I.Holds stages w ∧ n ≤ w.utcp.nextHandle

/-- What is left of the invariant when the process has stopped at any point. -/
def Stopped (n : ℕ) (w : World) : Prop := ∃ stages, Inv I n stages w

/-- Code that leaves every connection in its stage. -/
def Stays (n : ℕ) (stages : ℕ → Stage) {α : Type} (x : Command World α) : Prop :=
  Triple (Stopped I n) (Inv I n stages) x (fun _ => Inv I n stages)

/-- Only the connection behind `h` is in a stage. -/
def only (h : ℕ) (st : Stage) : ℕ → Stage := fun k => if k = h then st else .idle

@[simp] theorem only_self (h : ℕ) (st : Stage) : only h st h = st := by
  simp [only]

theorem only_ne (h k : ℕ) (st : Stage) (hne : k ≠ h) : only h st k = .idle := by
  simp [only, hne]

@[simp] theorem only_idle (h : ℕ) : only h .idle = fun _ => .idle := by
  funext k
  simp [only]

/-- A handle that has been given out, or the null pointer. -/
def Known (n h : ℕ) : Prop := h < n ∨ h = 0

section Rules

variable {I} {n : ℕ} {stages : ℕ → Stage} {α β : Type}

theorem Inv.mono {m : ℕ} {w : World} (h : Inv I n stages w) (hm : m ≤ n) : Inv I m stages w :=
  ⟨h.1, hm.trans h.2⟩

theorem Inv.stopped {w : World} (h : Inv I n stages w) : Stopped I n w := ⟨stages, h⟩

variable (I n stages) in
/-- `Stays` for code whose parts all stay. -/
class Staying (x : Command World α) : Prop where
  stays : Stays I n stages x

instance Staying.pure (a : α) : Staying I n stages (Pure.pure a) := ⟨Triple.pure a fun _ hw => hw⟩

instance Staying.stop : Staying I n stages (stop : Command World α) :=
  ⟨Triple.stop fun _ hw => hw.stopped⟩

instance Staying.gets (f : World → α) : Staying I n stages (gets f) :=
  ⟨Triple.gets f fun _ hw => hw⟩

instance Staying.bind {x : Command World α} {f : α → Command World β} [hx : Staying I n stages x]
    [hf : ∀ a, Staying I n stages (f a)] : Staying I n stages (x >>= f) :=
  ⟨Triple.bind hx.stays fun a => (hf a).stays⟩

theorem Staying.of_bind {x : Command World α} {f : α → Command World β} [Staying I n stages x]
    (hf : ∀ a, Staying I n stages (f a)) : Staying I n stages (x >>= f) :=
  Staying.bind

instance Staying.ite {p : Prop} [Decidable p] {x y : Command World α} [hx : Staying I n stages x]
    [hy : Staying I n stages y] : Staying I n stages (if p then x else y) :=
  ⟨Triple.ite (fun _ => hx.stays) fun _ => hy.stays⟩

theorem Stays.update (f : World → World) (h : ∀ w, Inv I n stages w → Inv I n stages (f w)) :
    Stays I n stages (update f) :=
  Triple.update f h

end Rules

variable {α : Type} (n h : ℕ) (stages : ℕ → Stage) (w : World)

variable (st st' : Stage) (evs : List Ev) {c : Conn}

/-- A step that adds to the history of one handle and leaves the others alone. -/
theorem holds_step (h : ℕ) (evs : List Ev) {stages stages' : ℕ → Stage} {w w' : World}
    (hw : I.Holds stages w) (hscripts : w'.scripts = w.scripts) (hendpoint : I.endpoint w'.utcp)
    (htrace : w'.trace = w.trace ++ evs.map fun ev => (h, ev))
    (hbelow : Below w'.utcp.connections w'.utcp.nextHandle)
    (hnext : w.utcp.nextHandle ≤ w'.utcp.nextHandle) (hknown : Known w'.utcp.nextHandle h)
    (hquiet : w'.utcp.nextHandle ≤ h → stages' h = .idle)
    (hother : ∀ k, k ≠ h → stages' k = stages k ∧
      find w'.utcp.connections k = find w.utcp.connections k)
    (hpast : I.past (history h w.trace ++ evs))
    (hconn : ∀ c, find w'.utcp.connections h = some c →
      I.conn (stages' h) c (history h w.trace ++ evs)) : I.Holds stages' w' := by
  have hown : history h w'.trace = history h w.trace ++ evs := by
    rw [htrace, history_append, history_own]
  have hrest (k : ℕ) (hk : k ≠ h) : history k w'.trace = history k w.trace := by
    rw [htrace, history_append, history_other h k hk, List.append_nil]
  refine ⟨hscripts ▸ hw.scripts, hendpoint, hbelow, fun e he => ?_,
    hw.positive.trans_le hnext, fun k hk => ?_, fun k => ?_, fun k c hc => ?_⟩
  · rw [htrace] at he
    rcases List.mem_append.mp he with hold | hnew
    · exact (hw.traced e hold).imp_left fun hlt => hlt.trans_le hnext
    · obtain ⟨ev, -, rfl⟩ := List.mem_map.mp hnew
      exact hknown
  all_goals rcases eq_or_ne k h with rfl | hkh
  · exact hquiet hk
  · rw [(hother k hkh).1]
    exact hw.quiet k (hnext.trans hk)
  · rw [hown]
    exact hpast
  · rw [hrest k hkh]
    exact hw.past k
  · rw [hown]
    exact hconn c hc
  · rw [hrest k hkh, (hother k hkh).1]
    exact hw.conn k c ((hother k hkh).2 ▸ hc)

/-- A move of the connection behind a handle, which may change its stage. -/
theorem holds_move (h : ℕ) (stages : ℕ → Stage) (st : Stage) (w : World) (c c' : Conn)
    (pkt : ℕ → UInt8) (evs : List Ev) (hw : I.Holds stages w)
    (hf : find w.utcp.connections h = some c)
    (hmove : Move R w.utcp (stages h) c st c' evs) :
    I.Holds (fun k => if k = h then st else stages k) { w with
      utcp := { w.utcp with
        connections := put w.utcp.connections h c', pkt := pkt }
      trace := w.trace ++ evs.map fun ev => (h, ev) } := by
  have hlt := find_below _ _ _ _ hw.below hf
  have hnew := I.move w.utcp _ c st c' _ _ hw.endpoint (hw.conn h c hf) hmove
  refine holds_step I h evs hw rfl (I.frame w.utcp _ _ _ _ hw.endpoint) rfl
    (put_below _ _ _ _ hw.below) (Nat.le_refl _) (Or.inl hlt)
    (fun hle => absurd hlt (Nat.not_lt.mpr hle))
    (fun k hk => ⟨if_neg hk, find_put_ne _ _ _ _ hk⟩) (I.past_conn st c' _ hnew) ?_
  intro d hd
  rw [if_pos rfl, Option.some.inj (hd.symm.trans (find_put_self _ h c' c hf))]
  exact hnew

theorem stages_same (h : ℕ) (st : Stage) (hst : stages h = st) :
    (fun k => if k = h then st else stages k) = stages := by
  funext k
  by_cases hkh : k = h
  · simp [hkh, hst]
  · simp [hkh]

theorem stages_only (h : ℕ) (st st' : Stage) :
    (fun k => if k = h then st' else only h st k) = only h st' := by
  funext k
  by_cases hkh : k = h
  · simp [hkh]
  · simp [hkh, only]

/-- A record that every connection in its stage takes: it may also be about a
handle that leads nowhere. -/
theorem holds_emit (h : ℕ) (stages : ℕ → Stage) (ev : Ev) (w : World) (hw : I.Holds stages w)
    (hknown : Known w.utcp.nextHandle h) (hnote : Note ev) :
    I.Holds stages { w with trace := w.trace ++ [(h, ev)] } := by
  refine holds_step I h [ev] hw rfl hw.endpoint rfl hw.below (Nat.le_refl _) hknown (hw.quiet h)
    (fun _ _ => ⟨rfl, rfl⟩) (I.past_note _ ev (hw.past h) hnote) ?_
  intro c hc
  exact I.move w.utcp _ c _ c _ _ hw.endpoint (hw.conn h c hc) (.note _ c ev hnote)

theorem emit_stays (ev : Ev) [hknown : Fact (Known n h)] (hnote : Note ev) :
    Staying I n stages (emit h ev) := by
  constructor
  apply Stays.update
  rintro w ⟨hw, hn⟩
  refine ⟨holds_emit I h stages ev w hw ?_ hnote, hn⟩
  exact hknown.out.imp_left fun hlt => hlt.trans_le hn

/-- Code on a connection of which `P` is known: it takes the connection to the
stage `next`, and leaves the connection that the code computes. -/
theorem onConn_triple (P : Conn → Prop) (next : α → Stage) (f : Utcp → Conn → Option (Step α))
    (hmove : ∀ u c s, P c → f u c = some s → Move R u st c (next s.value) s.conn s.events) :
    Triple (Stopped I n) (fun w => Inv I n (only h st) w ∧ At h P w) (onConn h f)
      (fun a w => Inv I n (only h (next a)) w ∧
        At h (fun c' => ∃ u c s, P c ∧ f u c = some s ∧ s.value = a ∧ s.conn = c') w) := by
  rintro w ⟨⟨hw, hn⟩, hat⟩
  unfold onConn
  cases hf : find w.utcp.connections h with
  | none => exact ⟨_, hw, hn⟩
  | some c =>
    dsimp only
    cases hs : f w.utcp c with
    | none => exact ⟨_, hw, hn⟩
    | some s =>
      have hP := hat c hf
      have hstep := hmove w.utcp c s hP hs
      rw [← only_self h st] at hstep
      have hmoved := holds_move I h (only h st) _ w c s.conn s.pkt s.events hw hf hstep
      rw [stages_only] at hmoved
      refine ⟨⟨hmoved, hn⟩, ?_⟩
      intro d hd
      have hput := find_put_self w.utcp.connections h s.conn c hf
      exact ⟨w.utcp, c, s, hP, hs, rfl, Option.some.inj (hput.symm.trans hd)⟩

/-- Code that may run in a callback: it keeps the stage, whatever it is. -/
theorem onConn_stays (f : Utcp → Conn → Option (Step α))
    (hmove : ∀ u st c s, f u c = some s → Move R u st c st s.conn s.events) :
    Staying I n stages (onConn h f) := by
  constructor
  rintro w ⟨hw, hn⟩
  unfold onConn
  cases hf : find w.utcp.connections h with
  | none => exact ⟨_, hw, hn⟩
  | some c =>
    dsimp only
    cases hs : f w.utcp c with
    | none => exact ⟨_, hw, hn⟩
    | some s =>
      have hmoved := holds_move I h stages _ w c s.conn s.pkt s.events hw hf
        (hmove w.utcp (stages h) c s hs)
      rw [stages_same stages h _ rfl] at hmoved
      exact ⟨hmoved, hn⟩

/-- The form for code in one stage that needs to know nothing of the connection. -/
theorem onConn_moves (next : α → Stage) (f : Utcp → Conn → Option (Step α))
    (hmove : ∀ u c s, f u c = some s → Move R u st c (next s.value) s.conn s.events) :
    Triple (Stopped I n) (Inv I n (only h st)) (onConn h f) (fun a => Inv I n (only h (next a))) :=
  (onConn_triple I n h st (fun _ => True) next f (fun u c s _ hs => hmove u c s hs)).mono
    (fun _ hw => ⟨hw, fun _ _ => trivial⟩) (fun _ _ hw => hw.1)

theorem modifyConn_moves (f : Utcp → Conn → Conn) (hmove : ∀ u c, Move R u st c st' (f u c) []) :
    Triple (Stopped I n) (Inv I n (only h st)) (modifyConn h f)
      (fun _ => Inv I n (only h st')) := by
  refine onConn_moves I n h st (fun _ => st') _ ?_
  intro u c s hs
  cases hs
  exact hmove u c

/-- A step that only the stage and the history see. -/
theorem holds_record (h : ℕ) (st st' : Stage) (evs : List Ev) (w : World) (c : Conn)
    (hw : I.Holds (only h st) w) (hf : find w.utcp.connections h = some c)
    (hmove : Move R w.utcp st c st' c evs) :
    I.Holds (only h st') { w with trace := w.trace ++ evs.map fun ev => (h, ev) } := by
  have hlt := find_below _ _ _ _ hw.below hf
  have hold := hw.conn h c hf
  rw [only_self] at hold
  have hnew := I.move w.utcp st c st' c _ evs hw.endpoint hold hmove
  refine holds_step I h evs hw rfl hw.endpoint rfl hw.below (Nat.le_refl _) (Or.inl hlt)
    (fun hle => absurd hlt (Nat.not_lt.mpr hle))
    (fun k hk => ⟨(only_ne h k st' hk).trans (only_ne h k st hk).symm, rfl⟩)
    (I.past_conn st' c _ hnew) ?_
  intro d hd
  rw [only_self, Option.some.inj (hd.symm.trans hf)]
  exact hnew

/-- A step that only the stage sees. -/
theorem inv_record {n h : ℕ} {st st' : Stage} {w : World} (hw : Inv I n (only h st) w)
    (hf : find w.utcp.connections h = some c) (hmove : Move R w.utcp st c st' c []) :
    Inv I n (only h st') w := by
  have hmoved := holds_record I h st st' [] w c hw.1 hf hmove
  simp only [List.map_nil, List.append_nil] at hmoved
  exact ⟨hmoved, hw.2⟩

/-- The connection a command has read is the one behind the handle. -/
def Read (h : ℕ) (c : Conn) (w : World) : Prop := find w.utcp.connections h = some c

theorem Read.at {h : ℕ} {w : World} {P : Conn → Prop} (hread : Read h c w) (hP : P c) :
    At h P w := by
  intro d hd
  rwa [Option.some.inj (hd.symm.trans hread)]

/-- The forms for code that runs on a connection it has read. -/
theorem onConn_read (next : α → Stage) (f : Utcp → Conn → Option (Step α))
    (hmove : ∀ u s, f u c = some s → Move R u st c (next s.value) s.conn s.events) :
    Triple (Stopped I n) (fun w => Inv I n (only h st) w ∧ Read h c w) (onConn h f)
      (fun a => Inv I n (only h (next a))) := by
  refine (onConn_triple I n h st (fun d => d = c) next f ?_).mono
    (fun _ hw => ⟨hw.1, hw.2.at rfl⟩) (fun _ _ hw => hw.1)
  rintro u d s rfl hs
  exact hmove u s hs

theorem modifyConn_read (f : Utcp → Conn → Conn) (hmove : ∀ u, Move R u st c st' (f u c) []) :
    Triple (Stopped I n) (fun w => Inv I n (only h st) w ∧ Read h c w) (modifyConn h f)
      (fun _ => Inv I n (only h st')) := by
  refine onConn_read I n h st (fun _ => st') _ ?_
  intro u s hs
  cases hs
  exact hmove u

theorem emitAll_read (hmove : ∀ u, Move R u st c st' c evs) :
    Triple (Stopped I n) (fun w => Inv I n (only h st) w ∧ Read h c w) (emitAll h evs)
      (fun _ => Inv I n (only h st')) := by
  apply Triple.update
  rintro w ⟨⟨hw, hn⟩, hread⟩
  exact ⟨holds_record I h st st' evs w c hw hread (hmove w.utcp), hn⟩

/-- Reading a connection: it is there, and known until something changes it. -/
theorem getConn_triple : Triple (Stopped I n) (Inv I n stages) (getConn h)
      (fun c w => Inv I n stages w ∧ Read h c w) := by
  intro w hw
  unfold getConn
  cases hf : find w.utcp.connections h with
  | none => exact hw.stopped
  | some c => exact ⟨hw, hf⟩

/-- Reading a connection of which `P` is known. -/
theorem getConn_at_triple (P : Conn → Prop) :
    Triple (Stopped I n) (fun w => Inv I n stages w ∧ At h P w) (getConn h)
      (fun c w => (Inv I n stages w ∧ Read h c w) ∧ P c) := by
  rintro w ⟨hw, hat⟩
  unfold getConn
  cases hf : find w.utcp.connections h with
  | none => exact hw.stopped
  | some c => exact ⟨⟨hw, hf⟩, hat c hf⟩

instance : Staying I n stages (getConn h) :=
  ⟨(getConn_triple I n h stages).mono (fun _ hw => hw) (fun _ _ hw => hw.1)⟩

theorem bufferSetSize_default (maxsize : ℕ) (a : Alloc) :
    bufferSetSize .empty 0 maxsize a = some (true, { Buffer.empty with maxsize := maxsize }) := by
  simp [bufferSetSize, Buffer.empty]

theorem emptyBuffer_wf (maxsize : ℕ) : ({ Buffer.empty with maxsize := maxsize } : Buffer).Wf where
  used_le := Nat.le_refl 0
  offset_lt := Or.inr rfl
  empty_offset := fun _ => rfl
  external_fits := fun h => nomatch h

theorem fresh_newConn (u : Utcp) (src dst : UInt16) (iss : UInt32) (smax rmax : ℕ) :
    Fresh (newConn u src dst iss { Buffer.empty with maxsize := smax }
      { Buffer.empty with maxsize := rmax }) :=
  ⟨u, src, dst, iss, _, _, rfl, emptyBuffer_wf smax, emptyBuffer_wf rmax, rfl, rfl⟩

theorem history_nextHandle (hw : I.Holds stages w) : history w.utcp.nextHandle w.trace = [] := by
  apply history_fresh
  intro e he
  have hpos := hw.positive
  rcases hw.traced e he with hlt | hzero
  · exact hlt
  · omega

/-- A new connection joins the table under a handle that no event mentions yet. -/
theorem holds_opened (c c' : Conn) (evs : List Ev) (u : Utcp)
    (table : List (ℕ × Conn)) (pkt : ℕ → UInt8) (nallocated : ℕ) (hw : I.Holds stages w)
    (hc : Fresh c) (hu : I.endpoint u) (hopening : Opening R u c c' evs)
    (hbelow : Below table (w.utcp.nextHandle + 1))
    (hself : find table w.utcp.nextHandle = some c') (hother : ∀ k, k ≠ w.utcp.nextHandle →
      find table k = find w.utcp.connections k) : I.Holds stages { w with
      utcp := { w.utcp with
        connections := table, pkt := pkt, nallocated := nallocated
        nextHandle := w.utcp.nextHandle + 1 }
      trace := w.trace ++ (.opened c :: evs).map fun ev => (w.utcp.nextHandle, ev) } := by
  have hnone := history_nextHandle I stages w hw
  have hconn := I.opened u c c' evs hu hc hopening
  refine holds_step I w.utcp.nextHandle (.opened c :: evs) hw rfl
    (I.frame w.utcp _ _ _ _ hw.endpoint) rfl hbelow (Nat.le_succ _) (Or.inl (Nat.lt_succ_self _))
    (fun hle => absurd hle (Nat.not_succ_le_self _)) (fun k hk => ⟨rfl, hother k hk⟩) ?_ ?_
  · rw [hnone]
    exact I.past_conn .idle c' _ hconn
  · intro d hd
    rw [hnone, hw.quiet _ (Nat.le_refl _), Option.some.inj (hd.symm.trans hself)]
    exact hconn

theorem holds_nallocated (nallocated : ℕ) (hw : I.Holds stages w) :
    I.Holds stages { w with utcp := { w.utcp with nallocated := nallocated } } :=
  { hw with
    endpoint := I.frame w.utcp w.utcp.connections w.utcp.pkt _ w.utcp.nextHandle hw.endpoint }

/-- allocate_connection returns NULL at once, or after it has recorded a larger
table, or it adds a connection with empty buffers. -/
theorem allocateConnection_cases (e : Env) (src dst : UInt16) (w : World) :
    allocateConnection e src dst w = (some none, w) ∨
      (∃ k, allocateConnection e src dst w =
        (some none, { w with utcp := { w.utcp with nallocated := k } })) ∨
      ∃ k c, Fresh c ∧ allocateConnection e src dst w =
        (some (some w.utcp.nextHandle),
          { w with
            utcp := { w.utcp with
              connections := w.utcp.connections.orderedInsert portsLe (w.utcp.nextHandle, c)
              nallocated := k
              nextHandle := w.utcp.nextHandle + 1 }
            trace := w.trace ++ [(w.utcp.nextHandle, .opened c)] }) := by
  simp only [allocateConnection, defaultSndbufsize, defaultRcvbufsize, bufferSetSize_default]
  by_cases htaken : (if src = 0 then decide (w.utcp.connections.length ≥ 32767)
      else (findConnection w.utcp src dst).isSome) = true
  · rw [if_pos htaken]
    exact Or.inl rfl
  rw [if_neg htaken]
  by_cases hmemory : (decide (w.utcp.connections.length ≥ w.utcp.nallocated) &&
      !(e.alloc 4).ok || !(e.alloc 5).ok) = true
  · rw [if_pos hmemory]
    exact Or.inr (Or.inl ⟨_, rfl⟩)
  · rw [if_neg hmemory]
    exact Or.inr (Or.inr ⟨_, _, fresh_newConn _ _ _ _ _ _, rfl⟩)

/-- A connection has just been allocated. -/
def Allocated (n : ℕ) (stages : ℕ → Stage) (h : ℕ) (w : World) : Prop :=
  ∃ (w₀ : World) (c : Conn) (k : ℕ), Inv I n stages w₀ ∧ Fresh c ∧ h = w₀.utcp.nextHandle ∧
    w = { w₀ with
      utcp := { w₀.utcp with
        connections := w₀.utcp.connections.orderedInsert portsLe (w₀.utcp.nextHandle, c)
        nallocated := k
        nextHandle := w₀.utcp.nextHandle + 1 }
      trace := w₀.trace ++ [(w₀.utcp.nextHandle, .opened c)] }

theorem find_allocated (c : Conn) (stages : ℕ → Stage) (hw : I.Holds stages w) (k : ℕ) :
    find (w.utcp.connections.orderedInsert portsLe (w.utcp.nextHandle, c)) k =
      if k = w.utcp.nextHandle then some c else find w.utcp.connections k := by
  apply find_orderedInsert
  intro e he
  exact (hw.below e he).ne

theorem allocated_inv {n : ℕ} {stages : ℕ → Stage} {h : ℕ} {w : World}
    (ha : Allocated I n stages h w) : Inv I n stages w ∧ h < w.utcp.nextHandle := by
  obtain ⟨w₀, c, k, ⟨hw, hn⟩, hfresh, rfl, rfl⟩ := ha
  refine ⟨⟨?_, Nat.le_succ_of_le hn⟩, Nat.lt_succ_self _⟩
  exact holds_opened I stages w₀ c c [] w₀.utcp _ w₀.utcp.pkt k hw hfresh hw.endpoint
    (.unused c) (orderedInsert_below portsLe _ _ _ hw.below)
    (by rw [find_allocated I w₀ c stages hw, if_pos rfl])
    (fun j hj => by rw [find_allocated I w₀ c stages hw, if_neg hj])

/-- The code that sets up a new connection. -/
theorem opening_triple (n : ℕ) (stages : ℕ → Stage) (h : ℕ) (f : Utcp → Conn → Option (Step α))
    (hopening : ∀ u c s, f u c = some s → Opening R u c s.conn s.events) :
    Triple (Stopped I n) (Allocated I n stages h) (onConn h f) (fun _ => Inv I n stages) := by
  intro w ha
  have hstop := (allocated_inv I ha).1.stopped
  obtain ⟨w₀, c, k, ⟨hw, hn⟩, hfresh, rfl, rfl⟩ := ha
  have hself : find
      (w₀.utcp.connections.orderedInsert portsLe (w₀.utcp.nextHandle, c)) w₀.utcp.nextHandle =
      some c := by
    rw [find_allocated I w₀ c stages hw, if_pos rfl]
  unfold onConn
  dsimp only at hstop ⊢
  rw [hself]
  dsimp only
  split
  · rename_i hresult
    split at hresult
    · simp at hresult
    rename_i s hs
    simp only [Prod.mk.injEq, Option.some.injEq] at hresult
    obtain ⟨-, rfl⟩ := hresult
    refine ⟨?_, Nat.le_succ_of_le hn⟩
    have hbelow := put_below _ w₀.utcp.nextHandle _ s.conn
      (orderedInsert_below portsLe w₀.utcp.connections w₀.utcp.nextHandle c hw.below)
    have hopened := holds_opened I stages w₀ c s.conn s.events _ _ s.pkt k hw hfresh
      (I.frame w₀.utcp _ w₀.utcp.pkt k (w₀.utcp.nextHandle + 1) hw.endpoint)
      (hopening _ c s hs) hbelow (find_put_self _ _ _ _ hself)
      (fun j hj => by
        rw [find_put_ne _ _ _ _ hj, find_allocated I w₀ c stages hw, if_neg hj])
    simpa using hopened
  · rename_i hresult
    split at hresult
    · simp only [Prod.mk.injEq] at hresult
      obtain ⟨-, rfl⟩ := hresult
      exact hstop
    · simp at hresult

/-- allocate_connection fails, or the handle it returns leads to a new connection. -/
theorem allocateConnection_triple (n : ℕ) (stages : ℕ → Stage) (e : Env) (src dst : UInt16) :
    Triple (Stopped I n) (Inv I n stages) (allocateConnection e src dst)
      (fun r w => match r with
        | none => Inv I n stages w
        | some h => Allocated I n stages h w) := by
  rintro w ⟨hw, hn⟩
  rcases allocateConnection_cases e src dst w with heq | ⟨k, heq⟩ | ⟨k, c, hfresh, heq⟩
  · rw [heq]
    exact ⟨hw, hn⟩
  · rw [heq]
    exact ⟨holds_nallocated I stages w k hw, hn⟩
  · rw [heq]
    exact ⟨w, c, k, ⟨hw, hn⟩, hfresh, rfl, rfl⟩

instance : Staying I n stages (freeConnection h) := by
  constructor
  apply Stays.update
  rintro w ⟨hw, hn⟩
  refine ⟨⟨hw.scripts, I.frame w.utcp _ w.utcp.pkt w.utcp.nallocated w.utcp.nextHandle hw.endpoint,
    remove_below _ _ _ hw.below, hw.traced, hw.positive, hw.quiet, hw.past, ?_⟩, hn⟩
  intro k c hk
  by_cases hkh : k = h
  · subst k
    rw [find_remove_self] at hk
    simp at hk
  · rw [find_remove_ne _ _ _ hkh] at hk
    exact hw.conn k c hk

/-- A change that moves every connection and sends nothing. -/
theorem mapConns_stays (n : ℕ) (stages : ℕ → Stage) (f : Utcp → Conn → Conn)
    (hmove : ∀ u st c, Move R u st c st (f u c) []) :
    Staying I n stages (update fun w => { w with utcp := mapConns f w.utcp }) := by
  constructor
  apply Stays.update
  rintro w ⟨hw, hn⟩
  refine ⟨⟨hw.scripts, I.frame w.utcp _ w.utcp.pkt w.utcp.nallocated w.utcp.nextHandle hw.endpoint,
    map_below _ _ _ hw.below, hw.traced, hw.positive, hw.quiet, hw.past, ?_⟩, hn⟩
  intro k c hk
  rw [show find (mapConns f w.utcp).connections k =
    (find w.utcp.connections k).map (f w.utcp) from find_map _ _ _] at hk
  obtain ⟨d, hd, rfl⟩ := Option.map_eq_some_iff.mp hk
  have hkept := I.move w.utcp _ d _ _ _ _ hw.endpoint (hw.conn k d hd) (hmove w.utcp _ d)
  rwa [List.append_nil] at hkept

/-- A handle read from the state is an old one from then on. -/
theorem stays_known (x : Command World α) (hx : ∀ m [Fact (Known m h)], Staying I m stages x) :
    Triple (Stopped I n) (fun w => Inv I n stages w ∧ h < w.utcp.nextHandle) x
      (fun _ => Inv I n stages) := by
  rintro w ⟨hw, hlt⟩
  have hmax : n ≤ max n (h + 1) := Nat.le_max_left _ _
  have hknown : Fact (Known (max n (h + 1)) h) := ⟨Or.inl (Nat.le_max_right _ _)⟩
  have hstep := (hx (max n (h + 1))).stays w ⟨hw.1, Nat.max_le.mpr ⟨hw.2, hlt⟩⟩
  cases hxs : x w with
  | mk value w' =>
    rw [hxs] at hstep
    cases value with
    | none =>
      obtain ⟨last, hlast⟩ := hstep
      exact ⟨last, hlast.mono hmax⟩
    | some a => exact hstep.mono hmax

theorem utcpConnect_stays (n : ℕ) (stages : ℕ → Stage) (e : Env) (dst : UInt16) (recv : Bool)
    (flags : UInt32) (he : R.okEnv e) : Stays I n stages (utcpConnect e dst recv flags) := by
  apply Triple.bind (allocateConnection_triple I n stages e 0 dst)
  intro r
  cases r with
  | none => exact Staying.stays
  | some h =>
    dsimp only
    split
    · exact Triple.stop fun _ hw => (allocated_inv I hw).1.stopped
    apply opening_triple
    intro u c s hs
    cases hs
    exact .connect e recv flags c he

/-- A connection leaves the last stages of a packet. -/
theorem inv_settle {n h : ℕ} {st : Stage} {w : World} (hw : Inv I n (only h st) w)
    (hst : Settled st) : Inv I n (fun _ => .idle) w := by
  rw [← only_idle h]
  cases hf : find w.utcp.connections h with
  | some c => exact inv_record I hw hf (.settle st c hst)
  | none =>
    refine ⟨⟨hw.1.scripts, hw.1.endpoint, hw.1.below, hw.1.traced, hw.1.positive, ?_, hw.1.past,
      ?_⟩, hw.2⟩
    · intro k _
      rw [only_idle]
    intro k c hk
    have hkh : k ≠ h := by
      intro heq
      rw [heq, hf] at hk
      simp at hk
    rw [only_idle, ← only_ne h k st hkh]
    exact hw.1.conn k c hk

section Callbacks

variable {I} {cb : Command World Bool} [hcb : ∀ n stages, Staying I n stages cb]

section Known

variable {n h} {stages} [Fact (Known n h)] (errno : Errno)

instance : Staying I n stages (callRecvNull cb h errno) := by
  have hemit := emit_stays I n h stages _ (.recvNull errno)
  unfold callRecvNull
  infer_instance

instance (len : ℕ) : Staying I n stages (callPoll cb h len) := by
  have hemit := emit_stays I n h stages _ (.poll len)
  unfold callPoll
  infer_instance

instance : Staying I n stages (notifyClosed cb h errno) := by
  unfold notifyClosed
  infer_instance

end Known

variable (n : ℕ) (stages : ℕ → Stage)

omit hcb in
/-- Going through the table by index, each handle that is found is an old one. -/
theorem entry_stays (i : ℕ) (stages : ℕ → Stage) {f : Option (ℕ × Conn) → Command World α}
    (hnone : Staying I n stages (f none))
    (hsome : ∀ h c m [Fact (Known m h)], Staying I m stages (f (some (h, c)))) :
    Staying I n stages ((gets fun w : World => w.utcp.connections[i]?) >>= f) := by
  constructor
  refine Triple.bind (Q := fun r w => Inv I n stages w ∧
    ∀ h c, r = some (h, c) → h < w.utcp.nextHandle) (Triple.gets _ fun w hw => ⟨hw, ?_⟩) fun r => ?_
  · intro h c hentry
    exact hw.1.below (h, c) (List.mem_of_getElem? hentry)
  cases r with
  | none => exact hnone.stays.pre fun _ hw => hw.1
  | some entry =>
    exact (stays_known I n entry.1 stages _ (hsome entry.1 entry.2)).pre
      fun w hw => ⟨hw.1, hw.2 _ _ rfl⟩

instance (n : ℕ) (stages : ℕ → Stage) (fuel i : ℕ) :
    Staying I n stages (resetAllFrom cb fuel i) := by
  induction fuel generalizing n i with
  | zero => exact Staying.pure ()
  | succ fuel ih =>
    refine entry_stays n i stages (Staying.pure ()) fun h c m _ => ?_
    have hreset : Staying I m stages (onConn h fun u c => some (resetConnection u c)) := by
      apply onConn_stays
      intro u st d s hs
      cases hs
      exact .reset st d
    dsimp only
    infer_instance

omit hcb in
/-- A change of the endpoint's own settings. -/
theorem settings_stays (f : Utcp → Utcp)
    (hsame : ∀ u, (f u).connections = u.connections ∧ (f u).nextHandle = u.nextHandle)
    (hendpoint : ∀ u, I.endpoint u → I.endpoint (f u)) :
    Staying I n stages (update fun w : World => { w with utcp := f w.utcp }) := by
  constructor
  apply Stays.update
  rintro w ⟨hw, hn⟩
  obtain ⟨hconn, hnext⟩ := hsame w.utcp
  refine ⟨⟨hw.scripts, hendpoint _ hw.endpoint, ?_, ?_, ?_, ?_, hw.past, ?_⟩, ?_⟩
  · simpa only [hconn, hnext] using hw.below
  · simpa only [hnext] using hw.traced
  · simpa only [hnext] using hw.positive
  · simpa only [hnext] using hw.quiet
  · simpa only [hconn] using hw.conn
  · simpa only [hnext] using hn

omit hcb in
theorem setMtu_same (e : Env) (mtu : UInt16) (u : Utcp) :
    (setMtu e mtu u).connections = u.connections ∧ (setMtu e mtu u).nextHandle = u.nextHandle := by
  unfold setMtu
  split
  · exact ⟨rfl, rfl⟩
  · split
    · exact ⟨rfl, rfl⟩
    · exact ⟨rfl, rfl⟩

theorem perform_stays (call : Call) (hcall : R.okCall call) :
    Staying I n stages (perform cb call) := by
  have hendpoint := fun u => I.request u call hcall
  obtain ⟨request, e⟩ := call
  obtain ⟨he, -, hop⟩ := hcall
  cases request with
  | on h op =>
    have hcall := onConn_stays I n h stages (connCall e op)
      fun u st c s hs => .call st e op c s he (hop h op rfl) hs
    exact Staying.bind
  | connect dst recv flags => exact ⟨utcpConnect_stays I n stages e dst recv flags he⟩
  | setMtu mtu => exact settings_stays n stages (setMtu e mtu) (setMtu_same e mtu) hendpoint
  | setUserTimeout timeout =>
    exact settings_stays n stages (fun u => { u with timeout := timeout }) (fun _ => ⟨rfl, rfl⟩)
      hendpoint
  | setAcceptCb accept listen =>
    exact settings_stays n stages (fun u => { u with accept := accept, listen := listen })
      (fun _ => ⟨rfl, rfl⟩) hendpoint
  | setRetransmitCb installed =>
    exact settings_stays n stages (fun u => { u with retransmit := installed })
      (fun _ => ⟨rfl, rfl⟩) hendpoint
  | setClockGranularity granularity =>
    exact settings_stays n stages (fun u => { u with clockGranularity := granularity })
      (fun _ => ⟨rfl, rfl⟩) hendpoint
  | resetTimers => exact mapConns_stays I n stages _ fun u st c => .resetTimers st e c he
  | offline off => exact mapConns_stays I n stages _ fun u st c => .offline st e off c he
  | resetAll => exact Staying.bind

theorem performAll_stays (calls : List Call) (hcalls : ∀ call ∈ calls, R.okCall call) :
    Staying I n stages (performAll cb calls) := by
  induction calls with
  | nil => exact Staying.pure ()
  | cons call rest ih =>
    have hfirst : Staying I n stages (perform cb call) :=
      perform_stays n stages call (hcalls call (List.mem_cons_self ..))
    have hrest := ih fun c hc => hcalls c (List.mem_cons_of_mem _ hc)
    exact Staying.bind

end Callbacks

end Meshlink.WorldMoves
