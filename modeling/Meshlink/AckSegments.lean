import Meshlink.SendAtomicity

/-!
The segments that one call of ack sends. The amount is computed from two windows
with signed and unsigned numbers and cut to whole segments; the loop then takes a
segment's worth off it until nothing is left. A FIN takes a sequence number but no
payload, and only the segment that reaches the end of the stream can carry it.
-/
namespace Meshlink.AckSegments

open SerialNumbers RingMemory UtcpState UtcpSender

def segments (events : List Ev) : List Packet :=
  events.filterMap fun
    | .segment p => some p
    | _ => none

/-- The sequence numbers that a segment takes. -/
def span (p : Packet) : ℕ := p.body.length + if p.hdr.ctl.fin then 1 else 0

/-- Each segment starts where the one before it ends, from the first number to the last. -/
def Consecutive : UInt32 → UInt32 → List Packet → Prop
  | first, last, [] => first = last
  | first, last, p :: rest => p.hdr.seq = first ∧ Consecutive (place first (span p)) last rest

def sendWindow (c : Conn) : UInt32 := min c.sndCwnd c.sndWnd

def inFlight (c : Conn) : ℕ := (c.sndNxt - c.sndUna).toNat

/-- What a call of ack on `c` has sent when it leaves `s`. -/
structure Emitted (u : Utcp) (c : Conn) (sendatleastone : Bool) (s : Step Unit) : Prop where
  consecutive : Consecutive c.sndNxt s.conn.sndNxt (segments s.events)
  payload : ∀ p ∈ segments s.events, p.body.length ≤ u.mss
  window : inFlight s.conn ≤ (sendWindow c).toNat ∨ inFlight s.conn = inFlight c
  whole : sendatleastone = false → s.conn.sndNxt = c.sndLast ∨
    ∀ p ∈ segments s.events, p.body.length = u.mss ∧ p.hdr.ctl.fin = false

section Segment

variable (u : Utcp) (now : Timespec)

/-- The loop has `left` to send, which does not go beyond the end of the stream, and
has not sent a FIN. -/
structure Sending (l : AckLoop) (total : ℕ) : Prop where
  left_le : l.left ≤ total
  total_lt : total < 2 ^ 31
  last : l.conn.sndLast = place l.conn.sndNxt total
  fin : l.ctl.fin = false

variable {u now} {l : AckLoop} {total : ℕ}

theorem ackSegment_left : (ackSegment u now l).1.left = l.left - min l.left u.mss := rfl

theorem ackSegment_nxt :
    (ackSegment u now l).1.conn.sndNxt = place l.conn.sndNxt (min l.left u.mss) := rfl

/-- A FIN is only wanted by the segment that ends the stream. -/
theorem finWanted_of_lt (h : Sending l total) {n : ℕ} (hn : n < total) :
    finWanted l.conn (place l.conn.sndNxt n) = false := by
  have hne : place l.conn.sndNxt n ≠ l.conn.sndLast := by
    rw [h.last]
    intro heq
    have htotal := h.total_lt
    have hsame := place_injective l.conn.sndNxt n total heq (by omega) (by omega)
    omega
  unfold finWanted
  rw [if_pos hne]

/-- The next segment carries a FIN. -/
def carriesFin (u : Utcp) (l : AckLoop) : Bool :=
  decide (min l.left u.mss ≠ 0) && finWanted l.conn (place l.conn.sndNxt (min l.left u.mss))

theorem ackSegment_fin (h : Sending l total) :
    (ackSegment u now l).2.hdr.ctl.fin = carriesFin u l ∧
      (ackSegment u now l).1.ctl.fin = carriesFin u l := by
  have hkept : (if isReliable l.conn then l.ctl else
      {l.ctl with mf := decide (l.left - min l.left u.mss ≠ 0)}).fin = false := by
    split
    · exact h.fin
    · exact h.fin
  have hctl : ∀ ctl : Ctl, ctl.fin = false →
      (if carriesFin u l then {ctl with fin := true} else ctl).fin = carriesFin u l := by
    intro ctl hctl
    cases carriesFin u l with
    | true => rfl
    | false => exact hctl
  exact ⟨hctl _ hkept, hctl _ hkept⟩

theorem ackSegment_body : (ackSegment u now l).2.body.length =
    if carriesFin u l then min l.left u.mss - 1 else min l.left u.mss :=
  window_length _ _ _

theorem ackSegment_span (h : Sending l total) : span (ackSegment u now l).2 = min l.left u.mss := by
  unfold span
  rw [ackSegment_body, (ackSegment_fin h).1]
  cases hfin : carriesFin u l with
  | false => rfl
  | true =>
    have hpos : min l.left u.mss ≠ 0 := by
      unfold carriesFin at hfin
      rw [Bool.and_eq_true, decide_eq_true_eq] at hfin
      exact hfin.1
    simp only [ite_true]
    omega

/-- While something is left after a segment, the loop goes on in the same way. -/
theorem ackSegment_sending (h : Sending l total) (hleft : (ackSegment u now l).1.left ≠ 0) :
    Sending (ackSegment u now l).1 (total - min l.left u.mss) := by
  have hle := h.left_le
  have htotal := h.total_lt
  rw [ackSegment_left] at hleft
  refine ⟨?_, by omega, ?_, ?_⟩
  · rw [ackSegment_left]
    omega
  · change l.conn.sndLast = _
    rw [ackSegment_nxt, place_add, h.last]
    congr 1
    omega
  · rw [(ackSegment_fin h).2]
    unfold carriesFin
    rw [finWanted_of_lt h (by omega), Bool.and_false]

end Segment

section Loop

variable {u : Utcp} {now : Timespec} {l : AckLoop} {total : ℕ}

variable (fuel : ℕ)

theorem ackLoop_stop (h : (ackSegment u now l).1.left = 0) :
    ackLoop u now fuel l = ((ackSegment u now l).1, [.segment (ackSegment u now l).2]) := by
  cases fuel with
  | zero => rfl
  | succ fuel =>
    unfold ackLoop
    exact if_pos h

theorem ackLoop_next (h : (ackSegment u now l).1.left ≠ 0) :
    ackLoop u now (fuel + 1) l = ((ackLoop u now fuel (ackSegment u now l).1).1,
      .segment (ackSegment u now l).2 :: (ackLoop u now fuel (ackSegment u now l).1).2) := by
  rw [ackLoop]
  exact if_neg h

/-- Each round of the loop takes something off what is left. -/
theorem ackSegment_lt (h : (ackSegment u now l).1.left ≠ 0) :
    (ackSegment u now l).1.left < l.left := by
  have hmss := u.mss_pos
  rw [ackSegment_left] at h ⊢
  omega

theorem ackLoop_succ (h : l.left ≤ fuel) : ackLoop u now (fuel + 1) l = ackLoop u now fuel l := by
  induction fuel generalizing l with
  | zero =>
    have hstop : (ackSegment u now l).1.left = 0 := by
      rw [ackSegment_left]
      omega
    rw [ackLoop_stop 1 hstop, ackLoop_stop 0 hstop]
  | succ fuel ih =>
    by_cases hstop : (ackSegment u now l).1.left = 0
    · rw [ackLoop_stop _ hstop, ackLoop_stop _ hstop]
    · have hlt := ackSegment_lt hstop
      rw [ackLoop_next _ hstop, ackLoop_next _ hstop, ih (by omega)]

/-- The loop ends by itself: more rounds than there is left to send change nothing. -/
theorem ackLoop_ends (u : Utcp) (now : Timespec) (l : AckLoop) (fuel : ℕ) (h : l.left ≤ fuel) :
    ackLoop u now fuel l = ackLoop u now l.left l := by
  induction fuel with
  | zero => rw [Nat.le_zero.mp h]
  | succ fuel ih =>
    by_cases heq : l.left = fuel + 1
    · rw [heq]
    · rw [ackLoop_succ fuel (by omega), ih (by omega)]

/-- What the loop has sent when it ends. -/
structure Looped (u : Utcp) (l : AckLoop) (total : ℕ) (r : AckLoop × List Ev) : Prop where
  nxt : r.1.conn.sndNxt = place l.conn.sndNxt l.left
  una : r.1.conn.sndUna = l.conn.sndUna
  consecutive : Consecutive l.conn.sndNxt r.1.conn.sndNxt (segments r.2)
  payload : ∀ p ∈ segments r.2, p.body.length ≤ u.mss
  full : l.left % u.mss = 0 → 0 < l.left → l.left < total →
    ∀ p ∈ segments r.2, p.body.length = u.mss ∧ p.hdr.ctl.fin = false

theorem ackSegment_payload : (ackSegment u now l).2.body.length ≤ u.mss := by
  rw [ackSegment_body]
  split
  · omega
  · omega

theorem ackSegment_full (h : Sending l total) (hmod : l.left % u.mss = 0) (hpos : 0 < l.left)
    (hlt : l.left < total) :
    (ackSegment u now l).2.body.length = u.mss ∧ (ackSegment u now l).2.hdr.ctl.fin = false := by
  have hmss : u.mss ≤ l.left := Nat.le_of_dvd hpos (Nat.dvd_of_mod_eq_zero hmod)
  have hmin : min l.left u.mss = u.mss := by omega
  have hfin : carriesFin u l = false := by
    unfold carriesFin
    rw [finWanted_of_lt h (by omega), Bool.and_false]
  rw [ackSegment_body, (ackSegment_fin h).1, hfin, hmin]
  exact ⟨rfl, rfl⟩

theorem looped_stop (h : Sending l total) (hstop : (ackSegment u now l).1.left = 0) :
    Looped u l total ((ackSegment u now l).1, [.segment (ackSegment u now l).2]) := by
  have hall : min l.left u.mss = l.left := by
    rw [ackSegment_left] at hstop
    omega
  have hnxt : (ackSegment u now l).1.conn.sndNxt = place l.conn.sndNxt l.left := by
    rw [ackSegment_nxt, hall]
  refine ⟨hnxt, rfl, ⟨rfl, ?_⟩, ?_, ?_⟩
  · change place l.conn.sndNxt (span (ackSegment u now l).2) = (ackSegment u now l).1.conn.sndNxt
    rw [ackSegment_span h, hall, hnxt]
  · intro p hp
    rw [List.mem_singleton.mp hp]
    exact ackSegment_payload
  · intro hmod hpos hlt p hp
    rw [List.mem_singleton.mp hp]
    exact ackSegment_full h hmod hpos hlt

theorem looped_next (h : Sending l total) (hstop : (ackSegment u now l).1.left ≠ 0)
    {r : AckLoop × List Ev}
    (hrest : Looped u (ackSegment u now l).1 (total - min l.left u.mss) r) :
    Looped u l total (r.1, .segment (ackSegment u now l).2 :: r.2) := by
  have hleft : (ackSegment u now l).1.left = l.left - min l.left u.mss := ackSegment_left
  refine ⟨?_, hrest.una, ⟨rfl, ?_⟩, ?_, ?_⟩
  · rw [hrest.nxt, ackSegment_nxt, place_add, hleft]
    congr 1
    omega
  · change Consecutive (place l.conn.sndNxt (span (ackSegment u now l).2)) r.1.conn.sndNxt _
    rw [ackSegment_span h]
    exact hrest.consecutive
  · intro p hp
    rcases List.mem_cons.mp hp with rfl | hp
    · exact ackSegment_payload
    · exact hrest.payload p hp
  · intro hmod hpos hlt p hp
    rcases List.mem_cons.mp hp with rfl | hp
    · exact ackSegment_full h hmod hpos hlt
    have hmss : u.mss ≤ l.left := Nat.le_of_dvd hpos (Nat.dvd_of_mod_eq_zero hmod)
    have hmin : min l.left u.mss = u.mss := by omega
    have hmod' : (l.left - u.mss) % u.mss = 0 := by
      rw [← Nat.mod_eq_sub_mod hmss]
      exact hmod
    apply hrest.full _ _ _ p hp
    · rw [hleft, hmin]
      exact hmod'
    · omega
    · rw [hleft, hmin]
      omega

theorem ackLoop_looped (h : Sending l total) (fuel : ℕ) (hfuel : l.left ≤ fuel) :
    Looped u l total (ackLoop u now fuel l) := by
  -- the induction follows the rounds of the loop
  induction fuel generalizing l total with
  | zero =>
    have hstop : (ackSegment u now l).1.left = 0 := by
      rw [ackSegment_left]
      omega
    rw [ackLoop_stop 0 hstop]
    exact looped_stop h hstop
  | succ fuel ih =>
    by_cases hstop : (ackSegment u now l).1.left = 0
    · rw [ackLoop_stop _ hstop]
      exact looped_stop h hstop
    · have hlt := ackSegment_lt hstop
      rw [ackLoop_next _ hstop]
      exact looped_next h hstop (ih (ackSegment_sending h hstop) (by omega))

end Loop

section Call

variable {u : Utcp} {now : Timespec} {c : Conn} {sendatleastone : Bool}

/-- The free part of the window is what is not in flight, when there is any. -/
theorem window_left (horder : 0 ≤ seqdiff c.sndNxt c.sndUna)
    (hpos : 0 < signed (sendWindow c - (c.sndNxt - c.sndUna))) :
    signed (sendWindow c - (c.sndNxt - c.sndUna)) + inFlight c = (sendWindow c).toNat := by
  have hflight : signed (c.sndNxt - c.sndUna) = inFlight c := signed_of_nonneg _ horder
  have hhalf := signed_upper (c.sndNxt - c.sndUna)
  have hfree := signed_of_nonneg _ (Int.le_of_lt hpos)
  have hfreehalf := signed_upper (sendWindow c - (c.sndNxt - c.sndUna))
  have hsub := UInt32.toNat_sub (sendWindow c) (c.sndNxt - c.sndUna)
  have hwindow := (sendWindow c).toNat_lt
  unfold inFlight at *
  rw [hfree] at hpos hfreehalf ⊢
  omega

/-- What is left to send, cut to the free part of the window. -/
def cutLeft (mss : ℕ) (sendatleastone : Bool) (left free : Int) : ℕ :=
  if free ≤ 0 then 0
  else if free < left then
    if !sendatleastone || decide (free > mss) then (free - free % mss).toNat else free.toNat
  else left.toNat

theorem ackLeft_eq (hrel : isReliable c = true) : ackLeft u c sendatleastone =
    cutLeft u.mss sendatleastone (seqdiff c.sndLast c.sndNxt)
      (signed (sendWindow c - (c.sndNxt - c.sndUna))) := by
  unfold ackLeft
  rw [hrel]
  rfl

/-- A number cut down to a multiple. -/
theorem cut_to_whole (n m : ℕ) : ((n : Int) - (n : Int) % m).toNat = m * (n / m) := by
  have hsplit := Nat.div_add_mod n m
  omega

/-- Without at least one, the cut leaves everything or whole segments. -/
theorem cutLeft_cases (mss : ℕ) (sendatleastone : Bool) (left free : Int) :
    cutLeft mss sendatleastone left free = 0 ∨
      (0 < free ∧ (cutLeft mss sendatleastone left free : Int) ≤ free ∧
        (cutLeft mss sendatleastone left free : Int) ≤ max left 0 ∧
        (sendatleastone = false → cutLeft mss sendatleastone left free = left.toNat ∨
          (cutLeft mss sendatleastone left free % mss = 0 ∧
            (cutLeft mss sendatleastone left free : Int) < left))) := by
  unfold cutLeft
  split
  · exact Or.inl rfl
  rename_i hpos
  right
  obtain ⟨n, rfl⟩ := Int.eq_ofNat_of_zero_le (show 0 ≤ free by omega)
  split
  · rename_i hlt
    split
    · rw [cut_to_whole]
      have hle : mss * (n / mss) ≤ n := Nat.mul_div_le n mss
      refine ⟨by omega, by omega, by omega, fun _ => Or.inr ⟨Nat.mul_mod_right _ _, by omega⟩⟩
    rename_i hkeep
    refine ⟨by omega, by omega, by omega, ?_⟩
    intro hone
    rw [hone] at hkeep
    exact absurd rfl hkeep
  · exact ⟨by omega, by omega, by omega, fun _ => Or.inl rfl⟩

theorem sub_toNat_place (a b : UInt32) (n : ℕ) :
    (place a n - b).toNat = ((a - b).toNat + n) % 2 ^ 32 := by
  simp only [place, UInt32.toNat_sub, UInt32.toNat_add, UInt32.toNat_ofNat']
  have ha := a.toNat_lt
  have hb := b.toNat_lt
  omega

theorem emitted_of_looped {l : AckLoop} {total : ℕ} {r : AckLoop × List Ev}
    (h : Looped u l total r) (hconn : l.conn = c)
    (hwindow : l.left = 0 ∨ l.left + inFlight c ≤ (sendWindow c).toNat)
    (hwhole : sendatleastone = false → c.sndLast = place c.sndNxt l.left ∨
      (l.left % u.mss = 0 ∧ 0 < l.left ∧ l.left < total)) :
    Emitted u c sendatleastone ⟨r.1.conn, r.1.pkt, r.2, ()⟩ := by
  subst hconn
  refine ⟨h.consecutive, h.payload, ?_, ?_⟩
  · have hflight : inFlight r.1.conn = (inFlight l.conn + l.left) % 2 ^ 32 := by
      unfold inFlight
      rw [h.nxt, h.una]
      exact sub_toNat_place _ _ _
    have hlt := (sendWindow l.conn).toNat_lt
    have hold : inFlight l.conn < 2 ^ 32 := UInt32.toNat_lt _
    dsimp only
    rw [hflight]
    rcases hwindow with hzero | hfits
    · right
      omega
    · left
      omega
  · intro hone
    rcases hwhole hone with hall | ⟨hmod, hpos, hlt⟩
    · exact Or.inl (h.nxt.trans hall.symm)
    · exact Or.inr (h.full hmod hpos hlt)

/-- One call of ack on a reliable connection ends, and sends consecutive segments of at
most the segment size that respect the windows. -/
theorem ack_emits (u : Utcp) (now : Timespec) (c : Conn) (sendatleastone : Bool)
    (hrel : isReliable c = true) (horder : 0 ≤ seqdiff c.sndNxt c.sndUna)
    (hlast : 0 ≤ seqdiff c.sndLast c.sndNxt) :
    (∃ s, UtcpSender.ack u now c sendatleastone = some s ∧ Emitted u c sendatleastone s) ∧
      ∀ l fuel, l.left ≤ fuel → ackLoop u now fuel l = ackLoop u now l.left l := by
  refine ⟨?_, ackLoop_ends u now⟩
  have htotal := eq_place_of_distance c.sndLast c.sndNxt hlast
  have hhalf : seqdiff c.sndLast c.sndNxt < 2 ^ 31 := signed_upper _
  change c.sndLast = place c.sndNxt (seqdiff c.sndLast c.sndNxt).toNat at htotal
  have hcases := cutLeft_cases u.mss sendatleastone (seqdiff c.sndLast c.sndNxt)
    (signed (sendWindow c - (c.sndNxt - c.sndUna)))
  rw [← ackLeft_eq hrel] at hcases
  set left := ackLeft u c sendatleastone with hleft
  unfold UtcpSender.ack
  rw [if_neg (by omega), ← hleft]
  dsimp only
  split
  · -- nothing is sent
    rename_i hnone
    refine ⟨_, rfl, rfl, by simp [segments], Or.inr rfl, fun _ => Or.inr (by simp [segments])⟩
  rename_i hsome
  refine ⟨_, rfl, ?_⟩
  set l : AckLoop := ⟨c, u.pkt, {ack := true}, UInt32.ofNat c.rcvbuf.maxsize, left⟩ with hl
  have hsending : Sending l (seqdiff c.sndLast c.sndNxt).toNat := by
    refine ⟨?_, by omega, htotal, rfl⟩
    change left ≤ _
    rcases hcases with hzero | hpart
    · omega
    · omega
  apply emitted_of_looped (ackLoop_looped hsending left (Nat.le_refl _)) rfl
  · rcases hcases with hzero | hpart
    · exact Or.inl hzero
    · have hwindow := window_left horder hpart.1
      change left = 0 ∨ left + inFlight c ≤ (sendWindow c).toNat
      omega
  · intro hone
    change c.sndLast = place c.sndNxt left ∨ left % u.mss = 0 ∧ 0 < left ∧ left < _
    have hpos : left ≠ 0 := fun hzero => hsome ⟨hzero, hone⟩
    rcases hcases with hzero | hpart
    · exact absurd hzero hpos
    rcases hpart.2.2.2 hone with hall | hwhole
    · left
      rw [hall]
      exact htotal
    · right
      omega

/-- An endpoint that sends two bytes to a segment. -/
def tinyUtcp : Utcp :=
  { SendAtomicity.sampleUtcp with mss := 2, mss_pos := by decide, mss_lt := by decide }

/-- Three bytes, all equal to 7, and the FIN are left to send. -/
def closingConn : Conn :=
  { SendAtomicity.sampleConn utcpTcp .finWait1 4 with
    sndUna := 101, sndNxt := 101, sndLast := 105, sndWnd := 1000
    sndbuf := ⟨fun _ => 7, 0, 3, 4, 4, false⟩ }

theorem ack_emits_closing :
    (isReliable closingConn = true ∧ 0 ≤ seqdiff closingConn.sndNxt closingConn.sndUna ∧
      0 ≤ seqdiff closingConn.sndLast closingConn.sndNxt) ∧
      ∃ s, UtcpSender.ack tinyUtcp ⟨1, 0⟩ closingConn false = some s ∧ s.conn.sndNxt = 105 ∧
        Emitted tinyUtcp closingConn false s ∧
        (segments s.events).map (fun p => (p.body, p.hdr.ctl.fin)) =
          [([7, 7], false), ([7], true)] := by
  refine ⟨by decide, ?_⟩
  have hemits := (ack_emits tinyUtcp ⟨1, 0⟩ closingConn false (by decide) (by decide)
    (by decide)).1
  obtain ⟨s, hs, hemitted⟩ := hemits
  refine ⟨s, hs, ?_⟩
  cases hs
  exact ⟨by decide, hemitted, by decide⟩

end Call

end Meshlink.AckSegments
