import Meshlink.UtcpReceiver

/-!
The first part of utcp_recv on the bytes of a packet: the header is copied out and
the chain of auxiliary headers is followed with a pointer and a remaining length.
Every copy out of the packet is recorded, so that what is read can be compared with
what was received. The host is little-endian. The rest of the development takes a
packet apart with parsePacket, which the bytes are shown to refine.
-/
namespace Meshlink.HeaderParsing

open UtcpState UtcpReceiver

variable (data : List UInt8)

def byteAt (p : ℕ) : UInt8 := data.getD p 0

def u16At (p : ℕ) : UInt16 :=
  (byteAt data p).toUInt16 ||| ((byteAt data (p + 1)).toUInt16 <<< 8)

def u32At (p : ℕ) : UInt32 :=
  (u16At data p).toUInt32 ||| ((u16At data (p + 2)).toUInt32 <<< 16)

def ctlOf (ctl : UInt16) : Ctl where
  syn := decide (ctl &&& 1 ≠ 0)
  ack := decide (ctl &&& 2 ≠ 0)
  fin := decide (ctl &&& 4 ≠ 0)
  rst := decide (ctl &&& 8 ≠ 0)
  mf := decide (ctl &&& 16 ≠ 0)
  other := decide (ctl &&& ~~~0x1f ≠ 0)

/-- The fields of struct hdr. -/
def hdrOf : Hdr where
  src := u16At data 0
  dst := u16At data 2
  seq := u32At data 4
  ack := u32At data 8
  wnd := u32At data 12
  ctl := ctlOf (u16At data 16)
  aux := u16At data 18

/-- A stretch of the packet that is copied. -/
structure Span where
  start : ℕ
  size : ℕ

/-- The variables ptr, len and init of utcp_recv, the pointers as offsets into the
packet, and what has been read. -/
structure Cursor where
  ptr : ℕ
  len : ℕ
  init : Option ℕ
  reads : List Span

/-- `init = ptr`, and the pointer moves past the auxiliary header. -/
def Cursor.passInit (c : Cursor) (auxlen : ℕ) : Cursor :=
  { c with init := some c.ptr, len := c.len - auxlen, ptr := c.ptr + auxlen }

/-- `memcpy(&aux, ptr, 2)`, and the pointer moves on. -/
def Cursor.readAux (c : Cursor) : Cursor :=
  { c with len := c.len - 2, ptr := c.ptr + 2, reads := c.reads ++ [⟨c.ptr, 2⟩] }

/-- How the parsing of a packet ends. -/
inductive Verdict
  | empty
  | malformed
  | complete (hdr : Hdr)

def auxLength (aux : UInt16) : ℕ := (4 * (aux.toNat >>> 8)) &&& 0xf

/-- The loop over the auxiliary headers; `none` is a loop that has not ended, and
`false` is EBADMSG. -/
def auxHeaders (data : List UInt8) (syn : Bool) : ℕ → UInt16 → Cursor → Option (Bool × Cursor)
  | 0, _, _ => none
  | fuel + 1, aux, c =>
      if aux = 0 then some (true, c)
      else if c.len < auxLength aux then some (false, c)
      else if aux &&& 0xff ≠ 1 then some (false, c)
      else if syn = false ∨ auxLength aux ≠ 4 then some (false, c)
      else
        let c := c.passInit (auxLength aux)
        if aux &&& 0x800 = 0 then some (true, c)
        else if c.len < 2 then some (false, c)
        else auxHeaders data syn fuel (u16At data c.ptr) c.readAux

/-- utcp_recv up to the end of the auxiliary headers. -/
def parse (fuel : ℕ) (data : List UInt8) : Option (Verdict × Cursor) :=
  let start : Cursor := ⟨0, data.length, none, []⟩
  if data.length = 0 then some (.empty, start)
  else if data.length < hdrSize then some (.malformed, start)
  else
    let hdr := hdrOf data
    let c : Cursor := ⟨hdrSize, data.length - hdrSize, none, [⟨0, hdrSize⟩]⟩
    if hdr.ctl.other then some (.malformed, c)
    else (auxHeaders data hdr.ctl.syn fuel hdr.aux c).map fun
      | (true, c) => (.complete hdr, c)
      | (false, c) => (.malformed, c)

/-- The bytes that are left for the connection. -/
def payload (c : Cursor) : List UInt8 := (data.drop c.ptr).take c.len

/-- The auxiliary parts that a first aux field announces: an init header of four bytes,
and after it another aux field when bit 11 is set. -/
inductive Chain : UInt16 → List (List UInt8) → Prop
  | stop : Chain 0 []
  | last (aux : UInt16) (init : List UInt8) (htype : aux &&& 0xff = 1) (hlen : auxLength aux = 4)
      (hinit : init.length = 4) (hmore : aux &&& 0x800 = 0) : Chain aux [init]
  | more (aux : UInt16) (init : List UInt8) (low high : UInt8) (parts : List (List UInt8))
      (htype : aux &&& 0xff = 1) (hlen : auxLength aux = 4) (hinit : init.length = 4)
      (hmore : aux &&& 0x800 ≠ 0)
      (hrest : Chain (low.toUInt16 ||| (high.toUInt16 <<< 8)) parts) :
      Chain aux (init :: [low, high] :: parts)

/-- Pointer and length describe the rest of the packet, the init pointer is behind the
pointer, and nothing was read beyond the end. -/
structure Cursor.Inside (data : List UInt8) (c : Cursor) : Prop where
  whole : c.ptr + c.len = data.length
  init : ∀ p, c.init = some p → hdrSize ≤ p ∧ p + 4 ≤ c.ptr
  reads : ∀ r ∈ c.reads, r.start + r.size ≤ data.length
  header : hdrSize ≤ c.ptr

section Loop

variable {data : List UInt8} {c : Cursor}

theorem drop_eq_byteAt_cons {p : ℕ} (h : p < data.length) :
    data.drop p = byteAt data p :: data.drop (p + 1) := by
  rw [List.drop_eq_getElem_cons h, byteAt, List.getD_eq_getElem?_getD, List.getElem?_eq_getElem h]
  rfl

theorem Cursor.Inside.passInit (hc : c.Inside data) (hlen : 4 ≤ c.len) :
    (c.passInit 4).Inside data where
  whole := by
    have hwhole := hc.whole
    change c.ptr + 4 + (c.len - 4) = data.length
    omega
  init := by
    intro p hp
    cases hp
    exact ⟨hc.header, Nat.le_refl _⟩
  reads := hc.reads
  header := hc.header.trans (Nat.le_add_right _ _)

theorem Cursor.Inside.readAux (hc : c.Inside data) (hlen : 2 ≤ c.len) : c.readAux.Inside data where
  whole := by
    have hwhole := hc.whole
    change c.ptr + 2 + (c.len - 2) = data.length
    omega
  init := by
    intro p hp
    obtain ⟨hle, hptr⟩ := hc.init p hp
    exact ⟨hle, hptr.trans (Nat.le_add_right _ _)⟩
  reads := by
    intro r hr
    rcases List.mem_append.mp hr with hr | hr
    · exact hc.reads r hr
    rw [List.mem_singleton.mp hr]
    have hwhole := hc.whole
    change c.ptr + 2 ≤ data.length
    omega
  header := hc.header.trans (Nat.le_add_right _ _)

/-- The four bytes of an init header. -/
def fourAt (data : List UInt8) (p : ℕ) : List UInt8 :=
  [byteAt data p, byteAt data (p + 1), byteAt data (p + 2), byteAt data (p + 3)]

theorem drop_four {p : ℕ} (h : p + 4 ≤ data.length) :
    data.drop p = fourAt data p ++ data.drop (p + 4) := by
  rw [drop_eq_byteAt_cons (by omega), drop_eq_byteAt_cons (by omega : p + 1 < data.length),
    drop_eq_byteAt_cons (by omega : p + 2 < data.length),
    drop_eq_byteAt_cons (by omega : p + 3 < data.length)]
  rfl

theorem drop_two {p : ℕ} (h : p + 2 ≤ data.length) :
    data.drop p = [byteAt data p, byteAt data (p + 1)] ++ data.drop (p + 2) := by
  rw [drop_eq_byteAt_cons (by omega), drop_eq_byteAt_cons (by omega : p + 1 < data.length)]
  rfl

/-- Enough iterations for what is left of the packet end the loop inside the packet,
and what a successful loop has passed is a chain of auxiliary parts. -/
def Ends (data : List UInt8) (syn : Bool) (aux : UInt16) (c : Cursor) : Prop :=
  ∃ ok c', (∀ k, c.len ≤ k → auxHeaders data syn (k + 1) aux c = some (ok, c')) ∧
    c'.Inside data ∧
    (ok = true → ∃ parts, Chain aux parts ∧ data.drop c.ptr = parts.flatten ++ data.drop c'.ptr)

theorem auxHeaders_ends (syn : Bool) (n : ℕ) (aux : UInt16) (hc : c.Inside data) (hn : c.len < n) :
    Ends data syn aux c := by
  induction n generalizing aux c with
  | zero => exact absurd hn (Nat.not_lt_zero _)
  | succ n ih =>
    have hrefused (heq : ∀ k, auxHeaders data syn (k + 1) aux c = some (false, c)) :
        Ends data syn aux c := ⟨false, c, fun k _ => heq k, hc, fun h => absurd h (by decide)⟩
    by_cases hzero : aux = 0
    · refine ⟨true, c, fun k _ => ?_, hc, fun _ => ⟨[], hzero ▸ Chain.stop, rfl⟩⟩
      rw [auxHeaders, if_pos hzero]
    by_cases hshort : c.len < auxLength aux
    · exact hrefused fun k => by rw [auxHeaders, if_neg hzero, if_pos hshort]
    by_cases htype : aux &&& 0xff ≠ 1
    · exact hrefused fun k => by rw [auxHeaders, if_neg hzero, if_neg hshort, if_pos htype]
    by_cases hbad : syn = false ∨ auxLength aux ≠ 4
    · exact hrefused fun k => by
        rw [auxHeaders, if_neg hzero, if_neg hshort, if_neg htype, if_pos hbad]
    have hfour : auxLength aux = 4 := not_not.mp fun h => hbad (.inr h)
    rw [hfour] at hshort
    have hinside := hc.passInit (Nat.not_lt.mp hshort)
    have hwhole := hc.whole
    have hpass := drop_four (by omega : c.ptr + 4 ≤ data.length)
    have haccepted (k : ℕ) : auxHeaders data syn (k + 1) aux c =
        if aux &&& 0x800 = 0 then some (true, c.passInit 4)
        else if (c.passInit 4).len < 2 then some (false, c.passInit 4)
        else auxHeaders data syn k (u16At data (c.ptr + 4)) (c.passInit 4).readAux := by
      rw [auxHeaders, if_neg hzero, hfour, if_neg hshort, if_neg htype, if_neg]
      · rfl
      · exact fun h => hbad (h.imp_right fun h => absurd rfl h)
    by_cases hmore : aux &&& 0x800 = 0
    · refine ⟨true, c.passInit 4, fun k _ => ?_, hinside, fun _ => ?_⟩
      · rw [haccepted, if_pos hmore]
      · refine ⟨[fourAt data c.ptr], .last aux _ (not_not.mp htype) hfour rfl hmore, ?_⟩
        rw [hpass, List.flatten_singleton]
        rfl
    by_cases hend : (c.passInit 4).len < 2
    · refine ⟨false, c.passInit 4, fun k _ => ?_, hinside, fun h => absurd h (by decide)⟩
      rw [haccepted, if_neg hmore, if_pos hend]
    have hleft : (c.passInit 4).readAux.len + 6 = c.len := by
      change ¬c.len - 4 < 2 at hend
      change c.len - 4 - 2 + 6 = c.len
      omega
    obtain ⟨ok, c', hruns, hinside', hchain⟩ :=
      ih (u16At data (c.ptr + 4)) (hinside.readAux (Nat.not_lt.mp hend)) (by omega)
    refine ⟨ok, c', fun k hk => ?_, hinside', fun hok => ?_⟩
    · rw [haccepted, if_neg hmore, if_neg hend, ← Nat.sub_add_cancel (by omega : 1 ≤ k)]
      exact hruns (k - 1) (by omega)
    obtain ⟨parts, hparts, hrest⟩ := hchain hok
    refine ⟨_, .more aux (fourAt data c.ptr) _ _ parts (not_not.mp htype) hfour rfl hmore
      hparts, ?_⟩
    rw [hpass, drop_two (by omega : c.ptr + 4 + 2 ≤ data.length)]
    change _ ++ (_ ++ data.drop (c.passInit 4).readAux.ptr) = _
    rw [hrest]
    simp only [List.flatten_cons, List.append_assoc]

end Loop

/-- Every packet is parsed to the end without a read beyond its end. A packet that passes
is its header, a chain of auxiliary parts and the payload, and the init pointer is at
four bytes of it. -/
theorem packet_parsed_inside (data : List UInt8) :
    ∃ verdict c, (∀ fuel, data.length ≤ fuel → parse fuel data = some (verdict, c)) ∧
      (∀ r ∈ c.reads, r.start + r.size ≤ data.length) ∧
      ∀ hdr, verdict = .complete hdr →
        (∀ p, c.init = some p → hdrSize ≤ p ∧ p + 4 ≤ data.length) ∧
        ∃ parts, Chain hdr.aux parts ∧
          data = data.take hdrSize ++ parts.flatten ++ payload data c := by
  by_cases hempty : data.length = 0
  · refine ⟨.empty, ⟨0, data.length, none, []⟩, fun fuel _ => ?_, ?_, fun hdr h => nomatch h⟩
    · rw [parse, if_pos hempty]
    · exact fun r hr => absurd hr List.not_mem_nil
  by_cases hshort : data.length < hdrSize
  · refine ⟨.malformed, ⟨0, data.length, none, []⟩, fun fuel _ => ?_, ?_, fun hdr h => nomatch h⟩
    · rw [parse, if_neg hempty, if_pos hshort]
    · exact fun r hr => absurd hr List.not_mem_nil
  have hstart : (⟨hdrSize, data.length - hdrSize, none, [⟨0, hdrSize⟩]⟩ : Cursor).Inside data := by
    refine ⟨by dsimp only; omega, fun _ hp => absurd hp.symm (Option.some_ne_none _),
      fun r hr => ?_, Nat.le_refl _⟩
    rw [List.mem_singleton.mp hr]
    dsimp only
    omega
  by_cases hother : (hdrOf data).ctl.other = true
  · refine ⟨.malformed, _, fun fuel _ => ?_, hstart.reads, fun hdr h => nomatch h⟩
    rw [parse, if_neg hempty, if_neg hshort, if_pos hother]
  obtain ⟨ok, c, hruns, hinside, hchain⟩ :=
    auxHeaders_ends (hdrOf data).ctl.syn data.length (hdrOf data).aux hstart
      (by dsimp only [hdrSize]; omega)
  have hparse (fuel : ℕ) (hfuel : data.length ≤ fuel) : parse fuel data =
      some (if ok then .complete (hdrOf data) else .malformed, c) := by
    rw [parse, if_neg hempty, if_neg hshort, if_neg hother,
      ← Nat.sub_add_cancel (by omega : 1 ≤ fuel), hruns (fuel - 1) (by dsimp only [hdrSize]; omega)]
    cases ok <;> rfl
  refine ⟨_, c, hparse, hinside.reads, fun hdr hverdict => ?_⟩
  cases ok with
  | false => cases hverdict
  | true =>
    cases hverdict
    have hwhole := hinside.whole
    refine ⟨fun p hp => ?_, ?_⟩
    · obtain ⟨hle, hptr⟩ := hinside.init p hp
      exact ⟨hle, by omega⟩
    obtain ⟨parts, hparts, hdrop⟩ := hchain rfl
    have hpayload : payload data c = data.drop c.ptr :=
      List.take_of_length_le (by rw [List.length_drop]; omega)
    refine ⟨parts, hparts, ?_⟩
    rw [hpayload, List.append_assoc, ← hdrop]
    exact (List.take_append_drop hdrSize data).symm

/-- A SYN with two init headers and one byte of payload. -/
example :
    (parse 31 ([7, 0, 5, 0] ++ List.replicate 12 0 ++ [1, 0, 1, 9] ++ [1, 0, 0, 7, 1, 1] ++
      [1, 0, 0, 3] ++ [42])).map (fun r => (r.2.ptr, r.2.len, r.2.init)) =
      some (30, 1, some 26) := by
  decide

section Refinement

variable {data : List UInt8} {c : Cursor}

def initAt (data : List UInt8) (p : ℕ) : Init :=
  ⟨byteAt data p, byteAt data (p + 1), byteAt data (p + 2), byteAt data (p + 3)⟩

section Body

variable {syn : Bool} {fuel : ℕ} {aux : UInt16} {body : List UInt8} {init : Option Init}

theorem parseAux_zero (h : aux = 0) :
    parseAux syn (fuel + 1) aux body init = some (init, body) := by
  unfold parseAux
  exact if_pos h

theorem parseAux_bad (hzero : aux ≠ 0) (h : auxLength aux ≠ 4 ∨ aux &&& 0xff ≠ 1 ∨ syn = false) :
    parseAux syn (fuel + 1) aux body init = none := by
  unfold parseAux
  exact (if_neg hzero).trans (if_pos h)

theorem parseAux_short (hzero : aux ≠ 0) (h : body.length < 4) :
    parseAux syn (fuel + 1) aux body init = none := by
  unfold parseAux
  rw [if_neg hzero]
  split
  · rfl
  split
  · simp only [List.length_cons] at h
    omega
  · rfl

end Body

/-- The loop on the bytes of a packet does what the loop on its body does. -/
theorem auxHeaders_parseAux (syn : Bool) (fuel : ℕ) (aux : UInt16)
    (hwhole : c.ptr + c.len = data.length) :
    parseAux syn fuel aux (data.drop c.ptr) (c.init.map (initAt data)) =
      match auxHeaders data syn fuel aux c with
      | some (true, c') => some (c'.init.map (initAt data), data.drop c'.ptr)
      | _ => none := by
  induction fuel generalizing aux c with
  | zero => rfl
  | succ fuel ih =>
    have hlength : (data.drop c.ptr).length = c.len := by
      rw [List.length_drop]
      omega
    rw [auxHeaders]
    by_cases hzero : aux = 0
    · rw [parseAux_zero hzero, if_pos hzero]
    rw [if_neg hzero]
    by_cases htype : aux &&& 0xff ≠ 1
    · rw [parseAux_bad hzero (.inr (.inl htype)), if_pos htype, ite_self]
    rw [if_neg htype]
    by_cases hbad : syn = false ∨ auxLength aux ≠ 4
    · rw [parseAux_bad hzero (hbad.elim (fun h => .inr (.inr h)) .inl), if_pos hbad, ite_self]
    rw [if_neg hbad]
    have hfour : auxLength aux = 4 := not_not.mp fun h => hbad (.inr h)
    rw [hfour]
    by_cases hshort : c.len < 4
    · rw [parseAux_short hzero (hlength ▸ hshort), if_pos hshort]
    rw [if_neg hshort, drop_four (by omega : c.ptr + 4 ≤ data.length)]
    unfold parseAux
    rw [if_neg hzero, if_neg (by rintro (h | h | h); exacts [h hfour, htype h, hbad (.inl h)])]
    dsimp only [fourAt, List.cons_append, List.nil_append]
    by_cases hmore : aux &&& 0x800 = 0
    · rw [if_pos hmore, if_pos hmore]
      rfl
    rw [if_neg hmore, if_neg hmore]
    by_cases hend : (c.passInit 4).len < 2
    · rw [if_pos hend]
      change c.len - 4 < 2 at hend
      have hrest : (data.drop (c.ptr + 4)).length < 2 := by
        rw [List.length_drop]
        omega
      split
      · rename_i heq
        rw [heq] at hrest
        simp only [List.length_cons] at hrest
        omega
      · rfl
    · rw [if_neg hend]
      change ¬c.len - 4 < 2 at hend
      rw [drop_two (by omega : c.ptr + 4 + 2 ≤ data.length)]
      refine ih (u16At data (c.ptr + 4)) (c := (c.passInit 4).readAux) ?_
      change c.ptr + 4 + 2 + (c.len - 4 - 2) = data.length
      omega

/-- A packet of at least a header's length passes exactly when parsePacket takes it
apart, and then into the same header, payload and init bytes. -/
theorem parse_parsePacket (h : hdrSize ≤ data.length) :
    parsePacket ⟨hdrOf data, data.drop hdrSize⟩ =
      match parse (data.length - hdrSize + 1) data with
      | some (.complete hdr, c) => some ⟨hdr, data.drop c.ptr, c.init.map (initAt data)⟩
      | _ => none := by
  have hempty : data.length ≠ 0 := fun hzero => absurd (hzero ▸ h) (by decide)
  rw [parse, if_neg hempty, if_neg (Nat.not_lt.mpr h), parsePacket]
  by_cases hother : (hdrOf data).ctl.other = true
  · rw [if_pos hother, if_pos hother]
  rw [if_neg hother, if_neg hother]
  let start : Cursor := ⟨hdrSize, data.length - hdrSize, none, [⟨0, hdrSize⟩]⟩
  have hwhole : start.ptr + start.len = data.length := Nat.add_sub_cancel' h
  have hloop := auxHeaders_parseAux (hdrOf data).ctl.syn (data.length - hdrSize + 1)
    (hdrOf data).aux hwhole
  change parseAux _ _ _ (data.drop hdrSize) none = _ at hloop
  rw [List.length_drop, hloop]
  rcases auxHeaders data (hdrOf data).ctl.syn (data.length - hdrSize + 1) (hdrOf data).aux start
    with - | ⟨- | -, c⟩
  · rfl
  · rfl
  · rfl

/-- A SYN with two init headers and one byte of data. -/
def chainedSyn : List UInt8 :=
  List.replicate 16 0 ++ [1, 0, 1, 9, 0, 0, 0, 0, 1, 1, 1, 2, 3, 4, 5]

theorem parse_parsePacket_chained :
    (parsePacket ⟨hdrOf chainedSyn, chainedSyn.drop hdrSize⟩).map (fun i => (i.data, i.init)) =
      some ([5], some (initAt chainedSyn 26)) := by
  rw [parse_parsePacket (by decide)]
  decide +kernel

end Refinement

end Meshlink.HeaderParsing
