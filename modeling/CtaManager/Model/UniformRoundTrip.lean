import CtaManager.Model.UniformLayout

/-!
Writing a decoded record back.

An event does not say which tails its record had, so `write` is told (`TailShape`).  Then it
gives the payload again, but for texts that were not UTF-8 and the bytes of legs the mask
leaves out (`Wire.Rewritten`); and two payloads of one event differ in nothing else but an
empty spread or an empty mask where the other has no such tail (`Wire.SameEvent`).
-/

namespace CtaManager.Model

open Check LittleEndian Reader

/-! ## The payload by its parts -/

structure Wire where
  head : HeadWire
  terms : TermsWire
  fromKey : Text 4
  tail : Option SpreadTail

namespace Wire

def bytes (w : Wire) : List UInt8 :=
  w.head.bytesWith w.head.symbol.1 ++ (w.terms.bytes ++ (w.fromKey.bytes ++ tailBytes w.tail))

def event (recordKey : String) (eventTsUs : Int) (w : Wire) : UniformOrderEvent where
  recordKey := recordKey
  eventTsUs := eventTsUs
  recvTsUs := w.head.head.recvTsUs
  symbol := w.head.head.symbol
  createTsUs := w.head.head.createTsUs
  updateTsUs := w.head.head.updateTsUs
  signalTsUs := w.head.head.signalTsUs
  submitTsUs := w.head.head.submitTsUs
  localTsUs := w.head.head.localTsUs
  marketTsUs := w.head.head.marketTsUs
  clientOrderId := w.head.head.clientOrderId
  venueCode := w.terms.venue.toNat
  venue := venueName w.terms.venue
  orderTypeCode := w.terms.orderType.toNat
  orderType := orderTypeName w.terms.orderType
  sideCode := w.terms.side.toNat
  side := sideName w.terms.side
  price := w.terms.terms.price
  priceOffset := w.terms.terms.priceOffset
  amountInitial := w.terms.terms.amountInitial
  amountUpdate := w.terms.terms.amountUpdate
  statusCode := w.terms.status.toNat
  status := statusName w.terms.status
  fromKey := w.fromKey.1
  fromKeyText := Utf8.lossy w.fromKey.1
  bboSpread := (orderTail w.tail).bboSpread
  signalOpen := (orderTail w.tail).signals.1
  signalHedge := (orderTail w.tail).signals.2
  fillLiquidity := (orderTail w.tail).fillLiquidity

/-- The decoder reads the layout. -/
theorem reads_payload (recordKey : String) (eventTsUs : Int) :
    ReadsAll cursor .panic (decodePayload recordKey eventTsUs) (Wire.event recordKey eventTsUs)
      Wire.bytes := by
  refine (reads_head.bindAll fun head => reads_terms.bindAll fun terms =>
    reads_fromKey.bindAll fun fromKey => reads_tail.map _).reform
    (fun w => (w.head, w.terms, w.fromKey, w.tail)) ?_ ?_ fun w => rfl
  · rintro ⟨head, terms, fromKey, tail⟩
    exact ⟨⟨head, terms, fromKey, tail⟩, rfl⟩
  · intro w
    rfl

end Wire

/-! ## The key -/

/-- 20 digits whose value fits an `i64`. -/
structure KeyAccepted (key : List UInt8) : Prop where
  length : key.length = 20
  digits : ∀ b ∈ key, isAsciiDigit b = true
  value : digitsValue key ≤ maxI64

theorem decodeKey_eq_ok {key : List UInt8} {recordKey : String} {eventTsUs : Int} :
    decodeKey key = .ok (recordKey, eventTsUs) ↔
      KeyAccepted key ∧ key = Utf8.encode recordKey.toList ∧ eventTsUs = digitsValue key := by
  unfold decodeKey
  constructor
  · intro h
    cases hkey : Utf8.decode? key with
    | none =>
      rw [hkey] at h
      cases h
    | some text =>
      rw [hkey] at h
      have hraw := Utf8.decode?_eq_some.1 hkey
      simp only [← hraw] at h
      obtain ⟨_, htimestamp, h⟩ := bind_eq_ok.1 h
      obtain ⟨_, hvalue, h⟩ := bind_eq_ok.1 h
      rw [ensure_eq_ok] at htimestamp hvalue
      rw [Bool.and_eq_true, beq_iff_eq, List.all_eq_true] at htimestamp
      cases h
      exact ⟨⟨htimestamp.1, htimestamp.2, of_decide_eq_true hvalue⟩, hraw, rfl⟩
  · rintro ⟨haccepted, hraw, rfl⟩
    have htimestamp : (key.length == 20 && key.all isAsciiDigit) = true := by
      rw [Bool.and_eq_true, beq_iff_eq, List.all_eq_true]
      exact ⟨haccepted.length, haccepted.digits⟩
    rw [Utf8.decode?_eq_some.2 hraw]
    simp only [← hraw, htimestamp, haccepted.value, decide_true, ensure_true, ok_bind]
    rfl

theorem decodeKey_safe (key : List UInt8) : decodeKey key ≠ .error .panic := by
  unfold decodeKey
  cases Utf8.decode? key with
  | none =>
    intro h
    cases h
  | some text =>
    intro h
    simp only at h
    cases htimestamp : ((Utf8.encode text.toList).length == 20 &&
        (Utf8.encode text.toList).all isAsciiDigit) with
    | false =>
      rw [htimestamp] at h
      cases h
    | true =>
      rw [htimestamp, ensure_true, ok_bind] at h
      cases hvalue : decide (digitsValue (Utf8.encode text.toList) ≤ maxI64) with
      | false =>
        rw [hvalue] at h
        cases h
      | true =>
        rw [hvalue] at h
        cases h

/-- Digits are text. -/
theorem KeyAccepted.text {key : List UInt8} (h : KeyAccepted key) :
    ∃ recordKey : String, key = Utf8.encode recordKey.toList := by
  obtain ⟨cs, hcs⟩ := Utf8.isUtf8_of_ascii (l := key) fun b hb => by
    have hdigit := of_decide_eq_true (h.digits b hb)
    omega
  exact ⟨String.ofList cs, by rw [String.toList_ofList, hcs]⟩

/-! ## What is accepted -/

theorem decodeUniformOrder_eq_ok {key payload : List UInt8} (hlen : payload.length ≤ isizeMax)
    {e : UniformOrderEvent} :
    decodeUniformOrder key payload = .ok e ↔
      KeyAccepted key ∧ ∃ recordKey w, key = Utf8.encode recordKey.toList ∧
        payload = Wire.bytes w ∧ e = w.event recordKey (digitsValue key) := by
  have hwithin := within_new hlen
  unfold decodeUniformOrder
  constructor
  · intro h
    obtain ⟨⟨recordKey, eventTsUs⟩, hkey, h⟩ := bind_eq_ok.1 h
    obtain ⟨⟨event, d⟩, hpayload, h⟩ := bind_eq_ok.1 h
    obtain ⟨haccepted, hraw, rfl⟩ := decodeKey_eq_ok.1 hkey
    obtain ⟨w, rfl, hrest⟩ := (Wire.reads_payload _ _).sound _ _ _ hwithin hpayload
    cases h
    exact ⟨haccepted, recordKey, w, hraw, hrest, rfl⟩
  · rintro ⟨haccepted, recordKey, w, hraw, hrest, rfl⟩
    obtain ⟨d, hpayload⟩ := (Wire.reads_payload recordKey (digitsValue key)).complete _ w hwithin
      hrest
    rw [decodeKey_eq_ok.2 ⟨haccepted, hraw, rfl⟩, ok_bind]
    show (decodePayload recordKey (digitsValue key) (Decoder.new payload) >>= fun p =>
      Except.ok p.1) = _
    rw [hpayload]
    rfl

theorem decodeUniformOrder_safe {key payload : List UInt8} (hlen : payload.length ≤ isizeMax) :
    decodeUniformOrder key payload ≠ .error .panic := by
  unfold decodeUniformOrder
  cases hkey : decodeKey key with
  | error e =>
    intro h
    exact decodeKey_safe key (hkey.trans (congrArg Except.error (Except.error.inj h)))
  | ok p =>
    rw [ok_bind]
    have hsafe := (Wire.reads_payload p.1 p.2).safe _ (within_new hlen)
    show (decodePayload p.1 p.2 (Decoder.new payload) >>= fun q => Except.ok q.1) ≠ _
    cases hpayload : decodePayload p.1 p.2 (Decoder.new payload) with
    | error e =>
      intro h
      exact hsafe (hpayload.trans (congrArg Except.error (Except.error.inj h)))
    | ok q =>
      intro h
      cases h

/-! ## Writing an event -/

/-- Which tails a record has. -/
inductive TailShape
  | absent
  | spread
  | signal
  | role
  deriving DecidableEq, Repr

def i64ToLeBytes (i : Int) : List UInt8 := leBytes 8 (ofSigned 64 i)

def f64ToLeBytes (x : UInt64) : List UInt8 := leBytes 8 x.toNat

def codeByte (code : Int) : UInt8 := UInt8.ofNat code.toNat

/-- A text behind its length of `width` bytes. -/
def writeText (width : Nat) (text : List UInt8) : List UInt8 := leBytes width text.length ++ text

/-- A leg, or as many zeros. -/
def writeLeg : Option SignalBboLeg → List UInt8
  | none => List.replicate signalBboLegBinaryLen 0
  | some leg =>
    codeByte leg.venueCode :: (i64ToLeBytes leg.tsUs ++ f64ToLeBytes leg.bidPrice ++
      f64ToLeBytes leg.bidQuantity ++ f64ToLeBytes leg.askPrice ++ f64ToLeBytes leg.askQuantity)

namespace UniformOrderEvent

variable (e : UniformOrderEvent)

def writeSignals : List UInt8 :=
  ((if e.signalOpen.isSome then 1 else 0) + (if e.signalHedge.isSome then 2 else 0)) ::
    (writeLeg e.signalOpen ++ writeLeg e.signalHedge)

def writeTail : TailShape → List UInt8
  | .absent => []
  | .spread => writeText 2 (Utf8.encode e.bboSpread.toList)
  | .signal => writeText 2 (Utf8.encode e.bboSpread.toList) ++ e.writeSignals
  | .role => writeText 2 (Utf8.encode e.bboSpread.toList) ++
      (e.writeSignals ++ (e.fillLiquidity.map liquidityCode).toList)

/-- The layout of `decode_uniform_order`, with the given tails. -/
def write (shape : TailShape) : List UInt8 :=
  (i64ToLeBytes e.recvTsUs ++ writeText 2 (Utf8.encode e.symbol.toList) ++
    i64ToLeBytes e.createTsUs ++ i64ToLeBytes e.updateTsUs ++ i64ToLeBytes e.signalTsUs ++
    i64ToLeBytes e.submitTsUs ++ i64ToLeBytes e.localTsUs ++ i64ToLeBytes e.marketTsUs ++
    i64ToLeBytes e.clientOrderId) ++
  (([codeByte e.venueCode, codeByte e.orderTypeCode, codeByte e.sideCode] ++
    f64ToLeBytes e.price ++ f64ToLeBytes e.priceOffset ++ f64ToLeBytes e.amountInitial ++
    f64ToLeBytes e.amountUpdate ++ [codeByte e.statusCode]) ++
  (writeText 4 e.fromKey ++ e.writeTail shape))

end UniformOrderEvent

/-! ## Fields written again -/

theorem i64_write (r : Word 8) : i64ToLeBytes (i64FromLeBytes r.1) = r.1 := by
  have hlt : leNat r.1 < 2 ^ 64 := by
    have := leNat_lt r.1
    rw [r.2] at this
    exact this
  unfold i64ToLeBytes i64FromLeBytes
  rw [ofSigned_toSigned hlt, leBytes_leNat r.2]

theorem f64_write {l : List UInt8} (h : l.length = 8) : f64ToLeBytes (f64FromLeBytes l) = l := by
  have hlt : leNat l < 2 ^ 64 := by
    have := leNat_lt l
    rw [h] at this
    exact this
  unfold f64ToLeBytes f64FromLeBytes
  rw [UInt64.toNat_ofNat', Nat.mod_eq_of_lt hlt, leBytes_leNat h]

theorem codeByte_toNat (b : UInt8) : codeByte (b.toNat : Int) = b := by
  unfold codeByte
  rw [Int.toNat_natCast, UInt8.ofNat_toNat]

/-- A leg is its venue and five numbers of eight bytes. -/
theorem leg_parts (raw : Word 41) :
    raw.1 = raw.1.head! :: ((raw.1.drop 1).take 8 ++ (raw.1.drop 9).take 8 ++
      (raw.1.drop 17).take 8 ++ (raw.1.drop 25).take 8 ++ (raw.1.drop 33).take 8) := by
  obtain ⟨l, hl⟩ := raw
  cases l with
  | nil => cases hl
  | cons b l =>
    have hlength : l.length = 40 := Nat.succ.inj hl
    show b :: l = b :: (l.take 8 ++ (l.drop 8).take 8 ++ (l.drop 16).take 8 ++ (l.drop 24).take 8 ++
      (l.drop 32).take 8)
    congr 1
    have h16 := (List.take_add (l := l) (i := 8) (j := 8)).symm
    have h24 := (List.take_add (l := l) (i := 16) (j := 8)).symm
    have h32 := (List.take_add (l := l) (i := 24) (j := 8)).symm
    have h40 := (List.take_add (l := l) (i := 32) (j := 8)).symm
    rw [h16, h24, h32, h40, List.take_of_length_le (by omega)]

theorem writeLeg_legOf (raw : Word 41) : writeLeg (some (legOf raw.1)) = raw.1 := by
  have hlength : ∀ n, n + 8 ≤ 41 → ((raw.1.drop n).take 8).length = 8 := by
    intro n hn
    rw [List.length_take, List.length_drop, raw.2]
    omega
  conv_rhs => rw [leg_parts raw]
  unfold writeLeg legOf
  simp only [codeByte_toNat]
  rw [i64_write ⟨_, hlength 1 (by decide)⟩, f64_write (hlength 9 (by decide)),
    f64_write (hlength 17 (by decide)), f64_write (hlength 25 (by decide)),
    f64_write (hlength 33 (by decide))]

/-! ## The payload written again -/

namespace Wire

variable (w : Wire)

def shape : TailShape :=
  match w.tail with
  | none => .absent
  | some ⟨_, none⟩ => .spread
  | some ⟨_, some ⟨_, none⟩⟩ => .signal
  | some ⟨_, some ⟨_, some _⟩⟩ => .role

def signal : Option SignalTail := w.tail.bind SpreadTail.signal

/-- The bytes of the spread. -/
def spread : List UInt8 := (w.tail.map fun t => t.spread.1).getD []

/-- The bytes of a leg that is there. -/
def openRaw : Option (List UInt8) :=
  w.signal.bind fun t => if t.signal.openPresent then some t.signal.openLeg.1 else none

def hedgeRaw : Option (List UInt8) :=
  w.signal.bind fun t => if t.signal.hedgePresent then some t.signal.hedgeLeg.1 else none

/-- The payload with other texts and legs. -/
def bytesWith (symbol spread openLeg hedgeLeg : List UInt8) : List UInt8 :=
  w.head.bytesWith symbol ++ (w.terms.bytes ++ (w.fromKey.bytes ++
    match w.tail with
    | none => []
    | some t => writeText 2 spread ++
      match t.signal with
      | none => []
      | some s => s.bytesWith openLeg hedgeLeg))

/-- The payload again, but for texts that are not UTF-8 and legs that are not there. -/
def Rewritten (payload : List UInt8) : Prop :=
  ∃ symbol spread openLeg hedgeLeg, payload = w.bytesWith symbol spread openLeg hedgeLeg ∧
    (Utf8.IsUtf8 w.head.symbol.1 → symbol = w.head.symbol.1) ∧
    (Utf8.IsUtf8 w.spread → spread = w.spread) ∧
    (∀ leg ∈ w.openRaw, openLeg = leg) ∧ ∀ leg ∈ w.hedgeRaw, hedgeLeg = leg

theorem head_write (recordKey : String) (eventTsUs : Int) :
    let e := w.event recordKey eventTsUs
    i64ToLeBytes e.recvTsUs ++ writeText 2 (Utf8.encode e.symbol.toList) ++
      i64ToLeBytes e.createTsUs ++ i64ToLeBytes e.updateTsUs ++ i64ToLeBytes e.signalTsUs ++
      i64ToLeBytes e.submitTsUs ++ i64ToLeBytes e.localTsUs ++ i64ToLeBytes e.marketTsUs ++
      i64ToLeBytes e.clientOrderId =
    w.head.bytesWith (Utf8.encode (Utf8.lossy w.head.symbol.1).toList) := by
  simp only [event, HeadWire.head, i64_write]
  rfl

theorem terms_write (recordKey : String) (eventTsUs : Int) :
    let e := w.event recordKey eventTsUs
    [codeByte e.venueCode, codeByte e.orderTypeCode, codeByte e.sideCode] ++
      f64ToLeBytes e.price ++ f64ToLeBytes e.priceOffset ++ f64ToLeBytes e.amountInitial ++
      f64ToLeBytes e.amountUpdate ++ [codeByte e.statusCode] = w.terms.bytes := by
  have hword : ∀ r : Word 8, f64ToLeBytes (f64FromLeBytes r.1) = r.1 := fun r => f64_write r.2
  simp only [event, TermsWire.terms, codeByte_toNat, hword]
  rfl

/-- The bytes of the legs as they are written again. -/
theorem signals_write (s : SignalTail) {e : UniformOrderEvent} (hopen : e.signalOpen = s.signal.legs.1)
    (hhedge : e.signalHedge = s.signal.legs.2) :
    e.writeSignals = s.signal.bytesWith (writeLeg s.signal.legs.1) (writeLeg s.signal.legs.2) := by
  obtain ⟨⟨openPresent, hedgePresent, openLeg, hedgeLeg⟩, role⟩ := s
  unfold UniformOrderEvent.writeSignals
  rw [hopen, hhedge]
  cases openPresent <;> cases hedgePresent <;> rfl

theorem write_event (recordKey : String) (eventTsUs : Int) :
    (w.event recordKey eventTsUs).write w.shape =
      w.bytesWith (Utf8.encode (Utf8.lossy w.head.symbol.1).toList)
        (Utf8.encode (Utf8.lossy w.spread).toList)
        (writeLeg (w.event recordKey eventTsUs).signalOpen)
        (writeLeg (w.event recordKey eventTsUs).signalHedge) := by
  unfold UniformOrderEvent.write bytesWith
  rw [w.head_write, w.terms_write]
  congr 3
  obtain ⟨head, terms, fromKey, tail⟩ := w
  cases tail with
  | none => rfl
  | some t =>
    obtain ⟨spread, signal⟩ := t
    cases signal with
    | none => exact (List.append_nil _).symm
    | some s =>
      obtain ⟨signal, role⟩ := s
      have hsignals := signals_write ⟨signal, role⟩
        (e := Wire.event recordKey eventTsUs ⟨head, terms, fromKey, some ⟨spread, some ⟨signal, role⟩⟩⟩)
        rfl rfl
      cases role with
      | none =>
        show writeText 2 _ ++ UniformOrderEvent.writeSignals _ = _
        rw [hsignals]
        exact congrArg _ (List.append_nil _).symm
      | some role =>
        show writeText 2 _ ++ (UniformOrderEvent.writeSignals _ ++ _) = _
        rw [hsignals]
        rfl

theorem leg_write {present : Bool} {raw : Word 41} {leg : List UInt8}
    (h : leg ∈ if present then some raw.1 else none) :
    writeLeg (if present then some (legOf raw.1) else none) = leg := by
  cases present with
  | false => cases h
  | true =>
    obtain rfl := Option.some.inj h
    exact writeLeg_legOf raw

/-- Writing the event back gives the payload again. -/
theorem write_rewritten (recordKey : String) (eventTsUs : Int) :
    w.Rewritten ((w.event recordKey eventTsUs).write w.shape) := by
  refine ⟨_, _, _, _, w.write_event recordKey eventTsUs, Utf8.encode_lossy, Utf8.encode_lossy, ?_, ?_⟩
  · intro leg hleg
    obtain ⟨head, terms, fromKey, _ | ⟨spread, _ | s⟩⟩ := w
    · cases hleg
    · cases hleg
    · exact leg_write hleg
  · intro leg hleg
    obtain ⟨head, terms, fromKey, _ | ⟨spread, _ | s⟩⟩ := w
    · cases hleg
    · cases hleg
    · exact leg_write hleg

/-! ## Payloads of one event -/

/-- Two payloads agree but for texts that read alike, legs that are not there, and tails
that say nothing. -/
structure SameEvent (w w' : Wire) : Prop where
  symbol : Utf8.lossy w.head.symbol.1 = Utf8.lossy w'.head.symbol.1
  head : { w.head with symbol := w'.head.symbol } = w'.head
  terms : w.terms = w'.terms
  fromKey : w.fromKey = w'.fromKey
  spread : Utf8.lossy w.spread = Utf8.lossy w'.spread
  openRaw : w.openRaw = w'.openRaw
  hedgeRaw : w.hedgeRaw = w'.hedgeRaw
  role : w.signal.bind SignalTail.role = w'.signal.bind SignalTail.role

end Wire

theorem i64_inj {r r' : Word 8} (h : i64FromLeBytes r.1 = i64FromLeBytes r'.1) : r = r' := by
  apply Subtype.ext
  rw [← i64_write r, ← i64_write r', h]

theorem f64_inj {r r' : Word 8} (h : f64FromLeBytes r.1 = f64FromLeBytes r'.1) : r = r' := by
  apply Subtype.ext
  rw [← f64_write r.2, ← f64_write r'.2, h]

theorem code_inj {b b' : UInt8} (h : (b.toNat : Int) = b'.toNat) : b = b' :=
  UInt8.toNat_inj.1 (Int.ofNat.inj h)

/-- A leg that is there is its bytes. -/
theorem map_legOf_inj {leg leg' : Option (Word 41)}
    (h : leg.map (fun r => legOf r.1) = leg'.map fun r => legOf r.1) : leg = leg' := by
  cases leg with
  | none =>
    cases leg' with
    | none => rfl
    | some raw' => cases h
  | some raw =>
    cases leg' with
    | none => cases h
    | some raw' =>
      have hleg : legOf raw.1 = legOf raw'.1 := Option.some.inj h
      congr 1
      apply Subtype.ext
      rw [← writeLeg_legOf raw, ← writeLeg_legOf raw', hleg]

namespace Wire

/-- The leg of the event comes from the bytes of a leg that is there. -/
theorem openRaw_eq (w : Wire) : ∃ leg : Option (Word 41), w.openRaw = leg.map Subtype.val ∧
    (orderTail w.tail).signals.1 = leg.map fun r => legOf r.1 := by
  obtain ⟨head, terms, fromKey, _ | ⟨spread, _ | ⟨⟨openPresent, hedgePresent, openLeg, hedgeLeg⟩, role⟩⟩⟩ := w
  · exact ⟨none, rfl, rfl⟩
  · exact ⟨none, rfl, rfl⟩
  · cases openPresent with
    | false => exact ⟨none, rfl, rfl⟩
    | true => exact ⟨some openLeg, rfl, rfl⟩

theorem hedgeRaw_eq (w : Wire) : ∃ leg : Option (Word 41), w.hedgeRaw = leg.map Subtype.val ∧
    (orderTail w.tail).signals.2 = leg.map fun r => legOf r.1 := by
  obtain ⟨head, terms, fromKey, _ | ⟨spread, _ | ⟨⟨openPresent, hedgePresent, openLeg, hedgeLeg⟩, role⟩⟩⟩ := w
  · exact ⟨none, rfl, rfl⟩
  · exact ⟨none, rfl, rfl⟩
  · cases hedgePresent with
    | false => exact ⟨none, rfl, rfl⟩
    | true => exact ⟨some hedgeLeg, rfl, rfl⟩

theorem bboSpread_eq (w : Wire) : (orderTail w.tail).bboSpread = Utf8.lossy w.spread := by
  obtain ⟨head, terms, fromKey, _ | ⟨spread, _ | s⟩⟩ := w
  · rfl
  · rfl
  · rfl

theorem role_eq (w : Wire) :
    (orderTail w.tail).fillLiquidity = w.signal.bind SignalTail.role := by
  obtain ⟨head, terms, fromKey, _ | ⟨spread, _ | s⟩⟩ := w
  · rfl
  · rfl
  · rfl

/-- Payloads of one event. -/
theorem sameEvent_of_event {w w' : Wire} {recordKey recordKey' : String}
    {eventTsUs eventTsUs' : Int}
    (h : w.event recordKey eventTsUs = w'.event recordKey' eventTsUs') :
    recordKey = recordKey' ∧ w.SameEvent w' := by
  have hfields := UniformOrderEvent.mk.inj h
  obtain ⟨hkey, -, hrecv, hsymbol, hcreate, hupdate, hsignal, hsubmit, hlocal, hmarket, hclient,
    hvenue, -, horderType, -, hside, -, hprice, hoffset, hinitial, hamount, hstatus, -, hfromKey, -,
    hspread, hopen, hhedge, hrole⟩ := hfields
  refine ⟨hkey, hsymbol, ?_, ?_, Subtype.ext hfromKey, ?_, ?_, ?_, ?_⟩
  · exact HeadWire.ext (i64_inj hrecv) rfl (i64_inj hcreate) (i64_inj hupdate) (i64_inj hsignal)
      (i64_inj hsubmit) (i64_inj hlocal) (i64_inj hmarket) (i64_inj hclient)
  · exact TermsWire.ext (code_inj hvenue) (code_inj horderType) (code_inj hside) (f64_inj hprice)
      (f64_inj hoffset) (f64_inj hinitial) (f64_inj hamount) (code_inj hstatus)
  · rw [← w.bboSpread_eq, ← w'.bboSpread_eq]
    exact hspread
  · obtain ⟨leg, hraw, hleg⟩ := w.openRaw_eq
    obtain ⟨leg', hraw', hleg'⟩ := w'.openRaw_eq
    rw [hraw, hraw', map_legOf_inj (hleg.symm.trans (hopen.trans hleg'))]
  · obtain ⟨leg, hraw, hleg⟩ := w.hedgeRaw_eq
    obtain ⟨leg', hraw', hleg'⟩ := w'.hedgeRaw_eq
    rw [hraw, hraw', map_legOf_inj (hleg.symm.trans (hhedge.trans hleg'))]
  · rw [← w.role_eq, ← w'.role_eq]
    exact hrole

end Wire

/-! ## The decoder -/

/-- `decode_uniform_order` accepts exactly its layout and never panics; an accepted payload
can be written again, and payloads of one event differ in what says nothing only. -/
theorem decodeUniformOrder_exact (key payload : List UInt8) (hlen : payload.length ≤ isizeMax) :
    decodeUniformOrder key payload ≠ .error .panic ∧
    ((∃ e, decodeUniformOrder key payload = .ok e) ↔
      KeyAccepted key ∧ ∃ w, payload = Wire.bytes w) ∧
    (∀ e, decodeUniformOrder key payload = .ok e →
      ∃ w, payload = Wire.bytes w ∧ w.Rewritten (e.write w.shape)) ∧
    ∀ key' payload' e, payload'.length ≤ isizeMax →
      decodeUniformOrder key payload = .ok e → decodeUniformOrder key' payload' = .ok e →
      key = key' ∧ ∃ w w', payload = Wire.bytes w ∧ payload' = Wire.bytes w' ∧ w.SameEvent w' := by
  refine ⟨decodeUniformOrder_safe hlen, ⟨?_, ?_⟩, ?_, ?_⟩
  · rintro ⟨e, he⟩
    obtain ⟨hkey, recordKey, w, -, hbytes, -⟩ := (decodeUniformOrder_eq_ok hlen).1 he
    exact ⟨hkey, w, hbytes⟩
  · rintro ⟨hkey, w, hbytes⟩
    obtain ⟨recordKey, hraw⟩ := hkey.text
    exact ⟨_, (decodeUniformOrder_eq_ok hlen).2 ⟨hkey, recordKey, w, hraw, hbytes, rfl⟩⟩
  · intro e he
    obtain ⟨-, recordKey, w, -, hbytes, rfl⟩ := (decodeUniformOrder_eq_ok hlen).1 he
    exact ⟨w, hbytes, w.write_rewritten recordKey _⟩
  · intro key' payload' e hlen' he he'
    obtain ⟨-, recordKey, w, hraw, hbytes, rfl⟩ := (decodeUniformOrder_eq_ok hlen).1 he
    obtain ⟨-, recordKey', w', hraw', hbytes', heq⟩ := (decodeUniformOrder_eq_ok hlen').1 he'
    obtain ⟨hkey, hsame⟩ := Wire.sameEvent_of_event heq
    exact ⟨by rw [hraw, hraw', hkey], w, w', hbytes, hbytes', hsame⟩

section

/-- A record of BTCUSDT without tails. -/
def plainRecord : List UInt8 :=
  leBytes 8 1000 ++ writeText 2 [66, 84, 67, 85, 83, 68, 84] ++ leBytes 8 10 ++ leBytes 8 11 ++
    leBytes 8 12 ++ leBytes 8 13 ++ leBytes 8 14 ++ leBytes 8 15 ++ leBytes 8 16 ++ [1, 1, 2] ++
    leBytes 8 0 ++ leBytes 8 0 ++ leBytes 8 0 ++ leBytes 8 0 ++ [3] ++
    writeText 4 [111, 112, 101, 110]

/-- `00000000000000001000`. -/
def sampleKey : List UInt8 := List.replicate 16 48 ++ [49, 48, 48, 48]

/-- A record without tails and one with an empty spread are one event. -/
theorem decodeUniformOrder_emptySpread :
    (decodeUniformOrder sampleKey plainRecord).isOk = true ∧
      decodeUniformOrder sampleKey plainRecord =
        decodeUniformOrder sampleKey (plainRecord ++ [0, 0]) ∧
      plainRecord ≠ plainRecord ++ [0, 0] := by
  decide +kernel

/-- The record with all tails: a spread that is no UTF-8, the opening leg, the bytes of a
hedging leg that is absent, and a role. -/
def tailedRecord : List UInt8 :=
  plainRecord ++ writeText 2 [120, 255] ++ [1] ++ List.replicate 41 2 ++ List.replicate 41 7 ++ [1]

theorem decodeUniformOrder_exact_tailed :
    (decodeUniformOrder sampleKey tailedRecord).toOption.map
      (fun e => (e.bboSpread, e.signalOpen.isSome, e.signalHedge.isSome, e.fillLiquidity)) =
        some ("x\uFFFD", true, false, some .maker) ∧
    (∃ w, tailedRecord = Wire.bytes w) ∧
    (∀ e, decodeUniformOrder sampleKey tailedRecord = .ok e →
      ∃ w, tailedRecord = Wire.bytes w ∧ w.Rewritten (e.write w.shape)) ∧
    ∀ e, decodeUniformOrder sampleKey plainRecord = .ok e →
      decodeUniformOrder sampleKey (plainRecord ++ [0, 0]) = .ok e →
      ∃ w w', plainRecord = Wire.bytes w ∧ plainRecord ++ [0, 0] = Wire.bytes w' ∧
        w.SameEvent w' := by
  have h := decodeUniformOrder_exact sampleKey tailedRecord (by decide +kernel)
  have hok : (decodeUniformOrder sampleKey tailedRecord).isOk = true := by decide +kernel
  refine ⟨by decide +kernel, ?_, h.2.2.1, fun e he he' => ?_⟩
  · cases hdecode : decodeUniformOrder sampleKey tailedRecord with
    | ok e => exact (h.2.1.1 ⟨e, hdecode⟩).2
    | error e =>
      rw [hdecode] at hok
      cases hok
  · exact ((decodeUniformOrder_exact sampleKey plainRecord (by decide)).2.2.2 sampleKey
      (plainRecord ++ [0, 0]) e (by decide) he he').2

end

end CtaManager.Model
