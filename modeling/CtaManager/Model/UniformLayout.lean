import CtaManager.Library.Reader
import CtaManager.Model.UniformOrder

/-!
The layout of a uniform order record, and what `decode_uniform_order` accepts.

`Wire` is a payload by its parts: fixed fields as their bytes, texts within the range of
their length prefix, and the tails there are.  Each part of the decoder reads exactly the
bytes of its part of the layout (`Reads`), so a payload is accepted if and only if it is laid
out so, and the event is a function of the parts.
-/

namespace CtaManager.Model

open Check LittleEndian Reader

/-! ## Fields -/

/-- A fixed number of bytes. -/
abbrev Word (n : Nat) := { l : List UInt8 // l.length = n }

/-- A text whose length fits its prefix of `width` bytes. -/
abbrev Text (width : Nat) := { l : List UInt8 // l.length < 256 ^ width }

def Text.bytes {width : Nat} (text : Text width) : List UInt8 :=
  leBytes width text.1.length ++ text.1

/-- What is left of the payload; the offset stays within it. -/
def cursor : Cursor Decoder UInt8 where
  rest d := d.input.drop d.offset
  Within d := d.offset ≤ d.input.length ∧ d.input.length ≤ isizeMax

theorem length_rest (d : Decoder) : (cursor.rest d).length = d.left := List.length_drop

theorem within_new {payload : List UInt8} (h : payload.length ≤ isizeMax) :
    cursor.Within (Decoder.new payload) := ⟨Nat.zero_le _, h⟩

theorem remaining_run (d : Decoder) : Decoder.remaining d = .ok ((cursor.rest d).length, d) := by
  rw [length_rest]
  rfl

/-- `u32::MAX`: no length prefix says more. -/
def maxLength : Nat := 4294967295

/-- `bytes` on a cursor: the bytes if there are as many, and the cursor behind them. -/
theorem bytes_run {d : Decoder} (hd : cursor.Within d) {n : Nat} (hn : n ≤ maxLength)
    (field : String) :
    Decoder.bytes n field d =
      if n ≤ (cursor.rest d).length then
        .ok ((cursor.rest d).take n, { d with offset := d.offset + n })
      else .error (.tooShort field n d.left) := by
  have hfits : ¬ usizeMax < d.offset + n := by
    have hlength := hd.1.trans hd.2
    unfold isizeMax at hlength
    unfold maxLength at hn
    unfold usizeMax
    omega
  have hleft := length_rest d
  unfold Decoder.left at hleft
  unfold Decoder.bytes getRange
  rw [if_neg hfits]
  by_cases h : n ≤ (cursor.rest d).length
  · rw [if_pos h, if_pos (by have := hd.1; omega), Nat.add_sub_cancel_left]
    rfl
  · rw [if_neg h, if_neg (by have := hd.1; omega)]

theorem rest_advance (d : Decoder) (n : Nat) :
    cursor.rest { d with offset := d.offset + n } = (cursor.rest d).drop n := by
  show d.input.drop (d.offset + n) = (d.input.drop d.offset).drop n
  rw [List.drop_drop]

theorem reads_bytes {n : Nat} (hn : n ≤ maxLength) (field : String) :
    Reads cursor .panic (Decoder.bytes n field) (fun r : Word n => r.1) (fun r => r.1) where
  sound := by
    intro d l d' hd h
    rw [bytes_run hd hn] at h
    split at h
    · rename_i hle
      cases h
      refine ⟨⟨?_, hd.2⟩, ⟨_, List.length_take_of_le hle⟩, rfl, ?_⟩
      · rw [length_rest, Decoder.left] at hle
        show d.offset + n ≤ d.input.length
        have := hd.1
        omega
      · rw [rest_advance, List.take_append_drop]
    · cases h
  complete := by
    rintro d ⟨l, rfl⟩ t hd hrest
    have hle : l.length ≤ (l ++ t).length := by
      rw [List.length_append]
      omega
    rw [bytes_run hd hn, hrest, if_pos hle, List.take_left]
    exact ⟨_, rfl, by rw [rest_advance, hrest, List.drop_left]⟩
  safe := by
    intro d hd h
    rw [bytes_run hd hn] at h
    split at h
    · cases h
    · cases h

/-- A step that looks at what was read. -/
theorem reads_lift {α : Type} {x : Except DecodeError α} {a : α} (h : x = .ok a) :
    Reads cursor .panic (liftM x : Decode α) (fun _ : Unit => a) (fun _ => []) := by
  subst h
  exact Reads.pure cursor DecodeError.panic a

theorem reads_fixed {α : Type} {n : Nat} (hn : n ≤ maxLength) (field : String)
    (g : List UInt8 → α) :
    Reads cursor .panic
      (do
        let value ← Decoder.bytes n field
        let value ← array n value
        return g value : Decode α)
      (fun r : Word n => g r.1) (fun r => r.1) := by
  have harray : ∀ r : Word n, array n r.1 = .ok r.1 := fun r => if_pos r.2
  refine ((reads_bytes hn field).bind (v := fun r (_ : Unit × Unit) => g r.1) fun r =>
    (reads_lift (harray r)).bind (v := fun _ (_ : Unit) => g r.1) fun _ =>
      Reads.pure cursor DecodeError.panic (g r.1)).reform (fun r => (r, ((), ()))) ?_ (fun _ => rfl) fun r => ?_
  · rintro ⟨r, ⟨⟩, ⟨⟩⟩
    exact ⟨r, rfl⟩
  · simp

theorem reads_u16 (field : String) :
    Reads cursor .panic (Decoder.u16 field) (fun r : Word 2 => leNat r.1) (fun r => r.1) :=
  reads_fixed (by decide) field leNat

theorem reads_u32 (field : String) :
    Reads cursor .panic (Decoder.u32 field) (fun r : Word 4 => leNat r.1) (fun r => r.1) :=
  reads_fixed (by decide) field leNat

theorem reads_i64 (field : String) :
    Reads cursor .panic (Decoder.i64 field) (fun r : Word 8 => i64FromLeBytes r.1) (fun r => r.1) :=
  reads_fixed (by decide) field i64FromLeBytes

theorem reads_f64 (field : String) :
    Reads cursor .panic (Decoder.f64 field) (fun r : Word 8 => f64FromLeBytes r.1) (fun r => r.1) :=
  reads_fixed (by decide) field f64FromLeBytes

theorem reads_u8 (field : String) :
    Reads cursor .panic (Decoder.u8 field) (fun b : UInt8 => b) (fun b => [b]) := by
  have hindex : ∀ r : Word 1, index r.1 0 = .ok r.1.head! := by
    rintro ⟨l, hl⟩
    obtain ⟨b, rfl⟩ := List.length_eq_one_iff.1 hl
    rfl
  refine ((reads_bytes (by decide) field).bind (v := fun r (_ : Unit) => r.1.head!) fun r =>
    reads_lift (hindex r)).reform (fun b => (⟨[b], rfl⟩, ())) ?_ (fun _ => rfl) fun b => rfl
  rintro ⟨⟨l, hl⟩, ⟨⟩⟩
  obtain ⟨b, rfl⟩ := List.length_eq_one_iff.1 hl
  exact ⟨b, rfl⟩

/-- A length prefix and what it counts. -/
theorem reads_prefixed {α : Type} {width : Nat} {number : Decode Nat} {body : Nat → Decode α}
    (g : List UInt8 → α) (hwidth : 256 ^ width ≤ maxLength + 1)
    (hnumber : Reads cursor .panic number (fun r : Word width => leNat r.1) (fun r => r.1))
    (hbody : ∀ n, n ≤ maxLength →
      Reads cursor .panic (body n) (fun r : Word n => g r.1) (fun r => r.1)) :
    Reads cursor .panic (number >>= body) (fun r : Text width => g r.1) Text.bytes := by
  have hlength : ∀ r : Text width, leNat (leBytes width r.1.length) = r.1.length :=
    fun r => leNat_leBytes r.2
  have hlt : ∀ r : Word width, leNat r.1 < 256 ^ width := by
    rintro ⟨l, rfl⟩
    exact leNat_lt l
  refine (hnumber.bindDep (R := fun r => Word (leNat r.1)) (v := fun _ r => g r.1)
    (w := fun _ r => r.1) fun r => hbody _ (by have := hlt r; omega)).reform
    (fun r => ⟨⟨leBytes width r.1.length, length_leBytes _ _⟩, ⟨r.1, (hlength r).symm⟩⟩) ?_
    (fun _ => rfl) fun _ => rfl
  rintro ⟨⟨w, hw⟩, ⟨l, hl⟩⟩
  have hprefix : leBytes width l.length = w := by rw [hl, leBytes_leNat hw]
  subst hprefix
  exact ⟨⟨l, by rw [hl]; exact hlt ⟨_, hw⟩⟩, rfl⟩

theorem reads_text (lengthField field : String) :
    Reads cursor .panic (decodeText lengthField field) (fun r : Text 2 => Utf8.lossy r.1)
      Text.bytes := by
  refine reads_prefixed Utf8.lossy (by decide) (reads_u16 lengthField) fun n hn => ?_
  refine ((reads_bytes hn field).bind (v := fun r (_ : Unit) => Utf8.lossy r.1) fun r =>
    Reads.pure cursor DecodeError.panic _).reform (fun r => (r, ())) ?_ (fun _ => rfl) fun r => ?_
  · rintro ⟨r, ⟨⟩⟩
    exact ⟨r, rfl⟩
  · exact List.append_nil _

theorem reads_fromKey :
    Reads cursor .panic decodeFromKey (fun r : Text 4 => r.1) Text.bytes :=
  reads_prefixed id (by decide) (reads_u32 _) fun _ hn => reads_bytes hn _

/-! ## Head and terms -/

@[ext]
structure HeadWire where
  recvTs : Word 8
  symbol : Text 2
  createTs : Word 8
  updateTs : Word 8
  signalTs : Word 8
  submitTs : Word 8
  localTs : Word 8
  marketTs : Word 8
  clientOrderId : Word 8

def HeadWire.head (w : HeadWire) : OrderHead where
  recvTsUs := i64FromLeBytes w.recvTs.1
  symbol := Utf8.lossy w.symbol.1
  createTsUs := i64FromLeBytes w.createTs.1
  updateTsUs := i64FromLeBytes w.updateTs.1
  signalTsUs := i64FromLeBytes w.signalTs.1
  submitTsUs := i64FromLeBytes w.submitTs.1
  localTsUs := i64FromLeBytes w.localTs.1
  marketTsUs := i64FromLeBytes w.marketTs.1
  clientOrderId := i64FromLeBytes w.clientOrderId.1

/-- The head with another text for the symbol. -/
def HeadWire.bytesWith (w : HeadWire) (symbol : List UInt8) : List UInt8 :=
  w.recvTs.1 ++ (leBytes 2 symbol.length ++ symbol) ++ w.createTs.1 ++ w.updateTs.1 ++
    w.signalTs.1 ++ w.submitTs.1 ++ w.localTs.1 ++ w.marketTs.1 ++ w.clientOrderId.1

theorem reads_head :
    Reads cursor .panic decodeHead HeadWire.head (fun w => w.bytesWith w.symbol.1) := by
  refine ((reads_i64 _).bind fun recvTs => (reads_text _ _).bind fun symbol =>
    (reads_i64 _).bind fun createTs => (reads_i64 _).bind fun updateTs =>
    (reads_i64 _).bind fun signalTs => (reads_i64 _).bind fun submitTs =>
    (reads_i64 _).bind fun localTs => (reads_i64 _).bind fun marketTs =>
    (reads_i64 "client_order_id").bind fun clientOrderId => Reads.pure cursor DecodeError.panic
      (HeadWire.mk recvTs symbol createTs updateTs signalTs submitTs localTs marketTs
        clientOrderId).head).reform
    (fun w => (w.recvTs, w.symbol, w.createTs, w.updateTs, w.signalTs, w.submitTs, w.localTs,
      w.marketTs, w.clientOrderId, ())) ?_ ?_ fun w => ?_
  · rintro ⟨recvTs, symbol, createTs, updateTs, signalTs, submitTs, localTs, marketTs,
      clientOrderId, ⟨⟩⟩
    exact ⟨⟨recvTs, symbol, createTs, updateTs, signalTs, submitTs, localTs, marketTs,
      clientOrderId⟩, rfl⟩
  · intro w
    rfl
  · simp [HeadWire.bytesWith, Text.bytes]

@[ext]
structure TermsWire where
  venue : UInt8
  orderType : UInt8
  side : UInt8
  price : Word 8
  priceOffset : Word 8
  amountInitial : Word 8
  amountUpdate : Word 8
  status : UInt8

def TermsWire.terms (w : TermsWire) : OrderTerms where
  venueRaw := w.venue
  orderTypeRaw := w.orderType
  sideRaw := w.side
  price := f64FromLeBytes w.price.1
  priceOffset := f64FromLeBytes w.priceOffset.1
  amountInitial := f64FromLeBytes w.amountInitial.1
  amountUpdate := f64FromLeBytes w.amountUpdate.1
  statusRaw := w.status

def TermsWire.bytes (w : TermsWire) : List UInt8 :=
  [w.venue, w.orderType, w.side] ++ w.price.1 ++ w.priceOffset.1 ++ w.amountInitial.1 ++
    w.amountUpdate.1 ++ [w.status]

theorem reads_terms : Reads cursor .panic decodeTerms TermsWire.terms TermsWire.bytes := by
  refine ((reads_u8 _).bind fun venue => (reads_u8 _).bind fun orderType =>
    (reads_u8 _).bind fun side => (reads_f64 _).bind fun price =>
    (reads_f64 _).bind fun priceOffset => (reads_f64 _).bind fun amountInitial =>
    (reads_f64 _).bind fun amountUpdate => (reads_u8 _).bind fun status =>
    Reads.pure cursor DecodeError.panic _).reform
    (fun w => (w.venue, w.orderType, w.side, w.price, w.priceOffset, w.amountInitial,
      w.amountUpdate, w.status, ())) ?_ ?_ fun w => ?_
  · rintro ⟨venue, orderType, side, price, priceOffset, amountInitial, amountUpdate, status, ⟨⟩⟩
    exact ⟨⟨venue, orderType, side, price, priceOffset, amountInitial, amountUpdate, status⟩, rfl⟩
  · intro w
    rfl
  · simp [TermsWire.bytes]

/-! ## The signal quotes -/

/-- The five numbers of a leg behind its venue. -/
def legOf (raw : List UInt8) : SignalBboLeg where
  venueCode := raw.head!.toNat
  tsUs := i64FromLeBytes ((raw.drop 1).take 8)
  bidPrice := f64FromLeBytes ((raw.drop 9).take 8)
  bidQuantity := f64FromLeBytes ((raw.drop 17).take 8)
  askPrice := f64FromLeBytes ((raw.drop 25).take 8)
  askQuantity := f64FromLeBytes ((raw.drop 33).take 8)

theorem slice_eq_ok {l : List UInt8} {a b : Nat} (hab : a ≤ b) (hb : b ≤ l.length) :
    slice l a b = .ok ((l.drop a).take (b - a)) := by
  unfold slice getRange
  rw [if_pos ⟨hab, hb⟩]

theorem slice_array {l : List UInt8} {a b : Nat} (width : Nat) (hb : b ≤ l.length)
    (hwidth : b = a + width) :
    (slice l a b >>= array width) = .ok ((l.drop a).take width) := by
  rw [slice_eq_ok (by omega) hb, ok_bind]
  have hsub : b - a = width := by omega
  rw [hsub]
  refine if_pos ?_
  rw [List.length_take, List.length_drop]
  omega

theorem decodeSignalLeg_eq (raw : Word 41) (present : Bool) :
    decodeSignalLeg raw.1 present = .ok (if present then some (legOf raw.1) else none) := by
  obtain ⟨raw, hraw⟩ := raw
  unfold decodeSignalLeg
  cases present with
  | false => rfl
  | true =>
    have hhead : index raw 0 = .ok raw.head! := by
      cases raw with
      | nil => cases hraw
      | cons b raw => rfl
    have hlength : (raw.length == signalBboLegBinaryLen) = true := beq_iff_eq.2 hraw
    simp only [if_true, hlength, ensure_true, ok_bind, hhead]
    rw [slice_array 8 (by omega) rfl, slice_array 8 (by omega) rfl,
      slice_array 8 (by omega) rfl, slice_array 8 (by omega) rfl,
      slice_array 8 (by omega) rfl]
    rfl

/-- The mask and the two legs. -/
structure SignalWire where
  openPresent : Bool
  hedgePresent : Bool
  openLeg : Word 41
  hedgeLeg : Word 41

def SignalWire.mask (w : SignalWire) : UInt8 :=
  (if w.openPresent then 1 else 0) + (if w.hedgePresent then 2 else 0)

def SignalWire.bytesWith (w : SignalWire) (openLeg hedgeLeg : List UInt8) : List UInt8 :=
  w.mask :: (openLeg ++ hedgeLeg)

def SignalWire.legs (w : SignalWire) : Option SignalBboLeg × Option SignalBboLeg :=
  (if w.openPresent then some (legOf w.openLeg.1) else none,
    if w.hedgePresent then some (legOf w.hedgeLeg.1) else none)

theorem mask_low_bits {mask : UInt8} (h : (mask &&& ~~~ 3 == 0) = true) :
    mask = (if (mask &&& 1 != 0) = true then 1 else 0) + (if (mask &&& 2 != 0) = true then 2 else 0) := by
  have hall : ∀ n, n < 256 → (UInt8.ofNat n &&& ~~~ 3 == 0) = true →
      UInt8.ofNat n = (if (UInt8.ofNat n &&& 1 != 0) = true then 1 else 0) +
        (if (UInt8.ofNat n &&& 2 != 0) = true then 2 else 0) := by
    decide +kernel
  have hmask := hall mask.toNat mask.toNat_lt
  rw [UInt8.ofNat_toNat] at hmask
  exact hmask h

theorem SignalWire.mask_bits (w : SignalWire) :
    (w.mask &&& ~~~ 3 == 0) = true ∧ (w.mask &&& 1 != 0) = w.openPresent ∧
      (w.mask &&& 2 != 0) = w.hedgePresent := by
  unfold SignalWire.mask
  generalize w.openPresent = openPresent
  generalize w.hedgePresent = hedgePresent
  cases openPresent <;> cases hedgePresent <;> decide

/-- The 83 bytes of the signal quotes, of whatever mask. -/
theorem decodeSignalBbo_eq (mask : UInt8) (openLeg hedgeLeg : Word 41) :
    decodeSignalBbo (mask :: (openLeg.1 ++ hedgeLeg.1)) =
      if (mask &&& ~~~ 3 == 0) = true then
        .ok (if (mask &&& 1 != 0) = true then some (legOf openLeg.1) else none,
          if (mask &&& 2 != 0) = true then some (legOf hedgeLeg.1) else none)
      else .error (.invalidMask mask) := by
  have hlength : (mask :: (openLeg.1 ++ hedgeLeg.1)).length = 83 := by
    rw [List.length_cons, List.length_append, openLeg.2, hedgeLeg.2]
  have hopen : slice (mask :: (openLeg.1 ++ hedgeLeg.1)) 1 (1 + signalBboLegBinaryLen) =
      .ok openLeg.1 := by
    rw [slice_eq_ok (Nat.le_add_right _ _) (by rw [hlength]; decide)]
    show Except.ok ((openLeg.1 ++ hedgeLeg.1).take 41) = _
    rw [List.take_left' openLeg.2]
  have hhedge : slice (mask :: (openLeg.1 ++ hedgeLeg.1)) (1 + signalBboLegBinaryLen)
      (mask :: (openLeg.1 ++ hedgeLeg.1)).length = .ok hedgeLeg.1 := by
    rw [slice_eq_ok (by rw [hlength]; decide) (Nat.le_refl _), hlength]
    show Except.ok (((openLeg.1 ++ hedgeLeg.1).drop 41).take 41) = _
    rw [List.drop_left' openLeg.2, List.take_of_length_le (Nat.le_of_eq hedgeLeg.2)]
  unfold decodeSignalBbo
  have hindex : index (mask :: (openLeg.1 ++ hedgeLeg.1)) 0 = .ok mask := rfl
  rw [hindex, ok_bind]
  by_cases hmask : (mask &&& ~~~ 3 == 0) = true
  · rw [if_pos hmask, hmask, ensure_true, ok_bind, hopen, ok_bind, decodeSignalLeg_eq, ok_bind,
      hhedge, ok_bind, decodeSignalLeg_eq, ok_bind]
    rfl
  · rw [if_neg hmask, Bool.eq_false_iff.2 hmask]
    rfl

theorem lift_eq_ok {α : Type} {x : Except DecodeError α} {d d' : Decoder} {a : α} :
    (liftM x : Decode α) d = .ok (a, d') ↔ x = .ok a ∧ d' = d := by
  cases x with
  | error e =>
    constructor
    · intro h
      cases h
    · rintro ⟨h, -⟩
      cases h
  | ok b =>
    constructor
    · intro h
      cases h
      exact ⟨rfl, rfl⟩
    · rintro ⟨h, rfl⟩
      cases h
      rfl

theorem lift_safe {α : Type} {x : Except DecodeError α} (d : Decoder) (hx : x ≠ .error .panic) :
    (liftM x : Decode α) d ≠ .error .panic := by
  cases x with
  | error e =>
    intro h
    exact hx (congrArg Except.error (Except.error.inj h))
  | ok b =>
    intro h
    cases h

theorem split_signal (r : Word signalBboBinaryLen) :
    ∃ (mask : UInt8) (openLeg hedgeLeg : Word 41), r.1 = mask :: (openLeg.1 ++ hedgeLeg.1) := by
  obtain ⟨l, hl⟩ := r
  cases l with
  | nil => cases hl
  | cons mask l =>
    have hlength : l.length = 82 := Nat.succ.inj hl
    refine ⟨mask, ⟨l.take 41, ?_⟩, ⟨l.drop 41, ?_⟩, ?_⟩
    · rw [List.length_take]
      omega
    · rw [List.length_drop]
      omega
    · rw [List.take_append_drop]

theorem SignalWire.length_bytes (w : SignalWire) :
    (w.bytesWith w.openLeg.1 w.hedgeLeg.1).length = signalBboBinaryLen := by
  show (w.mask :: (w.openLeg.1 ++ w.hedgeLeg.1)).length = 83
  rw [List.length_cons, List.length_append, w.openLeg.2, w.hedgeLeg.2]

theorem reads_signal :
    Reads cursor .panic
      (do
        let raw ← Decoder.bytes signalBboBinaryLen "signal_bbo"
        decodeSignalBbo raw : Decode _)
      SignalWire.legs (fun w => w.bytesWith w.openLeg.1 w.hedgeLeg.1) where
  sound := by
    intro d legs d'' hd h
    obtain ⟨raw, d', hraw, hlegs⟩ := run_bind_eq_ok h
    obtain ⟨hd', r, rfl, hrest⟩ := (reads_bytes (by decide) _).sound d raw d' hd hraw
    obtain ⟨hlegs, hstay⟩ := lift_eq_ok.1 hlegs
    subst hstay
    obtain ⟨mask, openLeg, hedgeLeg, hr⟩ := split_signal r
    rw [hr, decodeSignalBbo_eq] at hlegs
    split at hlegs
    · rename_i hmask
      have hw := mask_low_bits hmask
      refine ⟨hd', ⟨mask &&& 1 != 0, mask &&& 2 != 0, openLeg, hedgeLeg⟩, ?_, ?_⟩
      · exact (congrArg Prod.fst (Except.ok.inj hlegs)).symm
      · rw [hrest, hr]
        show _ = (SignalWire.mask _ :: (openLeg.1 ++ hedgeLeg.1)) ++ _
        unfold SignalWire.mask
        rw [← hw]
    · cases hlegs
  complete := by
    intro d w t hd hrest
    obtain ⟨d', hraw, hrest'⟩ := (reads_bytes (by decide) "signal_bbo").complete d
      ⟨_, w.length_bytes⟩ t hd hrest
    obtain ⟨hlow, hopen, hhedge⟩ := w.mask_bits
    refine ⟨d', (run_bind_ok hraw).trans (lift_eq_ok.2 ⟨?_, rfl⟩), hrest'⟩
    show decodeSignalBbo (w.mask :: (w.openLeg.1 ++ w.hedgeLeg.1)) = _
    rw [decodeSignalBbo_eq, if_pos hlow, hopen, hhedge]
    rfl
  safe := by
    intro d hd
    refine run_bind_safe ((reads_bytes (by decide) _).safe d hd) fun raw d' hraw => ?_
    obtain ⟨hd', r, rfl, -⟩ := (reads_bytes (by decide) _).sound d raw d' hd hraw
    obtain ⟨mask, openLeg, hedgeLeg, hr⟩ := split_signal r
    apply lift_safe
    rw [hr, decodeSignalBbo_eq]
    split
    · intro h
      cases h
    · intro h
      cases h

/-! ## The liquidity of the fill -/

def liquidityCode : FillLiquidity → UInt8
  | .unknown => 0
  | .maker => 1
  | .taker => 2

theorem decodeFillLiquidity_eq_ok {code : UInt8} {role : FillLiquidity} :
    decodeFillLiquidity code = .ok role ↔ code = liquidityCode role := by
  constructor
  · intro h
    have hcode : ∀ n, code.toNat = n → code = UInt8.ofNat n := by
      rintro n rfl
      exact UInt8.ofNat_toNat.symm
    unfold decodeFillLiquidity at h
    split at h
    · cases h
      exact hcode 0 ‹_›
    · cases h
      exact hcode 1 ‹_›
    · cases h
      exact hcode 2 ‹_›
    · cases h
  · rintro rfl
    cases role <;> rfl

theorem decodeFillLiquidity_safe (code : UInt8) : decodeFillLiquidity code ≠ .error .panic := by
  unfold decodeFillLiquidity
  split <;> simp

/-- The liquidity is one byte, or it is left out. -/
theorem reads_liquidity :
    ReadsAll cursor .panic decodeLiquidity (fun role : Option FillLiquidity => role)
      (fun role => (role.map liquidityCode).toList) := by
  have hend : ∀ (role : Option FillLiquidity) (d : Decoder),
      (Decoder.remaining >>= fun remaining =>
        if remaining = 0 then pure role else throw (.trailingBytes remaining) : Decode _) d =
      if (cursor.rest d).length = 0 then .ok (role, d)
      else .error (.trailingBytes (cursor.rest d).length) := by
    intro role d
    rw [run_bind_ok (remaining_run d)]
    split
    · rfl
    · rfl
  have hbody : ∀ d, decodeLiquidity d =
      if (cursor.rest d).length = 1 then
        (Decoder.u8 "fill_liquidity" >>= fun code => liftM (decodeFillLiquidity code) >>= fun role =>
          Decoder.remaining >>= fun remaining =>
            if remaining = 0 then pure (some role) else throw (.trailingBytes remaining) : Decode _) d
      else
        (Decoder.remaining >>= fun remaining =>
          if remaining = 0 then pure none else throw (.trailingBytes remaining) : Decode _) d := by
    intro d
    unfold decodeLiquidity
    rw [run_bind_ok (remaining_run d)]
    split
    · simp only [bind_assoc, pure_bind]
    · rw [pure_bind]
  refine ⟨fun d role d' hd h => ?_, fun d role hd hrest => ?_, fun d hd => ?_⟩
  · rw [hbody] at h
    split at h
    · obtain ⟨code, d₁, hcode, hafter⟩ := run_bind_eq_ok h
      obtain ⟨hd₁, b, rfl, hrest⟩ := (reads_u8 _).sound d code d₁ hd hcode
      obtain ⟨role', d₂, hlift, hlast⟩ := run_bind_eq_ok hafter
      obtain ⟨hrole, hstay⟩ := lift_eq_ok.1 hlift
      subst hstay
      rw [hend] at hlast
      split at hlast
      · rename_i hnil
        cases hlast
        refine ⟨some role', rfl, ?_⟩
        rw [hrest, List.length_eq_zero_iff.1 hnil, List.append_nil,
          decodeFillLiquidity_eq_ok.1 hrole]
        rfl
      · cases hlast
    · rw [hend] at h
      split at h
      · rename_i hnil
        cases h
        exact ⟨none, rfl, List.length_eq_zero_iff.1 hnil⟩
      · cases h
  · rw [hbody]
    cases role with
    | none =>
      have hnil : cursor.rest d = [] := hrest
      rw [hnil, if_neg (by decide), hend, hnil, if_pos List.length_nil]
      exact ⟨d, rfl⟩
    | some role =>
      have hone : cursor.rest d = [liquidityCode role] ++ [] := hrest
      obtain ⟨d₁, hcode, hrest₁⟩ := (reads_u8 "fill_liquidity").complete d _ [] hd hone
      have hlength : (cursor.rest d).length = 1 := by
        rw [hone]
        rfl
      rw [if_pos hlength, run_bind_ok hcode,
        run_bind_ok (lift_eq_ok.2 ⟨decodeFillLiquidity_eq_ok.2 rfl, rfl⟩), hend, hrest₁,
        if_pos List.length_nil]
      exact ⟨d₁, rfl⟩
  · have hsafe : ∀ (role : Option FillLiquidity) (d : Decoder),
        (if (cursor.rest d).length = 0 then .ok (role, d)
          else .error (.trailingBytes (cursor.rest d).length) :
            Except DecodeError (Option FillLiquidity × Decoder)) ≠ .error .panic := by
      intro role d
      split <;> simp
    rw [hbody]
    split
    · refine run_bind_safe ((reads_u8 _).safe d hd) fun code d₁ _ => ?_
      refine run_bind_safe (lift_safe d₁ (decodeFillLiquidity_safe code)) fun role d₂ _ => ?_
      rw [hend]
      exact hsafe _ d₂
    · rw [hend]
      exact hsafe _ d

/-! ## The tails -/

/-- The signal quotes, and the liquidity where it is written. -/
structure SignalTail where
  signal : SignalWire
  role : Option FillLiquidity

def SignalTail.bytesWith (t : SignalTail) (openLeg hedgeLeg : List UInt8) : List UInt8 :=
  t.signal.bytesWith openLeg hedgeLeg ++ (t.role.map liquidityCode).toList

def SignalTail.bytes (t : SignalTail) : List UInt8 :=
  t.bytesWith t.signal.openLeg.1 t.signal.hedgeLeg.1

/-- What follows the spread. -/
def decodeAfterSpread (bboSpread : String) : Decode OrderTail := do
  let signals ← decodeSignals
  let fillLiquidity ← decodeLiquidity
  return { bboSpread, signals, fillLiquidity }

/-- What the tail behind a spread says. -/
def signalTail (bboSpread : String) : Option SignalTail → OrderTail
  | none => { bboSpread, signals := (none, none), fillLiquidity := none }
  | some t => { bboSpread, signals := t.signal.legs, fillLiquidity := t.role }

def signalTailBytes (t : Option SignalTail) : List UInt8 := (t.map SignalTail.bytes).getD []

theorem length_liquidity (role : Option FillLiquidity) :
    (role.map liquidityCode).toList.length = 0 ∨ (role.map liquidityCode).toList.length = 1 := by
  cases role with
  | none => exact Or.inl rfl
  | some role => exact Or.inr rfl

theorem SignalTail.length_bytes (t : SignalTail) :
    t.bytes.length = signalBboBinaryLen ∨ t.bytes.length = uniformOrderTailBinaryLen := by
  have hsignal := t.signal.length_bytes
  unfold SignalTail.bytes SignalTail.bytesWith uniformOrderTailBinaryLen
  rw [List.length_append]
  rcases length_liquidity t.role with h | h
  · rw [h]
    exact Or.inl hsignal
  · rw [h]
    exact Or.inr (congrArg (· + 1) hsignal)

theorem reads_afterSpread (bboSpread : String) :
    ReadsAll cursor .panic (decodeAfterSpread bboSpread) (signalTail bboSpread)
      signalTailBytes := by
  have hnone := reads_liquidity.map fun role => OrderTail.mk bboSpread (none, none) role
  have hsome := reads_signal.bindAll
    (f := fun signals => decodeLiquidity >>= fun role => pure (OrderTail.mk bboSpread signals role))
    fun w => reads_liquidity.map fun role => OrderTail.mk bboSpread w.legs role
  have hbody : ∀ d, decodeAfterSpread bboSpread d =
      if (cursor.rest d).length = 0 then
        (decodeLiquidity >>= fun role => pure (OrderTail.mk bboSpread (none, none) role) :
          Decode _) d
      else if (cursor.rest d).length = signalBboBinaryLen ∨
          (cursor.rest d).length = uniformOrderTailBinaryLen then
        ((do
          let raw ← Decoder.bytes signalBboBinaryLen "signal_bbo"
          decodeSignalBbo raw : Decode _) >>= fun signals =>
            decodeLiquidity >>= fun role => pure (OrderTail.mk bboSpread signals role)) d
      else .error (.invalidTail (cursor.rest d).length) := by
    intro d
    have hsignals : ∀ n, (Decoder.remaining d = .ok (n, d)) → decodeAfterSpread bboSpread d =
        ((if n = 0 then pure (none, none)
          else if n = signalBboBinaryLen ∨ n = uniformOrderTailBinaryLen then do
            let raw ← Decoder.bytes signalBboBinaryLen "signal_bbo"
            decodeSignalBbo raw
          else throw (.invalidTail n) : Decode _) >>= fun signals =>
            decodeLiquidity >>= fun role => pure (OrderTail.mk bboSpread signals role)) d := by
      intro n hn
      unfold decodeAfterSpread decodeSignals
      rw [bind_assoc, run_bind_ok hn]
    rw [hsignals _ (remaining_run d)]
    split
    · rw [pure_bind]
    · split
      · rfl
      · rfl
  refine ⟨fun d tail d' hd h => ?_, fun d t hd hrest => ?_, fun d hd => ?_⟩
  · rw [hbody] at h
    split at h
    · rename_i hnil
      obtain ⟨role, rfl, hrest⟩ := hnone.sound d tail d' hd h
      cases role with
      | none => exact ⟨none, rfl, hrest⟩
      | some role =>
        rw [hrest] at hnil
        cases hnil
    · split at h
      · obtain ⟨⟨w, role⟩, rfl, hrest⟩ := hsome.sound d tail d' hd h
        exact ⟨some ⟨w, role⟩, rfl, hrest⟩
      · cases h
  · rw [hbody]
    cases t with
    | none =>
      have hnil : cursor.rest d = [] := hrest
      have hlength : (cursor.rest d).length = 0 := by
        rw [hnil]
        rfl
      rw [if_pos hlength]
      exact hnone.complete d none hd hnil
    | some t =>
      have hbytes : cursor.rest d = t.bytes := hrest
      have hlength := t.length_bytes
      rw [← hbytes] at hlength
      have hne : (cursor.rest d).length ≠ 0 := by
        rcases hlength with h | h
        · rw [h]
          decide
        · rw [h]
          decide
      rw [if_neg hne, if_pos hlength]
      exact hsome.complete d (t.signal, t.role) hd hbytes
  · rw [hbody]
    split
    · exact hnone.safe d hd
    · split
      · exact hsome.safe d hd
      · intro h
        cases h

/-- The spread, and what follows it. -/
structure SpreadTail where
  spread : Text 2
  signal : Option SignalTail

def SpreadTail.bytes (t : SpreadTail) : List UInt8 := t.spread.bytes ++ signalTailBytes t.signal

/-- What the tails say; a record without one has an empty spread and no signals. -/
def orderTail : Option SpreadTail → OrderTail
  | none => signalTail "" none
  | some t => signalTail (Utf8.lossy t.spread.1) t.signal

def tailBytes (t : Option SpreadTail) : List UInt8 := (t.map SpreadTail.bytes).getD []

theorem reads_tail : ReadsAll cursor .panic decodeTail orderTail tailBytes := by
  have hnone := reads_afterSpread ""
  have hsome := (reads_text "bbo_spread_len" "bbo_spread").bindAll fun r =>
    reads_afterSpread (Utf8.lossy r.1)
  have hbody : ∀ d, decodeTail d =
      if (cursor.rest d).length = 0 then decodeAfterSpread "" d
      else (decodeText "bbo_spread_len" "bbo_spread" >>= decodeAfterSpread) d := by
    intro d
    have hspread : ∀ n, (Decoder.remaining d = .ok (n, d)) → decodeTail d =
        ((if n = 0 then pure "" else decodeText "bbo_spread_len" "bbo_spread" : Decode _) >>=
          decodeAfterSpread) d := by
      intro n hn
      unfold decodeTail decodeBboSpread
      rw [bind_assoc, run_bind_ok hn]
      rfl
    rw [hspread _ (remaining_run d)]
    split
    · rw [pure_bind]
    · rfl
  refine ⟨fun d tail d' hd h => ?_, fun d t hd hrest => ?_, fun d hd => ?_⟩
  · rw [hbody] at h
    split at h
    · rename_i hnil
      obtain ⟨t, rfl, hrest⟩ := hnone.sound d tail d' hd h
      cases t with
      | none => exact ⟨none, rfl, hrest⟩
      | some t =>
        have hlength := t.length_bytes
        rw [show t.bytes = cursor.rest d from hrest.symm, hnil] at hlength
        rcases hlength with h | h
        · cases h
        · cases h
    · obtain ⟨⟨spread, signal⟩, rfl, hrest⟩ := hsome.sound d tail d' hd h
      exact ⟨some ⟨spread, signal⟩, rfl, hrest⟩
  · rw [hbody]
    cases t with
    | none =>
      have hnil : cursor.rest d = [] := hrest
      have hlength : (cursor.rest d).length = 0 := by
        rw [hnil]
        rfl
      rw [if_pos hlength]
      exact hnone.complete d none hd hnil
    | some t =>
      have hbytes : cursor.rest d = t.spread.bytes ++ signalTailBytes t.signal := hrest
      have hne : (cursor.rest d).length ≠ 0 := by
        rw [hbytes, Text.bytes, List.length_append, List.length_append, length_leBytes]
        omega
      rw [if_neg hne]
      exact hsome.complete d (t.spread, t.signal) hd hbytes
  · rw [hbody]
    split
    · exact hnone.safe d hd
    · exact hsome.safe d hd

end CtaManager.Model
