import CtaManager.Library.Check
import CtaManager.Nav.Num

/-!
The FIFO of a theoretical position (`theoretical_nav.rs`): one queue of signed
lots, closed from the front by fills of the other sign.
-/

namespace CtaManager

open Check

namespace Theoretical

inductive FifoError
  | invalidFill
  | lotSequenceOverflowed
  | realizedOverflowed
  | invalidMark
  | floatingOverflowed
  deriving DecidableEq, Repr

structure FifoLot (F : Type) where
  seq : Int
  quantity : F
  entryPrice : F
  deriving DecidableEq

/-- `i64::MAX`. -/
def maxLotSeq : Int := 9223372036854775807

variable {F : Type} [F64 F]

/-- `clean_zero` of `theoretical_nav.rs`: `ZERO_EPSILON` itself is cleaned, too. -/
def cleanZero (value : F) : F := if F64.abs value ≤ F64.eps12 then 0 else value

/-- `f64::signum`. -/
def signum (value : F) : F := if value < 0 then -1 else 1

/-- The matching loop of `apply_fifo_fill`.  A round drops the front lot or uses up
the fill, so one round more than there are lots is enough. -/
def matchLots (fillPrice : F) :
    Nat → List (FifoLot F) → F → F → List (FifoLot F) × F × F
  | 0, lots, remaining, realized => (lots, remaining, realized)
  | _ + 1, [], remaining, realized => ([], remaining, realized)
  | rounds + 1, front :: rest, remaining, realized =>
    if F64.eps12 < F64.abs remaining then
      if signum front.quantity == signum remaining then (front :: rest, remaining, realized)
      else
        let matched := min (F64.abs front.quantity) (F64.abs remaining)
        let realized := realized +
          (if 0 < front.quantity then matched * (fillPrice - front.entryPrice)
            else matched * (front.entryPrice - fillPrice))
        let direction := signum remaining
        let front := { front with quantity := cleanZero (front.quantity + direction * matched) }
        let remaining := cleanZero (remaining - direction * matched)
        if front.quantity == 0 then matchLots fillPrice rounds rest remaining realized
        else matchLots fillPrice rounds (front :: rest) remaining realized
    else (front :: rest, remaining, realized)

/-- `apply_fifo_fill`: the lots after the fill, its realized PnL, and the next
lot number. -/
def applyFifoFill (lots : List (FifoLot F)) (fillQuantity fillPrice : F) (nextLotSeq : Int) :
    Except FifoError (List (FifoLot F) × F × Int) := do
  ensure (F64.isFinite fillQuantity && isPositive fillPrice) .invalidFill
  let (lots, remaining, realized) := matchLots fillPrice (lots.length + 1) lots fillQuantity 0
  let (lots, nextLotSeq) ←
    if F64.eps12 < F64.abs remaining then do
      ensure (decide (nextLotSeq < maxLotSeq)) .lotSequenceOverflowed
      pure (lots ++ [{ seq := nextLotSeq, quantity := remaining, entryPrice := fillPrice }],
        nextLotSeq + 1)
    else pure (lots, nextLotSeq)
  ensure (F64.isFinite realized) .realizedOverflowed
  return (lots, cleanZero realized, nextLotSeq)

/-- `floating_pnl_at_mark`. -/
def floatingPnlAtMark (lots : List (FifoLot F)) (markPrice : F) : Except FifoError F := do
  ensure (isPositive markPrice) .invalidMark
  let floating := cleanZero
    (F64.sum (lots.map fun lot => lot.quantity * (markPrice - lot.entryPrice)))
  ensure (F64.isFinite floating) .floatingOverflowed
  return floating

end Theoretical

end CtaManager
