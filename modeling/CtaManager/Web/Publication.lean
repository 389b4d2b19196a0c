import CtaManager.Library.OrdMapRange
import CtaManager.Nav.Num

/-!
Publications of live targets and edits of the configuration (`web/publication.rs`).

A request waits for the lock of its strategy, and is admitted when no edit holds the configuration.
From then on it keeps both, up to its last write, also when the client is gone.  An edit closes the
admission until the catalog has been read again.
-/

namespace CtaManager.Web.Publication

structure BindingKey where
  sourceId : String
  bindingName : String
  deriving DecidableEq

instance : LinearOrder BindingKey :=
  LinearOrder.lift' (fun k => toLex (k.sourceId, k.bindingName)) (by
    rintro ⟨a, b⟩ ⟨c, d⟩ h
    simpa using h)

/-- A row of `cta_account_strategy_bindings`, as far as the target path reads it. -/
structure AccountBinding (F : Type) where
  positionStrategyName : String
  shares : F

inductive Phase (F : Type)
  | waiting
  | admitted
  /-- the bindings and the shares of its catalog -/
  | planned (plan : List (BindingKey × F))
  /-- accepted as the version of that number; what is still to be written -/
  | publishing (version : Nat) (remaining : List (BindingKey × F))

def Phase.isWaiting {F : Type} : Phase F → Bool
  | .waiting => true
  | _ => false

structure Request (F : Type) where
  strategy : String
  /-- the lock, of which the request keeps a strong pointer -/
  lock : Nat
  phase : Phase F

/-- A write of the targets of a binding: by a version of its strategy, or by an edit. -/
structure Write (F : Type) where
  key : BindingKey
  shares : F
  strategy : String
  version : Option Nat

structure World (F : Type) where
  /-- the weak pointers of `PublicationLocks` -/
  strategies : OrdMap String Nat
  nextLock : Nat
  /-- in the order in which they asked for their lock -/
  requests : List (Request F)
  /-- somebody has the configuration for writing -/
  editing : Bool
  ready : Bool
  rows : OrdMap BindingKey (AccountBinding F)
  catalog : OrdMap BindingKey (AccountBinding F)
  /-- the versions accepted so far -/
  accepted : Nat
  writes : List (Write F)

variable {F : Type}

namespace World

def start (rows : OrdMap BindingKey (AccountBinding F)) : World F where
  strategies := ∅
  nextLock := 0
  requests := []
  editing := false
  ready := false
  rows := rows
  catalog := ∅
  accepted := 0
  writes := []

/-- `strong_count() > 0`. -/
def alive (w : World F) (lock : Nat) : Bool := w.requests.any fun r => r.lock == lock

/-- The lock of a strategy: the one that somebody has, or a new one. -/
def lockOf (w : World F) (strategy : String) : OrdMap String Nat × Nat × Nat :=
  let strategies := w.strategies.filter fun _ lock => w.alive lock
  match strategies[strategy]? with
  | some lock => (strategies, w.nextLock, lock)
  | none => (strategies.insert strategy w.nextLock, w.nextLock + 1, w.nextLock)

/-- A request comes in. -/
def ask (w : World F) (strategy : String) : World F :=
  { w with
    strategies := (w.lockOf strategy).1
    nextLock := (w.lockOf strategy).2.1
    requests := w.requests ++ [⟨strategy, (w.lockOf strategy).2.2, .waiting⟩] }

def idle (w : World F) : Prop := ∀ r ∈ w.requests, r.phase.isWaiting = true

variable [F64 F]

/-- `list_active_bindings_for_position`, of every strategy. -/
def activeBindings (w : World F) : OrdMap BindingKey (AccountBinding F) :=
  w.rows.filter fun _ binding => decide (0 < binding.shares)

/-- The bindings that `publish` plans. -/
def plan (w : World F) (strategy : String) : List (BindingKey × F) :=
  (w.catalog.toList.filter fun p =>
    p.2.positionStrategyName == strategy && decide (0 < p.2.shares)).map fun p => (p.1, p.2.shares)

end World

variable [F64 F]

inductive Step : World F → World F → Prop where
  | request (w : World F) (strategy : String) : Step w (w.ask strategy)
  /-- the client disconnects, or the configuration is taken -/
  | cancel (w : World F) (before after : List (Request F)) (r : Request F)
      (hrequests : w.requests = before ++ r :: after) (hwaiting : r.phase = .waiting) :
      Step w { w with requests := before ++ after }
  /-- the lock goes to those who wait in their order -/
  | admission (w : World F) (before after : List (Request F)) (r : Request F)
      (hrequests : w.requests = before ++ r :: after) (hwaiting : r.phase = .waiting)
      (hturn : ∀ q ∈ before, q.lock ≠ r.lock) (hedit : w.editing = false) :
      Step w { w with requests := before ++ { r with phase := .admitted } :: after }
  /-- a refusal on the way -/
  | fail (w : World F) (before after : List (Request F)) (r : Request F)
      (hrequests : w.requests = before ++ r :: after)
      (hphase : r.phase = .admitted ∨ ∃ plan, r.phase = .planned plan) :
      Step w { w with requests := before ++ after }
  /-- the creation of a strategy reads the catalog -/
  | create (w : World F) (r : Request F) (hr : r ∈ w.requests) (hphase : r.phase = .admitted)
      (hready : w.ready = true) : Step w { w with catalog := w.activeBindings }
  | plan (w : World F) (before after : List (Request F)) (r : Request F)
      (hrequests : w.requests = before ++ r :: after) (hphase : r.phase = .admitted)
      (hready : w.ready = true) :
      Step w { w with
        requests := before ++ { r with phase := .planned (w.plan r.strategy) } :: after }
  | enqueue (w : World F) (before after : List (Request F)) (r : Request F)
      (plan : List (BindingKey × F)) (hrequests : w.requests = before ++ r :: after)
      (hphase : r.phase = .planned plan) :
      Step w { w with
        requests := before ++ { r with phase := .publishing w.accepted plan } :: after
        accepted := w.accepted + 1 }
  /-- the write of a binding, in any order; it may be made and not be confirmed -/
  | write (w : World F) (before after : List (Request F)) (r : Request F) (version : Nat)
      (done rest : List (BindingKey × F)) (key : BindingKey) (shares : F) (made : Bool)
      (hrequests : w.requests = before ++ r :: after)
      (hphase : r.phase = .publishing version (done ++ (key, shares) :: rest)) :
      Step w { w with
        requests := before ++ { r with phase := .publishing version (done ++ rest) } :: after
        writes := if made then w.writes ++ [⟨key, shares, r.strategy, some version⟩] else w.writes }
  | finish (w : World F) (before after : List (Request F)) (r : Request F) (version : Nat)
      (hrequests : w.requests = before ++ r :: after) (hphase : r.phase = .publishing version []) :
      Step w { w with requests := before ++ after }
  /-- `edit` -/
  | beginEdit (w : World F) (hedit : w.editing = false) (hidle : w.idle) :
      Step w { w with editing := true, ready := false }
  | saveBinding (w : World F) (key : BindingKey) (binding : AccountBinding F)
      (hedit : w.editing = true) : Step w { w with rows := w.rows.insert key binding }
  | deleteBinding (w : World F) (key : BindingKey) (hedit : w.editing = true) :
      Step w { w with rows := w.rows.erase key }
  /-- `publish_binding_with_projection`, which loads the binding -/
  | publishBinding (w : World F) (key : BindingKey) (binding : AccountBinding F)
      (hedit : w.editing = true) (hrow : w.rows[key]? = some binding) :
      Step w { w with
        writes := w.writes ++ [⟨key, binding.shares, binding.positionStrategyName, none⟩] }
  /-- also when it is given up half way -/
  | endEdit (w : World F) (hedit : w.editing = true) : Step w { w with editing := false }
  | reload (w : World F) (hedit : w.editing = false) (hidle : w.idle) :
      Step w { w with catalog := w.activeBindings, ready := true }

end CtaManager.Web.Publication
