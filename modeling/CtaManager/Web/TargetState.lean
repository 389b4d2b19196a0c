import CtaManager.Archive.History

/-!
Live targets (`web/target_state.rs`).

The targets of the strategies are in memory.  An accepted version is queued for the archive, which
keeps every version, and put into a map for PostgreSQL, which keeps the last one of a strategy.  A
strategy that is deleted and created again under its name has another creation time.
-/

namespace CtaManager.Web

open Archive Catalog Check

/-- A strategy of the catalog, without its access rights: only a request reads those. -/
structure Entry (F : Type) where
  strategy : PositionStrategy F
  createdAtUs : Int
  deriving DecidableEq

/-- A version in the queue of the archive. -/
structure ArchiveWrite (F : Type) where
  strategy : PositionStrategy F
  createdAtUs : Int
  accounts : List (ArchivedPublishedAccount F)

structure Targets (F : Type) where
  catalog : OrdMap String (Entry F)
  current : OrdMap String (Entry F)
  ready : Bool
  pending : OrdMap String (Entry F)
  archivePending : List (ArchiveWrite F)
  closing : Bool

def MAX_PENDING_ARCHIVES : Nat := 512

variable {F : Type}

namespace Targets

def default : Targets F where
  catalog := ∅
  current := ∅
  ready := false
  pending := ∅
  archivePending := []
  closing := false

/-- `edit`: admission closes until the catalog is read again. -/
def edit (targets : Targets F) : Targets F := { targets with ready := false }

def close (targets : Targets F) : Targets F := { targets with closing := true }

/-! ## Accepting a version -/

/-- The first half of `accept`. -/
def acceptCurrent (targets : Targets F) (entry : Entry F) : Targets F :=
  { targets with current := targets.current.insert entry.strategy.strategyName entry }

/-- The second half of `accept`, under another lock. -/
def acceptPending (targets : Targets F) (entry : Entry F) : Targets F :=
  { targets with pending := targets.pending.insert entry.strategy.strategyName entry }

def accept (targets : Targets F) (entry : Entry F) : Targets F :=
  (targets.acceptCurrent entry).acceptPending entry

/-- `enqueue`, up to the first half of `accept`. -/
def admitEntry (targets : Targets F) (entry : Entry F) (accounts : List (ArchivedPublishedAccount F)) :
    Except String (Targets F) := do
  ensure (!targets.closing && decide (targets.archivePending.length < MAX_PENDING_ARCHIVES))
    "target persistence queue is full or stopping; retry the target update"
  let archivePending := targets.archivePending ++ [⟨entry.strategy, entry.createdAtUs, accounts⟩]
  return acceptCurrent { targets with archivePending } entry

def enqueue (targets : Targets F) (entry : Entry F) (accounts : List (ArchivedPublishedAccount F)) :
    Except String (Targets F) := do
  let targets ← targets.admitEntry entry accounts
  return targets.acceptPending entry

/-- The version that `publish` makes of a request: later than the one in memory. -/
def nextVersion (targets : Targets F) (request : PositionStrategy F) (nowUs : Int) :
    Option (Entry F) :=
  match targets.catalog[request.strategyName]? with
  | none => none
  | some entry =>
    let base := ((targets.current[request.strategyName]?).map Entry.strategy).getD entry.strategy
    some { entry with
      strategy := { request with updatedAtUs := max nowUs (base.updatedAtUs + 1) } }

theorem lt_nextVersion {targets : Targets F} {request : PositionStrategy F} {nowUs : Int}
    {entry c : Entry F} (h : targets.nextVersion request nowUs = some entry)
    (hc : targets.current[entry.strategy.strategyName]? = some c) :
    c.strategy.updatedAtUs < entry.strategy.updatedAtUs := by
  unfold nextVersion at h
  split at h
  · cases h
  · cases h
    rw [show targets.current[request.strategyName]? = some c from hc]
    exact lt_of_lt_of_le (Int.lt_succ _) (le_max_right _ _)

/-! ## The writers -/

section

variable [DecidableEq F] [F64 F] [Text.Unicode]

/-- One round of `flush_archive`: the front leaves the queue when it is stored. -/
def flushFront (targets : Targets F) (archive : PositionArchive F) (outcome : WriteOutcome) :
    Targets F × PositionArchive F × Except ArchiveError (Option (PositionUpdateMsg F)) :=
  match targets.archivePending with
  | [] => (targets, archive, .ok none)
  | job :: rest =>
    match archive.appendTarget job.strategy job.createdAtUs job.accounts outcome with
    | (archive, .ok message) => ({ targets with archivePending := rest }, archive, .ok (some message))
    | (archive, .error e) => (targets, archive, .error e)

end

/-- `flush`, after an `UPDATE`: the entry leaves the map unless another version has come. -/
def settle (targets : Targets F) (name : String) (entry : Entry F) : Targets F :=
  if (targets.pending[name]?).any fun e => e.createdAtUs == entry.createdAtUs &&
      e.strategy.updatedAtUs == entry.strategy.updatedAtUs then
    { targets with pending := targets.pending.erase name }
  else targets

end Targets

/-- The `UPDATE` of `flush`, on the rows of `cta_position_strategies`. -/
def updateRow (rows : OrdMap String (Entry F)) (name : String) (entry : Entry F) :
    OrdMap String (Entry F) :=
  match rows[name]? with
  | some row =>
    if row.createdAtUs = entry.createdAtUs ∧
        row.strategy.updatedAtUs ≤ entry.strategy.updatedAtUs then
      rows.insert name { row with
        strategy := { entry.strategy with strategyName := row.strategy.strategyName } }
    else rows
  | none => rows

/-! ## Reading the catalog -/

/-- The newest of a row that was read, the archived target of its strategy and the live one. -/
def mergeEntry (recovered : Option (PositionStrategy F)) (live : Option (Entry F))
    (entry : Entry F) : Entry F :=
  let entry :=
    match recovered with
    | some stored =>
      if entry.strategy.updatedAtUs < stored.updatedAtUs then { entry with strategy := stored }
      else entry
    | none => entry
  match live with
  | some live =>
    if live.createdAtUs = entry.createdAtUs ∧
        entry.strategy.updatedAtUs < live.strategy.updatedAtUs then
      { entry with strategy := live.strategy }
    else entry
  | none => entry

/-- What `install` reads from the archive before it takes the locks. -/
def recoverTargets [F64 F] [Text.Unicode] (archive : PositionArchive F)
    (entries : OrdMap String (Entry F)) :
    Except ArchiveError (OrdMap String (Option (PositionStrategy F))) :=
  entries.toList.foldlM (fun recovered p => do
    let target ← archive.currentTarget p.1 p.2.createdAtUs
    return recovered.insert p.1 target) ∅

/-- `install`, with the rows that were read and the archived targets of their strategies. -/
def Targets.install (targets : Targets F) (entries : OrdMap String (Entry F))
    (recovered : OrdMap String (Option (PositionStrategy F))) : Targets F :=
  let merged := entries.map fun name entry =>
    mergeEntry (recovered[name]?).join targets.current[name]? entry
  let kept := targets.pending.filter fun name entry =>
    (entries[name]?).any fun e => e.createdAtUs == entry.createdAtUs
  { targets with
    catalog := merged
    current := merged
    ready := true
    pending := entries.toList.foldl (fun pending p =>
      let entry := mergeEntry (recovered[p.1]?).join targets.current[p.1]? p.2
      if p.2.strategy.updatedAtUs < entry.strategy.updatedAtUs then pending.insert p.1 entry
      else pending) kept }

end CtaManager.Web
