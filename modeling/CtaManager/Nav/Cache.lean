import CtaManager.Nav.Checkpoint

/-!
One generation of cached sources (`NavTimelineCache` in `nav.rs`): every enabled
source without its strategy anchor, and once more with it where the anchor is in
use.
-/

namespace CtaManager

open Check

abbrev SourcePositionSnapshots (F : Type) := OrdMap String (PositionSnapshot F)

abbrev SourceStrategyPositionSnapshots (F : Type) := OrdMap String (StrategyPositionSnapshot F)

abbrev NavSourceHistories (F : Type) := OrdMap String (NavSourceHistory F)

/-- `(String, bool)`: a source, with or without its strategy anchor. -/
structure SourceKey where
  sourceId : String
  strategyAllocation : Bool
  deriving DecidableEq, Repr

instance : LinearOrder SourceKey :=
  LinearOrder.lift' (fun k => toLex (k.sourceId, k.strategyAllocation)) (by
    rintro ⟨a, b⟩ ⟨c, d⟩ h
    simpa using h)

structure NavTimelineCache (F : Type) where
  config : AppConfig F
  snapshots : SourcePositionSnapshots F
  strategySnapshots : SourceStrategyPositionSnapshots F
  histories : NavSourceHistories F
  sources : OrdMap SourceKey (CachedTimelineSource F)

variable {F : Type}

def AppConfig.enabledSources (config : AppConfig F) : List (SourceConfig F) :=
  config.sources.filter fun source => source.enabled

/-- `select_sources`: an empty selection is every enabled source. -/
def selectSources (config : AppConfig F) (selectedSourceIds : List String) :
    Except NavError (List (SourceConfig F)) := do
  let requested : OrdSet String := .ofList selectedSourceIds
  ensure (requested.size == selectedSourceIds.length) .selectedSourcesDuplicate
  requested.toList.forM fun sourceId =>
    match config.sources.find? fun source => source.id == sourceId with
    | none => .error (.selectedSourceUnknown sourceId)
    | some source => ensure source.enabled (.selectedSourceDisabled sourceId)
  let selected := config.enabledSources.filter fun source =>
    requested.isEmpty || requested.contains source.id
  ensure (!selected.isEmpty || requested.isEmpty) .noSourceSelected
  return selected

variable [F64 F]

namespace NavTimelineCache

/-- The anchor of the source is in use: no later account snapshot supersedes it. -/
def hasAnchor (snapshots : SourcePositionSnapshots F)
    (strategySnapshots : SourceStrategyPositionSnapshots F) (sourceId : String) : Bool :=
  (strategySnapshots[sourceId]?).any (supersedes snapshots[sourceId]?)

/-- The sources to build, each with its allocation mode. -/
def work (config : AppConfig F) (snapshots : SourcePositionSnapshots F)
    (strategySnapshots : SourceStrategyPositionSnapshots F) : List (SourceConfig F × Bool) :=
  config.enabledSources.flatMap fun source =>
    if hasAnchor snapshots strategySnapshots source.id then [(source, false), (source, true)]
    else [(source, false)]

def buildSource [Fingerprint F] (snapshots : SourcePositionSnapshots F)
    (strategySnapshots : SourceStrategyPositionSnapshots F) (histories : NavSourceHistories F)
    (source : SourceConfig F) (allocation : Bool) : Except NavError (CachedTimelineSource F) := do
  let some history := histories[source.id]? | throw (.missingHistory source.id)
  let strategy := if allocation then strategySnapshots[source.id]? else none
  let _ ← source.navFeeRates
  let effective ← effectivePositionSnapshot snapshots[source.id]? strategy
  let initialPositionCount := (effective.map fun snapshot => snapshot.positions.length).getD 0
  let prepared ← prepareSourceEvents source history.events snapshots[source.id]? strategy
    history.liquidityByOrder history.allocations
  CachedTimelineSource.build source prepared initialPositionCount

/-- A source without an anchor answers both modes. -/
def shareSource (sources : OrdMap SourceKey (CachedTimelineSource F)) (source : SourceConfig F) :
    OrdMap SourceKey (CachedTimelineSource F) :=
  match sources[(⟨source.id, true⟩ : SourceKey)]?, sources[(⟨source.id, false⟩ : SourceKey)]? with
  | none, some shared => sources.insert ⟨source.id, true⟩ shared
  | _, _ => sources

/-- `NavTimelineCache::build`, the first generation: nothing to refresh. -/
def build [Fingerprint F] (config : AppConfig F) (snapshots : SourcePositionSnapshots F)
    (strategySnapshots : SourceStrategyPositionSnapshots F) (histories : NavSourceHistories F) :
    Except NavError (NavTimelineCache F) := do
  let built ← (work config snapshots strategySnapshots).mapM fun (source, allocation) => do
    let cached ← buildSource snapshots strategySnapshots histories source allocation
    return ((⟨source.id, allocation⟩ : SourceKey), cached)
  let sources : OrdMap SourceKey (CachedTimelineSource F) :=
    built.foldl (fun sources p => sources.insert p.1 p.2) ∅
  return { config, snapshots, strategySnapshots, histories,
           sources := config.enabledSources.foldl shareSource sources }

end NavTimelineCache

end CtaManager
