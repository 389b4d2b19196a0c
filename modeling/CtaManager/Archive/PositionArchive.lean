import CtaManager.Catalog.PositionStrategy

/-!
The position update archive (`position_archive.rs`).

A column family holds one message per key (`received_at_us`, `seq`) in the order
of its big-endian bytes, which for positive timestamps is the order of the pairs.
Beside it, `position_current:{name}` holds the last target of each strategy, written
in the same batch as its message.
-/

namespace CtaManager.Archive

open Check Catalog

/-! ## Data -/

/-- `encode_seq_key`. -/
structure SeqKey where
  receivedAtUs : Int
  seq : Nat
  deriving DecidableEq, Repr

instance : LinearOrder SeqKey :=
  LinearOrder.lift' (fun k => toLex (k.receivedAtUs, k.seq)) (by
    rintro ⟨a, b⟩ ⟨c, d⟩ h
    simpa using h)

theorem SeqKey.lt_iff {k l : SeqKey} :
    k < l ↔ k.receivedAtUs < l.receivedAtUs ∨ k.receivedAtUs = l.receivedAtUs ∧ k.seq < l.seq :=
  Prod.Lex.toLex_lt_toLex

theorem SeqKey.le_iff {k l : SeqKey} :
    k ≤ l ↔ k.receivedAtUs < l.receivedAtUs ∨ k.receivedAtUs = l.receivedAtUs ∧ k.seq ≤ l.seq :=
  Prod.Lex.toLex_le_toLex

/-- `u32::MAX`. -/
def maxSeq : Nat := 4294967295

/-- `u64::MAX`. -/
def maxRevision : Nat := 18446744073709551615

structure ArchivedFactualPosition (F : Type) where
  symbol : String
  qty : F
  usdt : Option F
  deriving DecidableEq

structure ArchivedSourcePositions (F : Type) where
  sourceId : String
  snapshotTsMs : Int
  positionReady : Bool
  positions : List (ArchivedFactualPosition F)
  deriving DecidableEq

structure ArchivedPublishedAccount (F : Type) where
  sourceId : String
  bindingName : String
  shares : F
  deriving DecidableEq

structure PositionUpdateMsg (F : Type) where
  receivedAtUs : Int
  seq : Nat
  strategy : PositionStrategy F
  factualPositions : List (ArchivedSourcePositions F)
  publishedAccounts : List (ArchivedPublishedAccount F)
  deriving DecidableEq

/-- The key a message is stored under. -/
def PositionUpdateMsg.key {F : Type} (message : PositionUpdateMsg F) : SeqKey :=
  ⟨message.receivedAtUs, message.seq⟩

inductive ArchiveError
  | receivedAtNotPositive
  | invalidStrategy (error : String)
  | noMatchingEvent
  | sequenceExhausted
  | revisionExhausted
  | writeFailed
  | zeroLimit
  | negativeCursor
  | identityMismatch
  deriving DecidableEq, Repr

/-- What is durable: the messages, and the current target of each strategy with the
creation time of the strategy. -/
structure ArchiveDb (F : Type) where
  updates : OrdMap SeqKey (PositionUpdateMsg F)
  current : OrdMap String (Int × PositionStrategy F)

structure TargetWrites where
  revision : Nat
  discardedLateRevision : Nat
  late : List (Nat × SeqKey)
  deriving DecidableEq

structure PositionArchive (F : Type) where
  db : ArchiveDb F
  lastKey : SeqKey
  targetWrites : TargetWrites

/-- How a write of the store ends.  An error of the log sync may be reported after
the batch was committed. -/
inductive WriteOutcome
  | committed
  | failed
  | reported
  deriving DecidableEq, Repr

variable {F : Type}

/-! ## Opening -/

def ArchiveDb.empty : ArchiveDb F := { updates := ∅, current := ∅ }

/-- `latest_key`. -/
def ArchiveDb.latestKey (db : ArchiveDb F) : Option SeqKey :=
  db.updates.toList.getLast?.map Prod.fst

/-- The batch of a message, and of the current target it belongs to. -/
def ArchiveDb.write (db : ArchiveDb F) (message : PositionUpdateMsg F)
    (currentIdentity : Option Int) : ArchiveDb F :=
  { updates := db.updates.insert message.key message
    current := match currentIdentity with
      | some identity =>
        db.current.insert message.strategy.strategyName (identity, message.strategy)
      | none => db.current }

namespace PositionArchive

/-- `open`: the head is the last stored key. -/
def openDb (db : ArchiveDb F) : PositionArchive F :=
  { db
    lastKey := db.latestKey.getD ⟨0, 0⟩
    targetWrites := { revision := 0, discardedLateRevision := 0, late := [] } }

def latestCursor (archive : PositionArchive F) : SeqKey := archive.lastKey

/-! ## Appending -/

/-- `record_append`: the revision, the late keys, and the head. -/
def recordAppend (archive : PositionArchive F) (key : SeqKey) :
    PositionArchive F × Except ArchiveError Unit :=
  if archive.targetWrites.revision < maxRevision then
    let revision := archive.targetWrites.revision + 1
    let writes := { archive.targetWrites with revision }
    let writes :=
      if key < archive.lastKey then
        let late := writes.late ++ [(revision, key)]
        match late with
        | first :: rest =>
          if 1024 < late.length then { writes with discardedLateRevision := first.1, late := rest }
          else { writes with late }
        | [] => writes
      else writes
    ({ archive with lastKey := max archive.lastKey key, targetWrites := writes }, .ok ())
  else (archive, .error .revisionExhausted)

/-- The stored event of a target that is already the current one: the first message
of its timestamp with its name and time. -/
def storedTarget (archive : PositionArchive F) (receivedAtUs : Int)
    (strategy : PositionStrategy F) : Option (SeqKey × PositionUpdateMsg F) :=
  let events := archive.db.updates.toList.filter fun p => decide (⟨receivedAtUs, 0⟩ ≤ p.1)
  (events.takeWhile fun p => p.1.receivedAtUs == receivedAtUs).find? fun p =>
    p.2.strategy.strategyName == strategy.strategyName &&
      p.2.strategy.updatedAtUs == strategy.updatedAtUs

/-- The sequence number of the next message of a timestamp. -/
def nextSeq (archive : PositionArchive F) (receivedAtUs : Int) : Except ArchiveError Nat :=
  let following (seq : Nat) : Except ArchiveError Nat := do
    ensure (decide (seq < maxSeq)) .sequenceExhausted
    return seq + 1
  if archive.lastKey.receivedAtUs < receivedAtUs then .ok 0
  else if receivedAtUs = archive.lastKey.receivedAtUs then following archive.lastKey.seq
  else
    let previous :=
      (archive.db.updates.toList.filter fun p => decide (p.1 ≤ ⟨receivedAtUs, maxSeq⟩)).getLast?
    match previous with
    | some (key, _) => if key.receivedAtUs = receivedAtUs then following key.seq else .ok 0
    | none => .ok 0

section

variable [DecidableEq F] [F64 F] [Text.Unicode]

/-- `append_inner`. -/
def appendInner (archive : PositionArchive F) (receivedAtUs : Int) (strategy : PositionStrategy F)
    (factualPositions : List (ArchivedSourcePositions F))
    (publishedAccounts : List (ArchivedPublishedAccount F)) (currentIdentity : Option Int)
    (outcome : WriteOutcome) : PositionArchive F × Except ArchiveError (PositionUpdateMsg F) :=
  if receivedAtUs ≤ 0 then (archive, .error .receivedAtNotPositive) else
  match strategy.validate with
  | .error e => (archive, .error (.invalidStrategy e))
  | .ok () =>
    -- the ordered writer retries the exact target whose batch may be there
    if currentIdentity.any fun identity =>
        archive.db.current[strategy.strategyName]? == some (identity, strategy) then
      match archive.storedTarget receivedAtUs strategy with
      | none => (archive, .error .noMatchingEvent)
      | some (key, message) =>
        -- visible is not durable: the log is synced first
        if outcome = .committed then
          match archive.recordAppend key with
          | (archive, .ok ()) => (archive, .ok message)
          | (archive, .error e) => (archive, .error e)
        else (archive, .error .writeFailed)
    else
      match archive.nextSeq receivedAtUs with
      | .error e => (archive, .error e)
      | .ok seq =>
        let message :=
          { receivedAtUs, seq, strategy, factualPositions, publishedAccounts }
        let written := { archive with db := archive.db.write message currentIdentity }
        match outcome with
        | .failed => (archive, .error .writeFailed)
        | .reported => (written, .error .writeFailed)
        | .committed =>
          match written.recordAppend message.key with
          | (archive, .ok ()) => (archive, .ok message)
          | (archive, .error e) => (archive, .error e)

def append (archive : PositionArchive F) (receivedAtUs : Int) (strategy : PositionStrategy F)
    (factualPositions : List (ArchivedSourcePositions F))
    (publishedAccounts : List (ArchivedPublishedAccount F)) (outcome : WriteOutcome) :
    PositionArchive F × Except ArchiveError (PositionUpdateMsg F) :=
  archive.appendInner receivedAtUs strategy factualPositions publishedAccounts none outcome

/-- `append_target`: the target and its history in one write. -/
def appendTarget (archive : PositionArchive F) (strategy : PositionStrategy F) (createdAtUs : Int)
    (publishedAccounts : List (ArchivedPublishedAccount F)) (outcome : WriteOutcome) :
    PositionArchive F × Except ArchiveError (PositionUpdateMsg F) :=
  archive.appendInner strategy.updatedAtUs strategy [] publishedAccounts (some createdAtUs) outcome

def currentTarget (archive : PositionArchive F) (name : String) (createdAtUs : Int) :
    Except ArchiveError (Option (PositionStrategy F)) :=
  match archive.db.current[name]? with
  | none => .ok none
  | some (identity, strategy) => do
    ensure (strategy.strategyName == name) .identityMismatch
    strategy.validate.mapError .invalidStrategy
    return if identity = createdAtUs then some strategy else none

end

end PositionArchive

/-! ## Pages -/

/-- What a reader may see of a message. -/
def PositionUpdateMsg.visible (allowedSourceIds allowedStrategyNames : Option (OrdSet String))
    (message : PositionUpdateMsg F) : Option (PositionUpdateMsg F) :=
  if allowedStrategyNames.any fun names => !names.contains message.strategy.strategyName then none
  else
    match allowedSourceIds with
    | none => some message
    | some sources =>
      let publishedAccounts :=
        message.publishedAccounts.filter fun account => sources.contains account.sourceId
      let factualPositions :=
        message.factualPositions.filter fun source => sources.contains source.sourceId
      if publishedAccounts.isEmpty && factualPositions.isEmpty then none
      else some { message with publishedAccounts, factualPositions }

namespace ArchiveDb

/-- The loop of a page: skip up to the cursor, stop at `limit` messages. -/
def pageLoop (allowedSourceIds allowedStrategyNames : Option (OrdSet String))
    (after : Option SeqKey) (limit : Nat) :
    List (SeqKey × PositionUpdateMsg F) → Nat → List (PositionUpdateMsg F)
  | [], _ => []
  | (cursor, message) :: rest, count =>
    if after.any fun after => decide (cursor ≤ after) then
      pageLoop allowedSourceIds allowedStrategyNames after limit rest count
    else
      match message.visible allowedSourceIds allowedStrategyNames with
      | none => pageLoop allowedSourceIds allowedStrategyNames after limit rest count
      | some message =>
        if count + 1 = limit then [message]
        else message :: pageLoop allowedSourceIds allowedStrategyNames after limit rest (count + 1)

/-- `raw_json_page_for_sources`. -/
def rawJsonPageForSources (db : ArchiveDb F) (after : Option SeqKey) (limit : Nat)
    (allowedSourceIds allowedStrategyNames : Option (OrdSet String)) :
    Except ArchiveError (List (PositionUpdateMsg F)) := do
  ensure (limit != 0) .zeroLimit
  ensure (!after.any fun after => decide (after.receivedAtUs < 0)) .negativeCursor
  let start := after.map fun after => (⟨max after.receivedAtUs 1, after.seq⟩ : SeqKey)
  let events := db.updates.toList.filter fun p => start.all fun start => decide (start ≤ p.1)
  return pageLoop allowedSourceIds allowedStrategyNames after limit events 0

/-- A reader: page after page, each from the key of the last message before, until a
page is empty. -/
def readPages (db : ArchiveDb F) (limit : Nat)
    (allowedSourceIds allowedStrategyNames : Option (OrdSet String)) :
    Nat → Option SeqKey → Except ArchiveError (List (List (PositionUpdateMsg F)))
  | 0, _ => return []
  | pages + 1, after => do
    let page ← db.rawJsonPageForSources after limit allowedSourceIds allowedStrategyNames
    match page.getLast? with
    | none => return []
    | some last =>
      let rest ← readPages db limit allowedSourceIds allowedStrategyNames pages (some last.key)
      return page :: rest

end ArchiveDb

end CtaManager.Archive
