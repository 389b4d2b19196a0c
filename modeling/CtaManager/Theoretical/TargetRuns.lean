import CtaManager.Archive.LateWrites
import CtaManager.Library.Steps
import CtaManager.Theoretical.TargetIndex

/-!
Runs of the target cache beside the writers of the archive (`refresh_blocking` of
`theoretical_nav.rs`, `append_inner` of `position_archive.rs`).

A writer stores its message and counts it afterwards; a refresh reads the count, then the
messages that are stable by now, then the recent ones.  The count and the list of late keys are
all that a refresh knows of the messages written behind its cursor.  What the cursor has passed
and the cache has not folded is a message the next refresh will find out about (`Missed`).
-/

namespace CtaManager

namespace Theoretical

open Check Archive Steps

variable {F : Type}

/-- What target readers decode of the stored messages. -/
abbrev TargetRows (F : Type) := OrdMap SeqKey (TargetUpdate F)

/-- `visit_target_updates_after`. -/
def visitTargetUpdatesAfter (rows : TargetRows F) (after : Option SeqKey)
    (endReceivedAtUs : Int) : List (TargetUpdate F) :=
  ((rows.toList.filter fun row => after.all fun cursor => decide (cursor < row.1)).takeWhile
    fun row => decide (row.1.receivedAtUs ≤ endReceivedAtUs)).map Prod.snd

/-- The recent part of the history, in microseconds. -/
def unstableUs : Int := 120 * 1000000

/-- Where a refresh is; it holds the lock of the cache until it is done. -/
inductive RefreshPhase
  | idle
  /-- it has read the count of writes -/
  | begun (revision : Nat)
  /-- it has folded the stable messages -/
  | folded (revision : Nat)
  deriving DecidableEq

structure TargetWorld (F : Type) where
  archive : PositionArchive F
  rows : TargetRows F
  /-- stored and not counted yet; its writer holds the lock of the head -/
  writing : Option SeqKey
  cache : TargetCacheState F
  ready : Bool
  error : Option TargetError
  phase : RefreshPhase
  clock : Int
  /-- the clock of the last refresh that succeeded -/
  refreshedAtUs : Int

inductive TargetAction (F : Type)
  /-- a message is stored, with what target readers decode of its accounts -/
  | write (q : AppendRequest F) (accounts : List (TargetAccount F))
  | record
  /-- a target that is the current one already is published again -/
  | retry (q : AppendRequest F)
  | tick (elapsed : Nat)
  | begin
  | visitStable
  | visitTail
  | restart

/-- `PositionArchive::open` and `TheoreticalTargetCache::new`. -/
def TargetWorld.start (db : ArchiveDb F) (rows : TargetRows F) (clock : Int) : TargetWorld F where
  archive := .openDb db
  rows := rows
  writing := none
  cache := .empty
  ready := false
  error := none
  phase := .idle
  clock := clock
  refreshedAtUs := clock

section

variable [DecidableEq F] [F64 F] [Text.Unicode]

namespace TargetWorld

def write (w : TargetWorld F) (q : AppendRequest F) (accounts : List (TargetAccount F)) :
    TargetWorld F :=
  match w.writing, w.archive.batch q with
  | none, some message =>
    { w with
      archive := { w.archive with db := w.archive.db.write message q.currentIdentity }
      rows := w.rows.insert message.key {
        receivedAtUs := message.receivedAtUs
        seq := message.seq
        strategy := message.strategy
        publishedAccounts := accounts }
      writing := if q.outcome = .committed then some message.key else none }
  | _, _ => w

def record (w : TargetWorld F) : TargetWorld F :=
  match w.writing with
  | some key => { w with archive := (w.archive.recordAppend key).1, writing := none }
  | none => w

def retry (w : TargetWorld F) (q : AppendRequest F) : TargetWorld F :=
  if w.writing = none ∧ w.archive.retries q = true then
    { w with archive := (w.archive.appendInner q.receivedAtUs q.strategy q.factualPositions
      q.publishedAccounts q.currentIdentity q.outcome).1 }
  else w

/-- `refresh`, and the first step of `refresh_blocking`. -/
def begin (w : TargetWorld F) : TargetWorld F :=
  let changes := w.archive.targetChangesSince w.cache.revision w.cache.cursor
  if w.phase ≠ .idle ∨ w.ready = true ∧ changes.1 = w.cache.revision then w
  else
    { w with
      cache := if changes.2 then .empty else w.cache
      ready := w.ready && !changes.2
      phase := .begun changes.1 }

def fold (w : TargetWorld F) (config : List TargetSource) :
    TargetCacheState F × Except TargetError Unit :=
  foldUntil (ingestStable config) w.cache
    (visitTargetUpdatesAfter w.rows w.cache.cursor (w.clock - unstableUs))

def visitStable (w : TargetWorld F) (config : List TargetSource) : TargetWorld F :=
  match w.phase with
  | .begun revision =>
    match w.fold config with
    | (cache, .ok _) => { w with cache, phase := .folded revision }
    | (cache, .error e) => { w with cache, error := some e, phase := .idle }
  | _ => w

def tail (w : TargetWorld F) (config : List TargetSource) :
    TargetCacheState F × Except TargetError Unit :=
  foldUntil (ingestTarget config) { (.empty : TargetCacheState F) with latest := w.cache.latest }
    (visitTargetUpdatesAfter w.rows w.cache.cursor w.clock)

def visitTail (w : TargetWorld F) (config : List TargetSource) : TargetWorld F :=
  match w.phase with
  | .folded revision =>
    match w.tail config with
    | (tail, .ok _) =>
      { w with
        cache := { w.cache with
          tailDeltas := tail.deltas, tailMarkets := tail.markets, revision }
        ready := true
        error := none
        phase := .idle
        refreshedAtUs := w.clock }
    | (_, .error e) => { w with error := some e, phase := .idle }
  | _ => w

def step (config : List TargetSource) (w : TargetWorld F) : TargetAction F → TargetWorld F
  | .write q accounts => w.write q accounts
  | .record => w.record
  | .retry q => w.retry q
  | .tick elapsed => { w with clock := w.clock + elapsed }
  | .begin => w.begin
  | .visitStable => w.visitStable config
  | .visitTail => w.visitTail config
  | .restart => .start w.archive.db w.rows w.clock

/-- No write reports an error after it was committed, no count runs out, and what a refresh
visits can be ingested. -/
def Succeeds (config : List TargetSource) (w : TargetWorld F) : TargetAction F → Prop
  | .write q _ => q.outcome ≠ .reported
  | .record => w.archive.targetWrites.revision < maxRevision
  | .visitStable => ∀ revision, w.phase = .begun revision → (w.fold config).2 = .ok ()
  | .visitTail => ∀ revision, w.phase = .folded revision → (w.tail config).2 = .ok ()
  | _ => True

end TargetWorld

/-! ## What holds between the steps -/

/-- The count that the cache has read, or is reading, up to. -/
def TargetWorld.readRevision (w : TargetWorld F) : Nat :=
  match w.phase with
  | .idle => w.cache.revision
  | .begun revision => revision
  | .folded revision => revision

/-- The rows are what readers decode of the stored messages, and none is above the head but the
one that is being written. -/
structure Stored (w : TargetWorld F) : Prop where
  keys : ∀ key, key ∈ w.rows ↔ key ∈ w.archive.db.updates
  stamped : ∀ (key : SeqKey) (message : TargetUpdate F), w.rows[key]? = some message →
    message.key = key
  seqs : ∀ key ∈ w.rows, key.seq ≤ maxSeq
  head : ∀ key ∈ w.rows, key ≤ w.archive.lastKey ∨ w.writing = some key
  written : ∀ key, w.writing = some key → key ∈ w.rows

/-- Still being written, or known to the archive since. -/
def Missed (w : TargetWorld F) (key : SeqKey) : Prop :=
  w.writing = some key ∨ w.archive.targetWrites.Knows w.readRevision key

/-- The messages under some keys. -/
def messagesOf (rows : TargetRows F) (p : SeqKey → Bool) : List (TargetUpdate F) :=
  (rows.toList.filter fun row => p row.1).map Prod.snd

/-- `folded` are the keys of the messages in the stable part. -/
structure Base (config : List TargetSource) (w : TargetWorld F) (folded : SeqKey → Bool) :
    Prop where
  rows : ∀ key, folded key = true →
    key ∈ w.rows ∧ ∃ cursor, w.cache.cursor = some cursor ∧ key ≤ cursor
  cursor : ∀ cursor, w.cache.cursor = some cursor →
    folded cursor = true ∧ cursor.receivedAtUs + unstableUs ≤ w.clock
  missed : ∀ key ∈ w.rows, ∀ cursor, w.cache.cursor = some cursor → key ≤ cursor →
    folded key = true ∨ Missed w key
  deltas : logDeltas config ∅ (messagesOf w.rows folded) = .ok (w.cache.deltas, w.cache.latest)
  indexed : Indexed w.cache.deltas w.cache.markets

/-- The recent part, of the last refresh. -/
structure Tail (config : List TargetSource) (w : TargetWorld F) : Prop where
  indexed : Indexed w.cache.tailDeltas w.cache.tailMarkets
  sorted : w.cache.tailDeltas.Pairwise fun a b => a.receivedAtUs ≤ b.receivedAtUs
  refreshed : w.refreshedAtUs ≤ w.clock ∧ ∀ cursor, w.cache.cursor = some cursor →
    cursor.receivedAtUs ≤ w.refreshedAtUs
  deltas : w.writing = none → w.cache.revision = w.archive.targetWrites.revision →
    ∃ latest, logDeltas config w.cache.latest
      (visitTargetUpdatesAfter w.rows w.cache.cursor w.refreshedAtUs) =
        .ok (w.cache.tailDeltas, latest)

structure TargetInv (config : List TargetSource) (w : TargetWorld F) : Prop where
  stored : Stored w
  ordered : w.archive.targetWrites.Ordered
  revision : w.readRevision ≤ w.archive.targetWrites.revision
  base : ∃ folded, Base config w folded
  tail : w.phase = .idle → w.ready = true → Tail config w

end

end Theoretical

end CtaManager
