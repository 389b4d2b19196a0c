import CtaManager.Catalog.Symbols
import CtaManager.Library.OrdMap
import CtaManager.Library.StableSort
import CtaManager.Nav.Num

/-!
Virtual accounts (`virtual_accounts.rs`).

A virtual account is a template: bindings that no Exec trades.  An account of the
catalog follows some of them, each with a multiplier, and then holds the sum of
their scaled bindings.  Every operation is one transaction under one advisory lock,
so the operations are functions from the database to the database it commits; an
operation that fails is rolled back (`Db.commit`).

Foreign keys are checked where the code does not check them itself.  The `CHECK`
clauses of the schema repeat checks of the code.
-/

namespace CtaManager.Accounts

open Check Catalog

/-! ## Data -/

structure VirtualBinding (F : Type) where
  bindingName : String
  positionStrategyName : String
  orderStrategyName : String
  shares : F
  deriving DecidableEq

structure SaveBindingRequest (F : Type) where
  bindingName : String
  positionStrategyName : String
  orderStrategyName : String
  shares : F
  deriving DecidableEq

structure AccountFollow (F : Type) where
  virtualId : String
  multiplier : F
  deriving DecidableEq

inductive AccountConfiguration (F : Type) where
  | independent
  | follow (follows : List (AccountFollow F))

structure SaveVirtualAccount (F : Type) where
  name : String
  bindings : List (VirtualBinding F)

/-- A row of `cta_virtual_account_bindings`. -/
structure TemplateRow (F : Type) where
  positionStrategyName : String
  orderStrategyName : String
  shares : F
  deriving DecidableEq

/-- A row of `cta_virtual_accounts`, with the bindings that refer to it. -/
structure AccountRow (F : Type) where
  name : String
  updatedAtUs : Int
  bindings : OrdMap String (TemplateRow F)

/-- A row of `cta_account_follows`. -/
structure FollowRow (F : Type) where
  multiplier : F
  updatedAtUs : Int

/-- A row of `cta_account_strategy_bindings`. -/
structure BindingRow (F : Type) where
  positionStrategyName : String
  orderStrategyName : String
  shares : F
  updatedAtUs : Int
  deriving DecidableEq

/-- A row of `cta_follow_publish_queue`. -/
structure QueueRow where
  revision : Int
  archived : Bool
  error : Option String
  deriving DecidableEq

/-- The bindings of one source and the publications it waits for. -/
structure SourceRows (F : Type) where
  bindings : OrdMap String (BindingRow F)
  queue : OrdMap String QueueRow

/-- The tables, by their primary keys; the first key of the last three is `source_id`. -/
structure Db (F : Type) where
  orderSources : OrdSet String
  positionStrategies : OrdSet String
  orderStrategies : OrdSet String
  accounts : OrdMap String (AccountRow F)
  follows : OrdMap String (OrdMap String (FollowRow F))
  bindings : OrdMap String (OrdMap String (BindingRow F))
  queue : OrdMap String (OrdMap String QueueRow)

section

variable {F : Type} [F64 F]

/-! ## Templates -/

/-- `validate_nonnegative_multiplier`. -/
def validateNonnegativeMultiplier (value : F) (field : String) : Except String Unit :=
  ensure (F64.isFinite value && !decide (value < 0)) (field ++ " must be finite and non-negative")

/-- One binding of `effective_bindings`; `names` are the names before it. -/
def effectiveBinding (multiplier : F) (names : OrdSet String) (binding : VirtualBinding F) :
    Except String (SaveBindingRequest F) := do
  validateStrategyName binding.bindingName
  validateStrategyName binding.positionStrategyName
  validateStrategyName binding.orderStrategyName
  ensure (!names.contains binding.bindingName) ("duplicate binding name: " ++ binding.bindingName)
  validateNonnegativeMultiplier binding.shares "shares"
  let shares := binding.shares * multiplier
  validateNonnegativeMultiplier shares "effective shares"
  return {
    bindingName := binding.bindingName
    positionStrategyName := binding.positionStrategyName
    orderStrategyName := binding.orderStrategyName
    shares := shares }

def effectiveBindingsFrom (multiplier : F) (names : OrdSet String) :
    List (VirtualBinding F) → Except String (List (SaveBindingRequest F))
  | [] => return []
  | binding :: bindings => do
    let request ← effectiveBinding multiplier names binding
    let requests ← effectiveBindingsFrom multiplier (names.insert binding.bindingName) bindings
    return request :: requests

def effectiveBindings (bindings : List (VirtualBinding F)) (multiplier : F) :
    Except String (List (SaveBindingRequest F)) := do
  validateNonnegativeMultiplier multiplier "multiplier"
  effectiveBindingsFrom multiplier ∅ bindings

/-- One scaled binding added to the combined ones. -/
def combineBinding (combined : OrdMap String (VirtualBinding F)) (b : SaveBindingRequest F) :
    Except String (OrdMap String (VirtualBinding F)) :=
  match combined[b.bindingName]? with
  | some existing => do
    ensure (existing.positionStrategyName == b.positionStrategyName &&
        existing.orderStrategyName == b.orderStrategyName)
      ("binding " ++ b.bindingName ++ " conflicts across virtual accounts: position strategy " ++
        "and order template must match")
    let shares := existing.shares + b.shares
    validateNonnegativeMultiplier shares "combined shares"
    return combined.insert b.bindingName { existing with shares := shares }
  | none =>
    return combined.insert b.bindingName {
      bindingName := b.bindingName
      positionStrategyName := b.positionStrategyName
      orderStrategyName := b.orderStrategyName
      shares := b.shares }

/-- One follow of `combined_bindings`. -/
def combineFollow (templates : OrdMap String (List (VirtualBinding F)))
    (s : OrdSet String × OrdMap String (VirtualBinding F)) (follow : AccountFollow F) :
    Except String (OrdSet String × OrdMap String (VirtualBinding F)) := do
  ensure (!s.1.contains follow.virtualId) ("duplicate virtual account: " ++ follow.virtualId)
  match templates[follow.virtualId]? with
  | none => .error ("unknown virtual account: " ++ follow.virtualId)
  | some bindings => do
    let effective ← effectiveBindings bindings follow.multiplier
    let combined ← effective.foldlM combineBinding s.2
    return (s.1.insert follow.virtualId, combined)

def combinedBindings (follows : List (AccountFollow F))
    (templates : OrdMap String (List (VirtualBinding F))) :
    Except String (List (VirtualBinding F)) := do
  ensure (!follows.isEmpty) "select at least one virtual account or use independent mode"
  let ordered := StableSort.stableSort AccountFollow.virtualId follows
  let s ← ordered.foldlM (combineFollow templates) (∅, ∅)
  return s.2.toList.map Prod.snd

/-! ## Queries -/

/-- `load_follows`. -/
def Db.loadFollows (db : Db F) (source : String) : List (AccountFollow F) :=
  (db.follows.getD source ∅).toList.map fun (virtualId, row) => ⟨virtualId, row.multiplier⟩

/-- The template bindings a query of one virtual account returns.  The order of the
rows only matters for which error is reported first. -/
def AccountRow.template (account : AccountRow F) : List (VirtualBinding F) :=
  account.bindings.toList.map fun (name, row) =>
    ⟨name, row.positionStrategyName, row.orderStrategyName, row.shares⟩

def Db.loadTemplate (db : Db F) (replacement : Option (String × List (VirtualBinding F)))
    (templates : OrdMap String (List (VirtualBinding F))) (follow : AccountFollow F) :
    Except String (OrdMap String (List (VirtualBinding F))) :=
  match db.accounts[follow.virtualId]? with
  | none => .error ("unknown virtual account: " ++ follow.virtualId)
  | some account =>
    let bindings := match replacement.filter fun r => r.1 == follow.virtualId with
      | some r => r.2
      | none => account.template
    return templates.insert follow.virtualId bindings

/-- `load_combined_bindings`, also `preview_bindings`. -/
def Db.loadCombinedBindings (db : Db F) (follows : List (AccountFollow F))
    (replacement : Option (String × List (VirtualBinding F))) :
    Except String (List (VirtualBinding F)) := do
  let templates ← follows.foldlM (db.loadTemplate replacement) ∅
  combinedBindings follows templates

/-! ## Writing the bindings of a source -/

/-- The largest `bigint`. -/
def maxBigint : Int := 9223372036854775807

def foreignKey (column : String) : String := "violates foreign key constraint: " ++ column

/-- The upsert of `enqueue`. -/
def enqueueRow (row : Option QueueRow) : Except String QueueRow :=
  match row with
  | none => return { revision := 1, archived := false, error := none }
  | some row => do
    ensure (decide (row.revision < maxBigint)) "bigint out of range"
    return { revision := row.revision + 1, archived := false, error := none }

def enqueue (rows : SourceRows F) (binding : String) : Except String (SourceRows F) := do
  let row ← enqueueRow rows.queue[binding]?
  return { rows with queue := rows.queue.insert binding row }

/-- The upsert of `materialize`: a row that exists keeps its position strategy. -/
def Db.upsertBinding (db : Db F) (source : String) (atUs : Int) (rows : SourceRows F)
    (binding : SaveBindingRequest F) : Except String (SourceRows F) := do
  ensure (db.orderStrategies.contains binding.orderStrategyName) (foreignKey "order_strategy_name")
  match rows.bindings[binding.bindingName]? with
  | none => do
    ensure (db.orderSources.contains source) (foreignKey "source_id")
    ensure (db.positionStrategies.contains binding.positionStrategyName)
      (foreignKey "position_strategy_name")
    return { rows with bindings := rows.bindings.insert binding.bindingName {
      positionStrategyName := binding.positionStrategyName
      orderStrategyName := binding.orderStrategyName
      shares := binding.shares
      updatedAtUs := atUs } }
  | some old =>
    return { rows with bindings := rows.bindings.insert binding.bindingName { old with
      orderStrategyName := binding.orderStrategyName
      shares := binding.shares
      updatedAtUs := atUs } }

/-- A desired binding that is new or differs from the row of its name. -/
def Db.replaceBinding (db : Db F) (source : String) (atUs : Int) (rows : SourceRows F)
    (binding : SaveBindingRequest F) : Except String (SourceRows F) := do
  let rows ← db.upsertBinding source atUs rows binding
  enqueue rows binding.bindingName

/-- The first loop of `materialize`; `existing` are the rows it read. -/
def Db.materializeDesired (db : Db F) (source : String) (atUs : Int) (forcePublish : Bool)
    (existing : OrdMap String (BindingRow F)) (rows : SourceRows F)
    (entry : String × SaveBindingRequest F) : Except String (SourceRows F) :=
  match existing[entry.1]? with
  | none => db.replaceBinding source atUs rows entry.2
  | some old => do
    ensure (old.positionStrategyName == entry.2.positionStrategyName)
      ("binding " ++ entry.1 ++
        " cannot change its position strategy; use a different binding name")
    if old.orderStrategyName == entry.2.orderStrategyName && old.shares == entry.2.shares then
      if forcePublish then enqueue rows entry.1 else return rows
    else
      db.replaceBinding source atUs rows entry.2

/-- The second loop of `materialize`: names that are no longer desired are stopped.
The row is the one it read: the first loop only writes desired names. -/
def materializeStop (atUs : Int) (forcePublish : Bool)
    (desired : OrdMap String (SaveBindingRequest F)) (rows : SourceRows F)
    (entry : String × BindingRow F) : Except String (SourceRows F) :=
  if !desired.contains entry.1 && (entry.2.shares != 0 || forcePublish) then
    let row := { entry.2 with shares := 0, updatedAtUs := atUs }
    enqueue { rows with bindings := rows.bindings.insert entry.1 row } entry.1
  else
    return rows

/-- `materialize`, on the rows of its source. -/
def Db.materialize (db : Db F) (source : String) (rows : SourceRows F)
    (bindings : List (VirtualBinding F)) (multiplier : F) (atUs : Int) (forcePublish : Bool) :
    Except String (SourceRows F) := do
  let effective ← effectiveBindings bindings multiplier
  let desired := effective.foldl (fun m b => m.insert b.bindingName b) ∅
  let existing := rows.bindings
  let rows ← desired.toList.foldlM (db.materializeDesired source atUs forcePublish existing) rows
  existing.toList.foldlM (materializeStop atUs forcePublish desired) rows

def Db.rows (db : Db F) (source : String) : SourceRows F where
  bindings := db.bindings.getD source ∅
  queue := db.queue.getD source ∅

def Db.setRows (db : Db F) (source : String) (rows : SourceRows F) : Db F :=
  { db with
    bindings := db.bindings.insert source rows.bindings
    queue := db.queue.insert source rows.queue }

/-! ## Operations -/

/-- `validate_request`. -/
def validateRequest (request : SaveVirtualAccount F) : Except String Unit := do
  ensure (Text.trim request.name != "" && decide (request.name.utf8ByteSize ≤ 200))
    "virtual account name must contain 1–200 bytes"
  let _ ← effectiveBindings request.bindings 1

/-- The rows that replace the bindings of a template. -/
def templateRows (bindings : List (VirtualBinding F)) : OrdMap String (TemplateRow F) :=
  bindings.foldl (fun m b =>
    m.insert b.bindingName ⟨b.positionStrategyName, b.orderStrategyName, b.shares⟩) ∅

/-- The statements of `save_in_transaction` on the template itself. -/
def Db.saveTemplate (db : Db F) (id : String) (request : SaveVirtualAccount F) (atUs : Int) :
    Except String (Db F) := do
  request.bindings.forM fun b => do
    ensure (db.positionStrategies.contains b.positionStrategyName)
      (foreignKey "position_strategy_name")
    ensure (db.orderStrategies.contains b.orderStrategyName) (foreignKey "order_strategy_name")
  let account : AccountRow F := {
    name := Text.trim request.name
    updatedAtUs := atUs
    bindings := templateRows request.bindings }
  return { db with accounts := db.accounts.insert id account }

/-- The sources that follow `id`. -/
def Db.followers (db : Db F) (id : String) : List String :=
  (db.follows.toList.filter fun p => p.2.contains id).map Prod.fst

/-- One follower of `save_in_transaction`. -/
def Db.refreshFollower (atUs : Int) (db : Db F) (source : String) : Except String (Db F) := do
  let combined ← db.loadCombinedBindings (db.loadFollows source) none
  let rows ← db.materialize source (db.rows source) combined 1 atUs false
  return db.setRows source rows

def Db.saveInTransaction (db : Db F) (id : String) (request : SaveVirtualAccount F)
    (atUs : Int) : Except String (Db F) := do
  let db ← db.saveTemplate id request atUs
  (db.followers id).foldlM (Db.refreshFollower atUs) db

def Db.save (db : Db F) (id : String) (request : SaveVirtualAccount F) (atUs : Int) :
    Except String (Db F) := do
  validateStrategyName id
  validateRequest request
  db.saveInTransaction id request atUs

/-- `number.parse::<u64>`, of digits. -/
def parseU64 (digits : List Char) : Except String Nat := do
  let value := digits.foldl (fun n c => 10 * n + (c.toNat - '0'.toNat)) 0
  ensure (decide (value ≤ 18446744073709551615)) "number too large to fit in target type"
  return value

/-- The digits of an id of the form `virtual…`. -/
def virtualNumber (id : String) : Option (List Char) :=
  (Text.stripPrefix id "virtual").bind fun s =>
    if s.toList != [] && s.toList.all Text.isAsciiDigit then some s.toList else none

def nextVirtualId (ids : List String) : Except String String := do
  let highest ← (ids.filterMap virtualNumber).foldlM
    (fun highest digits => (parseU64 digits).map (max highest)) 0
  ensure (decide (highest < 18446744073709551615))
    "virtual account number exceeds the supported range"
  let next := highest + 1
  return "virtual" ++ (if next < 10 then "0" ++ toString next else toString next)

/-- `create`, with the id it allocates. -/
def Db.create (db : Db F) (request : SaveVirtualAccount F) (atUs : Int) :
    Except String (Db F × String) := do
  validateRequest request
  let id ← nextVirtualId db.accounts.keys
  let db ← db.saveInTransaction id request atUs
  return (db, id)

/-- The rows `set_configuration` inserts into `cta_account_follows`. -/
def followRows (follows : List (AccountFollow F)) (atUs : Int) : OrdMap String (FollowRow F) :=
  follows.foldl (fun m f => m.insert f.virtualId ⟨f.multiplier, atUs⟩) ∅

def Db.setFollows (db : Db F) (source : String) (rows : OrdMap String (FollowRow F)) : Db F :=
  { db with follows := db.follows.insert source rows }

def Db.setConfiguration (db : Db F) (source : String) (config : AccountConfiguration F)
    (atUs : Int) : Except String (Db F) :=
  match config with
  | .independent => return { db with follows := db.follows.erase source }
  | .follow follows => do
    let bindings ← db.loadCombinedBindings follows none
    let rows ← db.materialize source (db.rows source) bindings 1 atUs true
    ensure (db.orderSources.contains source) (foreignKey "source_id")
    return (db.setRows source rows).setFollows source (followRows follows atUs)

/-- `delete`, and whether there was an account. -/
def Db.delete (db : Db F) (id : String) : Except String (Db F × Bool) := do
  ensure ((db.followers id).isEmpty)
    ("virtual account still has followers; remove this virtual from their follow lists " ++ "first")
  return ({ db with accounts := db.accounts.erase id }, db.accounts.contains id)

inductive Operation (F : Type) where
  | create (request : SaveVirtualAccount F) (atUs : Int)
  | save (id : String) (request : SaveVirtualAccount F) (atUs : Int)
  | setConfiguration (source : String) (config : AccountConfiguration F) (atUs : Int)
  | delete (id : String)

/-- The database an operation leaves to commit. -/
def Db.apply (db : Db F) : Operation F → Except String (Db F)
  | .create request atUs => (db.create request atUs).map Prod.fst
  | .save id request atUs => db.save id request atUs
  | .setConfiguration source config atUs => db.setConfiguration source config atUs
  | .delete id => (db.delete id).map Prod.fst

/-- An operation as one transaction. -/
def Db.commit (db : Db F) (operation : Operation F) : Db F :=
  match db.apply operation with
  | .ok db' => db'
  | .error _ => db

end

end CtaManager.Accounts
