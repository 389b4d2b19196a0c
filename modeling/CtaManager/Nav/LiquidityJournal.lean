import CtaManager.Library.FirstKept
import CtaManager.Library.Lines
import CtaManager.Nav.Types
import CtaManager.Text

/-!
The journal of fill roles (`nav/fill_recovery/liquidity_journal.rs`).

A directory holds append-only files of JSON rows; some rows say whether an execution was a
maker or a taker fill.  `LiquidityJournal` keeps for every file how many bytes were read and
the roles of the lines in them, and `refresh` reads on from there.  A file that was
replaced, or is shorter than what was read, is read from its first byte again.  The
published roles are put together from the files at the end of a refresh that read them all.

The JSON reader and the reading of a floating-point number are `JournalReader`; a file is
seen as it is when it is opened.
-/

namespace CtaManager.FillRecovery

open Check Lines

structure Execution where
  transactionId : String
  orderId : String
  clientOrderId : String
  symbol : String
  side : String
  quantity : String
  price : String
  timestampMs : Int
  rest : Bool
  deriving DecidableEq

structure RoleEvidence where
  execution : Execution
  role : FillLiquidity
  deriving DecidableEq

inductive JournalError
  | readDirectory
  | openFile
  | lineTooLong
  | invalidRow
  | missing (key : String)
  | invalidNumber
  | invalidTimestamp
  | executionConflict (transactionId : String)
  | conflictingRoles
  deriving DecidableEq

/-- A JSON value, as far as the journal asks: is it a text, and what are its fields. -/
inductive Value
  | text (s : String)
  | object (fields : List (String × Value))
  | other

/-- `row[key]`; what has no such field is `null`. -/
def Value.field (key : String) : Value → Value
  | .object fields => ((fields.find? fun f => f.1 == key).map Prod.snd).getD .other
  | _ => .other

def Value.asStr : Value → Option String
  | .text s => some s
  | _ => none

structure JournalReader where
  /-- `serde_json::from_slice` -/
  fromSlice : List UInt8 → Option Value
  /-- `str::parse::<f64>`, where the result is finite -/
  parseF64 : String → Option ℚ

variable (reader : JournalReader)

def number (value : String) : Except JournalError ℚ :=
  match reader.parseF64 value with
  | none => .error .invalidNumber
  | some value => do
    ensure (decide (0 < value)) .invalidNumber
    return value

/-- The comparisons of `validate`, left to right up to one that fails. -/
def Execution.agrees (j e : Execution) : Except JournalError Bool :=
  if j.transactionId == e.transactionId && j.orderId == e.orderId &&
      j.clientOrderId == e.clientOrderId && j.symbol == e.symbol && j.side == e.side &&
      j.timestampMs == e.timestampMs then do
    if (← number reader j.quantity) == (← number reader e.quantity) then
      return (← number reader j.price) == (← number reader e.price)
    else return false
  else .ok false

def RoleEvidence.validate (self : RoleEvidence) (e : Execution) :
    Except JournalError FillLiquidity := do
  let agrees ← self.execution.agrees reader e
  ensure agrees (.executionConflict e.transactionId)
  return self.role

/-- Roles by transaction id. -/
abbrev Roles := OrdMap String RoleEvidence

def merge (roles : Roles) (role : RoleEvidence) : Except JournalError Roles :=
  match roles[role.execution.transactionId]? with
  | some old => do
    ensure ((← old.validate reader role.execution) == role.role) .conflictingRoles
    return roles
  | none => .ok (roles.insert role.execution.transactionId role)

/-! ## Rows -/

/-- `"execType"`, with its quotes. -/
def execTypeKey : List UInt8 := "\"execType\"".toUTF8.toList

def hasExecType (line : List UInt8) : Bool :=
  line.tails.any fun tail => execTypeKey.isPrefixOf tail

/-- `str::parse::<i64>`. -/
def parseI64 (s : String) : Option Int :=
  let (negative, digits) := match s.toList with
    | '-' :: rest => (true, rest)
    | '+' :: rest => (false, rest)
    | l => (false, l)
  if digits.isEmpty || !digits.all Text.isAsciiDigit then none
  else
    let magnitude : Nat := digits.foldl (fun n c => n * 10 + (c.toNat - 48)) 0
    let value : Int := if negative then -magnitude else magnitude
    if -9223372036854775808 ≤ value ∧ value ≤ 9223372036854775807 then some value else none

/-- A text of the row that may not be empty. -/
def requiredText (data : Value) (key : String) : Except JournalError String :=
  match (data.field key).asStr with
  | some s => if s.isEmpty then .error (.missing key) else .ok s
  | none => .error (.missing key)

def journalRole (data : Value) : Option FillLiquidity :=
  match (data.field "execType").asStr with
  | some "MAKER" => some .maker
  | some "TAKER" => some .taker
  | _ => none

def isTradeChannel (message : Value) : Bool :=
  (message.field "channel").asStr == some "Trades" ||
    (message.field "channel").asStr == some "HistoricalExecution"

def parseTimestamp (createAt : String) : Except JournalError Int :=
  match parseI64 createAt with
  | some timestampMs => .ok timestampMs
  | none => .error .invalidTimestamp

def parseRole (line : List UInt8) (portfolio exchange : String) :
    Except JournalError (Option RoleEvidence) :=
  if !hasExecType line then .ok none
  else match reader.fromSlice line with
    | none => .error .invalidRow
    | some row =>
      let message := row.field "message"
      let data := message.field "data"
      if !isTradeChannel message then .ok none
      else if (data.field "portfolioId").asStr != some portfolio ||
          (data.field "exchangeType").asStr != some exchange then .ok none
      else match journalRole data with
        | none => .ok none
        | some role => do
          let transactionId ← requiredText data "transactionId"
          let orderId ← requiredText data "orderId"
          let symbol ← requiredText data "sym"
          let side ← requiredText data "side"
          let quantity ← requiredText data "quantity"
          let price ← requiredText data "price"
          let createAt ← requiredText data "createAt"
          let timestampMs ← parseTimestamp createAt
          let execution : Execution :=
            { transactionId, orderId, symbol, side, quantity, price, timestampMs
              clientOrderId := (data.field "clientOrderId").asStr.getD ""
              rest := (message.field "channel").asStr == some "HistoricalExecution" }
          let _ ← number reader execution.quantity
          let _ ← number reader execution.price
          ensure (decide (0 < execution.timestampMs)) .invalidTimestamp
          return some ⟨execution, role⟩

/-! ## Files -/

/-- Device and inode. -/
abbrev Identity := Nat × Nat

structure JournalFile where
  identity : Identity
  offset : Nat
  roles : Roles

/-- `JournalFile::default`. -/
def JournalFile.empty : JournalFile := { identity := (0, 0), offset := 0, roles := ∅ }

/-- A file of the directory, when it is opened. -/
structure Content where
  identity : Identity
  bytes : List UInt8

/-- The directory and the account whose roles are wanted. -/
structure Scope where
  dir : String
  portfolio : String
  exchange : String
  deriving DecidableEq

def maxLine : Nat := 8 * 1024 * 1024

/-- One complete line. -/
def JournalFile.accept (scope : Scope) (state : JournalFile) (line : List UInt8) :
    Except JournalError JournalFile := do
  let roles ← match ← parseRole reader line scope.portfolio scope.exchange with
    | some role => merge reader state.roles role
    | none => .ok state.roles
  return { state with roles, offset := state.offset + line.length }

/-- The lines after the offset; an error leaves the offset at the line it is about. -/
def JournalFile.readLines (scope : Scope) (state : JournalFile) (rest : List UInt8) :
    JournalFile × Except JournalError Unit :=
  let line := readUntil (maxLine + 1) rest
  if maxLine < line.length then (state, .error .lineTooLong)
  else if _ : endsWithNewline line = true then
    match state.accept reader scope line with
    | .error e => (state, .error e)
    | .ok state => state.readLines scope (rest.drop line.length)
  else (state, .ok ())
termination_by rest.length
decreasing_by
  have hend : endsWithNewline (readUntil (maxLine + 1) rest) = true := by assumption
  have hne : readUntil (maxLine + 1) rest ≠ [] := by
    intro h
    rw [h] at hend
    cases hend
  have hrest : rest ≠ [] := by
    intro h
    apply hne
    rw [h]
    rfl
  have hline := List.length_pos_of_ne_nil hne
  have hlength := List.length_pos_of_ne_nil hrest
  show (rest.drop (readUntil (maxLine + 1) rest).length).length < rest.length
  rw [List.length_drop]
  omega

/-- The state to read on from. -/
def JournalFile.reopen (state : JournalFile) (content : Content) : JournalFile :=
  if state.identity != content.identity || decide (content.bytes.length < state.offset) then
    { JournalFile.empty with identity := content.identity }
  else state

def JournalFile.visit (scope : Scope) (state : JournalFile) (content : Content) :
    JournalFile × Except JournalError Unit :=
  let state := state.reopen content
  state.readLines reader scope (content.bytes.drop state.offset)

/-! ## The journal -/

abbrev Files := OrdMap String JournalFile

abbrev Listing := List (String × Content)

structure LiquidityJournal where
  scope : Option Scope
  files : Files
  roles : Roles

/-- `LiquidityJournal::default`. -/
def LiquidityJournal.empty : LiquidityJournal := { scope := none, files := ∅, roles := ∅ }

/-- A directory; `none` where there is no such directory. -/
abbrev Directory := Option (OrdMap String Content)

/-- What the operating system refuses during one refresh. -/
structure Faults where
  listing : Bool
  file : String → Bool

/-- `path.extension() == "jsonl"`. -/
def isJournal (name : String) : Bool := Text.endsWith name ".jsonl" && name != ".jsonl"

/-- The journal files of the directory in the order of their names. -/
def journalFiles (entries : OrdMap String Content) : OrdMap String Content :=
  entries.filter fun name _ => isJournal name

/-- The loop over the files; what was read stays read when a later file fails. -/
def visitAll (faults : Faults) (scope : Scope) :
    Files → Listing → Files × Except JournalError Unit
  | files, [] => (files, .ok ())
  | files, (path, content) :: more =>
    if faults.file path then (files, .error .openFile)
    else
      let state := (files[path]?.getD .empty).visit reader scope content
      let files := files.insert path state.1
      match state.2 with
      | .error e => (files, .error e)
      | .ok () => visitAll faults scope files more

def rebuildRoles (files : Files) : Except JournalError Roles :=
  files.toList.foldlM (fun roles file =>
    file.2.roles.toList.foldlM (fun roles role => merge reader roles role.2) roles) ∅

/-- The journal of `scope`: another scope starts over. -/
def LiquidityJournal.rescope (self : LiquidityJournal) (scope : Scope) : LiquidityJournal :=
  if self.scope != some scope then { LiquidityJournal.empty with scope := some scope } else self

def LiquidityJournal.refresh (self : LiquidityJournal) (faults : Faults) (directory : Directory)
    (scope : Scope) : LiquidityJournal × Except JournalError Roles :=
  let self := self.rescope scope
  if faults.listing then (self, .error .readDirectory)
  else match directory with
    | none => ({ self with files := ∅, roles := ∅ }, .ok ∅)
    | some entries =>
      let paths := journalFiles entries
      let kept := self.files.filter fun path _ => paths.contains path
      let visited := visitAll reader faults scope kept paths.toList
      match visited.2 with
      | .error e => ({ self with files := visited.1 }, .error e)
      | .ok () =>
        match rebuildRoles reader visited.1 with
        | .error e => ({ self with files := visited.1 }, .error e)
        | .ok roles => ({ self with files := visited.1, roles }, .ok roles)

end CtaManager.FillRecovery
