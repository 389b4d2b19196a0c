import CtaManager.Library.Check
import CtaManager.Library.OrdMap
import CtaManager.Text

/-!
Rows of funding income (`funding.rs`, `funding/rapidx.rs`).

The income of a row is a decimal text.  The code parses it as an `f64` only to see
that it is a finite number; what PostgreSQL stores is the exact value of the text
(`::text::numeric`).
-/

namespace CtaManager.Funding

open Check

/-! ## Decimal texts -/

/-- What `str::parse::<f64>` accepts, with the exact value of a number. -/
inductive Decimal where
  | number (value : ℚ)
  | infinite
  | nan
  deriving DecidableEq

def digitsValue (digits : List Char) : Nat :=
  digits.foldl (fun n c => 10 * n + (c.toNat - 48)) 0

/-- An optional sign; `true` for a minus. -/
def takeSign : List Char → Bool × List Char
  | '-' :: rest => (true, rest)
  | '+' :: rest => (false, rest)
  | rest => (false, rest)

/-- The exponent after the digits; none is 0. -/
def parseExponent (text : List Char) : Option Int :=
  match text with
  | [] => some 0
  | c :: rest =>
    if c == 'e' || c == 'E' then
      let s := takeSign rest
      if s.2 != [] && s.2.all Text.isAsciiDigit then
        some (if s.1 then -(digitsValue s.2 : Int) else digitsValue s.2)
      else none
    else none

/-- Digits with at most one point, at least one digit, and an exponent. -/
def parseNumber (text : List Char) : Option ℚ :=
  let whole := text.takeWhile Text.isAsciiDigit
  let rest := text.dropWhile Text.isAsciiDigit
  let fraction := match rest with
    | '.' :: rest => (rest.takeWhile Text.isAsciiDigit, rest.dropWhile Text.isAsciiDigit)
    | rest => ([], rest)
  if whole == [] && fraction.1 == [] then none
  else (parseExponent fraction.2).map fun e =>
    (digitsValue (whole ++ fraction.1) : ℚ) * (10 : ℚ) ^ (e - (fraction.1.length : Int))

/-- `str::parse::<f64>`. -/
def parseDecimal (text : String) : Option Decimal :=
  let s := takeSign text.toList
  let word := String.ofList (s.2.map Char.toLower)
  if word == "inf" || word == "infinity" then some .infinite
  else if word == "nan" then some .nan
  else (parseNumber s.2).map fun v => .number (if s.1 then -v else v)

/-- The least magnitude that rounds to an infinite `f64`. -/
def overflowMagnitude : ℚ := 2 ^ 1024 - 2 ^ 970

/-- `f64::is_finite` of the parsed value. -/
def Decimal.isFinite : Decimal → Bool
  | .number v => decide (|v| < overflowMagnitude)
  | .infinite => false
  | .nan => false

/-- `::text::numeric`. -/
def numeric (text : String) : Except String ℚ :=
  match parseDecimal text with
  | some (.number v) => .ok v
  | _ => .error "invalid input syntax for type numeric"

/-! ## Rows -/

/-- The `tranId` of a row, a JSON value. -/
inductive TranIdValue where
  | text (s : String)
  | number (n : Int)
  | other
  deriving DecidableEq

def maxI64 : Int := 9223372036854775807

/-- `as_str`, else `as_i64`. -/
def TranIdValue.id : TranIdValue → Option String
  | .text s => some s
  | .number n => if -maxI64 - 1 ≤ n ∧ n ≤ maxI64 then some (toString n) else none
  | .other => none

structure IncomeRow where
  symbol : String
  asset : String
  income : String
  time : Int
  incomeType : String
  tranId : TranIdValue
  deriving DecidableEq

structure ValidIncome where
  symbol : String
  asset : String
  tsUs : Int
  income : String
  tranId : String
  deriving DecidableEq

/-- `IncomeRow::validate`. -/
def IncomeRow.validate (row : IncomeRow) (symbol : String) (startUs endUs : Int) :
    Except String ValidIncome := do
  match parseDecimal row.income with
  | none => .error "funding income is not a decimal"
  | some income => do
    ensure income.isFinite "funding income is non-finite"
    ensure (row.incomeType == "FUNDING_FEE" && row.symbol == symbol)
      "funding REST returned the wrong income type or symbol"
    ensure ((row.asset == "USDT" || row.asset == "USDC") && Text.endsWith symbol row.asset)
      "funding income currency cannot be added to this symbol's quote PnL"
    let tsUs := row.time * 1000
    ensure (decide (-maxI64 - 1 ≤ tsUs ∧ tsUs ≤ maxI64)) "funding timestamp overflow"
    ensure (decide (startUs ≤ tsUs ∧ tsUs ≤ endUs))
      "funding REST returned a timestamp outside the requested range"
    match row.tranId.id with
    | none => .error "funding transaction ID missing"
    | some tranId => do
      ensure (tranId != "") "funding transaction ID is empty"
      return {
        symbol := row.symbol
        asset := row.asset
        tsUs := tsUs
        income := row.income
        tranId := tranId }

/-! ## Pages -/

/-- The rows of one page of an exchange that lists `visible` in pages of 1000. -/
def exchangePage (visible : List IncomeRow) (page : Nat) : List IncomeRow :=
  (visible.drop (1000 * (page - 1))).take 1000

/-- One row of the loop of `sync_symbol`. -/
def collectRow (symbol : String) (fromUs throughUs : Int)
    (s : OrdSet String × List ValidIncome) (row : IncomeRow) :
    Except String (OrdSet String × List ValidIncome) := do
  let record ← row.validate symbol fromUs throughUs
  ensure (!s.1.contains record.tranId)
    "funding pagination repeated a transaction; cursor retained"
  return (s.1.insert record.tranId, s.2 ++ [record])

/-- The page loop of `sync_symbol`, with the rounds left.  `answers page` is what the
exchange lists for the range when the page is requested, or why the request failed. -/
def collectPages (symbol : String) (fromUs throughUs : Int)
    (answers : Nat → Except String (List IncomeRow)) :
    Nat → Nat → OrdSet String × List ValidIncome → Except String (List ValidIncome)
  | 0, _, _ => .error "funding pagination limit reached; cursor retained"
  | rounds + 1, page, s => do
    let visible ← answers page
    let rows := exchangePage visible page
    ensure (decide (rows.length ≤ 1000)) "funding REST page exceeded its limit"
    let s ← rows.foldlM (collectRow symbol fromUs throughUs) s
    if rows.length < 1000 then return s.2
    else collectPages symbol fromUs throughUs answers rounds (page + 1) s

/-! ## RapidX statements -/

/-- A statement of a RapidX page; a field of the wrong type is none. -/
structure Statement where
  portfolioId : Option Nat
  exchangeType : Option String
  businessType : Option String
  sym : Option String
  coin : Option String
  deltaAmount : Option String
  createAt : Option Int
  statementType : Option String
  statementId : Option String

/-- The part of a RapidX response `parse_page` reads. -/
structure StatementPage where
  code : Option Int
  page : Option Nat
  pageSize : Option Nat
  pageNum : Option Nat
  totalSize : Option Nat
  list : Option (List Statement)

/-- A field that must be there. -/
def required {α : Type} (value : Option α) (e : String) : Except String α :=
  match value with
  | some a => .ok a
  | none => .error e

/-- The `sym` of `params`. -/
def rapidxSym (symbol : String) : Except String String :=
  match ["USDT", "USDC"].find? (Text.endsWith symbol) with
  | none => .error "unsupported RapidX funding quote"
  | some quote =>
    match (Text.stripSuffix symbol quote).filter fun base =>
        base != "" && base.toList.all fun c => Text.isAsciiUppercase c || Text.isAsciiDigit c with
    | none => .error "invalid RapidX funding symbol"
    | some base => .ok ("BINANCE_PERP_" ++ base ++ "_" ++ quote)

/-- The range check of `params`. -/
def checkRapidxRange (fromMs throughMs : Int) (page : Nat) : Except String Unit :=
  ensure (decide (0 < fromMs ∧ fromMs ≤ throughMs ∧ 1 ≤ page ∧ page ≤ 100))
    "invalid RapidX statement range/page"

/-- One statement of `parse_page`. -/
def parseStatement (portfolio : String) (expectedSym symbol : String) (fromUs throughUs : Int)
    (s : OrdSet String × List ValidIncome) (row : Statement) :
    Except String (OrdSet String × List ValidIncome) := do
  ensure (row.portfolioId.map toString == some portfolio && row.exchangeType == some "BINANCE" &&
      row.businessType == some "PERP" && row.sym == some expectedSym)
    "RapidX funding statement account/market scope mismatch"
  let asset ← required row.coin "RapidX funding statement field missing"
  let income ← required row.deltaAmount "RapidX funding statement field missing"
  let time ← required row.createAt "RapidX funding time missing"
  let incomeType ← required row.statementType "RapidX funding statement field missing"
  let tranId ← required row.statementId "RapidX funding statement field missing"
  let record ← IncomeRow.validate {
    symbol := symbol
    asset := asset
    income := income
    time := time
    incomeType := incomeType
    tranId := .text tranId } symbol fromUs throughUs
  ensure (!s.1.contains record.tranId) "RapidX statement repeated an ID"
  return (s.1.insert record.tranId, s.2 ++ [record])

/-- `parse_page`, with the number of pages and of rows it reports. -/
def parsePage (value : StatementPage) (portfolio : Option String) (symbol : String)
    (fromUs throughUs : Int) (page : Nat) (previous : Option (Nat × Nat)) :
    Except String (Nat × Nat × List ValidIncome) := do
  ensure (value.code == some 200 || value.code == some 200000)
    "RapidX statement response code invalid"
  let pages ← required value.pageNum "RapidX statement pagination missing"
  let total ← required value.totalSize "RapidX statement pagination missing"
  let current ← required value.page "RapidX statement pagination missing"
  ensure (decide (current = page)) "RapidX statement pagination invalid"
  let size ← required value.pageSize "RapidX statement pagination missing"
  ensure (decide (size = 1000 ∧ 1 ≤ page ∧ page ≤ 100 ∧ pages ≤ 100 ∧
      total ≤ 100000 ∧ if total = 0 then page = 1 ∧ pages ≤ 1
        else pages = (total + 999) / 1000 ∧ page ≤ pages))
    "RapidX statement pagination invalid"
  ensure (previous.all (· == (pages, total)))
    "RapidX statement pagination changed; cursor retained"
  let rows ← required value.list "RapidX statement list missing"
  ensure (rows.length == min (total - (page - 1) * 1000) 1000) "RapidX statement page incomplete"
  let portfolio ← required portfolio "RapidX funding portfolio missing"
  ensure (portfolio != "" && portfolio.toList.all Text.isAsciiDigit)
    "invalid RapidX funding portfolio"
  let expectedSym ← rapidxSym symbol
  checkRapidxRange ((fromUs + 999).tdiv 1000) (throughUs.tdiv 1000) page
  let s ← rows.foldlM (parseStatement portfolio expectedSym symbol fromUs throughUs) (∅, [])
  return (pages, total, s.2)

/-- The page of a RapidX that lists `visible` under this portfolio. -/
def statementPage (visible : List IncomeRow) (portfolio : Nat) (sym : String) (page : Nat) :
    StatementPage where
  code := some 200000
  page := some page
  pageSize := some 1000
  pageNum := some ((visible.length + 999) / 1000)
  totalSize := some visible.length
  list := some ((exchangePage visible page).map fun row => {
    portfolioId := some portfolio
    exchangeType := some "BINANCE"
    businessType := some "PERP"
    sym := some sym
    coin := some row.asset
    deltaAmount := some row.income
    createAt := some row.time
    statementType := some row.incomeType
    statementId := row.tranId.id })

/-- A record of the loop of `sync_rapidx_symbol`. -/
def collectRecord (s : OrdSet String × List ValidIncome) (record : ValidIncome) :
    Except String (OrdSet String × List ValidIncome) := do
  ensure (!s.1.contains record.tranId) "RapidX funding repeated a statement ID; cursor retained"
  return (s.1.insert record.tranId, s.2 ++ [record])

/-- The page loop of `sync_rapidx_symbol`, with the rounds left; `portfolio` is the
portfolio of the environment file. -/
def collectStatements (portfolio : Nat) (symbol : String) (fromUs throughUs : Int)
    (answers : Nat → Except String (List IncomeRow)) :
    Nat → Nat → Option (Nat × Nat) → OrdSet String × List ValidIncome →
    Except String (List ValidIncome)
  | 0, _, _, _ => .error "RapidX funding pagination limit reached; cursor retained"
  | rounds + 1, page, previous, s => do
    let sym ← rapidxSym symbol
    checkRapidxRange ((fromUs + 999).tdiv 1000) (throughUs.tdiv 1000) page
    let visible ← answers page
    let (pages, total, rows) ← parsePage (statementPage visible portfolio sym page)
      (some (toString portfolio)) symbol fromUs throughUs page previous
    let s ← rows.foldlM collectRecord s
    if pages ≤ page then do
      ensure (s.2.length == total) "RapidX funding total changed; cursor retained"
      return s.2
    else
      collectStatements portfolio symbol fromUs throughUs answers rounds (page + 1)
        (some (pages, total)) s

end CtaManager.Funding
