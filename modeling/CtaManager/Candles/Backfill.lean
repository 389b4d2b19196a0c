import CtaManager.Candles.Market

/-!
One pass of the backfill (`fill_missing` in `kline.rs`).

The pages of a pass depend on what is in the store when the pass starts, and on nothing
the exchange answers: `holePages` is the loop without its requests.  `Holes` says what
these pages are, `followPages` what asking for them does.
-/

namespace CtaManager.Candles

open Check Catalog

/-- The most candles a request asks for. -/
def PAGE_LIMIT : Int := 499

/-- The outside of a pass: what `fetch_page` returns for a page, and the clock when the
pass reads the store and when it saves a page. -/
structure Exchange (F : Type) where
  fetchPage : Int → Int → Except String (List (Kline F))
  scanAt : Int
  savedAt : Int → Int → Int

/-- The store, and the pages requested so far. -/
structure Progress (F : Type) where
  store : KlineStore F
  requested : List (Int × Int)

/-- The inner loop: the page ends at `last`, and goes back from `cursor`. -/
def extendPage (existing : OrdSet Int) (start last : Int) : Nat → Int → Int
  | 0, cursor => cursor
  | fuel + 1, cursor =>
    if start < cursor ∧ (last - cursor) / MINUTE_US < PAGE_LIMIT ∧
        existing.contains (cursor - MINUTE_US) = false then
      extendPage existing start last fuel (cursor - MINUTE_US)
    else cursor

/-- The first minute of the page that ends at `last`. -/
def pageStart (existing : OrdSet Int) (start last : Int) : Int :=
  extendPage existing start last PAGE_LIMIT.toNat (last - MINUTE_US)

def candleOpens {F : Type} (candles : List (Kline F)) : OrdSet Int :=
  candles.foldl (fun opens candle => opens.insert candle.openTsUs) ∅

section

variable {F : Type} [F64 F] [DecidableEq F] [Text.Unicode]

/-- A page is fetched, then saved. -/
def requestPage (exchange : Exchange F) (name : String) (progress : Progress F)
    (page : Int × Int) : Progress F × Except String Unit :=
  let requested := progress.requested ++ [page]
  match exchange.fetchPage page.1 page.2 with
  | .error e => ({ progress with requested }, .error e)
  | .ok candles =>
    let (store, result) :=
      progress.store.savePage name page.1 page.2 candles (exchange.savedAt page.1 page.2)
    (⟨store, requested⟩, result)

/-- The outer loop of `fill_missing`. -/
def fillFrom (exchange : Exchange F) (name : String) (existing : OrdSet Int) (start : Int) :
    Nat → Int → Progress F → Option (Progress F × Except String Unit)
  | fuel, cursor, progress =>
    if cursor ≤ start then some (progress, .ok ())
    else
      match fuel with
      | 0 => none
      | fuel + 1 =>
        if existing.contains (cursor - MINUTE_US) then
          fillFrom exchange name existing start fuel (cursor - MINUTE_US) progress
        else
          match requestPage exchange name progress (pageStart existing start cursor, cursor) with
          | (progress, .error e) => some (progress, .error e)
          | (progress, .ok _) =>
            fillFrom exchange name existing start fuel (pageStart existing start cursor) progress

/-- The steps that a range of minutes can take. -/
def minuteCount (start stop : Int) : Nat := ((stop - start) / MINUTE_US).toNat

/-- `fill_missing`. -/
def fillMissing (exchange : Exchange F) (name : String) (start stop : Int) (progress : Progress F) :
    Option (Progress F × Except String Unit) :=
  match progress.store.scan name start stop exchange.scanAt with
  | (store, .error e) => some ({ progress with store }, .error e)
  | (store, .ok candles) =>
    fillFrom exchange name (candleOpens candles) start (minuteCount start stop) stop
      { progress with store }

end

/-! ## The pages of a pass -/

/-- The loop of `fill_missing` without its requests. -/
def holePages (existing : OrdSet Int) (start : Int) : Nat → Int → List (Int × Int)
  | fuel, cursor =>
    if cursor ≤ start then []
    else
      match fuel with
      | 0 => []
      | fuel + 1 =>
        if existing.contains (cursor - MINUTE_US) then
          holePages existing start fuel (cursor - MINUTE_US)
        else
          (pageStart existing start cursor, cursor) ::
            holePages existing start fuel (pageStart existing start cursor)

/-- The pages of the holes below a time: disjoint, newest first, of at most 499 minutes, of
no minute that exists, and of every other. -/
structure Holes (existing : Int → Bool) (start cursor : Int) (pages : List (Int × Int)) : Prop where
  page : ∀ page ∈ pages, start ≤ page.1 ∧ page.1 < page.2 ∧ page.2 ≤ cursor ∧
    MINUTE_US ∣ page.1 ∧ MINUTE_US ∣ page.2 ∧ (page.2 - page.1) / MINUTE_US ≤ PAGE_LIMIT
  maximal : ∀ page ∈ pages, start < page.1 → (page.2 - page.1) / MINUTE_US < PAGE_LIMIT →
    existing (page.1 - MINUTE_US) = true
  newestFirst : pages.Pairwise fun page later => later.2 ≤ page.1
  covered : ∀ minute, MINUTE_US ∣ minute →
    ((∃ page ∈ pages, page.1 ≤ minute ∧ minute < page.2) ↔
      (start ≤ minute ∧ minute < cursor) ∧ existing minute = false)

/-- Where the inner loop stops, and what it has passed over. -/
theorem extendPage_spec (existing : OrdSet Int) {start last : Int} (hstart : MINUTE_US ∣ start) :
    ∀ (fuel : Nat) (cursor : Int), MINUTE_US ∣ cursor → start ≤ cursor → cursor < last →
      PAGE_LIMIT ≤ (last - cursor) / MINUTE_US + fuel →
      (last - cursor) / MINUTE_US ≤ PAGE_LIMIT →
      let first := extendPage existing start last fuel cursor
      MINUTE_US ∣ first ∧ start ≤ first ∧ first ≤ cursor ∧
        (last - first) / MINUTE_US ≤ PAGE_LIMIT ∧
        (∀ minute, MINUTE_US ∣ minute → first ≤ minute → minute < cursor →
          existing.contains minute = false) ∧
        (start < first → (last - first) / MINUTE_US < PAGE_LIMIT →
          existing.contains (first - MINUTE_US) = true) := by
  intro fuel
  induction fuel with
  | zero =>
    intro cursor hcursor hle hlt hfuel hlimit
    refine ⟨hcursor, hle, le_refl cursor, hlimit, fun minute _ hge hminute => ?_, fun _ hshort => ?_⟩
    · exact absurd hminute (not_lt.2 hge)
    · have h : (last - cursor) / MINUTE_US < PAGE_LIMIT := hshort
      omega
  | succ fuel ih =>
    intro cursor hcursor hle hlt hfuel hlimit
    by_cases hstep : start < cursor ∧ (last - cursor) / MINUTE_US < PAGE_LIMIT ∧
        existing.contains (cursor - MINUTE_US) = false
    · have hfirst : extendPage existing start last (fuel + 1) cursor =
          extendPage existing start last fuel (cursor - MINUTE_US) := by
        rw [extendPage, if_pos hstep]
      rw [hfirst]
      obtain ⟨hopen, hshort, hhole⟩ := hstep
      have hcount : (last - (cursor - MINUTE_US)) / MINUTE_US = (last - cursor) / MINUTE_US + 1 := by
        unfold MINUTE_US
        omega
      have hback : MINUTE_US ∣ cursor - MINUTE_US := hcursor.sub (Int.dvd_refl MINUTE_US)
      have hmore : start ≤ cursor - MINUTE_US := by
        obtain ⟨n, rfl⟩ := hcursor
        obtain ⟨m, rfl⟩ := hstart
        unfold MINUTE_US at *
        omega
      obtain ⟨hdvd, hge, hbelow, hpage, hall, hstop⟩ := ih (cursor - MINUTE_US) hback hmore
        (by unfold MINUTE_US; omega) (by omega) (by omega)
      refine ⟨hdvd, hge, ?_, hpage, fun minute hminute hfirst hbefore => ?_, hstop⟩
      · refine le_trans hbelow ?_
        unfold MINUTE_US
        omega
      · by_cases heq : minute = cursor - MINUTE_US
        · rw [heq]
          exact hhole
        · refine hall minute hminute hfirst ?_
          obtain ⟨n, rfl⟩ := hcursor
          obtain ⟨m, rfl⟩ := hminute
          unfold MINUTE_US at *
          omega
    · have hfirst : extendPage existing start last (fuel + 1) cursor = cursor := by
        rw [extendPage, if_neg hstep]
      rw [hfirst]
      refine ⟨hcursor, hle, le_refl cursor, hlimit, fun minute _ hge hminute => ?_,
        fun hopen hshort => ?_⟩
      · exact absurd hminute (not_lt.2 hge)
      · by_contra hhole
        exact hstep ⟨hopen, hshort, Bool.not_eq_true _ ▸ hhole⟩

/-- A page: it starts where the range does, after 499 minutes, or after a minute that exists. -/
theorem pageStart_spec (existing : OrdSet Int) {start last : Int} (hlast : MINUTE_US ∣ last)
    (hstart : MINUTE_US ∣ start) (hlt : start < last)
    (hhole : existing.contains (last - MINUTE_US) = false) :
    let first := pageStart existing start last
    MINUTE_US ∣ first ∧ start ≤ first ∧ first < last ∧
      (last - first) / MINUTE_US ≤ PAGE_LIMIT ∧
      (∀ minute, MINUTE_US ∣ minute → first ≤ minute → minute < last →
        existing.contains minute = false) ∧
      (start < first → (last - first) / MINUTE_US < PAGE_LIMIT →
        existing.contains (first - MINUTE_US) = true) := by
  have hback : MINUTE_US ∣ last - MINUTE_US := hlast.sub (Int.dvd_refl MINUTE_US)
  have hle : start ≤ last - MINUTE_US := by
    obtain ⟨n, rfl⟩ := hlast
    obtain ⟨m, rfl⟩ := hstart
    unfold MINUTE_US at *
    omega
  have hone : (last - (last - MINUTE_US)) / MINUTE_US = 1 := by
    unfold MINUTE_US
    omega
  have hbelow : last - MINUTE_US < last := by
    unfold MINUTE_US
    omega
  obtain ⟨hdvd, hge, hfirst, hpage, hall, hstop⟩ := extendPage_spec existing hstart
    PAGE_LIMIT.toNat (last - MINUTE_US) hback hle hbelow
    (by rw [hone]; decide) (by rw [hone]; decide)
  refine ⟨hdvd, hge, lt_of_le_of_lt hfirst hbelow, hpage,
    fun minute hminute hge' hlt' => ?_, hstop⟩
  by_cases heq : minute = last - MINUTE_US
  · rw [heq]
    exact hhole
  · refine hall minute hminute hge' ?_
    obtain ⟨n, rfl⟩ := hlast
    obtain ⟨m, rfl⟩ := hminute
    unfold MINUTE_US at *
    omega

theorem le_sub_minute {start cursor : Int} (hstart : MINUTE_US ∣ start)
    (hcursor : MINUTE_US ∣ cursor) (hlt : start < cursor) : start ≤ cursor - MINUTE_US := by
  obtain ⟨n, rfl⟩ := hcursor
  obtain ⟨m, rfl⟩ := hstart
  unfold MINUTE_US at *
  omega

theorem minuteCount_sub (start cursor : Int) :
    minuteCount start (cursor - MINUTE_US) = minuteCount start cursor - 1 := by
  unfold minuteCount MINUTE_US
  omega

theorem minuteCount_lt {start first last : Int} (hle : start ≤ first) (hfirst : MINUTE_US ∣ first)
    (hlast : MINUTE_US ∣ last) (hlt : first < last) : minuteCount start first < minuteCount start last := by
  obtain ⟨n, rfl⟩ := hfirst
  obtain ⟨m, rfl⟩ := hlast
  unfold minuteCount MINUTE_US at *
  omega

/-- The pages below `last` when its last minute exists are those below that minute. -/
theorem Holes.skip {existing : Int → Bool} {start cursor : Int} {pages : List (Int × Int)}
    (h : Holes existing start (cursor - MINUTE_US) pages) (hcursor : MINUTE_US ∣ cursor)
    (hexists : existing (cursor - MINUTE_US) = true) : Holes existing start cursor pages := by
  refine ⟨fun page hpage => ?_, h.maximal, h.newestFirst, fun minute hminute => ?_⟩
  · obtain ⟨hge, hlt, hle, hrest⟩ := h.page page hpage
    refine ⟨hge, hlt, ?_, hrest⟩
    unfold MINUTE_US at hle
    omega
  · rw [h.covered minute hminute]
    constructor
    · rintro ⟨⟨hge, hlt⟩, hhole⟩
      refine ⟨⟨hge, ?_⟩, hhole⟩
      unfold MINUTE_US at hlt
      omega
    · rintro ⟨⟨hge, hlt⟩, hhole⟩
      have hne : minute ≠ cursor - MINUTE_US := by
        intro heq
        rw [heq, hexists] at hhole
        cases hhole
      refine ⟨⟨hge, ?_⟩, hhole⟩
      obtain ⟨n, rfl⟩ := hcursor
      obtain ⟨m, rfl⟩ := hminute
      unfold MINUTE_US at *
      omega

/-- One more page, above the pages below it. -/
theorem Holes.cons {existing : OrdSet Int} {start last : Int} {pages : List (Int × Int)}
    (hlast : MINUTE_US ∣ last) (hstart : MINUTE_US ∣ start) (hlt : start < last)
    (hhole : existing.contains (last - MINUTE_US) = false)
    (h : Holes existing.contains start (pageStart existing start last) pages) :
    Holes existing.contains start last ((pageStart existing start last, last) :: pages) := by
  obtain ⟨hdvd, hge, hbelow, hlimit, hall, hstop⟩ := pageStart_spec existing hlast hstart hlt hhole
  constructor
  · intro page hpage
    rcases List.mem_cons.1 hpage with rfl | hpage
    · exact ⟨hge, hbelow, le_refl last, hdvd, hlast, hlimit⟩
    · obtain ⟨hpge, hplt, hple, hrest⟩ := h.page page hpage
      exact ⟨hpge, hplt, hple.trans hbelow.le, hrest⟩
  · intro page hpage
    rcases List.mem_cons.1 hpage with rfl | hpage
    · exact hstop
    · exact h.maximal page hpage
  · exact List.pairwise_cons.2 ⟨fun later hlater => (h.page later hlater).2.2.1, h.newestFirst⟩
  · intro minute hminute
    by_cases hin : pageStart existing start last ≤ minute ∧ minute < last
    · refine iff_of_true ⟨_, List.mem_cons_self, hin⟩ ⟨⟨hge.trans hin.1, hin.2⟩, ?_⟩
      exact hall minute hminute hin.1 hin.2
    · have hcovered := h.covered minute hminute
      constructor
      · rintro ⟨page, hpage, hin'⟩
        rcases List.mem_cons.1 hpage with rfl | hpage
        · exact absurd hin' hin
        · obtain ⟨⟨hmge, hmlt⟩, hmhole⟩ := hcovered.1 ⟨page, hpage, hin'⟩
          exact ⟨⟨hmge, hmlt.trans hbelow⟩, hmhole⟩
      · rintro ⟨⟨hmge, hmlt⟩, hmhole⟩
        have hmfirst : minute < pageStart existing start last := by
          by_contra hle
          exact hin ⟨not_lt.1 hle, hmlt⟩
        obtain ⟨page, hpage, hin'⟩ := hcovered.2 ⟨⟨hmge, hmfirst⟩, hmhole⟩
        exact ⟨page, List.mem_cons_of_mem _ hpage, hin'⟩

theorem holes_nil {existing : Int → Bool} {start cursor : Int} (h : cursor ≤ start) :
    Holes existing start cursor [] := by
  refine ⟨fun _ hpage => absurd hpage List.not_mem_nil, fun _ hpage => absurd hpage List.not_mem_nil,
    List.Pairwise.nil, fun minute _ => ?_⟩
  constructor
  · rintro ⟨_, hpage, -⟩
    exact absurd hpage List.not_mem_nil
  · rintro ⟨⟨hge, hlt⟩, -⟩
    omega

/-- The pages of the loop, with a step for every minute at hand. -/
theorem holes_holePages (existing : OrdSet Int) {start : Int} (hstart : MINUTE_US ∣ start) :
    ∀ (fuel : Nat) (cursor : Int), MINUTE_US ∣ cursor → minuteCount start cursor ≤ fuel →
      Holes existing.contains start cursor (holePages existing start fuel cursor) := by
  intro fuel
  induction fuel with
  | zero =>
    intro cursor hcursor hfuel
    have hle : cursor ≤ start := by
      obtain ⟨n, rfl⟩ := hcursor
      obtain ⟨m, rfl⟩ := hstart
      unfold minuteCount MINUTE_US at *
      omega
    rw [holePages, if_pos hle]
    exact holes_nil hle
  | succ fuel ih =>
    intro cursor hcursor hfuel
    by_cases hle : cursor ≤ start
    · rw [holePages, if_pos hle]
      exact holes_nil hle
    · have hlt : start < cursor := not_le.1 hle
      rw [holePages, if_neg hle]
      cases hexists : existing.contains (cursor - MINUTE_US) with
      | true =>
        rw [if_pos rfl]
        refine (ih (cursor - MINUTE_US) (hcursor.sub (Int.dvd_refl MINUTE_US)) ?_).skip hcursor hexists
        rw [minuteCount_sub]
        omega
      | false =>
        rw [if_neg Bool.false_ne_true]
        obtain ⟨hdvd, hge, hbelow, -⟩ := pageStart_spec existing hcursor hstart hlt hexists
        refine Holes.cons hcursor hstart hlt hexists (ih _ hdvd ?_)
        have := minuteCount_lt hge hdvd hcursor hbelow
        omega

section

variable {F : Type} [F64 F] [DecidableEq F] [Text.Unicode]

/-- Pages requested one after the other, up to the first failure. -/
def followPages (exchange : Exchange F) (name : String) (progress : Progress F) :
    List (Int × Int) → Progress F × Except String Unit
  | [] => (progress, .ok ())
  | page :: pages =>
    match requestPage exchange name progress page with
    | (progress, .error e) => (progress, .error e)
    | (progress, .ok _) => followPages exchange name progress pages

/-- The loop of `fill_missing` requests its pages, and ends. -/
theorem fillFrom_eq (exchange : Exchange F) (name : String) (existing : OrdSet Int) {start : Int}
    (hstart : MINUTE_US ∣ start) : ∀ (fuel : Nat) (cursor : Int) (progress : Progress F),
      MINUTE_US ∣ cursor → minuteCount start cursor ≤ fuel →
      fillFrom exchange name existing start fuel cursor progress =
        some (followPages exchange name progress (holePages existing start fuel cursor)) := by
  intro fuel
  induction fuel with
  | zero =>
    intro cursor progress hcursor hfuel
    have hle : cursor ≤ start := by
      obtain ⟨n, rfl⟩ := hcursor
      obtain ⟨m, rfl⟩ := hstart
      unfold minuteCount MINUTE_US at *
      omega
    rw [fillFrom, holePages, if_pos hle, if_pos hle]
    rfl
  | succ fuel ih =>
    intro cursor progress hcursor hfuel
    by_cases hle : cursor ≤ start
    · rw [fillFrom, holePages, if_pos hle, if_pos hle]
      rfl
    · have hlt : start < cursor := not_le.1 hle
      rw [fillFrom, holePages, if_neg hle, if_neg hle]
      cases hexists : existing.contains (cursor - MINUTE_US) with
      | true =>
        rw [if_pos rfl, if_pos rfl]
        refine ih (cursor - MINUTE_US) progress (hcursor.sub (Int.dvd_refl MINUTE_US)) ?_
        rw [minuteCount_sub]
        omega
      | false =>
        rw [if_neg Bool.false_ne_true, if_neg Bool.false_ne_true]
        obtain ⟨hdvd, hge, hbelow, -⟩ := pageStart_spec existing hcursor hstart hlt hexists
        have hless := minuteCount_lt hge hdvd hcursor hbelow
        unfold followPages
        rcases requestPage exchange name progress (pageStart existing start cursor, cursor) with
          ⟨progress', _ | _⟩
        · rfl
        · exact ih _ progress' hdvd (by omega)

/-- The exchange answers a page, with candles that pass the checks of the store. -/
def Exchange.accepts (exchange : Exchange F) (config : KlineConfig) (name : String)
    (page : Int × Int) : Bool :=
  match exchange.fetchPage page.1 page.2 with
  | .error _ => false
  | .ok candles =>
    (KlineStore.checkPage config name page.1 page.2 candles
      (exchange.savedAt page.1 page.2)).toOption.isSome

/-- The pages before the first that is refused. -/
def Exchange.kept (exchange : Exchange F) (config : KlineConfig) (name : String)
    (pages : List (Int × Int)) : List (Int × Int) :=
  pages.takeWhile (exchange.accepts config name)

/-- The store once the answer to a page is saved. -/
def Exchange.saved (exchange : Exchange F) (name : String) (store : KlineStore F)
    (page : Int × Int) : KlineStore F :=
  match exchange.fetchPage page.1 page.2 with
  | .error _ => store
  | .ok candles =>
    (store.savePage name page.1 page.2 candles (exchange.savedAt page.1 page.2)).1

theorem KlineStore.config_savePage (store : KlineStore F) (name : String) (start stop : Int)
    (candles : List (Kline F)) (now : Int) :
    (store.savePage name start stop candles now).1.config = store.config := by
  unfold KlineStore.savePage
  cases KlineStore.checkPage store.config name start stop candles now with
  | error e => rfl
  | ok u => rfl

theorem requestPage_spec (exchange : Exchange F) (name : String) (progress : Progress F)
    (page : Int × Int) :
    (requestPage exchange name progress page).1 =
        ⟨exchange.saved name progress.store page, progress.requested ++ [page]⟩ ∧
      (exchange.saved name progress.store page).config = progress.store.config ∧
      (exchange.accepts progress.store.config name page = false →
        exchange.saved name progress.store page = progress.store) ∧
      ((requestPage exchange name progress page).2 = .ok () ↔
        exchange.accepts progress.store.config name page = true) := by
  unfold requestPage Exchange.saved Exchange.accepts
  cases exchange.fetchPage page.1 page.2 with
  | error e => exact ⟨rfl, rfl, fun _ => rfl, iff_of_false nofun nofun⟩
  | ok candles =>
    refine ⟨rfl, KlineStore.config_savePage _ _ _ _ _ _, ?_⟩
    show ((KlineStore.checkPage progress.store.config name page.1 page.2 candles
        (exchange.savedAt page.1 page.2)).toOption.isSome = false →
          (progress.store.savePage name page.1 page.2 candles
            (exchange.savedAt page.1 page.2)).1 = progress.store) ∧
      ((progress.store.savePage name page.1 page.2 candles
      (exchange.savedAt page.1 page.2)).2 = .ok () ↔
        (KlineStore.checkPage progress.store.config name page.1 page.2 candles
          (exchange.savedAt page.1 page.2)).toOption.isSome = true)
    unfold KlineStore.savePage
    cases KlineStore.checkPage progress.store.config name page.1 page.2 candles
      (exchange.savedAt page.1 page.2) with
    | error e => exact ⟨fun _ => rfl, iff_of_false nofun nofun⟩
    | ok u => exact ⟨nofun, iff_of_true rfl rfl⟩

/-- Pages up to the first that is refused are saved; that one is the last to be requested. -/
theorem followPages_spec (exchange : Exchange F) (name : String) (pages : List (Int × Int))
    (progress : Progress F) :
    (followPages exchange name progress pages).1 =
        ⟨(exchange.kept progress.store.config name pages).foldl (exchange.saved name) progress.store,
          progress.requested ++
            pages.take ((exchange.kept progress.store.config name pages).length + 1)⟩ ∧
      ((followPages exchange name progress pages).2 = .ok () ↔
        ∀ page ∈ pages, exchange.accepts progress.store.config name page = true) := by
  unfold Exchange.kept
  induction pages generalizing progress with
  | nil =>
    refine ⟨?_, iff_of_true rfl fun _ hpage => absurd hpage List.not_mem_nil⟩
    show progress = ⟨progress.store, progress.requested ++ []⟩
    rw [List.append_nil]
  | cons page pages ih =>
    obtain ⟨hprogress, hconfig, hunsaved, hresult⟩ := requestPage_spec exchange name progress page
    unfold followPages
    rw [List.takeWhile_cons, List.forall_mem_cons]
    rcases hrequest : requestPage exchange name progress page with ⟨progress', result⟩
    rw [hrequest] at hprogress hresult
    cases hprogress
    cases result with
    | error e =>
      have hrefused : exchange.accepts progress.store.config name page = false := by
        rw [← Bool.not_eq_true]
        exact fun haccepted => nomatch hresult.2 haccepted
      rw [hrefused, if_neg Bool.false_ne_true, List.length_nil, List.take_succ_cons, List.take_zero,
        hunsaved hrefused]
      exact ⟨rfl, iff_of_false nofun fun h => nomatch h.1⟩
    | ok u =>
      have haccepted := hresult.1 rfl
      obtain ⟨hrest, hall⟩ := ih
        ⟨exchange.saved name progress.store page, progress.requested ++ [page]⟩
      dsimp only at hrest hall
      rw [hconfig] at hrest hall
      dsimp only
      rw [haccepted, if_pos rfl]
      refine ⟨?_, hall.trans (Iff.symm (and_iff_right rfl))⟩
      rw [hrest, List.foldl_cons, List.length_cons, List.take_succ_cons, List.append_assoc]
      rfl

/-- The minute is stored, and reads count it: it is inside retention, and closed. -/
def KlineStore.cached (store : KlineStore F) (name : String) (now minute : Int) : Bool :=
  store.config.inside now minute && (store.symbol name).durable.contains minute

omit [F64 F] [DecidableEq F] [Text.Unicode] in
theorem contains_candleOpens {candles : List (Kline F)} {minute : Int} :
    (candleOpens candles).contains minute = true ↔ ∃ candle ∈ candles, candle.openTsUs = minute := by
  unfold candleOpens
  rw [Std.ExtTreeSet.contains_iff_mem, OrdMap.mem_foldl_insert]
  simp

omit [DecidableEq F] in
/-- The minutes that a scan of a range finds are the cached ones. -/
theorem contains_storedIn {store : KlineStore F} (h : store.Coherent) (name : String)
    {start stop now minute : Int} (hle : start ≤ minute) (hlt : minute < stop) :
    (candleOpens ((store.symbol name).storedIn store.config start stop now)).contains minute =
      store.cached name now minute := by
  rw [Bool.eq_iff_iff, contains_candleOpens]
  unfold KlineStore.cached SymbolStore.storedIn
  rw [Bool.and_eq_true, Std.ExtTreeMap.contains_eq_isSome_getElem?, Option.isSome_iff_exists]
  constructor
  · rintro ⟨candle, hcandle, hopen⟩
    obtain ⟨p, hp, rfl⟩ := List.mem_map.1 hcandle
    obtain ⟨hp, hrange⟩ := List.mem_filter.1 hp
    have hstored := OrdMap.mem_toList.1 hp
    rw [((h.symbol name).valid p.1 p.2 hstored).2] at hopen
    rw [hopen] at hstored hrange
    exact ⟨(Bool.and_eq_true _ _ ▸ hrange).2, p.2, hstored⟩
  · rintro ⟨hinside, candle, hstored⟩
    refine ⟨candle, List.mem_map.2 ⟨(minute, candle), List.mem_filter.2
      ⟨OrdMap.mem_toList.2 hstored, ?_⟩, rfl⟩, ((h.symbol name).valid minute candle hstored).2⟩
    rw [decide_eq_true hle, decide_eq_true hlt, hinside]
    rfl

omit [Text.Unicode] in
theorem Holes.congr {existing existing' : Int → Bool} {start cursor : Int}
    {pages : List (Int × Int)} (h : Holes existing start cursor pages) (hstart : MINUTE_US ∣ start)
    (hsame : ∀ minute, start ≤ minute → minute < cursor → existing minute = existing' minute) :
    Holes existing' start cursor pages := by
  refine ⟨h.page, fun page hpage hopen hshort => ?_, h.newestFirst, fun minute hminute => ?_⟩
  · obtain ⟨-, hlt, hle, hdvd, -⟩ := h.page page hpage
    rw [← hsame (page.1 - MINUTE_US) (le_sub_minute hstart hdvd hopen)
      (by unfold MINUTE_US; omega)]
    exact h.maximal page hpage hopen hshort
  · rw [h.covered minute hminute]
    constructor
    · rintro ⟨hin, hhole⟩
      exact ⟨hin, hsame minute hin.1 hin.2 ▸ hhole⟩
    · rintro ⟨hin, hhole⟩
      exact ⟨hin, (hsame minute hin.1 hin.2).symm ▸ hhole⟩

/-- The pages of a pass over a range. -/
def KlineStore.passPages (store : KlineStore F) (name : String) (start stop now : Int) :
    List (Int × Int) :=
  holePages (candleOpens ((store.symbol name).storedIn store.config start stop now)) start
    (minuteCount start stop) stop

omit [DecidableEq F] in
theorem holes_passPages {store : KlineStore F} (h : store.Coherent) (name : String)
    {start stop : Int} (hstart : MINUTE_US ∣ start) (hstop : MINUTE_US ∣ stop) (now : Int) :
    Holes (store.cached name now) start stop (store.passPages name start stop now) :=
  (holes_holePages _ hstart (minuteCount start stop) stop hstop (le_refl _)).congr hstart
    fun _ hle hlt => contains_storedIn h name hle hlt

/-- A pass follows its pages. -/
theorem fillMissing_eq (exchange : Exchange F) {name : String} {bytes : List UInt8}
    {start stop : Int} {progress : Progress F} (h : progress.store.Coherent)
    (hname : prefixBytes name = .ok bytes) (hstart : MINUTE_US ∣ start) (hstop : MINUTE_US ∣ stop) :
    fillMissing exchange name start stop progress = some (followPages exchange name
      { progress with store := (progress.store.scan name start stop exchange.scanAt).1 }
      (progress.store.passPages name start stop exchange.scanAt)) := by
  unfold fillMissing
  have hscan := KlineStore.scan_aligned h hname start hstop exchange.scanAt
  rcases hresult : progress.store.scan name start stop exchange.scanAt with ⟨scanned, reply⟩
  rw [hresult] at hscan
  cases hscan
  exact fillFrom_eq exchange name _ hstart (minuteCount start stop) stop _ hstop (le_refl _)

/-- A pass over whole minutes requests the pages of the minutes that are not cached, newest
first, up to the first page that is refused; the pages before that one are saved. -/
theorem fillMissing_requests (exchange : Exchange F) {name : String} {bytes : List UInt8}
    {start stop : Int} {progress : Progress F} (h : progress.store.Coherent)
    (hname : prefixBytes name = .ok bytes) (hstart : MINUTE_US ∣ start) (hstop : MINUTE_US ∣ stop) :
    ∃ pages progress' result,
      fillMissing exchange name start stop progress = some (progress', result) ∧
      Holes (progress.store.cached name exchange.scanAt) start stop pages ∧
      (result = .ok () ↔
        ∀ page ∈ pages, exchange.accepts progress.store.config name page = true) ∧
      (result = .ok () → progress'.requested = progress.requested ++ pages) ∧
      progress'.requested = progress.requested ++
        pages.take ((exchange.kept progress.store.config name pages).length + 1) ∧
      progress'.store = (exchange.kept progress.store.config name pages).foldl
        (exchange.saved name) (progress.store.scan name start stop exchange.scanAt).1 := by
  have hconfig := (KlineStore.scan_frame h name start stop exchange.scanAt).1
  obtain ⟨hprogress, hresult⟩ := followPages_spec exchange name
    (progress.store.passPages name start stop exchange.scanAt)
    { progress with store := (progress.store.scan name start stop exchange.scanAt).1 }
  dsimp only at hprogress hresult
  rw [hconfig] at hprogress hresult
  refine ⟨_, _, _, fillMissing_eq exchange h hname hstart hstop,
    holes_passPages h name hstart hstop exchange.scanAt, hresult, fun hok => ?_, ?_⟩
  · have hall := hresult.1 hok
    unfold Exchange.kept at hprogress
    rw [hprogress, List.takeWhile_eq_self_iff.2 hall, List.take_of_length_le (Nat.le_succ _)]
  · rw [hprogress]
    exact ⟨rfl, rfl⟩

end

section Sample

attribute [local instance] Text.Unicode.ascii

/-- An exchange without candles, a day after the stored one. -/
def emptyExchange : Exchange ℚ where
  fetchPage _ _ := .ok []
  scanAt := 1000 * MINUTE_US + DAY_US + 1
  savedAt _ _ := 1000 * MINUTE_US + DAY_US + 1

/-- The stored candle is in the middle of the range: its two sides are requested. -/
theorem fillMissing_requests_sample :
    let exchange : Exchange ℚ := { emptyExchange with scanAt := 1001 * MINUTE_US }
    ∃ progress', fillMissing exchange "BTCUSDT" (998 * MINUTE_US) (1003 * MINUTE_US)
        ⟨.fromDb ⟨true, 1⟩ sampleDatabase, []⟩ = some (progress', .ok ()) ∧
      progress'.requested =
        [(1001 * MINUTE_US, 1003 * MINUTE_US), (998 * MINUTE_US, 1000 * MINUTE_US)] ∧
      Holes ((KlineStore.fromDb ⟨true, 1⟩ sampleDatabase).cached "BTCUSDT" exchange.scanAt)
        (998 * MINUTE_US) (1003 * MINUTE_US) progress'.requested := by
  intro exchange
  obtain ⟨bytes, hname, -⟩ := exists_ok_of_any
    (by decide +kernel : (prefixBytes "BTCUSDT").toOption.any (fun _ => true) = true)
  have hcoherent : KlineStore.Coherent
      (⟨.fromDb ⟨true, 1⟩ sampleDatabase, []⟩ : Progress ℚ).store :=
    KlineStore.coherent_fromDb _ _
  have hrun : ((fillMissing exchange "BTCUSDT" (998 * MINUTE_US) (1003 * MINUTE_US)
      ⟨.fromDb ⟨true, 1⟩ sampleDatabase, []⟩).map fun run => (run.1.requested, run.2)) =
        some ([(1001 * MINUTE_US, 1003 * MINUTE_US), (998 * MINUTE_US, 1000 * MINUTE_US)],
          .ok ()) := by decide +kernel
  obtain ⟨pages, progress', result, hfill, hholes, -, hpages, -⟩ :=
    fillMissing_requests exchange hcoherent hname
      (Dvd.intro_left 998 rfl : MINUTE_US ∣ 998 * MINUTE_US)
      (Dvd.intro_left 1003 rfl : MINUTE_US ∣ 1003 * MINUTE_US)
  rw [hfill, Option.map_some, Option.some.injEq, Prod.mk.injEq] at hrun
  obtain ⟨hrequested, rfl⟩ := hrun
  refine ⟨progress', hfill, hrequested, ?_⟩
  rw [hpages rfl]
  exact hholes

/-- A stored minute that has just left retention is requested again. -/
theorem fillMissing_requestsExpired : ¬ ∀ (exchange : Exchange ℚ) (name : String) (start stop : Int)
    (progress progress' : Progress ℚ), progress.store.Coherent →
      MINUTE_US ∣ start → MINUTE_US ∣ stop →
      fillMissing exchange name start stop progress = some (progress', .ok ()) →
      ∀ page ∈ progress'.requested, ∀ minute, page.1 ≤ minute → minute < page.2 →
        (progress.store.symbol name).durable.contains minute = false := by
  intro h
  have hrun : ((fillMissing emptyExchange "BTCUSDT" (1000 * MINUTE_US) (1001 * MINUTE_US)
      ⟨.fromDb ⟨true, 1⟩ sampleDatabase, []⟩).map fun run => (run.1.requested, run.2)) =
        some ([(1000 * MINUTE_US, 1001 * MINUTE_US)], .ok ()) := by decide +kernel
  obtain ⟨⟨progress', result⟩, hfill, hrun⟩ := Option.map_eq_some_iff.1 hrun
  rw [Prod.mk.injEq] at hrun
  obtain ⟨hrequested, rfl⟩ := hrun
  have hstored := h emptyExchange "BTCUSDT" (1000 * MINUTE_US) (1001 * MINUTE_US)
    ⟨.fromDb ⟨true, 1⟩ sampleDatabase, []⟩ progress' (KlineStore.coherent_fromDb _ _)
    (Dvd.intro_left _ rfl) (Dvd.intro_left _ rfl) hfill (1000 * MINUTE_US, 1001 * MINUTE_US)
    (by rw [hrequested]; exact List.mem_singleton_self _) (1000 * MINUTE_US) (le_refl _)
    (by decide)
  revert hstored
  decide +kernel

end Sample

end CtaManager.Candles
