import CtaManager.Library.Check
import CtaManager.Library.OrdMapRange
import CtaManager.Library.OrdMapSum

/-!
Coalesced query results (`analysis.rs`).

A call looks its key up and takes the cell of the entry, one of the callers of a cell
computes its result while the others wait, and each call then settles the entry.
The two locked sections are one step each (`System.lookup`, `System.finalise`).
A cell is named by its place in the list of all cells, so `Arc::ptr_eq` compares
places.
-/

namespace CtaManager.Analysis

/-- The last use of a key and its cell. -/
structure CacheEntry where
  used : Nat
  cell : Nat
  deriving DecidableEq

inductive CellState (V : Type) where
  | empty
  | running (call : Nat)
  | done (call : Nat) (result : Except String V)

/-- A `OnceLock`, with the key it is for and the call that made it. -/
structure Cell (K V : Type) where
  key : K
  creator : Nat
  state : CellState V

/-- `OnceLock::get`. -/
def CellState.result {V : Type} : CellState V → Option (Except String V)
  | .done _ result => some result
  | _ => none

/-- One `get_or_compute_if` after its lookup. -/
structure Call (K V : Type) where
  key : K
  cell : Nat
  retain : V → Bool
  finalised : Bool

structure System (K V : Type) [LinearOrder K] where
  capacity : Nat
  entries : OrdMap K CacheEntry
  clock : Nat
  cells : List (Cell K V)
  calls : List (Call K V)

variable {K V : Type} [LinearOrder K]

/-- `QueryCache::new`. -/
def System.new (capacity : Nat) : System K V where
  capacity := capacity
  entries := ∅
  clock := 0
  cells := []
  calls := []

/-- The result in a cell. -/
def System.result (s : System K V) (cell : Nat) : Option (Except String V) :=
  (s.cells[cell]?).bind fun c => c.state.result

def System.finished (s : System K V) (cell : Nat) : Bool := (s.result cell).isSome

/-- The finished entry that was used least recently. -/
def oldestFinished (finished : Nat → Bool) (entries : OrdMap K CacheEntry) : Option K :=
  ((entries.toList.filter fun e => finished e.2.cell).argmin fun e => e.2.used).map Prod.fst

/-- The eviction loop of a finalisation; each round removes one entry, so `rounds` as
large as the cache is enough. -/
def shrink (finished : Nat → Bool) (capacity : Nat) :
    Nat → OrdMap K CacheEntry → OrdMap K CacheEntry
  | 0, entries => entries
  | rounds + 1, entries =>
    if capacity < entries.size then
      match oldestFinished finished entries with
      | some oldest => shrink finished capacity rounds (entries.erase oldest)
      | none => entries
    else entries

/-- The eviction of a lookup. -/
def System.makeRoom (s : System K V) (key : K) : OrdMap K CacheEntry :=
  if !s.entries.contains key && decide (s.capacity ≤ s.entries.size) then
    match oldestFinished s.finished s.entries with
    | some oldest => s.entries.erase oldest
    | none => s.entries
  else s.entries

/-- The first locked section of `get_or_compute_if`. -/
def System.lookup (s : System K V) (key : K) (retain : V → Bool) : System K V :=
  let clock := s.clock + 1
  let entries := s.makeRoom key
  match entries[key]? with
  | some entry =>
    { s with
      clock
      entries := entries.insert key { entry with used := clock }
      calls := s.calls ++ [{ key, cell := entry.cell, retain, finalised := false }] }
  | none =>
    { s with
      clock
      entries := entries.insert key { used := clock, cell := s.cells.length }
      cells := s.cells ++ [{ key, creator := s.calls.length, state := .empty }]
      calls := s.calls ++ [{ key, cell := s.cells.length, retain, finalised := false }] }

/-- The entries without the one that has the call's own cell. -/
def System.dropOwn (s : System K V) (call : Call K V) : OrdMap K CacheEntry :=
  if (s.entries[call.key]?).any fun entry => entry.cell == call.cell then
    s.entries.erase call.key
  else s.entries

/-- The entries after the second locked section of `get_or_compute_if`. -/
def System.settle (s : System K V) (call : Call K V) : Except String V → OrdMap K CacheEntry
  | .ok value =>
    let entries := if !call.retain value then s.dropOwn call else s.entries
    shrink s.finished s.capacity entries.size entries
  | .error _ => s.dropOwn call

def System.setState (s : System K V) (cell : Nat) (c : Cell K V) (state : CellState V) :
    System K V :=
  { s with cells := s.cells.set cell { c with state } }

/-- `get`. -/
def System.get (s : System K V) (key : K) : Option V × System K V :=
  match s.entries[key]? with
  | none => (none, s)
  | some entry =>
    match s.result entry.cell with
    | some (.ok value) =>
      (some value, { s with
        clock := s.clock + 1
        entries := s.entries.insert key { entry with used := s.clock + 1 } })
    | _ => (none, s)

inductive Action (K V : Type) where
  | lookup (key : K) (retain : V → Bool)
  | start (call : Nat)
  | finish (call : Nat) (result : Except String V)
  | finalise (call : Nat)
  | get (key : K)

/-- One atomic step; `none` where it is not the turn of the call. -/
def System.step (s : System K V) : Action K V → Option (System K V)
  | .lookup key retain => some (s.lookup key retain)
  | .start i => do
    let call ← s.calls[i]?
    let c ← s.cells[call.cell]?
    match c.state with
    | .empty => return s.setState call.cell c (.running i)
    | _ => none
  | .finish i result => do
    let call ← s.calls[i]?
    let c ← s.cells[call.cell]?
    match c.state with
    | .running j => if i = j then return s.setState call.cell c (.done i result) else none
    | _ => none
  | .finalise i => do
    let call ← s.calls[i]?
    let result ← s.result call.cell
    if call.finalised then none
    else return { s with
      entries := s.settle call result
      calls := s.calls.set i { call with finalised := true } }
  | .get key => some (s.get key).2

/-! ## What leaves the cache -/

/-- `m'` is `m` without some finished entries. -/
structure Trims (finished : Nat → Bool) (m m' : OrdMap K CacheEntry) : Prop where
  kept : ∀ (key : K) entry, m'[key]? = some entry → m[key]? = some entry
  dropped : ∀ (key : K) entry, m[key]? = some entry → m'[key]? = none → finished entry.cell = true

variable {finished : Nat → Bool} {m m' m'' : OrdMap K CacheEntry}

theorem Trims.refl : Trims finished m m :=
  ⟨fun _ _ h => h, fun _ _ h h' => by rw [h] at h'; cases h'⟩

theorem Trims.trans (h : Trims finished m m') (h' : Trims finished m' m'') :
    Trims finished m m'' := by
  refine ⟨fun key entry hentry => h.kept key entry (h'.kept key entry hentry),
    fun key entry hentry hnone => ?_⟩
  cases hmid : m'[key]? with
  | none => exact h.dropped key entry hentry hmid
  | some e =>
    have he := h.kept key e hmid
    rw [hentry, Option.some.injEq] at he
    rw [he]
    exact h'.dropped key e hmid hnone

theorem trims_erase {key : K} (h : ∀ entry, m[key]? = some entry → finished entry.cell = true) :
    Trims finished m (m.erase key) := by
  constructor
  · intro k entry hentry
    rw [Std.ExtTreeMap.getElem?_erase] at hentry
    split at hentry
    · cases hentry
    · exact hentry
  · intro k entry hentry hnone
    rw [Std.ExtTreeMap.getElem?_erase] at hnone
    split at hnone
    · next heq =>
      rw [Std.compare_eq_iff_eq] at heq
      subst heq
      exact h entry hentry
    · rw [hentry] at hnone
      cases hnone

theorem oldestFinished_spec {key : K} (h : oldestFinished finished m = some key) :
    ∃ entry, m[key]? = some entry ∧ finished entry.cell = true := by
  obtain ⟨e, he, rfl⟩ := Option.map_eq_some_iff.1 h
  have hmem := List.mem_filter.1 (List.argmin_mem he)
  exact ⟨e.2, OrdMap.mem_toList.1 hmem.1, hmem.2⟩

theorem oldestFinished_eq_none (h : oldestFinished finished m = none) :
    ∀ (key : K) entry, m[key]? = some entry → finished entry.cell = false := by
  intro key entry hentry
  rw [oldestFinished, Option.map_eq_none_iff, List.argmin_eq_none, List.filter_eq_nil_iff] at h
  simpa using h (key, entry) (OrdMap.mem_toList.2 hentry)

theorem trims_erase_oldest {key : K} (h : oldestFinished finished m = some key) :
    Trims finished m (m.erase key) := by
  obtain ⟨entry, hentry, hfinished⟩ := oldestFinished_spec h
  refine trims_erase fun e he => ?_
  rw [hentry] at he
  cases he
  exact hfinished

theorem trims_shrink (finished : Nat → Bool) (capacity rounds : Nat) (m : OrdMap K CacheEntry) :
    Trims finished m (shrink finished capacity rounds m) := by
  induction rounds generalizing m with
  | zero => exact Trims.refl
  | succ rounds ih =>
    unfold shrink
    split
    · cases holdest : oldestFinished finished m with
      | none => exact Trims.refl
      | some oldest => exact (trims_erase_oldest holdest).trans (ih _)
    · exact Trims.refl

/-- A cache that has room keeps its entries. -/
theorem shrink_of_le {capacity : Nat} (rounds : Nat) (h : m.size ≤ capacity) :
    shrink finished capacity rounds m = m := by
  cases rounds with
  | zero => rfl
  | succ rounds =>
    unfold shrink
    rw [if_neg (by omega)]

/-- The loop ends with room, or with no finished entry. -/
theorem shrink_done (finished : Nat → Bool) (capacity rounds : Nat) (m : OrdMap K CacheEntry) (h : m.size ≤ rounds) :
    (shrink finished capacity rounds m).size ≤ capacity ∨
      ∀ (key : K) entry, (shrink finished capacity rounds m)[key]? = some entry →
        finished entry.cell = false := by
  induction rounds generalizing m with
  | zero => exact Or.inl (by unfold shrink; omega)
  | succ rounds ih =>
    unfold shrink
    split
    · cases holdest : oldestFinished finished m with
      | none => exact Or.inr (oldestFinished_eq_none holdest)
      | some oldest =>
        refine ih _ ?_
        obtain ⟨entry, hentry, -⟩ := oldestFinished_spec holdest
        have hmem : m.contains oldest = true := by
          rw [Std.ExtTreeMap.contains_eq_isSome_getElem?, hentry]
          rfl
        rw [Std.ExtTreeMap.size_erase, if_pos hmem]
        omega
    · exact Or.inl (by omega)

variable {s : System K V} {call : Call K V}

theorem trims_makeRoom (s : System K V) (key : K) : Trims s.finished s.entries (s.makeRoom key) := by
  unfold System.makeRoom
  split
  · cases holdest : oldestFinished s.finished s.entries with
    | none => exact Trims.refl
    | some oldest => exact trims_erase_oldest holdest
  · exact Trims.refl

theorem getElem?_dropOwn (s : System K V) (call : Call K V) {key : K} {entry : CacheEntry}
    (h : s.entries[key]? = some entry) (hcell : entry.cell ≠ call.cell) :
    (s.dropOwn call)[key]? = some entry := by
  unfold System.dropOwn
  split
  · next hany =>
    obtain ⟨e, he, heq⟩ := (Option.any_eq_true _ _).1 hany
    rw [Std.ExtTreeMap.getElem?_erase, if_neg, h]
    rw [Std.compare_eq_iff_eq]
    rintro rfl
    rw [h] at he
    cases he
    exact hcell (beq_iff_eq.1 heq)
  · exact h

theorem trims_dropOwn (h : s.finished call.cell = true) :
    Trims s.finished s.entries (s.dropOwn call) := by
  unfold System.dropOwn
  split
  · next hany =>
    obtain ⟨e, he, heq⟩ := (Option.any_eq_true _ _).1 hany
    refine trims_erase fun entry hentry => ?_
    rw [he] at hentry
    cases hentry
    rw [beq_iff_eq.1 heq, h]
  · exact Trims.refl

end CtaManager.Analysis
