import CtaManager.Analysis.QueryCache

/-!
Runs of the query cache (`analysis.rs`).

An unfinished cell never leaves the cache, so a key has one at most.  A call that
failed or was refused takes its own cell out, and a cell that is out never comes
back.  An entry is settled once the call that made its cell is finalised: no more
entries than the capacity are settled, because a finalisation that succeeds ends
with room or with no finished entry, and one that fails settles none.
-/

namespace CtaManager.Analysis

variable {K V : Type} [LinearOrder K] {s s' : System K V}

/-- The cell was made by a call that is finalised. -/
def System.settled (s : System K V) (cell : Nat) : Bool :=
  (s.cells[cell]?).any fun c => (s.calls[c.creator]?).any Call.finalised

def System.settledCount (s : System K V) : Nat :=
  OrdMap.sumOf (fun _ entry => if s.settled entry.cell then 1 else 0) s.entries

theorem settledCount_trim {entries : OrdMap K CacheEntry}
    (ht : Trims s.finished s.entries entries) :
    ({ s with entries } : System K V).settledCount ≤ s.settledCount := by
  refine OrdMap.sumOf_le_of_share fun key => ?_
  cases hentry : entries[key]? with
  | none => exact Nat.zero_le _
  | some entry =>
    rw [ht.kept key entry hentry]
    exact le_rfl

/-- A failed result, or one that the call does not retain. -/
def Call.Rejects (call : Call K V) : Except String V → Prop
  | .error _ => True
  | .ok value => call.retain value = false

theorem getElem?_concat_of_some {α : Type} {l : List α} {i : Nat} {a : α} (b : α)
    (h : l[i]? = some a) : (l ++ [b])[i]? = some a := by
  rw [List.getElem?_append_left (List.getElem?_eq_some_iff.1 h).1, h]

theorem getElem?_concat_eq_some {α : Type} {l : List α} {i : Nat} {a b : α}
    (h : (l ++ [b])[i]? = some a) : l[i]? = some a ∨ (i = l.length ∧ a = b) := by
  rw [List.getElem?_append] at h
  split at h
  · exact Or.inl h
  · rw [List.getElem?_singleton] at h
    split at h
    · cases h
      exact Or.inr ⟨by omega, rfl⟩
    · cases h

structure Inv (s : System K V) : Prop where
  entry_cell : ∀ (key : K) (entry : CacheEntry), s.entries[key]? = some entry →
    ∃ c : Cell K V, s.cells[entry.cell]? = some c ∧ c.key = key
  call_cell : ∀ call ∈ s.calls, ∃ c : Cell K V, s.cells[call.cell]? = some c ∧ c.key = call.key
  creator : ∀ (cell : Nat) (c : Cell K V), s.cells[cell]? = some c →
    ∃ call : Call K V, s.calls[c.creator]? = some call ∧ call.cell = cell
  running : ∀ (cell : Nat) (c : Cell K V) i, s.cells[cell]? = some c → c.state = .running i →
    ∃ call : Call K V, s.calls[i]? = some call ∧ call.cell = cell
  done : ∀ (cell : Nat) (c : Cell K V) i result, s.cells[cell]? = some c →
    c.state = .done i result → ∃ call : Call K V, s.calls[i]? = some call ∧ call.cell = cell
  unfinished : ∀ (cell : Nat) (c : Cell K V), s.cells[cell]? = some c → c.state.result = none →
    ∃ entry : CacheEntry, s.entries[c.key]? = some entry ∧ entry.cell = cell
  finalised : ∀ call ∈ s.calls, call.finalised = true → ∃ result, s.result call.cell = some result ∧
    (call.Rejects result → ∀ (key : K) (entry : CacheEntry), s.entries[key]? = some entry →
      entry.cell ≠ call.cell)
  settled : s.settledCount ≤ s.capacity

theorem inv_new (capacity : Nat) : Inv (System.new capacity : System K V) where
  entry_cell key entry h := by simp [System.new] at h
  call_cell call h := absurd h List.not_mem_nil
  creator cell c h := by cases h
  running cell c i h := by cases h
  done cell c i result h := by cases h
  unfinished cell c h := by cases h
  finalised call h := absurd h List.not_mem_nil
  settled := by
    rw [System.settledCount, System.new, OrdMap.sumOf_empty]
    exact Nat.zero_le _

/-! ## A computation starts or ends -/

section

variable {cell : Nat} {c : Cell K V} {state : CellState V}

theorem getElem?_setState {k : Nat} {c' : Cell K V} (hc : s.cells[cell]? = some c)
    (h : (s.setState cell c state).cells[k]? = some c') :
    (k = cell ∧ c' = { c with state }) ∨ (k ≠ cell ∧ s.cells[k]? = some c') := by
  have hlt := (List.getElem?_eq_some_iff.1 hc).1
  rw [System.setState, List.getElem?_set] at h
  split at h
  · next heq =>
    exact Or.inl ⟨heq.symm, (Option.some.inj h).symm⟩
  · next hne => exact Or.inr ⟨fun heq => hne heq.symm, h⟩

theorem exists_setState {k : Nat} {c₀ : Cell K V} (state : CellState V)
    (hc : s.cells[cell]? = some c) (h : s.cells[k]? = some c₀) : ∃ c', (s.setState cell c state).cells[k]? = some c' ∧
      c'.key = c₀.key ∧ c'.creator = c₀.creator := by
  have hlt := (List.getElem?_eq_some_iff.1 hc).1
  rw [System.setState, List.getElem?_set]
  split
  · next heq =>
    subst heq
    rw [hc] at h
    cases h
    exact ⟨_, rfl, rfl, rfl⟩
  · exact ⟨c₀, h, rfl, rfl⟩

theorem settled_setState (hc : s.cells[cell]? = some c) (k : Nat) :
    (s.setState cell c state).settled k = s.settled k := by
  unfold System.settled
  rw [System.setState, List.getElem?_set]
  split
  · next heq =>
    subst heq
    rw [if_pos (List.getElem?_eq_some_iff.1 hc).1, hc]
    rfl
  · rfl

theorem result_setState (hc : s.cells[cell]? = some c) (hempty : c.state.result = none) {k : Nat}
    {result : Except String V} (h : s.result k = some result) :
    (s.setState cell c state).result k = some result := by
  unfold System.result at h ⊢
  rw [System.setState, List.getElem?_set]
  split
  · next heq =>
    subst heq
    rw [hc] at h
    rw [Option.bind_some, hempty] at h
    cases h
  · exact h

/-- A cell without a result takes a state that names one of its callers. -/
theorem Inv.setState (h : Inv s) (hc : s.cells[cell]? = some c) (hempty : c.state.result = none)
    (hcaller : ∀ i, (state = .running i ∨ ∃ result, state = .done i result) →
      ∃ call, s.calls[i]? = some call ∧ call.cell = cell) : Inv (s.setState cell c state) where
  entry_cell key entry hentry := by
    obtain ⟨c₀, hc₀, hkey⟩ := h.entry_cell key entry hentry
    obtain ⟨c', hc', hkey', -⟩ := exists_setState state hc hc₀
    exact ⟨c', hc', hkey'.trans hkey⟩
  call_cell call hcall := by
    obtain ⟨c₀, hc₀, hkey⟩ := h.call_cell call hcall
    obtain ⟨c', hc', hkey', -⟩ := exists_setState state hc hc₀
    exact ⟨c', hc', hkey'.trans hkey⟩
  creator k c' hc' := by
    rcases getElem?_setState hc hc' with ⟨rfl, rfl⟩ | ⟨-, hold⟩
    · exact h.creator _ c hc
    · exact h.creator k c' hold
  running k c' i hc' hstate := by
    rcases getElem?_setState hc hc' with ⟨rfl, rfl⟩ | ⟨-, hold⟩
    · exact hcaller i (Or.inl hstate)
    · exact h.running k c' i hold hstate
  done k c' i result hc' hstate := by
    rcases getElem?_setState hc hc' with ⟨rfl, rfl⟩ | ⟨-, hold⟩
    · exact hcaller i (Or.inr ⟨result, hstate⟩)
    · exact h.done k c' i result hold hstate
  unfinished k c' hc' hnone := by
    rcases getElem?_setState hc hc' with ⟨rfl, rfl⟩ | ⟨-, hold⟩
    · exact h.unfinished _ c hc hempty
    · exact h.unfinished k c' hold hnone
  finalised call hcall hfinalised := by
    obtain ⟨result, hresult, hrejects⟩ := h.finalised call hcall hfinalised
    exact ⟨result, result_setState hc hempty hresult, hrejects⟩
  settled := by
    have hcount : (s.setState cell c state).settledCount = s.settledCount :=
      OrdMap.sumOf_congr fun key entry _ => by rw [settled_setState hc]
    rw [hcount]
    exact h.settled

end

/-! ## Entries -/

/-- The uses of the entries do not matter. -/
theorem Inv.touch (h : Inv s) {entries : OrdMap K CacheEntry} {clock : Nat}
    (hsame : ∀ key : K, (entries[key]?).map CacheEntry.cell =
      (s.entries[key]?).map CacheEntry.cell) : Inv { s with entries, clock } := by
  have hold : ∀ (key : K) entry, entries[key]? = some entry →
      ∃ entry', s.entries[key]? = some entry' ∧ entry'.cell = entry.cell := by
    intro key entry hentry
    have hkey := hsame key
    rw [hentry, Option.map_some] at hkey
    exact Option.map_eq_some_iff.1 hkey.symm
  exact {
    entry_cell := fun key entry hentry => by
      obtain ⟨entry', hentry', hcell⟩ := hold key entry hentry
      rw [← hcell]
      exact h.entry_cell key entry' hentry'
    call_cell := h.call_cell
    creator := h.creator
    running := h.running
    done := h.done
    unfinished := fun cell c hc hnone => by
      obtain ⟨entry, hentry, hcell⟩ := h.unfinished cell c hc hnone
      have hkey := hsame c.key
      rw [hentry, Option.map_some] at hkey
      obtain ⟨entry', hentry', hcell'⟩ := Option.map_eq_some_iff.1 hkey
      exact ⟨entry', hentry', hcell'.trans hcell⟩
    finalised := fun call hcall hfinalised => by
      obtain ⟨result, hresult, hrejects⟩ := h.finalised call hcall hfinalised
      refine ⟨result, hresult, fun hr key entry hentry => ?_⟩
      obtain ⟨entry', hentry', hcell⟩ := hold key entry hentry
      rw [← hcell]
      exact hrejects hr key entry' hentry'
    settled := by
      refine le_of_eq_of_le (OrdMap.sumOf_eq_of_share fun key => ?_) h.settled
      have hkey := hsame key
      cases hentry : entries[key]? with
      | none =>
        rw [hentry] at hkey
        rw [Option.map_eq_none_iff.1 hkey.symm]
        rfl
      | some entry =>
        obtain ⟨entry', hentry', hcell⟩ := hold key entry hentry
        rw [hentry']
        show (if s.settled entry.cell then 1 else 0) = if s.settled entry'.cell then 1 else 0
        rw [hcell] }

theorem Inv.trim (h : Inv s) {entries : OrdMap K CacheEntry}
    (ht : Trims s.finished s.entries entries) : Inv { s with entries } where
  entry_cell key entry hentry := h.entry_cell key entry (ht.kept key entry hentry)
  call_cell := h.call_cell
  creator := h.creator
  running := h.running
  done := h.done
  unfinished cell c hc hnone := by
    obtain ⟨entry, hentry, hcell⟩ := h.unfinished cell c hc hnone
    cases hkey : entries[c.key]? with
    | none =>
      have hfinished := ht.dropped c.key entry hentry hkey
      rw [hcell, System.finished, System.result, hc, Option.bind_some, hnone] at hfinished
      cases hfinished
    | some entry' =>
      have hsame := ht.kept c.key entry' hkey
      rw [hentry, Option.some.injEq] at hsame
      exact ⟨entry', rfl, hsame ▸ hcell⟩
  finalised call hcall hfinalised := by
    obtain ⟨result, hresult, hrejects⟩ := h.finalised call hcall hfinalised
    exact ⟨result, hresult, fun hr key entry hentry =>
      hrejects hr key entry (ht.kept key entry hentry)⟩
  settled := (settledCount_trim ht).trans h.settled

/-! ## A lookup -/

/-- A call joins the callers of a cell. -/
theorem Inv.join (h : Inv s) (call : Call K V) {c : Cell K V} (hc : s.cells[call.cell]? = some c)
    (hkey : c.key = call.key) (hfinalised : call.finalised = false) :
    Inv { s with calls := s.calls ++ [call] } := by
  exact {
    entry_cell := h.entry_cell
    call_cell := fun call' hcall' => by
      rcases List.mem_append.1 hcall' with hcall' | hcall'
      · exact h.call_cell call' hcall'
      · rw [List.mem_singleton.1 hcall']
        exact ⟨c, hc, hkey⟩
    creator := fun cell c' hc' => by
      obtain ⟨call', hcall', hcell⟩ := h.creator cell c' hc'
      exact ⟨call', getElem?_concat_of_some _ hcall', hcell⟩
    running := fun cell c' i hc' hstate => by
      obtain ⟨call', hcall', hcell⟩ := h.running cell c' i hc' hstate
      exact ⟨call', getElem?_concat_of_some _ hcall', hcell⟩
    done := fun cell c' i result hc' hstate => by
      obtain ⟨call', hcall', hcell⟩ := h.done cell c' i result hc' hstate
      exact ⟨call', getElem?_concat_of_some _ hcall', hcell⟩
    unfinished := h.unfinished
    finalised := fun call' hcall' hfin => by
      rcases List.mem_append.1 hcall' with hcall' | hcall'
      · exact h.finalised call' hcall' hfin
      · rw [List.mem_singleton.1 hcall', hfinalised] at hfin
        cases hfin
    settled := by
      refine le_of_eq_of_le (OrdMap.sumOf_congr fun key entry hentry => ?_) h.settled
      obtain ⟨c', hc', -⟩ := h.entry_cell key entry hentry
      obtain ⟨call', hcall', -⟩ := h.creator _ c' hc'
      unfold System.settled
      rw [hc', Option.any_some, Option.any_some, hcall', getElem?_concat_of_some _ hcall'] }

/-- The first call for a key that has no entry. -/
theorem Inv.create (h : Inv s) {key : K} (hkey : s.entries[key]? = none) (retain : V → Bool)
    (clock : Nat) : Inv { s with
      clock
      entries := s.entries.insert key { used := clock, cell := s.cells.length }
      cells := s.cells ++ [{ key, creator := s.calls.length, state := .empty }]
      calls := s.calls ++ [{ key, cell := s.cells.length, retain, finalised := false }] } := by
  have hentry : ∀ (k : K) entry, (s.entries.insert key
      { used := clock, cell := s.cells.length } : OrdMap K CacheEntry)[k]? = some entry →
      (k = key ∧ entry.cell = s.cells.length) ∨ s.entries[k]? = some entry := by
    intro k entry h
    rw [OrdMap.getElem?_insert_of_key] at h
    split at h
    · next heq =>
      cases h
      exact Or.inl ⟨heq.symm, rfl⟩
    · exact Or.inr h
  exact {
    entry_cell := fun k entry hk => by
      rcases hentry k entry hk with ⟨rfl, hcell⟩ | hold
      · rw [hcell]
        exact ⟨_, List.getElem?_concat_length, rfl⟩
      · obtain ⟨c, hc, heq⟩ := h.entry_cell k entry hold
        exact ⟨c, getElem?_concat_of_some _ hc, heq⟩
    call_cell := fun call hcall => by
      rcases List.mem_append.1 hcall with hcall | hcall
      · obtain ⟨c, hc, heq⟩ := h.call_cell call hcall
        exact ⟨c, getElem?_concat_of_some _ hc, heq⟩
      · rw [List.mem_singleton.1 hcall]
        exact ⟨_, List.getElem?_concat_length, rfl⟩
    creator := fun cell c hc => by
      rcases getElem?_concat_eq_some hc with hold | ⟨rfl, rfl⟩
      · obtain ⟨call, hcall, hcell⟩ := h.creator cell c hold
        exact ⟨call, getElem?_concat_of_some _ hcall, hcell⟩
      · exact ⟨_, List.getElem?_concat_length, rfl⟩
    running := fun cell c i hc hstate => by
      rcases getElem?_concat_eq_some hc with hold | ⟨rfl, rfl⟩
      · obtain ⟨call, hcall, hcell⟩ := h.running cell c i hold hstate
        exact ⟨call, getElem?_concat_of_some _ hcall, hcell⟩
      · cases hstate
    done := fun cell c i result hc hstate => by
      rcases getElem?_concat_eq_some hc with hold | ⟨rfl, rfl⟩
      · obtain ⟨call, hcall, hcell⟩ := h.done cell c i result hold hstate
        exact ⟨call, getElem?_concat_of_some _ hcall, hcell⟩
      · cases hstate
    unfinished := fun cell c hc hnone => by
      rcases getElem?_concat_eq_some hc with hold | ⟨rfl, rfl⟩
      · obtain ⟨entry, he, hcell⟩ := h.unfinished cell c hold hnone
        refine ⟨entry, ?_, hcell⟩
        rw [OrdMap.getElem?_insert_of_key, if_neg, he]
        rintro rfl
        rw [hkey] at he
        cases he
      · refine ⟨{ used := clock, cell := s.cells.length }, ?_, rfl⟩
        rw [OrdMap.getElem?_insert_of_key, if_pos rfl]
    finalised := fun call hcall hfin => by
      rcases List.mem_append.1 hcall with hcall | hcall
      · obtain ⟨result, hresult, hrejects⟩ := h.finalised call hcall hfin
        obtain ⟨c, hc, -⟩ := h.call_cell call hcall
        refine ⟨result, ?_, fun hr k entry hk => ?_⟩
        · rw [System.result, hc] at hresult
          rw [System.result, getElem?_concat_of_some _ hc]
          exact hresult
        · rcases hentry k entry hk with ⟨-, hcell⟩ | hold
          · have hlt := (List.getElem?_eq_some_iff.1 hc).1
            omega
          · exact hrejects hr k entry hold
      · rw [List.mem_singleton.1 hcall] at hfin
        cases hfin
    settled := by
      unfold System.settledCount
      rw [OrdMap.sumOf_insert_new _ _ _ _ hkey]
      have hnew : ∀ t : System K V, t.cells = s.cells ++ [{ key, creator := s.calls.length, state := .empty }] →
          t.calls = s.calls ++ [{ key, cell := s.cells.length, retain, finalised := false }] →
          t.settled s.cells.length = false := by
        intro t hcells hcalls
        rw [System.settled, hcells, hcalls, List.getElem?_concat_length, Option.any_some,
          List.getElem?_concat_length]
        rfl
      rw [hnew _ rfl rfl, if_neg Bool.false_ne_true, add_zero]
      refine le_of_eq_of_le (OrdMap.sumOf_congr fun k entry hk => ?_) h.settled
      obtain ⟨c, hc, -⟩ := h.entry_cell k entry hk
      obtain ⟨call, hcall, -⟩ := h.creator _ c hc
      unfold System.settled
      rw [hc, getElem?_concat_of_some _ hc, Option.any_some, Option.any_some, hcall,
        getElem?_concat_of_some _ hcall] }

theorem Inv.lookup (h : Inv s) (key : K) (retain : V → Bool) : Inv (s.lookup key retain) := by
  have htrim := h.trim (trims_makeRoom s key)
  unfold System.lookup
  dsimp only
  cases hkey : (s.makeRoom key)[key]? with
  | none => exact htrim.create hkey retain (s.clock + 1)
  | some entry =>
    obtain ⟨c, hc, hck⟩ := htrim.entry_cell key entry hkey
    have hjoin := htrim.join { key, cell := entry.cell, retain, finalised := false }
      hc hck rfl
    refine hjoin.touch fun k => ?_
    rw [OrdMap.getElem?_insert_of_key]
    split
    · next heq =>
      subst heq
      rw [hkey]
      rfl
    · rfl

/-! ## A finalisation -/

section

variable {call : Call K V} {result : Except String V}

theorem trims_settle (h : s.result call.cell = some result) :
    Trims s.finished s.entries (s.settle call result) := by
  have hfinished : s.finished call.cell = true := by
    rw [System.finished, h]
    rfl
  cases result with
  | error e => exact trims_dropOwn hfinished
  | ok value =>
    unfold System.settle
    dsimp only
    split
    · exact (trims_dropOwn hfinished).trans (trims_shrink _ _ _ _)
    · exact trims_shrink _ _ _ _

/-- No entry has the cell of a call that rejects it. -/
theorem not_mem_dropOwn (h : Inv s) (hcall : call ∈ s.calls) {key : K} {entry : CacheEntry}
    (hentry : (s.dropOwn call)[key]? = some entry) : entry.cell ≠ call.cell := by
  intro heq
  -- an entry of the cell has the key of the call
  have hkey : ∀ (k : K) e, s.entries[k]? = some e → e.cell = call.cell → k = call.key := by
    intro k e he hcell
    obtain ⟨c, hc, hck⟩ := h.entry_cell k e he
    obtain ⟨c', hc', hck'⟩ := h.call_cell call hcall
    rw [hcell, hc'] at hc
    cases hc
    exact hck.symm.trans hck'
  unfold System.dropOwn at hentry
  split at hentry
  · rw [Std.ExtTreeMap.getElem?_erase] at hentry
    split at hentry
    · cases hentry
    · next hne =>
      exact hne (Std.compare_eq_iff_eq.2 (hkey key entry hentry heq).symm)
  · next hany =>
    have hk := hkey key entry hentry heq
    subst hk
    rw [hentry, Option.any_some, beq_iff_eq] at hany
    exact hany heq

theorem not_mem_settle (h : Inv s) (hcall : call ∈ s.calls) (hrejects : call.Rejects result)
    {key : K} {entry : CacheEntry} (hentry : (s.settle call result)[key]? = some entry) :
    entry.cell ≠ call.cell := by
  cases result with
  | error e => exact not_mem_dropOwn h hcall hentry
  | ok value =>
    have hretain : call.retain value = false := hrejects
    unfold System.settle at hentry
    dsimp only at hentry
    rw [hretain, if_pos (by rfl)] at hentry
    exact not_mem_dropOwn h hcall ((trims_shrink s.finished _ _ _).kept key entry hentry)

/-- A finalisation settles the cell of its call only. -/
theorem settled_finalise (h : Inv s) {i : Nat} (hcall : s.calls[i]? = some call) {cell : Nat}
    (hne : cell ≠ call.cell) (entries : OrdMap K CacheEntry) :
    ({ s with
        entries
        calls := s.calls.set i { call with finalised := true } } : System K V).settled cell =
      s.settled cell := by
  unfold System.settled
  dsimp only
  cases hc : s.cells[cell]? with
  | none => rfl
  | some c =>
    rw [Option.any_some, Option.any_some, List.getElem?_set]
    split
    · next heq =>
      obtain ⟨call', hcall', hcell⟩ := h.creator cell c hc
      rw [← heq, hcall] at hcall'
      cases hcall'
      exact absurd hcell.symm hne
    · rfl

theorem finished_of_settled (h : Inv s) {cell : Nat} (hsettled : s.settled cell = true) :
    s.finished cell = true := by
  obtain ⟨c, hc, hany⟩ := (Option.any_eq_true _ _).1 hsettled
  obtain ⟨call, hcall, hfin⟩ := (Option.any_eq_true _ _).1 hany
  obtain ⟨call', hcall', hcell⟩ := h.creator cell c hc
  rw [hcall, Option.some.injEq] at hcall'
  subst hcall'
  obtain ⟨result, hresult, -⟩ := h.finalised call (List.mem_of_getElem? hcall) hfin
  rw [← hcell, System.finished, hresult]
  rfl

/-- What a finalisation leaves has room, or nothing more is settled. -/
theorem settle_bound (h : Inv s) {i : Nat} (hcall : s.calls[i]? = some call)
    (hresult : s.result call.cell = some result) :
    ({ s with
        entries := s.settle call result
        calls := s.calls.set i { call with finalised := true } } : System K V).settledCount ≤
      s.capacity := by
  have hin : call ∈ s.calls := List.mem_of_getElem? hcall
  cases result with
  | error e =>
    refine (OrdMap.sumOf_le_of_share fun key => ?_).trans h.settled
    cases hentry : (s.dropOwn call)[key]? with
    | none =>
      rw [System.settle, hentry]
      exact Nat.zero_le _
    | some entry =>
      rw [System.settle, hentry, (trims_settle hresult).kept key entry hentry, Option.elim_some,
        Option.elim_some, settled_finalise h hcall (not_mem_dropOwn h hin hentry)]
  | ok value =>
    have hdone := shrink_done s.finished s.capacity _
      (if !call.retain value then s.dropOwn call else s.entries) le_rfl
    rcases hdone with hroom | hnone
    · refine le_trans ?_ hroom
      rw [← OrdMap.sumOf_one]
      refine OrdMap.sumOf_le_of_share fun key => ?_
      show Option.elim (s.settle call (.ok value))[key]? 0 _ ≤
        Option.elim (s.settle call (.ok value))[key]? 0 _
      cases (s.settle call (.ok value))[key]? with
      | none => exact le_rfl
      | some entry =>
        rw [Option.elim_some, Option.elim_some]
        split
        · exact le_rfl
        · exact Nat.zero_le _
    · refine le_of_eq_of_le (OrdMap.sumOf_eq_zero fun key entry hentry => ?_) (Nat.zero_le _)
      have hunfinished : s.finished entry.cell = false := hnone key entry hentry
      rw [if_neg]
      intro hsettled
      by_cases heq : entry.cell = call.cell
      · rw [heq, System.finished, hresult] at hunfinished
        cases hunfinished
      · rw [settled_finalise h hcall heq] at hsettled
        rw [finished_of_settled h hsettled] at hunfinished
        cases hunfinished

theorem Inv.finalise (h : Inv s) {i : Nat} (hcall : s.calls[i]? = some call)
    (hresult : s.result call.cell = some result) : Inv { s with
      entries := s.settle call result
      calls := s.calls.set i { call with finalised := true } } := by
  have ht := trims_settle hresult
  have htrim := h.trim ht
  have hlt := (List.getElem?_eq_some_iff.1 hcall).1
  have hcaller : ∀ (j : Nat) (cell : Nat),
      (∃ call' : Call K V, s.calls[j]? = some call' ∧ call'.cell = cell) →
      ∃ call' : Call K V, (s.calls.set i { call with finalised := true })[j]? = some call' ∧
        call'.cell = cell := by
    rintro j cell ⟨call', hcall', hcell⟩
    rw [List.getElem?_set]
    split
    · next heq =>
      subst heq
      rw [hcall] at hcall'
      cases hcall'
      exact ⟨_, rfl, hcell⟩
    · exact ⟨call', hcall', hcell⟩
  have hmem : ∀ call' ∈ s.calls.set i { call with finalised := true },
      call' ∈ s.calls ∨ call' = { call with finalised := true } :=
    fun call' h' => List.mem_or_eq_of_mem_set h'
  have hin : call ∈ s.calls := List.mem_of_getElem? hcall
  exact {
    entry_cell := htrim.entry_cell
    call_cell := fun call' hcall' => by
      rcases hmem call' hcall' with hcall' | rfl
      · exact h.call_cell call' hcall'
      · exact h.call_cell call hin
    creator := fun cell c hc => hcaller _ _ (h.creator cell c hc)
    running := fun cell c j hc hstate => hcaller _ _ (h.running cell c j hc hstate)
    done := fun cell c j result hc hstate => hcaller _ _ (h.done cell c j result hc hstate)
    unfinished := htrim.unfinished
    finalised := fun call' hcall' hfin => by
      rcases hmem call' hcall' with hcall' | rfl
      · exact htrim.finalised call' hcall' hfin
      · exact ⟨result, hresult, fun hr key entry hentry => not_mem_settle h hin hr hentry⟩
    settled := settle_bound h hcall hresult }

end

/-! ## Runs -/

theorem Inv.get (h : Inv s) (key : K) : Inv (s.get key).2 := by
  unfold System.get
  cases hentry : s.entries[key]? with
  | none => exact h
  | some entry =>
    dsimp only
    split
    · refine h.touch fun k => ?_
      rw [OrdMap.getElem?_insert_of_key]
      split
      · next heq =>
        subst heq
        rw [hentry]
        rfl
      · rfl
    · exact h

/-- What a step does. -/
inductive Stepped (s : System K V) : Action K V → System K V → Prop
  | lookup (key : K) (retain : V → Bool) : Stepped s (.lookup key retain) (s.lookup key retain)
  | start {i : Nat} {call : Call K V} {c : Cell K V} (hcall : s.calls[i]? = some call)
    (hc : s.cells[call.cell]? = some c) (hstate : c.state = .empty) :
    Stepped s (.start i) (s.setState call.cell c (.running i))
  | finish {i : Nat} {call : Call K V} {c : Cell K V} (result : Except String V)
    (hcall : s.calls[i]? = some call) (hc : s.cells[call.cell]? = some c)
    (hstate : c.state = .running i) :
    Stepped s (.finish i result) (s.setState call.cell c (.done i result))
  | finalise {i : Nat} {call : Call K V} {result : Except String V}
    (hcall : s.calls[i]? = some call) (hresult : s.result call.cell = some result) :
    Stepped s (.finalise i) { s with
      entries := s.settle call result
      calls := s.calls.set i { call with finalised := true } }
  | get (key : K) : Stepped s (.get key) (s.get key).2

theorem stepped {a : Action K V} (h : s.step a = some s') : Stepped s a s' := by
  cases a with
  | lookup key retain =>
    cases h
    exact .lookup key retain
  | start i =>
    obtain ⟨call, hcall, h⟩ := Option.bind_eq_some_iff.1 h
    obtain ⟨c, hc, h⟩ := Option.bind_eq_some_iff.1 h
    split at h
    · next hstate =>
      cases h
      exact .start hcall hc hstate
    · cases h
  | finish i result =>
    obtain ⟨call, hcall, h⟩ := Option.bind_eq_some_iff.1 h
    obtain ⟨c, hc, h⟩ := Option.bind_eq_some_iff.1 h
    split at h
    · next j hstate =>
      split at h
      · next heq =>
        cases h
        subst heq
        exact .finish result hcall hc hstate
      · cases h
    · cases h
  | finalise i =>
    obtain ⟨call, hcall, h⟩ := Option.bind_eq_some_iff.1 h
    obtain ⟨result, hresult, h⟩ := Option.bind_eq_some_iff.1 h
    split at h
    · cases h
    · cases h
      exact .finalise hcall hresult
  | get key =>
    cases h
    exact .get key

theorem Inv.step (h : Inv s) {a : Action K V} (hs : Stepped s a s') : Inv s' := by
  cases hs with
  | lookup key retain => exact h.lookup key retain
  | start hcall hc hstate =>
    refine h.setState hc (by rw [hstate]; rfl) fun j hj => ?_
    rcases hj with hj | ⟨result, hj⟩
    · cases hj
      exact ⟨_, hcall, rfl⟩
    · cases hj
  | finish result hcall hc hstate =>
    refine h.setState hc (by rw [hstate]; rfl) fun j hj => ?_
    rcases hj with hj | ⟨result, hj⟩
    · cases hj
    · cases hj
      exact ⟨_, hcall, rfl⟩
  | finalise hcall hresult => exact h.finalise hcall hresult
  | get key => exact h.get key

theorem capacity_step {a : Action K V} (hs : Stepped s a s') : s'.capacity = s.capacity := by
  cases hs with
  | lookup key retain =>
    unfold System.lookup
    dsimp only
    split <;> rfl
  | start => rfl
  | finish => rfl
  | finalise => rfl
  | get key =>
    unfold System.get
    split
    · rfl
    · split <;> rfl

/-- Any number of steps of any calls. -/
def Reaches : System K V → System K V → Prop :=
  Relation.ReflTransGen fun s s' => ∃ a, s.step a = some s'

theorem Inv.reaches (h : Inv s) (hs : Reaches s s') : Inv s' ∧ s'.capacity = s.capacity := by
  induction hs with
  | refl => exact ⟨h, rfl⟩
  | tail _ hstep ih =>
    obtain ⟨a, ha⟩ := hstep
    exact ⟨ih.1.step (stepped ha), (capacity_step (stepped ha)).trans ih.2⟩

/-- A cell that is out of the cache, and that none of the calls from `first` on has. -/
structure Gone (cell first : Nat) (s : System K V) : Prop where
  known : cell < s.cells.length
  earlier : first ≤ s.calls.length
  out : ∀ (key : K) (entry : CacheEntry), s.entries[key]? = some entry → entry.cell ≠ cell
  later : ∀ (j : Nat) (call : Call K V), first ≤ j → s.calls[j]? = some call → call.cell ≠ cell

theorem Gone.step {cell first : Nat} (h : Gone cell first s) {a : Action K V}
    (hs : Stepped s a s') : Gone cell first s' := by
  cases hs with
  | lookup key retain =>
    have hroom := (trims_makeRoom s key).kept
    unfold System.lookup
    dsimp only
    cases hkey : (s.makeRoom key)[key]? with
    | none =>
      refine ⟨?_, ?_, fun k entry hentry => ?_, fun j call hj hcall => ?_⟩
      · rw [List.length_append]
        exact Nat.lt_add_right _ h.known
      · rw [List.length_append]
        exact Nat.le_add_right_of_le h.earlier
      · rw [OrdMap.getElem?_insert_of_key] at hentry
        split at hentry
        · cases hentry
          exact h.known.ne'
        · exact h.out k entry (hroom k entry hentry)
      · rcases getElem?_concat_eq_some hcall with hold | ⟨rfl, rfl⟩
        · exact h.later j call hj hold
        · exact h.known.ne'
    | some entry =>
      have hout := h.out key entry (hroom key entry hkey)
      refine ⟨h.known, ?_, fun k entry' hentry => ?_, fun j call hj hcall => ?_⟩
      · rw [List.length_append]
        exact Nat.le_add_right_of_le h.earlier
      · rw [OrdMap.getElem?_insert_of_key] at hentry
        split at hentry
        · cases hentry
          exact hout
        · exact h.out k entry' (hroom k entry' hentry)
      · rcases getElem?_concat_eq_some hcall with hold | ⟨rfl, rfl⟩
        · exact h.later j call hj hold
        · exact hout
  | start hcall hc hstate =>
    exact ⟨by simpa [System.setState] using h.known, h.earlier, h.out, h.later⟩
  | finish result hcall hc hstate =>
    exact ⟨by simpa [System.setState] using h.known, h.earlier, h.out, h.later⟩
  | @finalise i call result hcall hresult =>
    refine ⟨h.known, by simpa using h.earlier, fun k entry hentry => ?_, fun j call' hj hcall' => ?_⟩
    · exact h.out k entry ((trims_settle hresult).kept k entry hentry)
    · rw [List.getElem?_set] at hcall'
      split at hcall'
      · next heq =>
        subst heq
        rw [if_pos (List.getElem?_eq_some_iff.1 hcall).1] at hcall'
        cases hcall'
        exact h.later i call hj hcall
      · exact h.later j call' hj hcall'
  | get key =>
    unfold System.get
    cases hentry : s.entries[key]? with
    | none => exact h
    | some entry =>
      dsimp only
      split
      · refine ⟨h.known, h.earlier, fun k entry' hk => ?_, h.later⟩
        rw [OrdMap.getElem?_insert_of_key] at hk
        split at hk
        · cases hk
          exact h.out key entry hentry
        · exact h.out k entry' hk
      · exact h

theorem Gone.reaches {cell first : Nat} (h : Gone cell first s) (hs : Reaches s s') :
    Gone cell first s' := by
  induction hs with
  | refl => exact h
  | tail _ hstep ih =>
    obtain ⟨a, ha⟩ := hstep
    exact ih.step (stepped ha)

/-! ## The laws of the cache -/

/-- A cell whose result came from a call for the key. -/
def System.ComputedFor (s : System K V) (key : K) (cell : Nat) (result : Except String V) : Prop :=
  ∃ c j computer, s.cells[cell]? = some c ∧ c.state = .done j result ∧
    s.calls[j]? = some computer ∧ computer.key = key

/-- What a call returns once it is finalised. -/
def System.returned (s : System K V) (i : Nat) : Option (Except String V) :=
  (s.calls[i]?).bind fun call => if call.finalised then s.result call.cell else none

structure Laws (capacity : Nat) (s : System K V) : Prop where
  one_computation : ∀ (cell cell' : Nat) (c c' : Cell K V) i j, s.cells[cell]? = some c →
    s.cells[cell']? = some c' → c.state = .running i → c'.state = .running j → c.key = c'.key →
      cell = cell' ∧ i = j
  returns : ∀ i result, s.returned i = some result → ∃ call : Call K V, s.calls[i]? = some call ∧
    s.ComputedFor call.key call.cell result
  reads : ∀ key value, (s.get key).1 = some value → ∃ cell, s.ComputedFor key cell (.ok value)
  /-- A rejected result is gone for the calls that look its key up later. -/
  rejected : ∀ call ∈ s.calls, ∀ result, call.finalised = true → s.result call.cell = some result →
    call.Rejects result → ∀ s', Reaches s s' →
      (∀ (j : Nat) (call' : Call K V), s.calls.length ≤ j → s'.calls[j]? = some call' →
        call'.cell ≠ call.cell) ∧
      ∀ key value, (s'.get key).1 = some value → ∃ entry : CacheEntry,
        s'.entries[key]? = some entry ∧ entry.cell ≠ call.cell ∧
          s'.result entry.cell = some (.ok value)
  /-- What else a rejecting call removes, it evicts from a cache that is too large. -/
  removes : ∀ (i : Nat) (call : Call K V) result s', s.calls[i]? = some call →
    s.result call.cell = some result → call.Rejects result → s.step (.finalise i) = some s' →
      ∀ (key : K) (entry : CacheEntry), s.entries[key]? = some entry → entry.cell ≠ call.cell →
        s'.entries[key]? = some entry ∨
          ((∃ value, result = .ok value) ∧ capacity < (s.dropOwn call).size ∧
            s.finished entry.cell = true)
  bounded : (∀ call ∈ s.calls, call.finalised = true) → s.entries.size ≤ capacity ∧
    ∀ (key : K) (entry : CacheEntry), s.entries[key]? = some entry →
      ∃ value, s.result entry.cell = some (.ok value) ∧
        ∀ call ∈ s.calls, call.cell = entry.cell → call.retain value = true

theorem Inv.computedFor (h : Inv s) {cell : Nat} {c : Cell K V} {result : Except String V}
    (hc : s.cells[cell]? = some c) (hresult : s.result cell = some result) :
    s.ComputedFor c.key cell result := by
  rw [System.result, hc, Option.bind_some] at hresult
  cases hstate : c.state with
  | empty =>
    rw [hstate] at hresult
    cases hresult
  | running i =>
    rw [hstate] at hresult
    cases hresult
  | done j result' =>
    rw [hstate] at hresult
    cases hresult
    obtain ⟨computer, hcomputer, hcell⟩ := h.done cell c j result hc hstate
    obtain ⟨c', hc', hkey⟩ := h.call_cell computer (List.mem_of_getElem? hcomputer)
    rw [hcell, hc] at hc'
    cases hc'
    exact ⟨c, j, computer, hc, hstate, hcomputer, hkey.symm⟩

/-- `get` reads the result of the entry. -/
theorem get_eq_some {key : K} {value : V} (h : (s.get key).1 = some value) :
    ∃ entry, s.entries[key]? = some entry ∧ s.result entry.cell = some (.ok value) := by
  unfold System.get at h
  cases hentry : s.entries[key]? with
  | none =>
    rw [hentry] at h
    cases h
  | some entry =>
    rw [hentry] at h
    dsimp only at h
    split at h
    · next v hresult =>
      cases h
      exact ⟨entry, rfl, hresult⟩
    · cases h

theorem Inv.one_computation (h : Inv s) {cell cell' : Nat} {c c' : Cell K V} {i j : Nat}
    (hc : s.cells[cell]? = some c) (hc' : s.cells[cell']? = some c') (hi : c.state = .running i)
    (hj : c'.state = .running j) (hkey : c.key = c'.key) : cell = cell' ∧ i = j := by
  obtain ⟨entry, hentry, hcell⟩ := h.unfinished cell c hc (by rw [hi]; rfl)
  obtain ⟨entry', hentry', hcell'⟩ := h.unfinished cell' c' hc' (by rw [hj]; rfl)
  rw [hkey, hentry'] at hentry
  cases hentry
  have heq : cell = cell' := hcell.symm.trans hcell'
  subst heq
  rw [hc] at hc'
  cases hc'
  rw [hi] at hj
  exact ⟨rfl, CellState.running.inj hj⟩

theorem Inv.rejected (h : Inv s) {call : Call K V} (hcall : call ∈ s.calls)
    {result : Except String V} (hfin : call.finalised = true)
    (hresult : s.result call.cell = some result) (hrejects : call.Rejects result) :
    Gone call.cell s.calls.length s := by
  obtain ⟨result', hresult', hout⟩ := h.finalised call hcall hfin
  rw [hresult, Option.some.injEq] at hresult'
  subst hresult'
  obtain ⟨c, hc, -⟩ := h.call_cell call hcall
  refine ⟨(List.getElem?_eq_some_iff.1 hc).1, le_rfl, hout hrejects, fun j call' hj hcall' => ?_⟩
  have hlt := (List.getElem?_eq_some_iff.1 hcall').1
  omega

theorem removes_of_finalise {i : Nat} {call : Call K V} {result : Except String V}
    (hcall : s.calls[i]? = some call) (hresult : s.result call.cell = some result)
    (hrejects : call.Rejects result) (hs : s.step (.finalise i) = some s') {key : K}
    {entry : CacheEntry} (hentry : s.entries[key]? = some entry)
    (hne : entry.cell ≠ call.cell) : s'.entries[key]? = some entry ∨
      ((∃ value, result = .ok value) ∧ s.capacity < (s.dropOwn call).size ∧
        s.finished entry.cell = true) := by
  obtain ⟨call', hcall', hs⟩ := Option.bind_eq_some_iff.1 hs
  rw [hcall] at hcall'
  cases hcall'
  obtain ⟨result', hresult', hs⟩ := Option.bind_eq_some_iff.1 hs
  rw [hresult] at hresult'
  cases hresult'
  split at hs
  · cases hs
  · cases hs
    have hown := getElem?_dropOwn s call hentry hne
    cases result with
    | error e => exact Or.inl hown
    | ok value =>
      have hretain : call.retain value = false := hrejects
      have hsettle : s.settle call (.ok value) =
          shrink s.finished s.capacity (s.dropOwn call).size (s.dropOwn call) := by
        unfold System.settle
        dsimp only
        rw [hretain, if_pos (by rfl)]
      show (s.settle call (.ok value))[key]? = _ ∨ _
      rw [hsettle]
      by_cases hsize : s.capacity < (s.dropOwn call).size
      · have ht := trims_shrink s.finished s.capacity (s.dropOwn call).size
          (s.dropOwn call)
        cases hafter : (shrink s.finished s.capacity (s.dropOwn call).size (s.dropOwn call))[key]? with
        | none => exact Or.inr ⟨⟨value, rfl⟩, hsize, ht.dropped key entry hown hafter⟩
        | some entry' =>
          rw [ht.kept key entry' hafter] at hown
          exact Or.inl hown
      · rw [shrink_of_le _ (not_lt.1 hsize)]
        exact Or.inl hown

theorem Inv.bounded (h : Inv s) (hall : ∀ call ∈ s.calls, call.finalised = true) :
    s.entries.size ≤ s.capacity ∧ ∀ (key : K) (entry : CacheEntry), s.entries[key]? = some entry →
      ∃ value, s.result entry.cell = some (.ok value) ∧
        ∀ call ∈ s.calls, call.cell = entry.cell → call.retain value = true := by
  -- the call that made the cell of an entry is finalised
  have hmaker : ∀ (key : K) (entry : CacheEntry), s.entries[key]? = some entry →
      s.settled entry.cell = true ∧ ∃ call ∈ s.calls, call.cell = entry.cell := by
    intro key entry hentry
    obtain ⟨c, hc, -⟩ := h.entry_cell key entry hentry
    obtain ⟨call, hcall, hcell⟩ := h.creator _ c hc
    have hmem := List.mem_of_getElem? hcall
    refine ⟨?_, call, hmem, hcell⟩
    rw [System.settled, hc, Option.any_some, hcall, Option.any_some]
    exact hall call hmem
  constructor
  · refine le_of_eq_of_le ?_ h.settled
    rw [← OrdMap.sumOf_one]
    refine OrdMap.sumOf_congr fun key entry hentry => ?_
    rw [if_pos (hmaker key entry hentry).1]
  · intro key entry hentry
    obtain ⟨-, maker, hmaker, hcell⟩ := hmaker key entry hentry
    obtain ⟨result, hresult, -⟩ := h.finalised maker hmaker (hall maker hmaker)
    have haccepts : ∀ call ∈ s.calls, call.cell = entry.cell → ¬ call.Rejects result := by
      intro call hcall hsame hr
      obtain ⟨result', hresult', hout⟩ := h.finalised call hcall (hall call hcall)
      rw [hsame, ← hcell, hresult, Option.some.injEq] at hresult'
      subst hresult'
      exact hout hr key entry hentry hsame.symm
    rw [hcell] at hresult
    cases result with
    | error e => exact absurd trivial (haccepts maker hmaker hcell)
    | ok value =>
      refine ⟨value, hresult, fun call hcall hsame => ?_⟩
      exact Bool.eq_true_of_not_eq_false (haccepts call hcall hsame)

/-- **The query cache coalesces, lets no rejected result out again and returns to its
bound**, in every state that any calls reach. -/
theorem queryCache_laws {capacity : Nat} (h : Reaches (System.new capacity) s) :
    Laws capacity s := by
  obtain ⟨hinv, hcapacity⟩ := (inv_new capacity).reaches h
  have hcap : s.capacity = capacity := hcapacity
  exact {
    one_computation := fun _ _ _ _ _ _ hc hc' hi hj hkey =>
      hinv.one_computation hc hc' hi hj hkey
    returns := fun i result hreturned => by
      obtain ⟨call, hcall, hresult⟩ := Option.bind_eq_some_iff.1 hreturned
      split at hresult
      · obtain ⟨c, hc, hkey⟩ := hinv.call_cell call (List.mem_of_getElem? hcall)
        exact ⟨call, hcall, hkey ▸ hinv.computedFor hc hresult⟩
      · cases hresult
    reads := fun key value hvalue => by
      obtain ⟨entry, hentry, hresult⟩ := get_eq_some hvalue
      obtain ⟨c, hc, hkey⟩ := hinv.entry_cell key entry hentry
      rw [← hkey]
      exact ⟨entry.cell, hinv.computedFor hc hresult⟩
    rejected := fun call hcall result hfin hresult hrejects s' hs' => by
      have hgone := (hinv.rejected hcall hfin hresult hrejects).reaches hs'
      refine ⟨hgone.later, fun key value hvalue => ?_⟩
      obtain ⟨entry, hentry, hentryResult⟩ := get_eq_some hvalue
      exact ⟨entry, hentry, hgone.out key entry hentry, hentryResult⟩
    removes := fun i call result s' hcall hresult hrejects hs' key entry hentry hne => by
      rw [← hcap]
      exact removes_of_finalise hcall hresult hrejects hs' hentry hne
    bounded := fun hall => by
      rw [← hcap]
      exact hinv.bounded hall }

/-! ## Sample runs -/

/-- The steps one after the other. -/
def System.run (s : System K V) (actions : List (Action K V)) : Option (System K V) :=
  actions.foldlM System.step s

theorem reaches_of_run {actions : List (Action K V)} (h : s.run actions = some s') :
    Reaches s s' := by
  induction actions generalizing s with
  | nil =>
    cases h
    exact Relation.ReflTransGen.refl
  | cons a actions ih =>
    obtain ⟨next, hnext, hrest⟩ := Option.bind_eq_some_iff.1 h
    exact Relation.ReflTransGen.head ⟨a, hnext⟩ (ih hrest)

/-- Two callers refuse the result of a key; a third one computes it again, while a fourth
key makes the cache too large. -/
def sampleActions : List (Action Nat Nat) :=
  [.lookup 0 fun _ => false, .lookup 0 fun _ => false, .start 0, .finish 0 (.ok 7), .finalise 1,
    .lookup 0 fun _ => true, .lookup 1 fun _ => true, .start 2, .finish 2 (.ok 8)]

/-- The second refusal evicts the entry that was made after the first one. -/
theorem queryCache_removes_newer :
    ∃ s s' : System Nat Nat, Reaches (System.new 1) s ∧ s.step (.finalise 0) = some s' ∧
      (∃ call : Call Nat Nat, s.calls[0]? = some call ∧ call.key = 0 ∧
        s.result call.cell = some (.ok 7) ∧ call.Rejects (.ok 7) ∧
        ∃ entry : CacheEntry, s.entries[0]? = some entry ∧ call.cell < entry.cell) ∧
      s'.entries[0]? = none := by
  have hsome : (((System.new 1).run sampleActions).any fun s =>
      ((s.step (.finalise 0)).any fun s' => !s'.entries.contains 0) &&
      (s.calls[0]?).any fun call => call.key == 0 && call.cell == 0 &&
        (s.result call.cell).any (fun r => r.toOption == some 7) && !call.retain 7 &&
        (s.entries[0]?).any fun entry => entry.cell == 1) = true := by
    decide +kernel
  obtain ⟨s, hs, h⟩ := (Option.any_eq_true _ _).1 hsome
  rw [Bool.and_eq_true] at h
  obtain ⟨s', hs', hout⟩ := (Option.any_eq_true _ _).1 h.1
  obtain ⟨call, hcall, h⟩ := (Option.any_eq_true _ _).1 h.2
  simp only [Bool.and_eq_true, beq_iff_eq, Bool.not_eq_true'] at h
  obtain ⟨⟨⟨⟨hkey, hcell⟩, hresult⟩, hretain⟩, hentry⟩ := h
  obtain ⟨result, hresult, hvalue⟩ := (Option.any_eq_true _ _).1 hresult
  obtain ⟨entry, hentry, hnewer⟩ := (Option.any_eq_true _ _).1 hentry
  rw [beq_iff_eq] at hvalue hnewer
  have hok : result = .ok 7 := Check.toOption_eq_some.1 hvalue
  refine ⟨s, s', reaches_of_run hs, hs', ⟨call, hcall, hkey, ?_, hretain, entry, hentry, ?_⟩, ?_⟩
  · rw [hresult, hok]
  · omega
  · rw [Bool.not_eq_true', Std.ExtTreeMap.contains_eq_isSome_getElem?] at hout
    cases hget : s'.entries[0]? with
    | none => rfl
    | some e =>
      rw [hget] at hout
      cases hout

/-- Once every call is through, one retained entry is left. -/
theorem queryCache_laws_through :
    ∃ s : System Nat Nat, (System.new 1).run (sampleActions ++
        [.finalise 0, .finalise 2, .start 3, .finish 3 (.ok 9), .finalise 3]) = some s ∧
      Laws 1 s ∧ s.entries.size = 1 := by
  have hsome : (((System.new 1).run (sampleActions ++
      [.finalise 0, .finalise 2, .start 3, .finish 3 (.ok 9), .finalise 3])).any
      fun s => s.entries.size == 1) = true := by
    decide +kernel
  obtain ⟨s, hs, hsize⟩ := (Option.any_eq_true _ _).1 hsome
  exact ⟨s, hs, queryCache_laws (reaches_of_run hs), beq_iff_eq.1 hsize⟩

end CtaManager.Analysis
