import CtaManager.Library.OrdMapRange
import CtaManager.Library.RunningFold
import CtaManager.Theoretical.Targets

/-!
What is in the index of archived targets.

What a message adds depends on the targets published last and on nothing else of the cache
(`messageDeltas`); so the deltas of a log are the same from every state (`logDeltas`), and the
cache that has folded a log has them appended (`foldUntil_ingestTarget`).  The index of a market
says where its deltas stand and what they sum up to (`Indexed`).
-/

namespace CtaManager.Theoretical

open Check Archive RunningFold

/-- The targets published last, by binding. -/
abbrev Latest (F : Type) := OrdMap BindingKey (LatestTargets F)

section

variable {F : Type} [F64 F] [Text.Unicode]

/-! ## The deltas of a log -/

/-- The deltas of an account, and the targets published then. -/
def accountDeltas (config : List TargetSource) (message : TargetUpdate F) (latest : Latest F)
    (account : TargetAccount F) : Except TargetError (List (VirtualDelta F) × Latest F) :=
  match enabledSource config account.sourceId with
  | none => .ok ([], latest)
  | some source => do
    let next ← nextTargets source message account
    let previous := latest[publishedBinding account]?
    let changes := if targetPositionsChanged previous next then targetDeltas previous next else []
    let deltas ← changes.mapM fun change => archivedDelta source message account change.1 change.2
    return (deltas, latest.insert (publishedBinding account) next)

def messageDeltas (config : List TargetSource) (latest : Latest F) (message : TargetUpdate F) :
    Except TargetError (List (VirtualDelta F) × Latest F) :=
  gather (accountDeltas config message) latest message.publishedAccounts

def logDeltas (config : List TargetSource) (latest : Latest F) (messages : List (TargetUpdate F)) :
    Except TargetError (List (VirtualDelta F) × Latest F) :=
  gather (messageDeltas config) latest messages

/-! ## Ingestion appends them -/

/-- The cache with more deltas. -/
def TargetCacheState.add (state : TargetCacheState F) (added : List (VirtualDelta F) × Latest F) :
    TargetCacheState F :=
  { added.1.foldl TargetCacheState.pushDelta state with latest := added.2 }

omit [Text.Unicode] in
theorem foldl_pushDelta_deltas (deltas : List (VirtualDelta F)) (state : TargetCacheState F) :
    (deltas.foldl TargetCacheState.pushDelta state).deltas = state.deltas ++ deltas := by
  induction deltas generalizing state with
  | nil => exact (List.append_nil _).symm
  | cons delta deltas ih =>
    rw [List.foldl_cons, ih]
    exact (List.append_cons state.deltas delta deltas).symm

omit [Text.Unicode] in
theorem foldl_pushDelta_latest (deltas : List (VirtualDelta F)) (state : TargetCacheState F) :
    (deltas.foldl TargetCacheState.pushDelta state).latest = state.latest := by
  induction deltas generalizing state with
  | nil => rfl
  | cons delta deltas ih => exact ih (state.pushDelta delta)

omit [Text.Unicode] in
/-- Appending does not look at the targets published last. -/
theorem foldl_pushDelta_withLatest (deltas : List (VirtualDelta F)) (state : TargetCacheState F)
    (latest : Latest F) :
    deltas.foldl TargetCacheState.pushDelta { state with latest } =
      { deltas.foldl TargetCacheState.pushDelta state with latest } := by
  induction deltas generalizing state with
  | nil => rfl
  | cons delta deltas ih => exact ih (state.pushDelta delta)

omit [Text.Unicode] in
theorem foldl_pushDelta_withCursor (deltas : List (VirtualDelta F)) (state : TargetCacheState F)
    (cursor : Option SeqKey) :
    deltas.foldl TargetCacheState.pushDelta { state with cursor } =
      { deltas.foldl TargetCacheState.pushDelta state with cursor } := by
  induction deltas generalizing state with
  | nil => rfl
  | cons delta deltas ih => exact ih (state.pushDelta delta)

omit [Text.Unicode] in
@[simp] theorem TargetCacheState.add_deltas (state : TargetCacheState F)
    (added : List (VirtualDelta F) × Latest F) :
    (state.add added).deltas = state.deltas ++ added.1 := foldl_pushDelta_deltas added.1 state

omit [Text.Unicode] in
@[simp] theorem TargetCacheState.add_latest (state : TargetCacheState F)
    (added : List (VirtualDelta F) × Latest F) : (state.add added).latest = added.2 := rfl

omit [Text.Unicode] in
theorem TargetCacheState.add_nil (state : TargetCacheState F) :
    state.add ([], state.latest) = state := rfl

omit [Text.Unicode] in
theorem TargetCacheState.add_with (state : TargetCacheState F) (cursor : Option SeqKey)
    (added : List (VirtualDelta F) × Latest F) :
    ({ state with cursor } : TargetCacheState F).add added = { state.add added with cursor } := by
  unfold TargetCacheState.add
  rw [foldl_pushDelta_withCursor]

omit [Text.Unicode] in
theorem TargetCacheState.add_add (state : TargetCacheState F) (xs : List (VirtualDelta F))
    (latest : Latest F) (ys : List (VirtualDelta F)) (latest' : Latest F) :
    (state.add (xs, latest)).add (ys, latest') = state.add (xs ++ ys, latest') := by
  unfold TargetCacheState.add
  rw [List.foldl_append, foldl_pushDelta_withLatest]

theorem ingestAccount_eq_ok {config : List TargetSource} {message : TargetUpdate F}
    {state : TargetCacheState F} {account : TargetAccount F} {state' : TargetCacheState F} :
    ingestAccount config message state account = (state', .ok ()) ↔
      ∃ added, accountDeltas config message state.latest account = .ok added ∧
        state' = state.add added := by
  unfold ingestAccount accountDeltas
  cases enabledSource config account.sourceId with
  | none =>
    constructor
    · intro h
      exact ⟨_, rfl, (congrArg Prod.fst h).symm⟩
    · rintro ⟨added, hadded, rfl⟩
      cases hadded
      rfl
  | some source =>
    cases hnext : nextTargets source message account with
    | error e =>
      simp only [hnext]
      constructor
      · intro h
        cases h
      · rintro ⟨added, hadded, -⟩
        cases hadded
    | ok next =>
      simp only [hnext, ok_bind]
      generalize (if targetPositionsChanged state.latest[publishedBinding account]? next then
        targetDeltas state.latest[publishedBinding account]? next else []) = changes
      have hpush : ∀ (s : TargetCacheState F) (change : String × F) (t : TargetCacheState F),
          ingestChange source message account s change = (t, .ok ()) ↔
            ∃ delta, archivedDelta source message account change.1 change.2 = .ok delta ∧
              t = s.pushDelta delta := by
        intro s change t
        unfold ingestChange
        cases archivedDelta source message account change.1 change.2 with
        | error e => simp
        | ok delta => simp [eq_comm]
      have hfold := fun t => foldUntil_mapM hpush (l := changes) (s := state) (t := t)
      cases hrun : foldUntil (ingestChange source message account) state changes with
      | mk t reply =>
        cases reply with
        | error e =>
          constructor
          · intro h
            cases h
          · rintro ⟨added, hadded, -⟩
            obtain ⟨deltas, hdeltas, -⟩ := bind_eq_ok.1 hadded
            have := (hfold _).2 ⟨deltas, hdeltas, rfl⟩
            rw [hrun] at this
            cases this
        | ok u =>
          obtain ⟨deltas, hdeltas, rfl⟩ := (hfold t).1 hrun
          rw [hdeltas]
          constructor
          · intro h
            refine ⟨_, rfl, (congrArg Prod.fst h).symm.trans ?_⟩
            show ({ deltas.foldl TargetCacheState.pushDelta state with
              latest := (deltas.foldl TargetCacheState.pushDelta state).latest.insert
                (publishedBinding account) next } : TargetCacheState F) = _
            rw [foldl_pushDelta_latest]
            rfl
          · rintro ⟨added, hadded, rfl⟩
            cases hadded
            show (({ deltas.foldl TargetCacheState.pushDelta state with
              latest := (deltas.foldl TargetCacheState.pushDelta state).latest.insert
                (publishedBinding account) next } : TargetCacheState F), Except.ok ()) = _
            rw [foldl_pushDelta_latest]
            rfl

/-- A message that is ingested appends its deltas. -/
theorem ingestTarget_eq_ok {config : List TargetSource} {state : TargetCacheState F}
    {message : TargetUpdate F} {state' : TargetCacheState F} :
    ingestTarget config state message = (state', .ok ()) ↔
      ∃ added, messageDeltas config state.latest message = .ok added ∧ state' = state.add added :=
  foldUntil_gather (fun s => s.add_nil) (fun s x => s.add_latest x)
    (fun s xs w ys v => s.add_add xs w ys v) fun _ _ _ => ingestAccount_eq_ok

theorem foldUntil_ingestTarget {config : List TargetSource} {messages : List (TargetUpdate F)}
    {state state' : TargetCacheState F} :
    foldUntil (ingestTarget config) state messages = (state', .ok ()) ↔
      ∃ added, logDeltas config state.latest messages = .ok added ∧ state' = state.add added :=
  foldUntil_gather (fun s => s.add_nil) (fun s x => s.add_latest x)
    (fun s xs w ys v => s.add_add xs w ys v) fun _ _ _ => ingestTarget_eq_ok

/-- The stable part: the cursor is at the last message. -/
theorem foldUntil_ingestStable {config : List TargetSource} {messages : List (TargetUpdate F)}
    {state state' : TargetCacheState F} :
    foldUntil (ingestStable config) state messages = (state', .ok ()) →
      ∃ added, logDeltas config state.latest messages = .ok added ∧
        state' = { state.add added with
          cursor := (messages.getLast?.map TargetUpdate.key).or state.cursor } := by
  induction messages generalizing state with
  | nil =>
    intro h
    exact ⟨([], state.latest), rfl, (congrArg Prod.fst h).symm⟩
  | cons message messages ih =>
    intro h
    obtain ⟨t, ht, h⟩ := foldUntil_cons.1 h
    unfold ingestStable at ht
    cases hingest : ingestTarget config state message with
    | mk u reply =>
      rw [hingest] at ht
      cases reply with
      | error e => cases ht
      | ok _ =>
        obtain ⟨⟨xs, latest⟩, hxs, rfl⟩ := ingestTarget_eq_ok.1 hingest
        obtain rfl := congrArg Prod.fst ht
        obtain ⟨⟨ys, latest'⟩, hys, rfl⟩ := ih h
        refine ⟨(xs ++ ys, latest'), gather_cons.2 ⟨xs, ys, latest, hxs, hys, rfl⟩, ?_⟩
        rw [TargetCacheState.add_with, TargetCacheState.add_add, List.getLast?_cons]
        cases messages.getLast? with
        | none => rfl
        | some last => rfl

/-! ## The times of the deltas -/

theorem mem_messageDeltas {config : List TargetSource} {message : TargetUpdate F}
    {latest latest' : Latest F} {deltas : List (VirtualDelta F)}
    (h : messageDeltas config latest message = .ok (deltas, latest')) :
    ∀ delta ∈ deltas, delta.receivedAtUs = message.receivedAtUs := by
  have hall := gather_invariant (P := fun acc _ => ∀ delta ∈ acc,
    delta.receivedAtUs = message.receivedAtUs) [] ?_ h (fun _ hd => absurd hd List.not_mem_nil)
  · exact hall
  · intro account _ acc v xs w hacc hxs delta hdelta
    rcases List.mem_append.1 hdelta with hd | hd
    · exact hacc delta hd
    · unfold accountDeltas at hxs
      cases hsource : enabledSource config account.sourceId with
      | none =>
        rw [hsource] at hxs
        cases hxs
        exact absurd hd List.not_mem_nil
      | some source =>
        simp only [hsource] at hxs
        obtain ⟨next, -, hxs⟩ := bind_eq_ok.1 hxs
        obtain ⟨deltas', hdeltas, hxs⟩ := bind_eq_ok.1 hxs
        cases hxs
        obtain ⟨change, -, hchange⟩ := (mem_of_mapM_eq_ok hdeltas).2 delta hd
        unfold archivedDelta at hchange
        obtain ⟨_, -, hchange⟩ := bind_eq_ok.1 hchange
        obtain ⟨venue, -, hchange⟩ := bind_eq_ok.1 hchange
        cases hchange
        rfl

theorem mem_logDeltas {config : List TargetSource} {messages : List (TargetUpdate F)}
    {latest latest' : Latest F} {deltas : List (VirtualDelta F)}
    (h : logDeltas config latest messages = .ok (deltas, latest')) :
    ∀ delta ∈ deltas, ∃ message ∈ messages, delta.receivedAtUs = message.receivedAtUs := by
  have hall := gather_invariant (P := fun acc _ => ∀ delta ∈ acc,
    ∃ message ∈ messages, delta.receivedAtUs = message.receivedAtUs) [] ?_ h
    (fun _ hd => absurd hd List.not_mem_nil)
  · exact hall
  · intro message hmessage acc v xs w hacc hxs delta hdelta
    rcases List.mem_append.1 hdelta with hd | hd
    · exact hacc delta hd
    · exact ⟨message, hmessage, mem_messageDeltas hxs delta hd⟩

/-- The deltas of a log in key order are in the order of their times. -/
theorem sorted_logDeltas {config : List TargetSource} {messages : List (TargetUpdate F)}
    (hsorted : messages.Pairwise fun a b => a.key < b.key) {latest latest' : Latest F}
    {deltas : List (VirtualDelta F)}
    (h : logDeltas config latest messages = .ok (deltas, latest')) :
    deltas.Pairwise fun a b => a.receivedAtUs ≤ b.receivedAtUs := by
  induction messages generalizing latest deltas with
  | nil =>
    cases h
    exact List.Pairwise.nil
  | cons message messages ih =>
    obtain ⟨hhead, htail⟩ := List.pairwise_cons.1 hsorted
    obtain ⟨xs, ys, w, hxs, hys, rfl⟩ := gather_cons.1 h
    refine List.pairwise_append.2 ⟨?_, ih htail hys, fun a ha b hb => ?_⟩
    · exact List.pairwise_of_forall_mem_list fun a ha b hb => by
        rw [mem_messageDeltas hxs a ha, mem_messageDeltas hxs b hb]
    · obtain ⟨message', hmem, htime⟩ := mem_logDeltas hys b hb
      have hlt := SeqKey.lt_iff.1 (hhead message' hmem)
      rw [mem_messageDeltas hxs a ha, htime]
      have htimes : message.key.receivedAtUs = message.receivedAtUs ∧
          message'.key.receivedAtUs = message'.receivedAtUs := ⟨rfl, rfl⟩
      omega

end

/-! ## The index of a market -/

section

variable {F : Type}

/-- The deltas of a market and where they stand. -/
def ofMarket (market : MarketKey) (deltas : List (VirtualDelta F)) :
    List (VirtualDelta F × Nat) :=
  deltas.zipIdx.filter fun entry => decide (entry.1.market = market)

variable [F64 F]

def marketIndex (market : MarketKey) (deltas : List (VirtualDelta F)) :
    Option (MarketDeltaIndex F) :=
  if (ofMarket market deltas).isEmpty then none
  else some {
    positions := (ofMarket market deltas).map Prod.snd
    cumulativeQuantity :=
      running (· + ·) 0 ((ofMarket market deltas).map fun entry => entry.1.deltaQty) }

/-- Every market that has deltas has the positions and the running quantities of them. -/
def Indexed (deltas : List (VirtualDelta F)) (markets : OrdMap MarketKey (MarketDeltaIndex F)) :
    Prop :=
  ∀ market, markets[market]? = marketIndex market deltas

theorem indexed_empty : Indexed ([] : List (VirtualDelta F)) ∅ := fun market => by
  rw [Std.ExtTreeMap.getElem?_empty]
  rfl

omit [F64 F] in
theorem ofMarket_concat (market : MarketKey) (deltas : List (VirtualDelta F))
    (delta : VirtualDelta F) :
    ofMarket market (deltas ++ [delta]) =
      ofMarket market deltas ++ if delta.market = market then [(delta, deltas.length)] else [] := by
  unfold ofMarket
  rw [List.zipIdx_append, List.filter_append, Nat.zero_add]
  by_cases h : delta.market = market
  · rw [if_pos h, List.zipIdx_singleton, List.filter_cons_of_pos (by simpa using h)]
    rfl
  · rw [if_neg h, List.zipIdx_singleton, List.filter_cons_of_neg (by simpa using h)]
    rfl

theorem getD_marketIndex (market : MarketKey) (deltas : List (VirtualDelta F)) :
    (marketIndex market deltas).getD ⟨[], []⟩ =
      { positions := (ofMarket market deltas).map Prod.snd
        cumulativeQuantity :=
          running (· + ·) 0 ((ofMarket market deltas).map fun entry => entry.1.deltaQty) } := by
  unfold marketIndex
  cases ofMarket market deltas with
  | nil => rfl
  | cons entry entries => rfl

theorem pushDelta_indexed {state : TargetCacheState F} (h : Indexed state.deltas state.markets)
    (delta : VirtualDelta F) :
    Indexed (state.pushDelta delta).deltas (state.pushDelta delta).markets := by
  intro market
  show (state.markets.upsert delta.market _)[market]? = marketIndex market (state.deltas ++ [delta])
  rw [OrdMap.getElem?_upsert, marketIndex, ofMarket_concat]
  by_cases hmarket : delta.market = market
  · subst hmarket
    rw [if_pos rfl, if_pos rfl, h delta.market, if_neg (by simp), getD_marketIndex]
    simp only [getLast?_running, List.map_append, List.map_singleton, running_concat,
      List.foldl_append, List.foldl_cons, List.foldl_nil]
  · rw [if_neg hmarket, if_neg hmarket, List.append_nil]
    exact h market

theorem add_indexed {state : TargetCacheState F} (h : Indexed state.deltas state.markets)
    (added : List (VirtualDelta F) × Latest F) :
    Indexed (state.add added).deltas (state.add added).markets := by
  unfold TargetCacheState.add
  show Indexed (added.1.foldl TargetCacheState.pushDelta state).deltas
    (added.1.foldl TargetCacheState.pushDelta state).markets
  induction added.1 generalizing state with
  | nil => exact h
  | cons delta deltas ih => exact ih (pushDelta_indexed h delta)

end

end CtaManager.Theoretical
