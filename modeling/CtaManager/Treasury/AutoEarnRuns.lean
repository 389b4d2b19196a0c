import CtaManager.Treasury.AutoEarn

/-!
Runs of automatic BFUSD.

A failing `persist` leaves the file as it was, or it fails after the rename, when the directory is
synced; then the file is the new one and the memory is not.  As long as that does not happen, a
sequence of POSTs that has begun leaves the account paused in the file until it completes or the
account is resumed (`failStop`).
-/

namespace CtaManager.Treasury

open Check Program

/-- The settings in the file and in memory. -/
structure World where
  file : Accounts
  memory : Accounts

def Op.external : Op → Bool
  | .settings | .persist _ => false
  | _ => true

inductive Step : World → (op : Op) → Except String op.Reply → World → Prop where
  | settings (w : World) : Step w .settings (.ok w.memory) w
  | persisted (w : World) (accounts : Accounts) :
      Step w (.persist accounts) (.ok ()) ⟨accounts, accounts⟩
  | unwritten (w : World) (accounts : Accounts) (e : String) :
      Step w (.persist accounts) (.error e) w
  /-- the directory could not be synced after the rename -/
  | unsynced (w : World) (accounts : Accounts) (e : String) :
      Step w (.persist accounts) (.error e) ⟨accounts, w.memory⟩
  /-- the exchange, the environment file and the clock -/
  | answered (w : World) (op : Op) (answer : Except String op.Reply) (h : op.external = true) :
      Step w op answer w

abbrev AutoEvent := Event World fun op : Op => Except String op.Reply

/-- A failing write left the file as it was. -/
def Synced (e : AutoEvent) : Prop :=
  match e with
  | ⟨before, .persist _, .error _, after⟩ => after.file = before.file
  | _ => True

inductive Action where
  | save (sourceId : String) (settings : AccountSettings)
  | resume (sourceId : String)
  | run (source : Source) (manual : Bool)
  | restart

section

variable (parse : String → Option (Option ℚ))

/-- An action may stop at any point. -/
inductive Perform : Action → World → List AutoEvent → World → Prop where
  | save {sourceId : String} {settings : AccountSettings} {w w' : World} {es : List AutoEvent}
      {result : Option (Except String Unit)} :
      Runs Step w (Treasury.save sourceId settings) es w' result →
        Perform (.save sourceId settings) w es w'
  | resume {sourceId : String} {w w' : World} {es : List AutoEvent}
      {result : Option (Except String Unit)} :
      Runs Step w (Treasury.resume sourceId) es w' result → Perform (.resume sourceId) w es w'
  | run {source : Source} {manual : Bool} {w w' : World} {es : List AutoEvent}
      {result : Option (Except String Summary)} :
      Runs Step w (Treasury.run parse source manual) es w' result →
        Perform (.run source manual) w es w'
  | restart (w : World) : Perform .restart w [] ⟨w.file, w.file⟩

/-- The actions of a history, one after the other, and what each has done. -/
inductive History : World → List (Action × List AutoEvent) → World → Prop where
  | nil (w : World) : History w [] w
  | snoc {w w' w'' : World} {h : List (Action × List AutoEvent)} {action : Action}
      {es : List AutoEvent} :
      History w h w' → Perform parse action w' es w'' → History w (h ++ [(action, es)]) w''

abbrev Entry := Action × AutoEvent

def entries (h : List (Action × List AutoEvent)) : List Entry :=
  h.flatMap fun act => act.2.map (Prod.mk act.1)

/-! ## Sequences of POSTs -/

/-- How far the POSTs of an account are: none is outstanding, one was sent, or the purchase
succeeded without a fee and the transfer back is left. -/
inductive Stage where
  | idle
  | sent
  | purchased
  deriving DecidableEq

/-- A purchase that succeeded without a fee. -/
def cleanPurchase (amount : String) (subscription : Posted) : Bool :=
  subscription.success == some true &&
    match subscription.bfusdAmount with
    | none => false
    | some bfusd =>
      match subscriptionFee parse amount bfusd with
      | .ok fee => !decide (0 < fee)
      | .error _ => false

def Stage.afterPost (stage : Stage) : Post → Except String Posted → Stage
  | .sweep _, .ok transfer => if transfer.tranId.isSome then .idle else .sent
  | .purchase amount, .ok subscription =>
    if cleanPurchase parse amount subscription then .purchased else .sent
  | .inbound _, .ok _ => if stage = .purchased then .idle else .sent
  | _, _ => .sent

/-- The stage of account `a` after an entry; a resume ends every sequence. -/
def Stage.after (a : String) (stage : Stage) (entry : Entry) : Stage :=
  match entry with
  | (_, ⟨_, .post b request, answer, _⟩) =>
    if b = a then stage.afterPost parse request answer else stage
  | (.resume b, ⟨_, .persist _, .ok _, _⟩) => if b = a then .idle else stage
  | _ => stage

def stage (a : String) (h : List Entry) : Stage := h.foldl (Stage.after parse a) .idle

/-- A POST of `a` has just completed its sequence: after it the settings were read, and nothing
else was done. -/
def Completed (a : String) (action : Action) (before : List Entry) : Prop :=
  ∃ earlier event read, before = earlier ++ [(action, event), (action, read)] ∧
    (∃ request, event.op = .post a request) ∧
    stage parse a (earlier ++ [(action, event)]) = .idle ∧ read.op = .settings

/-! ## Invariants -/

def Paused (accounts : Accounts) (a : String) : Prop := (settingsOf accounts a).paused = true

structure Good (h : List Entry) (w : World) : Prop where
  synced : w.memory = w.file
  pending : ∀ a, stage parse a h ≠ .idle → Paused w.file a
  posts : ∀ before entry after, h = before ++ entry :: after → ∀ a request,
    entry.2.op = .post a request → Paused entry.2.before.file a
  cleared : ∀ before entry after, h = before ++ entry :: after → ∀ a,
    Paused entry.2.before.file a → ¬Paused entry.2.after.file a →
      entry.1 = .resume a ∨ Completed parse a entry.1 before

theorem stage_snoc (a : String) (h : List Entry) (entry : Entry) :
    stage parse a (h ++ [entry]) = Stage.after parse a (stage parse a h) entry := by
  unfold stage
  rw [List.foldl_append]
  rfl

variable {parse}

theorem Good.snoc {h : List Entry} {w w' : World} {entry : Entry} (hg : Good parse h w)
    (hbefore : entry.2.before = w) (hafter : entry.2.after = w') (hsynced : w'.memory = w'.file)
    (hpending : ∀ a, Stage.after parse a (stage parse a h) entry ≠ .idle → Paused w'.file a)
    (hpost : ∀ a request, entry.2.op = .post a request → Paused w.file a)
    (hclear : ∀ a, Paused w.file a → ¬Paused w'.file a →
      entry.1 = .resume a ∨ Completed parse a entry.1 h) :
    Good parse (h ++ [entry]) w' where
  synced := hsynced
  pending := by
    intro a ha
    rw [stage_snoc] at ha
    exact hpending a ha
  posts := by
    intro before e after heq a request hop
    rcases split_snoc heq with ⟨-, rfl, -⟩ | ⟨after, -, heq⟩
    · rw [hbefore]
      exact hpost a request hop
    · exact hg.posts before e after heq a request hop
  cleared := by
    intro before e after heq a hpaused hnot
    rcases split_snoc heq with ⟨rfl, rfl, -⟩ | ⟨after, -, heq⟩
    · rw [hbefore] at hpaused
      rw [hafter] at hnot
      exact hclear a hpaused hnot
    · exact hg.cleared before e after heq a hpaused hnot

/-- A question that neither writes nor posts. -/
theorem Good.quiet {h : List Entry} {w : World} (hg : Good parse h w) (action : Action) {op : Op}
    (answer : Except String op.Reply) (hpost : ∀ a request, op ≠ .post a request)
    (hpersist : ∀ accounts, op ≠ .persist accounts) :
    Good parse (h ++ [(action, ⟨w, op, answer, w⟩)]) w := by
  refine hg.snoc rfl rfl hg.synced (fun a ha => hg.pending a ?_)
    (fun a request hop => absurd hop (hpost a request)) (fun a hp hn => absurd hp hn)
  intro hidle
  rw [hidle] at ha
  apply ha
  cases op with
  | post a request => exact absurd rfl (hpost a request)
  | persist accounts => exact absurd rfl (hpersist accounts)
  | _ => cases action <;> rfl

/-- A POST of a paused account. -/
theorem Good.post {h : List Entry} {w : World} (hg : Good parse h w) (action : Action) {a : String}
    (hpaused : Paused w.file a) (request : Post) (answer : Except String Posted) :
    Good parse (h ++ [(action, ⟨w, .post a request, answer, w⟩)]) w := by
  refine hg.snoc rfl rfl hg.synced (fun b hb => ?_) (fun b request' hop => ?_)
    (fun b hp hn => absurd hp hn)
  · by_cases hab : a = b
    · rwa [← hab]
    · refine hg.pending b fun hidle => hb ?_
      rw [hidle]
      exact if_neg hab
  · cases hop
    exact hpaused

/-- A write that clears the pause of an account only after a completed sequence or on a resume. -/
theorem Good.persist {h : List Entry} {w : World} (hg : Good parse h w) (action : Action)
    {accounts : Accounts}
    (hflags : ∀ a, Paused w.file a → ¬Paused accounts a →
      action = .resume a ∨ Completed parse a action h ∧ stage parse a h = .idle) :
    Good parse (h ++ [(action, ⟨w, .persist accounts, .ok (), ⟨accounts, accounts⟩⟩)])
      ⟨accounts, accounts⟩ := by
  refine hg.snoc rfl rfl rfl (fun a ha => ?_) (fun a request hop => nomatch hop)
    (fun a hp hn => (hflags a hp hn).imp_right And.left)
  have hstage : stage parse a h ≠ .idle := by
    intro hidle
    rw [hidle] at ha
    apply ha
    cases action with
    | resume b => exact ite_self _
    | _ => rfl
  by_contra hnot
  rcases hflags a (hg.pending a hstage) hnot with rfl | ⟨-, hidle⟩
  · exact ha (if_pos rfl)
  · exact hstage hidle

/-! ## The programs keep it -/

/-- The steps of a history whose writes are synced. -/
def SyncedStep (w : World) (op : Op) (answer : Except String op.Reply) (w' : World) : Prop :=
  Step w op answer w' ∧ Synced ⟨w, op, answer, w'⟩

theorem SyncedStep.external {w w' : World} {op : Op} {answer : Except String op.Reply}
    (h : SyncedStep w op answer w') (hop : op.external = true) : w = w' := by
  obtain ⟨h, -⟩ := h
  cases h with
  | answered => rfl
  | settings => rfl
  | persisted => cases hop
  | unwritten => rfl
  | unsynced => cases hop

theorem SyncedStep.settings {w w' : World} {answer : Except String Accounts}
    (h : SyncedStep w .settings answer w') : w = w' ∧ answer = .ok w.memory := by
  obtain ⟨h, -⟩ := h
  cases h with
  | settings => exact ⟨rfl, rfl⟩
  | answered _ _ hop => cases hop

/-- A write takes place, or leaves file and memory. -/
theorem SyncedStep.persist {w w' : World} {accounts : Accounts} {answer : Except String Unit}
    (h : SyncedStep w (.persist accounts) answer w') :
    (answer = .ok () ∧ w' = ⟨accounts, accounts⟩) ∨ (∃ e, answer = .error e) ∧ w = w' := by
  obtain ⟨h, hsynced⟩ := h
  cases h with
  | persisted => exact Or.inl ⟨rfl, rfl⟩
  | unwritten _ e => exact Or.inr ⟨⟨e, rfl⟩, rfl⟩
  | unsynced _ e =>
    have hfile : accounts = w.file := hsynced
    refine Or.inr ⟨⟨e, rfl⟩, ?_⟩
    rw [hfile]
  | answered _ _ hop => cases hop

variable (parse) in
/-- The invariant at a point of an action, after the entries `past` of the actions before. -/
def Holds (past : List Entry) (action : Action) (es : List AutoEvent) (w : World) : Prop :=
  Good parse (past ++ es.map (Prod.mk action)) w

variable (parse) in
/-- The program keeps the invariant, wherever it stops. -/
def Keeps {α : Type} (past : List Entry) (action : Action) (x : Round α) (es : List AutoEvent)
    (w : World) : Prop :=
  Always SyncedStep (Holds parse past action) (fun _ _ _ => True) x es w

theorem holds_snoc {past : List Entry} {action : Action} {es : List AutoEvent} {w : World}
    {event : AutoEvent} (h : Good parse (past ++ es.map (Prod.mk action) ++ [(action, event)]) w) :
    Holds parse past action (es ++ [event]) w := by
  unfold Holds
  rw [List.map_append, ← List.append_assoc]
  exact h

/-- A question that neither writes nor posts. -/
theorem keeps_ask {α : Type} {past : List Entry} {action : Action} {es : List AutoEvent} {w : World}
    {op : Op} {f : op.Reply → Round α} (hext : op.external = true)
    (hpost : ∀ a request, op ≠ .post a request) (hw : Holds parse past action es w)
    (hf : ∀ es answer, Holds parse past action es w → Keeps parse past action (f answer) es w) :
    Keeps parse past action (request op >>= f) es w := by
  have hpersist : ∀ accounts, op ≠ .persist accounts := by
    rintro accounts rfl
    cases hext
  refine Always.request hw (fun e w' hT => ?_) fun answer w' hT => ?_
  · obtain rfl := hT.external hext
    exact ⟨holds_snoc (hw.quiet action (.error e) hpost hpersist), trivial⟩
  · obtain rfl := hT.external hext
    exact hf _ answer (holds_snoc (hw.quiet action (.ok answer) hpost hpersist))

/-- A POST of a paused account. -/
theorem keeps_post {α : Type} {past : List Entry} {action : Action} {es : List AutoEvent} {w : World}
    {a : String} {p : Post} {f : Posted → Round α} (hw : Holds parse past action es w)
    (hpaused : Paused w.file a)
    (hf : ∀ reply, Holds parse past action (es ++ [⟨w, .post a p, .ok reply, w⟩]) w →
      Keeps parse past action (f reply) (es ++ [⟨w, .post a p, .ok reply, w⟩]) w) :
    Keeps parse past action (request (Op.post a p) >>= f) es w := by
  refine Always.request hw (fun e w' hT => ?_) fun reply w' hT => ?_
  · obtain rfl := hT.external rfl
    exact ⟨holds_snoc (hw.post action hpaused p (.error e)), trivial⟩
  · obtain rfl := hT.external rfl
    exact hf reply (holds_snoc (hw.post action hpaused p (.ok reply)))

theorem settingsOf_insert (accounts : Accounts) (a b : String) (settings : AccountSettings) :
    settingsOf (accounts.insert a settings) b =
      if a = b then settings else settingsOf accounts b := by
  unfold settingsOf
  rw [OrdMap.getElem?_insert_of_key]
  split
  · rfl
  · rfl

/-- The flag of one account is set, or cleared where it may be. -/
theorem always_setPaused {past : List Entry} {action : Action} {es : List AutoEvent} {w : World}
    {a : String} {paused : Bool} (hw : Holds parse past action es w)
    (hclear : paused = false → action = .resume a ∨
      ∀ read : AutoEvent, read.op = .settings →
        Completed parse a action (past ++ es.map (Prod.mk action) ++ [(action, read)]) ∧
          stage parse a (past ++ es.map (Prod.mk action) ++ [(action, read)]) = .idle) :
    Always SyncedStep (Holds parse past action)
      (fun _ w result => result = .ok () → (settingsOf w.file a).paused = paused)
      (setPaused a paused) es w := by
  refine Always.request hw (fun e w' hT => ?_) fun accounts w' hT => ?_
  · cases hT.settings.2
  · obtain ⟨rfl, haccounts⟩ := hT.settings
    cases haccounts
    have hread : Holds parse past action (es ++ [⟨w, .settings, .ok w.memory, w⟩]) w :=
      holds_snoc (hw.quiet action _ (fun _ _ h => nomatch h) (fun _ h => nomatch h))
    refine ⟨hread, fun answer w' hT => ?_⟩
    rcases hT.persist with ⟨rfl, rfl⟩ | ⟨⟨e, rfl⟩, rfl⟩
    · refine ⟨holds_snoc (hread.persist action fun b hp hn => ?_), fun _ => ?_⟩
      · -- only the flag of `a` may change, and only to `paused`
        rw [hw.synced] at hn
        unfold Paused at hn
        rw [settingsOf_insert] at hn
        split at hn
        · next hab =>
          subst hab
          refine (hclear (Bool.eq_false_iff.2 hn)).imp_right fun h => ?_
          rw [List.map_append, ← List.append_assoc]
          exact h _ rfl
        · exact absurd hp hn
      · show (settingsOf _ a).paused = paused
        rw [settingsOf_insert, if_pos rfl]
    · exact ⟨holds_snoc (hread.snoc rfl rfl hw.synced (fun b hb => hread.pending b hb)
        (fun _ _ h => nomatch h) (fun _ hp hn => absurd hp hn)), fun h => nomatch h⟩

/-- A computation that may fail. -/
theorem keeps_check {α β : Type} {past : List Entry} {action : Action} {es : List AutoEvent}
    {w : World} {x : Except String β} {f : β → Round α} (hw : Holds parse past action es w)
    (hf : ∀ b, x = .ok b → Keeps parse past action (f b) es w) :
    Keeps parse past action (ExceptT.mk (pure x) >>= f) es w := by
  cases x with
  | error e => exact ⟨hw, trivial⟩
  | ok b => exact hf b rfl

theorem keeps_done {α : Type} {past : List Entry} {action : Action} {es : List AutoEvent} {w : World}
    {result : Except String α} (hw : Holds parse past action es w) :
    Keeps parse past action (ExceptT.mk (pure result)) es w :=
  ⟨hw, trivial⟩

theorem keeps_pause {α : Type} {past : List Entry} {action : Action} {es : List AutoEvent} {w : World}
    {a : String} {f : Unit → Round α} (hw : Holds parse past action es w)
    (hf : ∀ es w, Holds parse past action es w → Paused w.file a →
      Keeps parse past action (f ()) es w) :
    Keeps parse past action (setPaused a true >>= f) es w := by
  refine Always.andThen (always_setPaused hw fun h => nomatch h) (fun es w u hw hpaused => ?_)
    fun _ _ _ _ _ => trivial
  exact hf es w hw (hpaused rfl)

/-- The pause after a completed sequence. -/
theorem keeps_unpause {α : Type} {past : List Entry} {action : Action} {es : List AutoEvent}
    {w : World} {a : String} {event : AutoEvent} {f : Unit → Round α}
    (hw : Holds parse past action (es ++ [event]) w) (hpost : ∃ request, event.op = .post a request)
    (hstage : stage parse a (past ++ (es ++ [event]).map (Prod.mk action)) = .idle)
    (hf : ∀ es w, Holds parse past action es w → Keeps parse past action (f ()) es w) :
    Keeps parse past action (setPaused a false >>= f) (es ++ [event]) w := by
  have hcompleted : ∀ read : AutoEvent, read.op = .settings →
      Completed parse a action
          (past ++ (es ++ [event]).map (Prod.mk action) ++ [(action, read)]) ∧
        stage parse a (past ++ (es ++ [event]).map (Prod.mk action) ++ [(action, read)]) =
          .idle := by
    intro read hread
    refine ⟨⟨past ++ es.map (Prod.mk action), event, read, ?_, hpost, ?_, hread⟩, ?_⟩
    · rw [List.map_append, List.append_assoc, List.append_assoc, List.append_assoc]
      rfl
    · rw [← hstage, List.map_append, List.append_assoc]
      rfl
    · rw [stage_snoc, hstage]
      obtain ⟨before, op, answer, after⟩ := read
      cases hread
      cases action <;> rfl
  refine Always.andThen (always_setPaused hw fun _ => Or.inr hcompleted) (fun es w u hw _ => ?_)
    fun _ _ _ _ _ => trivial
  exact hf es w hw

theorem keeps_sweepSpotBfusd {past : List Entry} {action : Action} {es : List AutoEvent} {w : World}
    (source : Source) (hw : Holds parse past action es w) :
    Keeps parse past action (sweepSpotBfusd parse source) es w := by
  refine keeps_ask rfl (fun _ _ h => nomatch h) hw fun es spot hw => ?_
  cases spotBfusdTransferAmount parse spot with
  | error e => exact keeps_done hw
  | ok found =>
    cases found with
    | none => exact keeps_done hw
    | some amount =>
      refine keeps_ask rfl (fun _ _ h => nomatch h) hw fun es _ hw => ?_
      refine keeps_pause hw fun es w hw hpaused => ?_
      refine keeps_post hw hpaused fun transfer hw => ?_
      cases htran : transfer.tranId with
      | none => exact keeps_done hw
      | some tranId =>
        refine keeps_unpause hw ⟨_, rfl⟩ ?_ fun es w hw => keeps_done hw
        rw [List.map_append, ← List.append_assoc]
        refine (stage_snoc _ _ _ _).trans ?_
        show (if source.id = source.id then _ else _) = Stage.idle
        rw [if_pos rfl]
        show (if transfer.tranId.isSome = true then _ else _) = Stage.idle
        rw [htran]
        rfl

theorem keeps_subscribe {past : List Entry} {action : Action} {es : List AutoEvent} {w : World}
    (source : Source) (ip amount : String) (hw : Holds parse past action es w) :
    Keeps parse past action (subscribe parse source ip amount) es w := by
  refine keeps_ask rfl (fun _ _ h => nomatch h) hw fun es _ hw => ?_
  refine keeps_ask rfl (fun _ _ h => nomatch h) hw fun es _ hw => ?_
  refine keeps_ask rfl (fun _ _ h => nomatch h) hw fun es _ hw => ?_
  refine keeps_pause hw fun es w hw hpaused => ?_
  refine keeps_post hw hpaused fun _ hw => ?_
  refine keeps_post hw hpaused fun subscription hw => ?_
  by_cases hsuccess : subscription.success = some true
  · rw [if_neg (not_not_intro hsuccess)]
    cases hbfusd : subscription.bfusdAmount with
    | none => exact keeps_done hw
    | some bfusd =>
      dsimp only
      cases hfee : subscriptionFee parse amount bfusd with
      | error e => exact keeps_done hw
      | ok fee =>
        refine keeps_post hw hpaused fun _ hw => ?_
        by_cases hpositive : 0 < fee
        · rw [if_pos hpositive]
          exact keeps_done hw
        · rw [if_neg hpositive]
          refine keeps_unpause hw ⟨_, rfl⟩ ?_ fun es w hw => keeps_done hw
          have hclean : cleanPurchase parse amount subscription = true := by
            unfold cleanPurchase
            rw [hsuccess, hbfusd]
            dsimp only
            rw [hfee]
            show (_ && !decide (0 < fee)) = true
            rw [decide_eq_false hpositive]
            rfl
          rw [List.map_append, ← List.append_assoc]
          refine (stage_snoc _ _ _ _).trans ?_
          rw [List.map_append, ← List.append_assoc]
          have hpurchased : ∀ h : List Entry, stage parse source.id (h ++ [(action,
              ⟨w, .post source.id (.purchase amount), .ok subscription, w⟩)]) = .purchased := by
            intro h
            refine (stage_snoc _ _ _ _).trans ?_
            show (if source.id = source.id then _ else _) = Stage.purchased
            rw [if_pos rfl]
            exact if_pos hclean
          show (if source.id = source.id then _ else _) = Stage.idle
          rw [if_pos rfl]
          exact if_pos (hpurchased _)
  · rw [if_pos hsuccess]
    exact keeps_done hw

theorem keeps_subscribeFuturesUsdt {past : List Entry} {action : Action} {es : List AutoEvent}
    {w : World} (source : Source) (settings : AccountSettings) (account : FuturesAccount)
    (ip : String) (hw : Holds parse past action es w) :
    Keeps parse past action (subscribeFuturesUsdt parse source settings account ip) es w := by
  refine keeps_check hw fun funds _ => ?_
  dsimp only
  split
  · exact keeps_done hw
  · refine keeps_check hw fun margins _ => ?_
    split
    · exact keeps_done hw
    · refine keeps_ask rfl (fun _ _ h => nomatch h) hw fun es quota hw => ?_
      refine keeps_check hw fun left _ => ?_
      split
      · exact keeps_done hw
      · exact keeps_subscribe source ip _ hw

theorem keeps_execute {past : List Entry} {action : Action} {es : List AutoEvent} {w : World}
    (source : Source) (settings : AccountSettings) (hw : Holds parse past action es w) :
    Keeps parse past action (execute parse source settings) es w := by
  refine keeps_check hw fun _ _ => ?_
  split
  · exact keeps_done hw
  · refine keeps_ask rfl (fun _ _ h => nomatch h) hw fun es mode hw => ?_
    split
    · exact keeps_done hw
    · refine keeps_ask rfl (fun _ _ h => nomatch h) hw fun es ip hw => ?_
      refine keeps_ask rfl (fun _ _ h => nomatch h) hw fun es account hw => ?_
      split
      · exact keeps_done hw
      · refine Always.andThen (keeps_sweepSpotBfusd source hw) (fun es w swept hw _ => ?_)
          fun _ _ _ _ _ => trivial
        refine Always.bind (keeps_subscribeFuturesUsdt source settings account ip hw)
          fun es w result hw _ => ⟨hw, trivial⟩

theorem keeps_run {past : List Entry} {action : Action} {es : List AutoEvent} {w : World}
    (source : Source) (manual : Bool) (hw : Holds parse past action es w) :
    Keeps parse past action (run parse source manual) es w := by
  refine Always.request hw (fun e w' hT => ?_) fun accounts w' hT => ?_
  · cases hT.settings.2
  · obtain ⟨rfl, -⟩ := hT.settings
    have hread : Holds parse past action (es ++ [⟨w, .settings, .ok accounts, w⟩]) w :=
      holds_snoc (hw.quiet action _ (fun _ _ h => nomatch h) (fun _ h => nomatch h))
    dsimp only
    split
    · exact keeps_done hread
    · split
      · exact keeps_execute source _ hread
      · refine keeps_ask rfl (fun _ _ h => nomatch h) hread fun es due hw => ?_
        split
        · exact keeps_done hw
        · exact keeps_execute source _ hw

theorem keeps_resume {past : List Entry} {a : String} {es : List AutoEvent} {w : World}
    (hw : Holds parse past (.resume a) es w) :
    Keeps parse past (.resume a) (resume a) es w :=
  (always_setPaused hw fun _ => Or.inl rfl).mono fun _ _ _ _ _ => trivial

/-- A save writes the flag the account has in memory. -/
theorem keeps_save {past : List Entry} {action : Action} {es : List AutoEvent} {w : World}
    (a : String) (settings : AccountSettings) (hw : Holds parse past action es w) :
    Keeps parse past action (save a settings) es w := by
  refine keeps_check hw fun _ _ => ?_
  refine Always.request hw (fun e w' hT => ?_) fun accounts w' hT => ?_
  · cases hT.settings.2
  · obtain ⟨rfl, haccounts⟩ := hT.settings
    cases haccounts
    have hread : Holds parse past action (es ++ [⟨w, .settings, .ok w.memory, w⟩]) w :=
      holds_snoc (hw.quiet action _ (fun _ _ h => nomatch h) (fun _ h => nomatch h))
    refine ⟨hread, fun answer w' hT => ?_⟩
    rcases hT.persist with ⟨rfl, rfl⟩ | ⟨⟨e, rfl⟩, rfl⟩
    · refine ⟨holds_snoc (hread.persist action fun b hp hn => ?_), trivial⟩
      refine absurd ?_ hn
      unfold Paused at hp ⊢
      rw [hw.synced, settingsOf_insert]
      split
      · next hab =>
        subst hab
        unfold settingsOf at hp
        cases hsettings : w.file[a]? with
        | none =>
          rw [hsettings] at hp
          cases hp
        | some old =>
          rw [hsettings] at hp
          exact hp
      · exact hp
    · exact ⟨holds_snoc (Good.snoc hread rfl rfl hw.synced (fun b hb => hread.pending b hb)
        (fun _ _ h => nomatch h) (fun _ hp hn => absurd hp hn)), trivial⟩

theorem entries_snoc (h : List (Action × List AutoEvent)) (action : Action) (es : List AutoEvent) :
    entries (h ++ [(action, es)]) = entries h ++ es.map (Prod.mk action) := by
  unfold entries
  rw [List.flatMap_append, List.flatMap_singleton]

/-- One action of a history whose writes are synced. -/
theorem Good.perform {h : List Entry} {action : Action} {w w' : World} {es : List AutoEvent}
    (hg : Good parse h w) (hperform : Perform parse action w es w')
    (hsynced : ∀ e ∈ es, Synced e) : Good parse (h ++ es.map (Prod.mk action)) w' := by
  have hstart : ∀ action : Action, Holds parse h action [] w := by
    intro action
    unfold Holds
    rw [List.map_nil, List.append_nil]
    exact hg
  have hstep : ∀ e ∈ es, Step e.before e.op e.answer e.after →
      SyncedStep e.before e.op e.answer e.after := fun e he hT => ⟨hT, hsynced e he⟩
  cases hperform with
  | save hr =>
    exact ((keeps_save _ _ (hstart _)).runs (hr.restrict hstep)).1
  | resume hr =>
    exact ((keeps_resume (hstart _)).runs (hr.restrict hstep)).1
  | run hr =>
    exact ((keeps_run _ _ (hstart _)).runs (hr.restrict hstep)).1
  | restart =>
    rw [List.map_nil, List.append_nil]
    exact ⟨rfl, hg.pending, hg.posts, hg.cleared⟩

theorem History.good {w₀ w : World} {h : List (Action × List AutoEvent)}
    (hh : History parse w₀ h w) (hstart : w₀.memory = w₀.file)
    (hsynced : ∀ act ∈ h, ∀ e ∈ act.2, Synced e) : Good parse (entries h) w := by
  induction hh with
  | nil =>
    refine ⟨hstart, fun a ha => absurd rfl ha, fun before entry after h => ?_,
      fun before entry after h => ?_⟩
    · exact absurd h.symm (List.append_ne_nil_of_right_ne_nil _ (List.cons_ne_nil _ _))
    · exact absurd h.symm (List.append_ne_nil_of_right_ne_nil _ (List.cons_ne_nil _ _))
  | snoc _ hperform ih =>
    rw [entries_snoc]
    exact (ih fun act hact => hsynced act (List.mem_append_left _ hact)).perform hperform
      (hsynced _ (List.mem_append_right _ (List.mem_singleton_self _)))

/-! ## What a round posts -/

/-- What an amount is computed from. -/
structure Grounds where
  account : FuturesAccount
  quota : Quota
  funds : Funds
  margins : ℚ × ℚ
  left : ℚ
  cents : Int

variable (parse) in
/-- The amount of a subscription, by the answers of its round. -/
structure Justified (settings : AccountSettings) (sourceId : String) (es : List AutoEvent)
    (amount : String) (g : Grounds) : Prop where
  askedAccount : ∃ w w', (⟨w, .futuresAccount sourceId, .ok g.account, w'⟩ : AutoEvent) ∈ es
  askedQuota : ∃ w w', (⟨w, .quota sourceId, .ok g.quota, w'⟩ : AutoEvent) ∈ es
  funds : usdtFunds parse g.account = .ok g.funds
  margins : marginOf parse g.account = .ok g.margins
  left : leftQuota parse g.quota = .ok g.left
  text : amount = amountText g.cents
  minimum : 100 ≤ g.cents
  trigger : settings.triggerUsdt < Binary64.div g.cents 100
  wallet : g.cents ≤ inCents (Binary64.sub g.funds.wallet settings.reserveUsdt)
  withdrawable : g.cents ≤ inCents g.funds.withdrawable
  headroom : g.cents ≤ inCents (headroomOf g.margins.1 g.margins.2)
  remaining : g.cents ≤ inCents g.left
  cap : g.cents ≤ inCents settings.roundCapUsdt

variable (parse) in
/-- What the events of a round of `source` may be: the account was not paused when the round began,
and what is spent is justified. -/
structure RoundOk (source : Source) (start : World) (es : List AutoEvent) : Prop where
  posts : ∀ e ∈ es, ∀ a request, e.op = .post a request →
    a = source.id ∧ ¬Paused start.memory source.id
  amounts : ∀ e ∈ es, ∀ a amount,
    e.op = .post a (.outbound amount) ∨ e.op = .post a (.purchase amount) →
      ∃ g, Justified parse (settingsOf start.memory source.id) source.id es amount g

theorem inCents_mono {a b : ℚ} (h : a ≤ b) : inCents a ≤ inCents b :=
  Int.floor_le_floor (Binary64.mul_mono_left (by norm_num) h)

/-- A positive amount is below the difference itself. -/
theorem le_inCents_of_max {x : ℚ} {cents : Int} (hpositive : 0 < cents)
    (h : cents ≤ inCents (max x 0)) : cents ≤ inCents x := by
  rcases le_total x 0 with hx | hx
  · rw [max_eq_right hx] at h
    unfold inCents at h
    rw [Binary64.zero_mul, Int.floor_zero] at h
    omega
  · rwa [max_eq_left hx] at h

theorem roundAmountCents_le {wallet withdrawable margin maintenance quota cap reserve : ℚ}
    {cents : Int} (hpositive : 100 ≤ cents)
    (h : roundAmountCents wallet withdrawable margin maintenance quota cap reserve = cents) :
    cents ≤ inCents (Binary64.sub wallet reserve) ∧ cents ≤ inCents withdrawable ∧
      cents ≤ inCents (headroomOf margin maintenance) ∧ cents ≤ inCents quota ∧
      cents ≤ inCents cap := by
  unfold roundAmountCents at h
  have hle : ∀ x : ℚ, min (min (min (min (max (Binary64.sub wallet reserve) 0) withdrawable)
      (max (headroomOf margin maintenance) 0)) quota) cap ≤ x → cents ≤ inCents x := by
    intro x hx
    rw [← h]
    exact inCents_mono hx
  refine ⟨le_inCents_of_max (by omega) (hle _ ?_), hle _ ?_,
    le_inCents_of_max (by omega) (hle _ ?_), hle _ ?_, hle _ ?_⟩
  · exact (min_le_left _ _).trans ((min_le_left _ _).trans ((min_le_left _ _).trans
      (min_le_left _ _)))
  · exact (min_le_left _ _).trans ((min_le_left _ _).trans ((min_le_left _ _).trans
      (min_le_right _ _)))
  · exact (min_le_left _ _).trans ((min_le_left _ _).trans (min_le_right _ _))
  · exact (min_le_left _ _).trans (min_le_right _ _)
  · exact min_le_right _ _

theorem Justified.mono {settings : AccountSettings} {sourceId amount : String}
    {es es' : List AutoEvent} {g : Grounds} (h : Justified parse settings sourceId es amount g) :
    Justified parse settings sourceId (es ++ es') amount g := by
  obtain ⟨w, w', haccount⟩ := h.askedAccount
  obtain ⟨v, v', hquota⟩ := h.askedQuota
  exact { h with
    askedAccount := ⟨w, w', List.mem_append_left _ haccount⟩
    askedQuota := ⟨v, v', List.mem_append_left _ hquota⟩ }

/-- One more event of a round. -/
theorem RoundOk.snoc {source : Source} {start : World} {es : List AutoEvent} {event : AutoEvent}
    (h : RoundOk parse source start es)
    (hpost : ∀ a request, event.op = .post a request →
      a = source.id ∧ ¬Paused start.memory source.id)
    (hamount : ∀ a amount,
      event.op = .post a (.outbound amount) ∨ event.op = .post a (.purchase amount) →
        ∃ g, Justified parse (settingsOf start.memory source.id) source.id es amount g) :
    RoundOk parse source start (es ++ [event]) where
  posts := by
    intro e he
    rcases List.mem_append.1 he with he | he
    · exact h.posts e he
    · rw [List.mem_singleton.1 he]
      exact hpost
  amounts := by
    intro e he a amount hop
    have hearlier : ∃ g, Justified parse (settingsOf start.memory source.id) source.id es amount g := by
      rcases List.mem_append.1 he with he | he
      · exact h.amounts e he a amount hop
      · rw [List.mem_singleton.1 he] at hop
        exact hamount a amount hop
    obtain ⟨g, hg⟩ := hearlier
    exact ⟨g, hg.mono⟩

variable (parse) in
/-- The program of a round of `source` keeps to `RoundOk`. -/
def Ok {α : Type} (source : Source) (start : World) (x : Round α) (es : List AutoEvent)
    (w : World) : Prop :=
  Always Step (fun es _ => RoundOk parse source start es) (fun _ _ _ => True) x es w

section

variable {source : Source} {start w : World} {es : List AutoEvent} {α : Type}

theorem ok_done {result : Except String α} (h : RoundOk parse source start es) :
    Ok parse source start (ExceptT.mk (pure result)) es w :=
  ⟨h, trivial⟩

theorem ok_check {β : Type} {x : Except String β} {f : β → Round α}
    (h : RoundOk parse source start es) (hf : ∀ b, x = .ok b → Ok parse source start (f b) es w) :
    Ok parse source start (ExceptT.mk (pure x) >>= f) es w := by
  cases x with
  | error e => exact ⟨h, trivial⟩
  | ok b => exact hf b rfl

/-- A question that does not post; what was asked before stays asked. -/
theorem ok_ask {op : Op} {f : op.Reply → Round α} (hpost : ∀ a request, op ≠ .post a request)
    (h : RoundOk parse source start es)
    (hf : ∀ answer w', RoundOk parse source start (es ++ [⟨w, op, .ok answer, w'⟩]) →
      Ok parse source start (f answer) (es ++ [⟨w, op, .ok answer, w'⟩]) w') :
    Ok parse source start (request op >>= f) es w := by
  have hnext : ∀ (answer : Except String op.Reply) (w' : World),
      RoundOk parse source start (es ++ [⟨w, op, answer, w'⟩]) := fun answer w' =>
    h.snoc (fun a request hop => absurd hop (hpost a request))
      (fun a amount hop => hop.elim (absurd · (hpost _ _)) (absurd · (hpost _ _)))
  exact Always.request h (fun e w' _ => ⟨hnext _ w', trivial⟩) fun answer w' _ =>
    hf answer w' (hnext _ w')

theorem ok_post {p : Post} {f : Posted → Round α} (h : RoundOk parse source start es)
    (hpaused : ¬Paused start.memory source.id)
    (hamount : ∀ amount, p = .outbound amount ∨ p = .purchase amount →
      ∃ g, Justified parse (settingsOf start.memory source.id) source.id es amount g)
    (hf : ∀ reply w', RoundOk parse source start (es ++ [⟨w, .post source.id p, .ok reply, w'⟩]) →
      Ok parse source start (f reply) (es ++ [⟨w, .post source.id p, .ok reply, w'⟩]) w') :
    Ok parse source start (request (Op.post source.id p) >>= f) es w := by
  have hnext : ∀ (answer : Except String Posted) (w' : World),
      RoundOk parse source start (es ++ [⟨w, .post source.id p, answer, w'⟩]) := by
    intro answer w'
    refine h.snoc (fun a request hop => ?_) fun a amount hop => ?_
    · cases hop
      exact ⟨rfl, hpaused⟩
    · rcases hop with hop | hop
      · cases hop
        exact hamount amount (Or.inl rfl)
      · cases hop
        exact hamount amount (Or.inr rfl)
  exact Always.request h (fun e w' _ => ⟨hnext _ w', trivial⟩) fun answer w' _ =>
    hf answer w' (hnext _ w')

theorem ok_andThen {β : Type} {x : Round β} {f : β → Round α} (h : Ok parse source start x es w)
    (hf : ∀ later w' b, RoundOk parse source start (es ++ later) →
      Ok parse source start (f b) (es ++ later) w') :
    Ok parse source start (x >>= f) es w := by
  refine Always.andThen h.later (fun es' w' b hQ hlater => ?_) fun _ _ _ _ _ => trivial
  obtain ⟨-, later, rfl⟩ := hlater
  exact hf later w' b hQ

/-- The flag is written without a POST. -/
theorem ok_setPaused {paused : Bool} (h : RoundOk parse source start es) :
    Ok parse source start (setPaused source.id paused) es w := by
  refine ok_ask (fun _ _ h => nomatch h) h fun accounts w' h => ⟨h, fun answer w'' _ => ⟨?_, trivial⟩⟩
  exact h.snoc (fun _ _ h => nomatch h) fun _ _ h => h.elim (nomatch ·) (nomatch ·)

theorem ok_sweepSpotBfusd (hpaused : ¬Paused start.memory source.id)
    (h : RoundOk parse source start es) : Ok parse source start (sweepSpotBfusd parse source) es w := by
  refine ok_ask (fun _ _ h => nomatch h) h fun spot w h => ?_
  cases spotBfusdTransferAmount parse spot with
  | error e => exact ok_done h
  | ok found =>
    cases found with
    | none => exact ok_done h
    | some amount =>
      refine ok_ask (fun _ _ h => nomatch h) h fun _ w h => ?_
      refine ok_andThen (ok_setPaused h) fun later w _ h => ?_
      refine ok_post h hpaused (fun _ hp => hp.elim (nomatch ·) (nomatch ·)) fun transfer w h => ?_
      cases transfer.tranId with
      | none => exact ok_done h
      | some tranId => exact ok_andThen (ok_setPaused h) fun later w _ h => ok_done h

theorem ok_subscribe {ip amount : String} {g : Grounds} (hpaused : ¬Paused start.memory source.id)
    (hg : Justified parse (settingsOf start.memory source.id) source.id es amount g)
    (h : RoundOk parse source start es) :
    Ok parse source start (subscribe parse source ip amount) es w := by
  refine ok_ask (fun _ _ h => nomatch h) h fun _ w h => ?_
  refine ok_ask (fun _ _ h => nomatch h) h fun _ w h => ?_
  refine ok_ask (fun _ _ h => nomatch h) h fun _ w h => ?_
  refine ok_andThen (ok_setPaused h) fun later w _ h => ?_
  refine ok_post h hpaused (fun other hp => ⟨g, ?_⟩) fun _ w h => ?_
  · rcases hp with hp | hp
    · cases hp
      exact hg.mono.mono.mono.mono
    · cases hp
  · refine ok_post h hpaused (fun other hp => ⟨g, ?_⟩) fun subscription w h => ?_
    · rcases hp with hp | hp
      · cases hp
      · cases hp
        exact hg.mono.mono.mono.mono.mono
    · split
      · exact ok_done h
      · split
        · exact ok_done h
        · split
          · exact ok_done h
          · refine ok_post h hpaused (fun _ hp => hp.elim (nomatch ·) (nomatch ·)) fun _ w h => ?_
            split
            · exact ok_done h
            · exact ok_andThen (ok_setPaused h) fun later w _ h => ok_done h

theorem ok_subscribeFuturesUsdt {account : FuturesAccount} {ip : String}
    (hpaused : ¬Paused start.memory source.id)
    (hasked : ∃ w w', (⟨w, .futuresAccount source.id, .ok account, w'⟩ : AutoEvent) ∈ es)
    (h : RoundOk parse source start es) :
    Ok parse source start (subscribeFuturesUsdt parse source (settingsOf start.memory source.id)
      account ip) es w := by
  refine ok_check h fun funds hfunds => ?_
  dsimp only
  split
  · exact ok_done h
  · refine ok_check h fun margins hmargins => ?_
    split
    · exact ok_done h
    · refine ok_ask (fun _ _ h => nomatch h) h fun quota w' h => ?_
      refine ok_check h fun left hleft => ?_
      split
      · exact ok_done h
      · next hcents =>
        rw [not_or, not_lt, not_le] at hcents
        obtain ⟨hwallet, hwithdrawable, hheadroom, hremaining, hcap⟩ :=
          roundAmountCents_le hcents.1 rfl
        obtain ⟨v, v', hasked⟩ := hasked
        refine ok_subscribe (g := ⟨account, quota, funds, margins, left,
          roundAmountCents funds.wallet funds.withdrawable margins.1 margins.2 left
            (settingsOf start.memory source.id).roundCapUsdt
            (settingsOf start.memory source.id).reserveUsdt⟩) hpaused ?_ h
        exact {
          askedAccount := ⟨v, v', List.mem_append_left _ hasked⟩
          askedQuota := ⟨w, w', List.mem_append_right _ (List.mem_singleton_self _)⟩
          funds := hfunds
          margins := hmargins
          left := hleft
          text := rfl
          minimum := hcents.1
          trigger := hcents.2
          wallet := hwallet
          withdrawable := hwithdrawable
          headroom := hheadroom
          remaining := hremaining
          cap := hcap }

theorem ok_execute (hpaused : ¬Paused start.memory source.id) (h : RoundOk parse source start es) :
    Ok parse source start (execute parse source (settingsOf start.memory source.id)) es w := by
  refine ok_check h fun _ _ => ?_
  split
  · exact ok_done h
  · refine ok_ask (fun _ _ h => nomatch h) h fun mode w h => ?_
    split
    · exact ok_done h
    · refine ok_ask (fun _ _ h => nomatch h) h fun ip w h => ?_
      refine ok_ask (fun _ _ h => nomatch h) h fun account w' h => ?_
      split
      · exact ok_done h
      · refine ok_andThen (ok_sweepSpotBfusd hpaused h) fun later w'' swept h => ?_
        refine Always.bind (ok_subscribeFuturesUsdt hpaused ⟨w, w', ?_⟩ h) fun es w result h _ =>
          ⟨h, trivial⟩
        exact List.mem_append_left _ (List.mem_append_right _ (List.mem_singleton_self _))

end

theorem roundOk_nil (source : Source) (start : World) : RoundOk parse source start [] :=
  ⟨fun _ he => absurd he List.not_mem_nil, fun _ he => absurd he List.not_mem_nil⟩

theorem ok_run (source : Source) (manual : Bool) (start : World) :
    Ok parse source start (run parse source manual) [] start := by
  refine Always.request (roundOk_nil source start) (fun e w' hT => ?_) fun accounts w' hT => ?_
  · exact ⟨(roundOk_nil source start).snoc (fun _ _ h => nomatch h)
      fun _ _ h => h.elim (nomatch ·) (nomatch ·), trivial⟩
  · have haccounts : accounts = start.memory := by
      cases hT with
      | settings => rfl
      | answered _ _ hop => cases hop
    subst haccounts
    have h : RoundOk parse source start ([] ++ [⟨start, .settings, .ok start.memory, w'⟩]) :=
      (roundOk_nil source start).snoc (fun _ _ h => nomatch h)
        fun _ _ h => h.elim (nomatch ·) (nomatch ·)
    dsimp only
    split
    · exact ok_done h
    · next henabled =>
      have hpaused : ¬Paused start.memory source.id := by
        intro hp
        unfold Paused at hp
        rw [hp, Bool.or_true] at henabled
        exact henabled rfl
      split
      · exact ok_execute hpaused h
      · refine ok_ask (fun _ _ h => nomatch h) h fun due w h => ?_
        split
        · exact ok_done h
        · exact ok_execute hpaused h

/-- A round posts for its own account only, not while it is paused, and spends only what its
answers justify, whatever they are and wherever it stops. -/
theorem round_posts {source : Source} {manual : Bool} {w w' : World} {es : List AutoEvent}
    (hperform : Perform parse (.run source manual) w es w') : RoundOk parse source w es := by
  cases hperform with
  | run hr => exact ((ok_run source manual w).runs hr).1

theorem Runs.head {α : Type} {x : Round α} {w w' : World} {e : AutoEvent} {es : List AutoEvent}
    {result : Option (Except String α)} (hr : Runs Step w x (e :: es) w' result) : e.before = w := by
  cases hr with
  | ask _ _ => rfl

theorem Perform.head {action : Action} {w w' : World} {e : AutoEvent} {es : List AutoEvent}
    (hperform : Perform parse action w (e :: es) w') : e.before = w := by
  cases hperform with
  | save hr => exact Runs.head hr
  | resume hr => exact Runs.head hr
  | run hr => exact Runs.head hr

def Op.NoPost (op : Op) : Prop := ∀ a request, op ≠ .post a request

/-- A change of the settings posts nothing. -/
theorem asks_change (change : Accounts → Accounts) :
    Asks Op.NoPost (do
      let accounts : Accounts ← request Op.settings
      request (Op.persist (change accounts)) : Round Unit) := by
  refine ⟨fun _ _ h => (nomatch h), fun answer => ?_⟩
  cases answer with
  | ok accounts => exact ⟨fun _ _ h => (nomatch h), fun _ => trivial⟩
  | error e => exact trivial

theorem not_post_of_perform {action : Action} {w w' : World} {es : List AutoEvent}
    (hperform : Perform parse action w es w') (haction : ∀ source manual, action ≠ .run source manual) :
    ∀ e ∈ es, e.op.NoPost := by
  cases hperform with
  | @save a settings _ _ _ _ hr =>
    refine Asks.runs ?_ hr
    refine Asks.andThen ?_ fun _ => asks_change fun accounts => accounts.insert a
      { settings with paused := (accounts[a]?).any AccountSettings.paused }
    exact trivial
  | @resume a _ _ _ _ hr =>
    exact Asks.runs (asks_change fun accounts => accounts.insert a
      { settingsOf accounts a with paused := false }) hr
  | run _ => exact absurd rfl (haction _ _)
  | restart => exact fun e he => absurd he List.not_mem_nil

/-- Where the actions of a history begin. -/
theorem History.start {w₀ w : World} {h : List (Action × List AutoEvent)}
    (hh : History parse w₀ h w) (hstart : w₀.memory = w₀.file)
    (hsynced : ∀ act ∈ h, ∀ e ∈ act.2, Synced e) :
    ∀ act ∈ h, ∃ start finish, start.memory = start.file ∧ Perform parse act.1 start act.2 finish := by
  induction hh with
  | nil => exact fun act hact => absurd hact List.not_mem_nil
  | snoc hh hperform ih =>
    have hbefore := fun act hact => hsynced act (List.mem_append_left _ hact)
    intro act hact
    rcases List.mem_append.1 hact with hact | hact
    · exact ih hbefore act hact
    · rw [List.mem_singleton.1 hact]
      exact ⟨_, _, (hh.good hstart hbefore).synced, hperform⟩

/-- As long as a failing write leaves the file as it was: from the first POST of a sequence until
it completes or the account is resumed, the account is paused in the file; the flag is cleared only
then; and an account that is paused in the file when an action begins gets no POST from it.  A
history may stop anywhere, so this speaks of every moment. -/
theorem failStop {w₀ w : World} {h : List (Action × List AutoEvent)} (hh : History parse w₀ h w)
    (hstart : w₀.memory = w₀.file) (hsynced : ∀ act ∈ h, ∀ e ∈ act.2, Synced e) :
    (∀ a, stage parse a (entries h) ≠ .idle → Paused w.file a) ∧
    (∀ before entry after, entries h = before ++ entry :: after → ∀ a,
      (∀ request, entry.2.op = .post a request → Paused entry.2.before.file a) ∧
      (Paused entry.2.before.file a → ¬Paused entry.2.after.file a →
        entry.1 = .resume a ∨ Completed parse a entry.1 before)) ∧
    ∀ act ∈ h, ∀ first rest, act.2 = first :: rest → ∀ a, Paused first.before.file a →
      ∀ e ∈ act.2, ∀ request, e.op ≠ .post a request := by
  have hgood := hh.good hstart hsynced
  refine ⟨hgood.pending, fun before entry after heq a =>
    ⟨hgood.posts before entry after heq a, hgood.cleared before entry after heq a⟩, ?_⟩
  rintro ⟨action, es⟩ hact first rest rfl a hpaused e he request hop
  obtain ⟨start, finish, hmemory, hperform⟩ := hh.start hstart hsynced _ hact
  have hfirst : first.before = start := hperform.head
  cases action with
  | run source manual =>
    obtain ⟨rfl, hnot⟩ := (round_posts hperform).posts e he a request hop
    rw [hmemory, ← hfirst] at hnot
    exact hnot hpaused
  | _ =>
    exact not_post_of_perform hperform (fun _ _ h => nomatch h) e he a request hop

end

/-! A round that stops when its first POST times out, and the start after it. -/

def startedAccounts : Accounts :=
  ({} : Accounts).insert "a" { AccountSettings.default with enabled := true }

def pausedAccounts : Accounts :=
  startedAccounts.insert "a" { settingsOf startedAccounts "a" with paused := true }

def stoppedSource : Source := ⟨"a", "binance-futures", true⟩

def standardAccount : FuturesAccount := ⟨some true, none, none, none⟩

def spotBfusd : SpotAccount := ⟨some [⟨some "BFUSD", none, none, some (.text "1.5")⟩]⟩

def parseSample (text : String) : Option (Option ℚ) :=
  if text = "1.5" then some (some (3 / 2))
  else if text = "250.01" then some (some (Binary64.round (25001 / 100)))
  else none

def quietEvent (w : World) (op : Op) (answer : op.Reply) : AutoEvent := ⟨w, op, .ok answer, w⟩

def stoppedEvents : List AutoEvent :=
  let w : World := ⟨startedAccounts, startedAccounts⟩
  let v : World := ⟨pausedAccounts, pausedAccounts⟩
  [quietEvent w .settings startedAccounts, quietEvent w (.mode "a") (some "standard"),
    quietEvent w (.connect "a") "10.0.0.1", quietEvent w (.futuresAccount "a") standardAccount,
    quietEvent w (.spotAccount "a") spotBfusd,
    quietEvent w (.reservePost "/sapi/v1/asset/transfer") (),
    quietEvent w .settings startedAccounts, ⟨w, .persist pausedAccounts, .ok (), v⟩,
    quietEvent v (.post "a" (.sweep "1.5")) ⟨none, none, none⟩]

theorem settingsOf_started : settingsOf startedAccounts stoppedSource.id =
    { AccountSettings.default with enabled := true } := by
  decide +kernel

theorem validateSettings_started :
    validateSettings (settingsOf startedAccounts stoppedSource.id) = .ok () := by
  rw [settingsOf_started]
  decide +kernel

/-- The flag is written to the file and then to the memory. -/
theorem setPaused_run (accounts : Accounts) (paused : Bool) :
    let accounts' := accounts.insert "a" { settingsOf accounts "a" with paused }
    Runs Step ⟨accounts, accounts⟩ (setPaused "a" paused)
      [quietEvent ⟨accounts, accounts⟩ .settings accounts,
        ⟨⟨accounts, accounts⟩, .persist accounts', .ok (), ⟨accounts', accounts'⟩⟩]
      ⟨accounts', accounts'⟩ (some (.ok ())) :=
  Runs.request (.settings _) (.ask (.persisted _ _) (.done _ _))

theorem stopped_run : Perform parseSample (.run stoppedSource true)
    ⟨startedAccounts, startedAccounts⟩ stoppedEvents ⟨pausedAccounts, pausedAccounts⟩ := by
  refine .run (?_ : Runs Step _ _ _ _ none)
  refine Runs.request (.settings _) ?_
  have hsweep : spotBfusdTransferAmount parseSample spotBfusd = .ok (some "1.5") := by
    decide +kernel
  dsimp only
  rw [if_neg (by rw [settingsOf_started]; decide), if_pos rfl]
  unfold execute
  refine Runs.check validateSettings_started ?_
  rw [if_neg (by decide)]
  apply Runs.request (Step.answered _ _ _ rfl)
  rw [if_neg (by decide +kernel)]
  apply Runs.request (Step.answered _ _ _ rfl)
  apply Runs.request (Step.answered _ _ _ rfl)
  rw [if_neg (by decide)]
  refine Runs.stopped_andThen (?_ : Runs Step _ _ _ _ none) rfl
  apply Runs.request (Step.answered _ _ _ rfl)
  rw [hsweep]
  apply Runs.request (Step.answered _ _ _ rfl)
  refine Runs.andThen (setPaused_run startedAccounts true) ?_
  exact .ask (Step.answered _ _ _ (by rfl)) (.stopped _ _)

theorem stopped_synced : ∀ e ∈ stoppedEvents, Synced e := by
  simp [stoppedEvents, quietEvent, Synced]

theorem failStop_stopped : ∃ w,
    History parseSample ⟨startedAccounts, startedAccounts⟩
      [(.run stoppedSource true, stoppedEvents), (.restart, [])] w ∧ Paused w.file "a" := by
  have hh : History parseSample ⟨startedAccounts, startedAccounts⟩
      ([] ++ [(.run stoppedSource true, stoppedEvents)] ++ [(.restart, [])])
      ⟨pausedAccounts, pausedAccounts⟩ :=
    ((History.nil _).snoc stopped_run).snoc (.restart _)
  refine ⟨_, hh, (failStop hh rfl ?_).1 "a" (by decide +kernel)⟩
  simp only [List.nil_append, List.cons_append, List.forall_mem_cons]
  exact ⟨stopped_synced, fun e he => absurd he List.not_mem_nil,
    fun act hact => absurd hact List.not_mem_nil⟩

/-! A round that spends 250.01 USDT. -/

def richAccount : FuturesAccount where
  multiAssetsMargin := some true
  assets := some [⟨some "USDT", some (.text "250.01"), some (.text "250.01"), none⟩]
  totalMarginBalance := some (.number 1000)
  totalMaintMargin := some (.number 10)

def noBfusd : SpotAccount := ⟨some []⟩

def openQuota : Quota := ⟨some (some (.number 9000))⟩

def purchased : Posted := ⟨none, some true, some "250.01"⟩

def resumedAccounts : Accounts :=
  pausedAccounts.insert "a" { settingsOf pausedAccounts "a" with paused := false }

/-- What the subscription asks for and posts. -/
def subscribeEvents (w v u : World) : List AutoEvent :=
  [quietEvent w (.reservePost "/sapi/v1/asset/transfer") (),
    quietEvent w (.reservePost "/sapi/v1/bfusd/subscribe") (),
    quietEvent w (.reservePost "/sapi/v1/asset/transfer") (),
    quietEvent w .settings startedAccounts, ⟨w, .persist pausedAccounts, .ok (), v⟩,
    quietEvent v (.post "a" (.outbound "250.01")) ⟨some 1, none, none⟩,
    quietEvent v (.post "a" (.purchase "250.01")) purchased,
    quietEvent v (.post "a" (.inbound "250.01")) ⟨some 2, none, none⟩,
    quietEvent v .settings pausedAccounts, ⟨v, .persist resumedAccounts, .ok (), u⟩]

def startedWorld : World := ⟨startedAccounts, startedAccounts⟩

def resumedWorld : World := ⟨resumedAccounts, resumedAccounts⟩

def spentEvents : List AutoEvent :=
  quietEvent startedWorld (.quota "a") openQuota ::
    subscribeEvents startedWorld ⟨pausedAccounts, pausedAccounts⟩ resumedWorld

def spendingEvents : List AutoEvent :=
  [quietEvent startedWorld .settings startedAccounts,
    quietEvent startedWorld (.mode "a") (some "standard"),
    quietEvent startedWorld (.connect "a") "10.0.0.1",
    quietEvent startedWorld (.futuresAccount "a") richAccount,
    quietEvent startedWorld (.spotAccount "a") noBfusd] ++ spentEvents

theorem subscribe_run :
    Runs Step ⟨startedAccounts, startedAccounts⟩
      (subscribe parseSample stoppedSource "10.0.0.1" "250.01")
      (subscribeEvents ⟨startedAccounts, startedAccounts⟩ ⟨pausedAccounts, pausedAccounts⟩
        ⟨resumedAccounts, resumedAccounts⟩)
      ⟨resumedAccounts, resumedAccounts⟩
      (some (.ok (.subscribed "250.01" "250.01" "10.0.0.1" 0))) := by
  have hfee : subscriptionFee parseSample "250.01" "250.01" = .ok 0 := by decide +kernel
  unfold subscribe
  apply Runs.request (Step.answered _ _ _ rfl)
  apply Runs.request (Step.answered _ _ _ rfl)
  apply Runs.request (Step.answered _ _ _ rfl)
  refine Runs.andThen (setPaused_run startedAccounts true) ?_
  apply Runs.request (Step.answered _ _ _ rfl)
  apply Runs.request (Step.answered _ _ _ rfl)
  rw [if_neg (by decide)]
  have hbfusd : purchased.bfusdAmount = some "250.01" := rfl
  simp only [hbfusd, hfee]
  apply Runs.request (Step.answered _ _ _ rfl)
  rw [if_neg (lt_irrefl 0)]
  exact Runs.andThen (setPaused_run pausedAccounts false) (.done _ _)

theorem subscribeFuturesUsdt_run :
    Runs Step startedWorld
      (subscribeFuturesUsdt parseSample stoppedSource (settingsOf startedAccounts stoppedSource.id)
        richAccount "10.0.0.1")
      spentEvents resumedWorld (some (.ok (.subscribed "250.01" "250.01" "10.0.0.1" 0))) := by
  have hfunds : usdtFunds parseSample richAccount =
      .ok ⟨Binary64.round (25001 / 100), Binary64.round (25001 / 100)⟩ := by
    decide +kernel
  have hmargins : marginOf parseSample richAccount = .ok (1000, 10) := by decide +kernel
  have hleft : leftQuota parseSample openQuota = .ok 9000 := by decide +kernel
  have hcents : roundAmountCents (Binary64.round (25001 / 100)) (Binary64.round (25001 / 100))
      1000 10 9000 AccountSettings.default.roundCapUsdt AccountSettings.default.reserveUsdt =
        25001 := by
    decide +kernel
  have htext : amountText 25001 = "250.01" := by decide +kernel
  rw [settingsOf_started]
  refine Runs.check hfunds ?_
  dsimp only
  rw [if_neg (by decide +kernel)]
  refine Runs.check hmargins ?_
  rw [if_neg (by decide +kernel)]
  apply Runs.request (Step.answered _ _ _ rfl)
  refine Runs.check hleft ?_
  dsimp only
  rw [hcents, if_neg (by decide +kernel), htext]
  exact subscribe_run

theorem spending_run :
    Perform parseSample (.run stoppedSource true) startedWorld spendingEvents resumedWorld := by
  have hsweep : Runs Step startedWorld (sweepSpotBfusd parseSample stoppedSource)
      [quietEvent startedWorld (.spotAccount "a") noBfusd] startedWorld (some (.ok none)) :=
    .ask (Step.answered _ _ _ (by rfl)) (.done _ _)
  refine .run (?_ : Runs Step _ _ _ _ (some (.ok (.subscribed "250.01" "250.01" "10.0.0.1" 0))))
  refine Runs.request (.settings _) ?_
  dsimp only
  rw [if_neg (by
    show ¬(!stoppedSource.enabled || !(settingsOf startedAccounts stoppedSource.id).enabled ||
      (settingsOf startedAccounts stoppedSource.id).paused) = true
    rw [settingsOf_started]
    decide), if_pos rfl]
  unfold execute
  refine Runs.check validateSettings_started ?_
  rw [if_neg (by decide)]
  apply Runs.request (Step.answered _ _ _ rfl)
  rw [if_neg (by decide +kernel)]
  apply Runs.request (Step.answered _ _ _ rfl)
  apply Runs.request (Step.answered _ _ _ rfl)
  rw [if_neg (by decide)]
  exact Runs.andThen hsweep subscribeFuturesUsdt_run.map

theorem round_posts_spending :
    RoundOk parseSample stoppedSource startedWorld spendingEvents :=
  round_posts spending_run

end CtaManager.Treasury
