import CtaManager.Library.Steps
import CtaManager.Nav.JournalRefresh

/-!
Runs of the journal and of the disk it reads.

Between the refreshes the files grow, appear, are replaced, cut short and deleted, and so
are their directories.  After every refresh that succeeds the published roles are those of
the full read; a refresh that fails publishes nothing, and one that a line stopped is at
that line again next time (`journal_refresh`).  The runs are those in which a file that was
cut below its offset has not grown back to it when it is read again (`Allowed`): the journal
tells a file that was cut from one that was not by its length alone.  `Watched` keeps the files
that have grown back beside the system.
-/

namespace CtaManager.FillRecovery

open Check Lines FirstKept Steps

structure JournalSystem where
  disk : String → Directory
  journal : LiquidityJournal

inductive JournalEvent
  | append (dir path : String) (chunk : List UInt8)
  /-- A file appears, or another file takes its place. -/
  | put (dir path : String) (content : Content)
  | truncate (dir path : String) (length : Nat)
  | remove (dir path : String)
  | removeDirectory (dir : String)
  | refresh (faults : Faults) (scope : Scope)

namespace JournalSystem

variable (reader : JournalReader)

def file (system : JournalSystem) (dir path : String) : Option Content :=
  (system.disk dir).bind fun entries => entries[path]?

def editDirectory (system : JournalSystem) (dir : String) (f : Directory → Directory) :
    JournalSystem :=
  { system with disk := Function.update system.disk dir (f (system.disk dir)) }

/-- The bytes of a file that is there. -/
def editFile (path : String) (f : List UInt8 → List UInt8) : Directory → Directory
  | none => none
  | some entries =>
    match entries[path]? with
    | none => some entries
    | some content => some (entries.insert path { content with bytes := f content.bytes })

def step (system : JournalSystem) : JournalEvent → JournalSystem
  | .append dir path chunk => system.editDirectory dir (editFile path (· ++ chunk))
  | .put dir path content =>
    system.editDirectory dir fun directory => some ((directory.getD ∅).insert path content)
  | .truncate dir path length => system.editDirectory dir (editFile path (·.take length))
  | .remove dir path => system.editDirectory dir (Option.map (·.erase path))
  | .removeDirectory dir => system.editDirectory dir fun _ => none
  | .refresh faults scope =>
    { system with
      journal := (system.journal.refresh reader faults (system.disk scope.dir) scope).1 }

/-- What the journal holds of a file. -/
def recorded (system : JournalSystem) (dir path : String) : Option JournalFile :=
  if (system.journal.scope.map Scope.dir) = some dir then system.journal.files[path]? else none

/-- The journal would read on from its offset: the file has the inode and the length for it. -/
def intact (system : JournalSystem) (dir path : String) : Bool :=
  match system.recorded dir path, system.file dir path with
  | some state, some content =>
    state.identity == content.identity && decide (state.offset ≤ content.bytes.length)
  | _, _ => false

/-- The event reads the file. -/
def reads (system : JournalSystem) (dir path : String) : JournalEvent → Bool
  | .refresh faults scope =>
    decide (scope.dir = dir) &&
      (system.journal.opened reader faults (system.disk dir) scope).contains path
  | _ => false

/-- The event puts a file in the place. -/
def replaces (dir path : String) : JournalEvent → Bool
  | .put dir' path' _ => decide (dir' = dir) && decide (path' = path)
  | _ => false

/-- The system, and beside it the files that the journal would read on although they were cut
below its offset, replaced or deleted since it read them. -/
structure Watched where
  system : JournalSystem
  regrown : String → String → Bool

namespace Watched

def start (disk : String → Directory) : Watched := ⟨⟨disk, .empty⟩, fun _ _ => false⟩

def step (watched : Watched) (event : JournalEvent) : Watched where
  system := watched.system.step reader event
  regrown dir path :=
    (watched.system.step reader event).intact dir path &&
      !watched.system.reads reader dir path event &&
      (watched.regrown dir path || !watched.system.intact dir path || replaces dir path event)

/-- A file that was cut below its offset has not grown back to it when it is read, and a file
that has taken its place has another inode. -/
def Allowed (watched : Watched) : JournalEvent → Prop
  | .refresh faults scope =>
    ∀ path ∈ watched.system.journal.opened reader faults (watched.system.disk scope.dir) scope,
      watched.regrown scope.dir path = false
  | _ => True

instance (watched : Watched) (event : JournalEvent) :
    Decidable (watched.Allowed reader event) := by
  cases event <;> (unfold Allowed; infer_instance)

/-- The journal holds what was read of the files that are still there, but for those that have
grown back. -/
def Sound (watched : Watched) : Prop :=
  ∀ scope, watched.system.journal.scope = some scope → ∀ (path : String) state content,
    isJournal path = true → watched.regrown scope.dir path = false →
    watched.system.journal.files[path]? = some state →
    watched.system.file scope.dir path = some content → state.Current reader scope content

end Watched

/-! ## The files after one step -/

section

variable (system : JournalSystem) (dir path : String)

theorem file_editDirectory_self (f : Directory → Directory) (path' : String) :
    (system.editDirectory dir f).file dir path' =
      (f (system.disk dir)).bind fun entries => entries[path']? := by
  show (Function.update system.disk dir _ dir).bind _ = _
  rw [Function.update_self]

theorem file_editDirectory_of_ne (f : Directory → Directory) {dir' : String} (h : dir' ≠ dir)
    (path' : String) :
    (system.editDirectory dir f).file dir' path' = system.file dir' path' := by
  show (Function.update system.disk dir _ dir').bind _ = _
  rw [Function.update_of_ne h]
  rfl

theorem file_editFile_self (f : List UInt8 → List UInt8) :
    (system.editDirectory dir (editFile path f)).file dir path =
      (system.file dir path).map fun content => { content with bytes := f content.bytes } := by
  rw [file_editDirectory_self]
  unfold file editFile
  cases system.disk dir with
  | none => rfl
  | some entries =>
    simp only [Option.bind_some]
    cases hcontent : entries[path]? with
    | none => simp [hcontent]
    | some content => simp

theorem file_editFile_of_ne (f : List UInt8 → List UInt8) {path' : String} (h : path' ≠ path) :
    (system.editDirectory dir (editFile path f)).file dir path' = system.file dir path' := by
  rw [file_editDirectory_self]
  unfold file editFile
  cases system.disk dir with
  | none => rfl
  | some entries =>
    simp only [Option.bind_some]
    cases hcontent : entries[path]? with
    | none => rfl
    | some content =>
      show (entries.insert path _)[path']? = _
      rw [OrdMap.getElem?_insert_of_key, if_neg (Ne.symm h)]

theorem file_put (content : Content) (path' : String) :
    (system.editDirectory dir fun directory =>
        some ((directory.getD ∅).insert path content)).file dir path' =
      if path' = path then some content else system.file dir path' := by
  rw [file_editDirectory_self]
  unfold file
  simp only [Option.bind_some]
  rw [OrdMap.getElem?_insert_of_key]
  by_cases h : path' = path
  · rw [if_pos h, if_pos h.symm]
  · rw [if_neg h, if_neg (Ne.symm h)]
    cases system.disk dir with
    | none => simp
    | some entries => rfl

theorem file_remove (path' : String) :
    (system.editDirectory dir (Option.map (·.erase path))).file dir path' =
      if path' = path then none else system.file dir path' := by
  rw [file_editDirectory_self]
  unfold file
  cases system.disk dir with
  | none => simp
  | some entries =>
    show (entries.erase path)[path']? = if path' = path then none else entries[path']?
    simp only [Std.ExtTreeMap.getElem?_erase, Std.compare_eq_iff_eq]
    by_cases h : path' = path
    · rw [if_pos h, if_pos h.symm]
    · rw [if_neg h, if_neg (Ne.symm h)]

end

/-- The event is about the file or its directory. -/
def Touches (dir path : String) : JournalEvent → Prop
  | .append dir' path' _ => dir' = dir ∧ path' = path
  | .put dir' path' _ => dir' = dir ∧ path' = path
  | .truncate dir' path' _ => dir' = dir ∧ path' = path
  | .remove dir' path' => dir' = dir ∧ path' = path
  | .removeDirectory dir' => dir' = dir
  | .refresh _ _ => False

theorem file_step_of_not_touches {system : JournalSystem} {event : JournalEvent}
    {dir path : String} (h : ¬Touches dir path event) :
    (system.step reader event).file dir path = system.file dir path := by
  have hedit : ∀ (dir' path' : String) (f : Directory → Directory), ¬(dir' = dir ∧ path' = path) →
      (path' ≠ path → (system.editDirectory dir f).file dir path = system.file dir path) →
      (system.editDirectory dir' f).file dir path = system.file dir path := by
    intro dir' path' f hne hsame
    by_cases hdir : dir = dir'
    · subst hdir
      exact hsame fun hpath => hne ⟨rfl, hpath⟩
    · exact file_editDirectory_of_ne system dir' f hdir path
  cases event with
  | append dir' path' chunk =>
    exact hedit dir' path' _ h fun hne => file_editFile_of_ne system dir path' _ hne.symm
  | put dir' path' content =>
    exact hedit dir' path' _ h fun hne =>
      (file_put system dir path' content path).trans (if_neg hne.symm)
  | truncate dir' path' length =>
    exact hedit dir' path' _ h fun hne => file_editFile_of_ne system dir path' _ hne.symm
  | remove dir' path' =>
    exact hedit dir' path' _ h fun hne =>
      (file_remove system dir path' path).trans (if_neg hne.symm)
  | removeDirectory dir' =>
    exact file_editDirectory_of_ne system dir' (fun _ => none) (Ne.symm h) path
  | refresh faults scope => rfl

theorem recorded_of_scope {system : JournalSystem} {scope : Scope}
    (h : system.journal.scope = some scope) (path : String) :
    system.recorded scope.dir path = system.journal.files[path]? := by
  unfold recorded
  rw [h]
  exact if_pos rfl

/-- What a disk event does to a file that it does not replace: bytes are added, or the last
ones taken. -/
theorem file_step {system : JournalSystem} {event : JournalEvent} {dir path : String}
    {content : Content} (hreplaces : replaces dir path event = false)
    (hcontent : (system.step reader event).file dir path = some content) :
    ∃ old, system.file dir path = some old ∧ content.identity = old.identity ∧
      ((∃ chunk, content.bytes = old.bytes ++ chunk) ∨
        ∃ length, content.bytes = old.bytes.take length) := by
  by_cases htouches : Touches dir path event
  · cases event with
    | append dir' path' chunk =>
      obtain ⟨rfl, rfl⟩ := htouches
      obtain ⟨old, hold, rfl⟩ := Option.map_eq_some_iff.1
        ((file_editFile_self system dir' path' _).symm.trans hcontent)
      exact ⟨old, hold, rfl, Or.inl ⟨chunk, rfl⟩⟩
    | put dir' path' new =>
      obtain ⟨rfl, rfl⟩ := htouches
      simp [replaces] at hreplaces
    | truncate dir' path' length =>
      obtain ⟨rfl, rfl⟩ := htouches
      obtain ⟨old, hold, rfl⟩ := Option.map_eq_some_iff.1
        ((file_editFile_self system dir' path' _).symm.trans hcontent)
      exact ⟨old, hold, rfl, Or.inr ⟨length, rfl⟩⟩
    | remove dir' path' =>
      obtain ⟨rfl, rfl⟩ := htouches
      have hgone := (file_remove system dir' path' path').trans (if_pos rfl)
      cases hgone.symm.trans hcontent
    | removeDirectory dir' =>
      obtain rfl : dir' = dir := htouches
      cases (file_editDirectory_self system dir' (fun _ => none) path).symm.trans hcontent
    | refresh faults scope => exact absurd htouches not_false
  · rw [file_step_of_not_touches reader htouches] at hcontent
    exact ⟨content, hcontent, rfl, Or.inl ⟨[], (List.append_nil _).symm⟩⟩

theorem intact_iff {system : JournalSystem} {dir path : String} :
    system.intact dir path = true ↔ ∃ state content, system.recorded dir path = some state ∧
      system.file dir path = some content ∧ state.identity = content.identity ∧
      state.offset ≤ content.bytes.length := by
  unfold intact
  cases system.recorded dir path <;> cases system.file dir path <;> simp

/-! ## What every run keeps -/

variable {reader}

namespace Watched

theorem run_system (watched : Watched) (events : List JournalEvent) :
    (run (step reader) watched events).system =
      run (JournalSystem.step reader) watched.system events :=
  (List.foldl_hom Watched.system fun _ _ => rfl).symm

theorem sound_start (disk : String → Directory) : Sound reader (start disk) := by
  intro scope h
  cases h

/-- The states of the files that have not grown back can be read on. -/
theorem Sound.synced {watched : Watched} (h : Sound reader watched) (scope : Scope) :
    ∀ entries, watched.system.disk scope.dir = some entries →
      Synced reader scope (fun path => watched.regrown scope.dir path = false)
        (watched.system.journal.rescope scope).files entries := by
  intro entries hentries path state content hregrown hstate hcontent
  obtain ⟨hscope, hstate⟩ := scope_of_rescope hstate
  obtain ⟨hentry, hname⟩ := journalFiles_eq_some.1 hcontent
  refine h scope hscope path state content hname hregrown hstate ?_
  unfold file
  rw [hentries]
  exact hentry

/-- A file that would be read on after a disk event, and has not grown back, would have been
read on before it. -/
theorem Sound.disk {watched : Watched} {event : JournalEvent} (h : Sound reader watched)
    (hjournal : (watched.system.step reader event).journal = watched.system.journal)
    (hreads : ∀ dir path, watched.system.reads reader dir path event = false) :
    Sound reader (watched.step reader event) := by
  intro scope hscope path state content hname hregrown hstate hcontent hidentity hlength
  have hscope : watched.system.journal.scope = some scope := hjournal ▸ hscope
  have hstate : watched.system.journal.files[path]? = some state := hjournal ▸ hstate
  have hintact : (watched.system.step reader event).intact scope.dir path = true := by
    refine intact_iff.2 ⟨state, content, ?_, hcontent, hidentity, hlength⟩
    rw [recorded_of_scope (hjournal.symm ▸ hscope), hjournal]
    exact hstate
  have hkept : watched.regrown scope.dir path = false ∧
      watched.system.intact scope.dir path = true ∧ replaces scope.dir path event = false := by
    simpa [Watched.step, hintact, hreads, and_assoc] using hregrown
  obtain ⟨hbefore, hthere, hreplaces⟩ := hkept
  obtain ⟨old, hold, hsame, hbytes⟩ := file_step reader hreplaces hcontent
  obtain ⟨state', old', hstate', hold', hidentity', hlength'⟩ := intact_iff.1 hthere
  rw [recorded_of_scope hscope, hstate] at hstate'
  rw [hold] at hold'
  cases hstate'
  cases hold'
  have hreads := h scope hscope path state old hname hbefore hstate hold hidentity' hlength'
  rcases hbytes with ⟨chunk, hbytes⟩ | ⟨length, hbytes⟩
  · rw [hbytes]
    exact hreads.append
  · rw [hbytes, List.length_take] at hlength
    rw [hbytes]
    exact hreads.take (by omega)

theorem Sound.refresh {watched : Watched} (h : Sound reader watched) (faults : Faults)
    (scope : Scope)
    (hevent : watched.Allowed reader (.refresh faults scope)) :
    RefreshSpec reader faults scope (watched.system.disk scope.dir) watched.system.journal
      (watched.system.journal.refresh reader faults (watched.system.disk scope.dir) scope) :=
  refresh_spec fun entries hentries path state content hopened =>
    h.synced scope entries hentries path state content (hevent path hopened)

theorem Sound.step {watched : Watched} {event : JournalEvent} (h : Sound reader watched)
    (hevent : watched.Allowed reader event) : Sound reader (watched.step reader event) := by
  cases event with
  | refresh faults scope =>
    have hspec := h.refresh faults scope hevent
    intro scope' hscope path state content hname hregrown hstate hcontent hidentity hlength
    have heq : some scope = some scope' := (refresh_scope ..).symm.trans hscope
    cases heq
    have hintact : (watched.system.step reader (.refresh faults scope)).intact scope.dir path =
        true := by
      refine intact_iff.2 ⟨state, content, ?_, hcontent, hidentity, hlength⟩
      exact (recorded_of_scope hscope path).trans hstate
    have htrusted : path ∈ watched.system.journal.opened reader faults
        (watched.system.disk scope.dir) scope ∨ watched.regrown scope.dir path = false := by
      by_contra hnot
      rw [not_or, Bool.not_eq_false] at hnot
      simp [Watched.step, hintact, JournalSystem.reads, hnot.1, hnot.2] at hregrown
    obtain ⟨entries, hentries, hentry⟩ := Option.bind_eq_some_iff.1 hcontent
    have hentries : watched.system.disk scope.dir = some entries := hentries
    exact hspec.synced entries _ hentries (h.synced scope entries hentries) path state content
      htrusted hstate (journalFiles_eq_some.2 ⟨hentry, hname⟩) hidentity hlength
  | _ => exact h.disk rfl fun _ _ => rfl

end Watched

/-! ## A line that stops every refresh -/

/-- The file `path` of the scope is left to grow. -/
def Follows (scope : Scope) (path : String) : JournalEvent → Prop
  | .append _ _ _ => True
  | .put dir path' _ => ¬(dir = scope.dir ∧ path' = path)
  | .truncate dir path' _ => ¬(dir = scope.dir ∧ path' = path)
  | .remove dir path' => ¬(dir = scope.dir ∧ path' = path)
  | .removeDirectory dir => dir ≠ scope.dir
  | .refresh _ _ => True

/-- No other scope is refreshed. -/
def Only (scope : Scope) : JournalEvent → Prop
  | .refresh _ scope' => scope' = scope
  | _ => True

/-- A line of the file `path` fails with `e`, and `state` is what is read before it: of what the
journal has read of the file in this scope, it is all. -/
structure Blocks (reader : JournalReader) (scope : Scope) (path : String) (state : JournalFile)
    (e : JournalError) (system : JournalSystem) : Prop where
  name : isJournal path = true
  unread : system.journal.scope = some scope →
    ∀ state', system.journal.files[path]? = some state' → state' = state
  stuck : ∃ content, system.file scope.dir path = some content ∧
    state.Visited reader scope content ∧ state.Stuck reader scope content.bytes e

/-- The journal is at a line of the file `path` that fails with `e`. -/
structure Waits (reader : JournalReader) (scope : Scope) (path : String) (state : JournalFile)
    (e : JournalError) (system : JournalSystem) : Prop where
  scope_eq : system.journal.scope = some scope
  name : isJournal path = true
  state_eq : system.journal.files[path]? = some state
  stuck : ∃ content, system.file scope.dir path = some content ∧
    state.Visited reader scope content ∧ state.Stuck reader scope content.bytes e

section

variable {scope : Scope} {path : String} {state : JournalFile} {e : JournalError}
  {system : JournalSystem}

theorem Waits.blocks (h : Waits reader scope path state e system) :
    Blocks reader scope path state e system where
  name := h.name
  unread := fun _ state' hstate' => by
    rw [h.state_eq] at hstate'
    cases hstate'
    rfl
  stuck := h.stuck

theorem StoppedAt.waits {entries : OrdMap String Content}
    (h : StoppedAt reader scope system.journal.files entries path state e)
    (hscope : system.journal.scope = some scope) (hentries : system.disk scope.dir = some entries) :
    Waits reader scope path state e system := by
  obtain ⟨content, hcontent, hvisited, hstuck⟩ := h.stuck
  obtain ⟨hentry, hname⟩ := journalFiles_eq_some.1 hcontent
  refine ⟨hscope, hname, h.state_eq, content, ?_, hvisited, hstuck⟩
  unfold file
  rw [hentries]
  exact hentry

/-- A refresh of the scope does not get past the line. -/
theorem Blocks.refresh (h : Blocks reader scope path state e system) (faults : Faults) :
    let out := system.journal.refresh reader faults (system.disk scope.dir) scope
    (out.1.files[path]? = (system.journal.rescope scope).files[path]? ∨
      out.1.files[path]? = some state) ∧
    ∃ e', out.2 = .error e' := by
  obtain ⟨content, hcontent, hvisited, hstuck⟩ := h.stuck
  obtain ⟨entries, hentries, hentry⟩ := Option.bind_eq_some_iff.1 hcontent
  rw [hentries]
  refine refresh_stuck faults (journalFiles_eq_some.2 ⟨hentry, h.name⟩) ?_ hvisited hstuck
  intro state' hstate'
  obtain ⟨hscope, hstate'⟩ := scope_of_rescope hstate'
  exact h.unread hscope state' hstate'

theorem Follows.append_or_not_touches {event : JournalEvent} (h : Follows scope path event) :
    (∃ chunk, event = .append scope.dir path chunk) ∨ ¬Touches scope.dir path event := by
  cases event with
  | append dir path' chunk =>
    by_cases heq : dir = scope.dir ∧ path' = path
    · obtain ⟨rfl, rfl⟩ := heq
      exact Or.inl ⟨chunk, rfl⟩
    · exact Or.inr heq
  | refresh faults scope' => exact Or.inr not_false
  | _ => exact Or.inr h

theorem file_follows {event : JournalEvent} {content : Content}
    (hevent : Follows scope path event) (hcontent : system.file scope.dir path = some content) :
    ∃ chunk, (system.step reader event).file scope.dir path =
      some { content with bytes := content.bytes ++ chunk } := by
  rcases hevent.append_or_not_touches with ⟨chunk, rfl⟩ | hother
  · have hfile := file_editFile_self system scope.dir path (· ++ chunk)
    rw [hcontent] at hfile
    exact ⟨chunk, hfile⟩
  · refine ⟨[], ?_⟩
    rw [file_step_of_not_touches reader hother, hcontent, List.append_nil]

/-- The line is still there after a step that leaves the file to grow. -/
theorem stuck_step {event : JournalEvent} (hevent : Follows scope path event)
    (h : ∃ content, system.file scope.dir path = some content ∧
      state.Visited reader scope content ∧ state.Stuck reader scope content.bytes e) :
    ∃ content, (system.step reader event).file scope.dir path = some content ∧
      state.Visited reader scope content ∧ state.Stuck reader scope content.bytes e := by
  obtain ⟨content, hcontent, hvisited, hstuck⟩ := h
  obtain ⟨chunk, hchunk⟩ := file_follows hevent hcontent
  refine ⟨_, hchunk, ⟨hvisited.identity_eq, hvisited.reads.append⟩, ?_⟩
  exact hstuck.append hvisited.reads.offset_le

theorem Blocks.step {event : JournalEvent} (h : Blocks reader scope path state e system)
    (hevent : Follows scope path event) :
    Blocks reader scope path state e (system.step reader event) := by
  refine ⟨h.name, ?_, stuck_step hevent h.stuck⟩
  cases event with
  | refresh faults scope' =>
    intro hscope state' hstate'
    obtain rfl : scope' = scope := by
      have heq : some scope' = some scope := (refresh_scope ..).symm.trans hscope
      cases heq
      rfl
    rcases (h.refresh faults).1 with hkept | hread
    · obtain ⟨hsame, hstate'⟩ := scope_of_rescope (hkept.symm.trans hstate')
      exact h.unread hsame state' hstate'
    · have heq : some state = some state' := hread.symm.trans hstate'
      cases heq
      rfl
  | _ => exact h.unread

theorem Waits.step {event : JournalEvent} (h : Waits reader scope path state e system)
    (hevent : Follows scope path event) (honly : Only scope event) :
    Waits reader scope path state e (system.step reader event) ∧
      (system.step reader event).journal.roles = system.journal.roles := by
  have hstuck := stuck_step hevent h.stuck
  cases event with
  | refresh faults scope' =>
    obtain rfl : scope' = scope := honly
    obtain ⟨hfiles, e', he⟩ := h.blocks.refresh faults
    rw [rescope_self h.scope_eq, h.state_eq, or_self] at hfiles
    refine ⟨⟨refresh_scope .., h.name, hfiles, hstuck⟩, ?_⟩
    exact (refresh_failed he).trans (congrArg _ (rescope_self h.scope_eq))
  | _ => exact ⟨⟨h.scope_eq, h.name, h.state_eq, hstuck⟩, rfl⟩

theorem Blocks.run (h : Blocks reader scope path state e system) {later : List JournalEvent}
    (hlater : ∀ event ∈ later, Follows scope path event) :
    Blocks reader scope path state e (run (JournalSystem.step reader) system later) := by
  induction later generalizing system with
  | nil => exact h
  | cons event later ih =>
    rw [List.forall_mem_cons] at hlater
    exact ih (h.step hlater.1) hlater.2

theorem Waits.run (h : Waits reader scope path state e system) {later : List JournalEvent}
    (hlater : ∀ event ∈ later, Follows scope path event)
    (honly : ∀ event ∈ later, Only scope event) :
    Waits reader scope path state e (run (JournalSystem.step reader) system later) ∧
      (run (JournalSystem.step reader) system later).journal.roles = system.journal.roles := by
  induction later generalizing system with
  | nil => exact ⟨h, rfl⟩
  | cons event later ih =>
    rw [List.forall_mem_cons] at hlater honly
    obtain ⟨hstep, hroles⟩ := h.step hlater.1 honly.1
    obtain ⟨hrun, hkept⟩ := ih hstep hlater.2 honly.2
    exact ⟨hrun, hkept.trans hroles⟩

end

/-! ## Every run -/

/-- After a refresh that succeeds the published roles are those of the full read.  One that
fails publishes nothing, and the roles stay unless it is the first of another scope; where
no file was refused, either all lines of the files were read and the roles of two files
are at odds, or the journal waits at a line of one file, where every later refresh of the
scope fails for as long as that file is only written on. -/
theorem journal_refresh (reader : JournalReader) (disk : String → Directory)
    (events : List JournalEvent) (faults : Faults) (scope : Scope)
    (hrun : Along (Watched.step reader) (Watched.Allowed reader) (Watched.start disk)
      (events ++ [.refresh faults scope])) :
    let system := run (step reader) ⟨disk, .empty⟩ events
    let directory := system.disk scope.dir
    let out := system.journal.refresh reader faults directory scope
    (∀ roles, out.2 = .ok roles →
      out.1.roles = roles ∧ fullReadOf reader scope directory = .ok roles) ∧
    ∀ e, out.2 = .error e →
      out.1.roles = (if system.journal.scope = some scope then system.journal.roles else ∅) ∧
      (faults.Hit directory ∨
        (∃ entries, directory = some entries ∧ AllRead reader scope out.1.files entries ∧
          ∀ roles, fullRead reader scope entries ≠ .ok roles) ∨
        ∃ path state, Waits reader scope path state e ⟨system.disk, out.1⟩ ∧
          (e ≠ .lineTooLong → ∀ roles, fullReadOf reader scope directory ≠ .ok roles) ∧
          ∀ later, (∀ event ∈ later, Follows scope path event) →
            let final := run (step reader) ⟨system.disk, out.1⟩ later
            (Blocks reader scope path state e final ∧ ∀ faults, ∃ e',
              (final.journal.refresh reader faults (final.disk scope.dir) scope).2 =
                .error e') ∧
            ((∀ event ∈ later, Only scope event) →
              Waits reader scope path state e final ∧
                final.journal.roles = out.1.roles)) := by
  intro system directory out
  rw [along_append] at hrun
  obtain ⟨hbefore, hlast, -⟩ := hrun
  have hsound : Watched.Sound reader (run (Watched.step reader) (Watched.start disk) events) :=
    hbefore.invariant (fun _ _ hs hevent => Watched.Sound.step hs hevent)
      (Watched.sound_start disk)
  have hspec := hsound.refresh faults scope hlast
  rw [Watched.run_system] at hspec
  have hspec : RefreshSpec reader faults scope directory system.journal out := hspec
  refine ⟨hspec.published, fun e he => ⟨?_, ?_⟩⟩
  · rw [refresh_failed he]
    unfold LiquidityJournal.rescope
    by_cases hscope : system.journal.scope = some scope
    · rw [if_pos hscope, if_neg (by simpa using hscope)]
    · rw [if_neg hscope, if_pos (by simpa using hscope)]
      rfl
  · rcases hspec.failed e he with hfault | ⟨entries, hentries, ⟨path, state, hstopped⟩ | hall⟩
    · exact Or.inl hfault
    · have hwaits : Waits reader scope path state e ⟨system.disk, out.1⟩ :=
        StoppedAt.waits hstopped (refresh_scope ..) hentries
      refine Or.inr (Or.inr ⟨path, state, hwaits, fun hshort roles => ?_, fun later hlater => ?_⟩)
      · rw [hentries]
        exact hstopped.not_fullRead hshort roles
      · have hfinal := hwaits.blocks.run hlater
        exact ⟨⟨hfinal, fun faults => (hfinal.refresh faults).2⟩, hwaits.run hlater⟩
    · exact Or.inr (Or.inl ⟨entries, hentries, hall⟩)

section Sample

def sampleRow (transactionId role : String) : String :=
  "\x7b\"message\":\x7b\"channel\":\"Trades\",\"data\":\x7b\"portfolioId\":\"123\"," ++
    "\"exchangeType\":\"BINANCE\",\"transactionId\":\"" ++ transactionId ++
    "\",\"orderId\":\"88\"," ++
    "\"sym\":\"BINANCE_PERP_FIL_USDT\",\"side\":\"SELL\",\"quantity\":\"2.00\"," ++
    "\"price\":\"100.0\",\"createAt\":\"100\",\"execType\":\"" ++ role ++
    "\"\x7d\x7d\x7d\n"

def sampleLine (role : String) : List UInt8 := (sampleRow "a" role).toUTF8.data.toList

/-- Another fill. -/
def secondLine : List UInt8 := (sampleRow "b" "TAKER").toUTF8.data.toList

def sampleValue (transactionId role : String) : Value :=
  .object [("message", .object [("channel", .text "Trades"), ("data", .object
    [("portfolioId", .text "123"), ("exchangeType", .text "BINANCE"),
      ("transactionId", .text transactionId), ("orderId", .text "88"),
      ("sym", .text "BINANCE_PERP_FIL_USDT"), ("side", .text "SELL"), ("quantity", .text "2.00"),
      ("price", .text "100.0"), ("createAt", .text "100"), ("execType", .text role)])])]

/-- A row that is cut off inside. -/
def brokenLine : List UInt8 := "\x7b\"execType\"\n".toUTF8.data.toList

def sampleReader : JournalReader where
  fromSlice := fun line =>
    if line = sampleLine "MAKER" then some (sampleValue "a" "MAKER")
    else if line = sampleLine "TAKER" then some (sampleValue "a" "TAKER")
    else if line = secondLine then some (sampleValue "b" "TAKER")
    else none
  parseF64 := fun s => if s = "2.00" then some 2 else if s = "100.0" then some 100 else none

def sampleScope : Scope := ⟨"journal", "123", "BINANCE"⟩

def noFaults : Faults := ⟨false, fun _ => false⟩

def sampleRun (events : List JournalEvent) : JournalSystem :=
  run (step sampleReader) ⟨fun _ => none, .empty⟩ events

/-- A refresh after the events. -/
def sampleRefresh (events : List JournalEvent) (scope : Scope) :
    LiquidityJournal × Except JournalError Roles :=
  (sampleRun events).journal.refresh sampleReader noFaults ((sampleRun events).disk scope.dir) scope

def rolesOf (roles : Roles) : List (String × FillLiquidity) :=
  roles.toList.map fun p => (p.1, p.2.role)

/-- A file appears whose only row is cut off, and is read. -/
def cutRead : List JournalEvent :=
  [.put "journal" "a.jsonl" ⟨(1, 1), (sampleLine "MAKER").take 50⟩, .refresh noFaults sampleScope]

/-- The rest of the row, and a second file. -/
def completed : List JournalEvent :=
  cutRead ++ [.append "journal" "a.jsonl" ((sampleLine "MAKER").drop 50),
    .put "journal" "b.jsonl" ⟨(1, 2), secondLine⟩]

/-- Both are read, and a row follows that is no JSON. -/
def stopped : List JournalEvent :=
  completed ++ [.refresh noFaults sampleScope, .append "journal" "a.jsonl" brokenLine]

theorem journal_refresh_read :
    ((sampleRefresh cutRead sampleScope).2.toOption.map rolesOf = some [] ∧
      (sampleRefresh completed sampleScope).2.toOption.map rolesOf =
        some [("a", .maker), ("b", .taker)] ∧
      (sampleRefresh stopped sampleScope).2.toOption.map rolesOf = none ∧
      rolesOf (sampleRefresh stopped sampleScope).1.roles = [("a", .maker), ("b", .taker)]) ∧
    (∀ roles, (sampleRefresh completed sampleScope).2 = .ok roles →
      (sampleRefresh completed sampleScope).1.roles = roles ∧
      fullReadOf sampleReader sampleScope ((sampleRun completed).disk "journal") = .ok roles) ∧
    ∀ e, (sampleRefresh stopped sampleScope).2 = .error e →
      (sampleRefresh stopped sampleScope).1.roles = (sampleRun stopped).journal.roles :=
  ⟨by decide +kernel,
    (journal_refresh sampleReader (fun _ => none) completed noFaults sampleScope
      ⟨trivial, by decide +kernel, trivial, trivial, by decide +kernel, trivial⟩).1,
    fun e he => ((journal_refresh sampleReader (fun _ => none) stopped noFaults sampleScope
      ⟨trivial, by decide +kernel, trivial, trivial, by decide +kernel, trivial,
        by decide +kernel, trivial⟩).2 e he).1.trans (if_pos (by decide +kernel))⟩

/-- One file appears and is read. -/
def makerRead : List JournalEvent :=
  [.put "journal" "a.jsonl" ⟨(1, 1), sampleLine "MAKER"⟩, .refresh noFaults sampleScope]

/-- The row is replaced by one of the same length: cut, and written again. -/
def rewritten : List JournalEvent :=
  makerRead ++ [.truncate "journal" "a.jsonl" 0, .append "journal" "a.jsonl" (sampleLine "TAKER")]

/-- Another portfolio reads the directory, and meets a row that is no JSON. -/
def broken : List JournalEvent := makerRead ++ [.append "journal" "a.jsonl" brokenLine]

def otherScope : Scope := ⟨"journal", "456", "BINANCE"⟩

/-- A second file contradicts the first. -/
def contradicted : List JournalEvent :=
  makerRead ++ [.put "journal" "b.jsonl" ⟨(1, 2), sampleLine "TAKER"⟩]

/-- A file cut and grown back between two refreshes is not read again; a refresh that fails
empties the roles of another scope; and two files at odds are read past the lines that
contradict each other. -/
theorem journal_refresh_unseen :
    ((sampleRefresh rewritten sampleScope).2.toOption.map rolesOf = some [("a", .maker)] ∧
      (fullReadOf sampleReader sampleScope ((sampleRun rewritten).disk "journal")).toOption.map
        rolesOf = some [("a", .taker)]) ∧
    ((sampleRefresh broken otherScope).2.toOption = none ∧
      rolesOf (sampleRun broken).journal.roles = [("a", .maker)] ∧
      rolesOf (sampleRefresh broken otherScope).1.roles = []) ∧
    ((sampleRefresh contradicted sampleScope).2.toOption = none ∧
      (sampleRefresh contradicted sampleScope).1.files.toList.map (fun p => (p.1, p.2.offset)) =
        [("a.jsonl", (sampleLine "MAKER").length), ("b.jsonl", (sampleLine "TAKER").length)]) := by
  decide +kernel

end Sample

end JournalSystem
end CtaManager.FillRecovery
