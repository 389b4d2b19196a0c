import CtaManager.Library.Grouping
import CtaManager.Nav.JournalRead

/-!
A refresh of the journal against the files it finds.

`visitAll` reads every file on from its offset (`visitAll_spec`), and the published roles
are those of the full read (`refresh_spec`), provided that a file it reads which still has the
inode and the length to be read on holds what was read of it (`Synced`).
-/

namespace CtaManager.FillRecovery

open Check Lines FirstKept

variable {reader : JournalReader} {scope : Scope}

/-- Where the state would be read on from, it holds what was read. -/
def JournalFile.Current (reader : JournalReader) (scope : Scope) (state : JournalFile)
    (content : Content) : Prop :=
  state.identity = content.identity → state.offset ≤ content.bytes.length →
    state.Reads reader scope content.bytes

/-- What was read of a file that is there. -/
structure JournalFile.Visited (reader : JournalReader) (scope : Scope) (state : JournalFile)
    (content : Content) : Prop where
  identity_eq : state.identity = content.identity
  reads : state.Reads reader scope content.bytes

section

variable {state : JournalFile} {content : Content}

theorem JournalFile.Visited.current (h : state.Visited reader scope content) :
    state.Current reader scope content := fun _ _ => h.reads

theorem JournalFile.current_empty : JournalFile.empty.Current reader scope content :=
  fun _ _ => JournalFile.reads_empty (0, 0)

theorem JournalFile.readTo_visit (h : state.Current reader scope content) :
    ReadTo reader scope content.identity content.bytes (state.visit reader scope content) := by
  unfold JournalFile.visit JournalFile.reopen
  split
  · exact JournalFile.readTo_readLines (JournalFile.reads_empty content.identity) rfl
  · next hkept =>
    simp only [Bool.or_eq_true, bne_iff_ne, ne_eq, decide_eq_true_eq, not_or, not_not,
      not_lt] at hkept
    obtain ⟨hidentity, hlength⟩ := hkept
    rw [← hidentity]
    exact JournalFile.readTo_readLines (h hidentity hlength) rfl

end

/-! ## All files -/

/-- The files that the loop reads: it goes no further than the first one that stops it. -/
def opened (reader : JournalReader) (faults : Faults) (scope : Scope) :
    Files → Listing → List String
  | _, [] => []
  | files, (path, content) :: more =>
    if faults.file path then []
    else
      let state := (files[path]?.getD .empty).visit reader scope content
      path :: match state.2 with
        | .error _ => []
        | .ok () => opened reader faults scope (files.insert path state.1) more

theorem opened_subset (faults : Faults) (files : Files) (listing : Listing) :
    opened reader faults scope files listing ⊆ listing.map Prod.fst := by
  induction listing generalizing files with
  | nil => exact List.Subset.refl _
  | cons entry more ih =>
    obtain ⟨path, content⟩ := entry
    unfold opened
    split
    · exact List.nil_subset _
    · refine List.cons_subset_cons path ?_
      split
      · exact List.nil_subset _
      · exact ih _

/-- What the loop over the files leaves. -/
structure VisitSpec (reader : JournalReader) (faults : Faults) (scope : Scope) (files : Files)
    (listing : Listing) (out : Files × Except JournalError Unit) : Prop where
  kept : ∀ path : String, path ∉ opened reader faults scope files listing →
    out.1[path]? = files[path]?
  seen : ∀ (path : String) content, (path, content) ∈ listing →
    path ∈ opened reader faults scope files listing →
    ∃ state, out.1[path]? = some state ∧ state.Visited reader scope content
  complete : out.2 = .ok () → ∀ (path : String) content, (path, content) ∈ listing →
    ∃ state, out.1[path]? = some state ∧ state.Visited reader scope content ∧
      newline ∉ content.bytes.drop state.offset
  failed : ∀ e, out.2 = .error e →
    (∃ path content, (path, content) ∈ listing ∧ faults.file path = true) ∨
    ∃ (path : String) (content : _), (path, content) ∈ listing ∧
      ∃ state, out.1[path]? = some state ∧ state.Visited reader scope content ∧
        state.Stuck reader scope content.bytes e

theorem visitAll_spec {faults : Faults} {files : Files} {listing : Listing}
    (hnodup : (listing.map Prod.fst).Nodup)
    (hcurrent : ∀ (path : String) content state, (path, content) ∈ listing →
      path ∈ opened reader faults scope files listing → files[path]? = some state →
      state.Current reader scope content) :
    VisitSpec reader faults scope files listing (visitAll reader faults scope files listing) := by
  induction listing generalizing files with
  | nil =>
    exact {
      kept := fun _ _ => rfl
      seen := fun _ _ h => absurd h List.not_mem_nil
      complete := fun _ _ _ h => absurd h List.not_mem_nil
      failed := fun e he => by cases he }
  | cons entry more ih =>
    obtain ⟨path, content⟩ := entry
    rw [List.map_cons, List.nodup_cons] at hnodup
    obtain ⟨hpath, hnodup⟩ := hnodup
    have hne : ∀ (path' : String) content', (path', content') ∈ more → path ≠ path' := by
      rintro path' content' hmem rfl
      exact hpath (List.mem_map.2 ⟨_, hmem, rfl⟩)
    unfold visitAll
    by_cases hfault : faults.file path = true
    · rw [if_pos hfault]
      have hopened : opened reader faults scope files ((path, content) :: more) = [] := by
        unfold opened
        rw [if_pos hfault]
      exact {
        kept := fun _ _ => rfl
        seen := fun _ _ _ h => by
          rw [hopened] at h
          cases h
        complete := fun h => by cases h
        failed := fun e _ => Or.inl ⟨path, content, List.mem_cons_self, hfault⟩ }
    rw [if_neg hfault]
    have hopened : opened reader faults scope files ((path, content) :: more) =
        path :: match ((files[path]?.getD .empty).visit reader scope content).2 with
          | .error _ => []
          | .ok () => opened reader faults scope
              (files.insert path ((files[path]?.getD .empty).visit reader scope content).1) more := by
      conv_lhs => unfold opened
      rw [if_neg hfault]
    have hread : ReadTo reader scope content.identity content.bytes
        ((files[path]?.getD .empty).visit reader scope content) := by
      apply JournalFile.readTo_visit
      cases hstate : files[path]? with
      | none => exact JournalFile.current_empty
      | some state =>
        refine hcurrent path content state List.mem_cons_self ?_ hstate
        rw [hopened]
        exact List.mem_cons_self
    generalize (files[path]?.getD .empty).visit reader scope content = out at hread hopened
    obtain ⟨state, result⟩ := out
    have hvisited : state.Visited reader scope content := ⟨hread.identity_eq, hread.reads⟩
    have hself : (files.insert path state)[path]? = some state := by
      rw [OrdMap.getElem?_insert_of_key, if_pos rfl]
    have hother : ∀ path', path ≠ path' → (files.insert path state)[path']? = files[path']? := by
      intro path' hpath'
      rw [OrdMap.getElem?_insert_of_key, if_neg hpath']
    cases result with
    | error e =>
      have hopened : opened reader faults scope files ((path, content) :: more) = [path] := hopened
      exact {
        kept := fun path' h => hother path' fun heq => h (hopened ▸ heq ▸ List.mem_cons_self)
        seen := fun path' content' h hmem => by
          rw [hopened, List.mem_singleton] at hmem
          rcases List.mem_cons.1 h with heq | h
          · cases heq
            exact ⟨state, hself, hvisited⟩
          · exact absurd hmem.symm (hne path' content' h)
        complete := fun h => by cases h
        failed := fun e' he => Or.inr ⟨path, content, List.mem_cons_self, state, hself, hvisited,
          hread.stuck e' he⟩ }
    | ok u =>
      have hopened : opened reader faults scope files ((path, content) :: more) =
        path :: opened reader faults scope (files.insert path state) more := hopened
      have hspec := @ih (files.insert path state) hnodup fun path' content' state' hmem hread' h =>
        hcurrent path' content' state' (List.mem_cons_of_mem _ hmem)
          (hopened ▸ List.mem_cons_of_mem _ hread')
          ((hother path' (hne path' content' hmem)).symm.trans h)
      have hstays : (visitAll reader faults scope (files.insert path state) more).1[path]? =
          some state :=
        (hspec.kept path fun h => hpath (opened_subset faults _ more h)).trans hself
      exact {
        kept := fun path' h => by
          rw [hopened, List.mem_cons, not_or] at h
          rw [← hother path' (Ne.symm h.1)]
          exact hspec.kept path' h.2
        seen := fun path' content' h hmem => by
          rcases List.mem_cons.1 h with heq | h
          · cases heq
            exact ⟨state, hstays, hvisited⟩
          · rw [hopened, List.mem_cons] at hmem
            rcases hmem with heq | hmem
            · exact absurd heq.symm (hne path' content' h)
            · exact hspec.seen path' content' h hmem
        complete := fun hok path' content' h => by
          rcases List.mem_cons.1 h with heq | h
          · cases heq
            exact ⟨state, hstays, hvisited, hread.complete rfl⟩
          · exact hspec.complete hok path' content' h
        failed := fun e he => by
          rcases hspec.failed e he with ⟨path', content', hmem, hfault'⟩ |
            ⟨path', content', hmem, hstuck⟩
          · exact Or.inl ⟨path', content', List.mem_cons_of_mem _ hmem, hfault'⟩
          · exact Or.inr ⟨path', content', List.mem_cons_of_mem _ hmem, hstuck⟩ }

/-! ## The roles put together -/

theorem mergeLines_iff_values {complete : List (List UInt8)} {m part m' : Roles}
    (hm : Keyed RoleEvidence.key (RoleEvidence.Readable reader) m)
    (hpart : mergeLines reader scope ∅ complete = .ok part) :
    keepAll RoleEvidence.key (checkRole reader) m (values part) = .ok m' ↔
      mergeLines reader scope m complete = .ok m' := by
  obtain ⟨found, hfound, hkeep⟩ := mergeLines_eq_ok_iff.1 hpart
  rw [keepAll_values (checks_role reader) hm hfound.readable hkeep, mergeLines_eq_ok_iff]
  constructor
  · intro h
    exact ⟨found, hfound, h⟩
  · rintro ⟨found', hfound', h⟩
    rwa [hfound.unique hfound']

theorem keyed_mergeLines {complete : List (List UInt8)} {m m' : Roles}
    (hm : Keyed RoleEvidence.key (RoleEvidence.Readable reader) m)
    (h : mergeLines reader scope m complete = .ok m') :
    Keyed RoleEvidence.key (RoleEvidence.Readable reader) m' := by
  obtain ⟨found, hfound, hkeep⟩ := mergeLines_eq_ok_iff.1 h
  exact hm.keepAll (checks_role reader) hfound.readable hkeep

/-- Lines that can be merged into other roles can be merged alone. -/
theorem mergeLines_alone {complete : List (List UInt8)} {m m' : Roles}
    (hm : Keyed RoleEvidence.key (RoleEvidence.Readable reader) m)
    (h : mergeLines reader scope m complete = .ok m') :
    ∃ part, mergeLines reader scope ∅ complete = .ok part := by
  obtain ⟨found, hfound, hkeep⟩ := mergeLines_eq_ok_iff.1 h
  obtain ⟨part, hpart⟩ := keepAll_empty_of_ok (checks_role reader) hm hfound.readable hkeep
  exact ⟨part, mergeLines_eq_ok_iff.2 ⟨found, hfound, hpart⟩⟩

theorem mergeRoles_eq (roles part : Roles) :
    part.toList.foldlM (fun roles role => merge reader roles role.2) roles =
      keepAll RoleEvidence.key (checkRole reader) roles (values part) := by
  unfold keepAll values
  rw [List.foldlM_map, merge_eq_keep]

/-- The files one after the other: their roles, or their lines. -/
theorem rebuild_iff_fullRead {files : List (String × JournalFile)} {listing : Listing}
    (h : List.Forall₂ (fun file entry =>
      mergeLines reader scope ∅ (lines entry.2.bytes) = .ok file.2.roles) files listing)
    {m m' : Roles} (hm : Keyed RoleEvidence.key (RoleEvidence.Readable reader) m) :
    files.foldlM (fun roles file =>
        file.2.roles.toList.foldlM (fun roles role => merge reader roles role.2) roles) m = .ok m' ↔
      listing.foldlM (fun roles file => mergeLines reader scope roles (lines file.2.bytes)) m =
        .ok m' := by
  induction h generalizing m with
  | nil => exact Iff.rfl
  | cons hhead _ ih =>
    rw [foldlM_cons, foldlM_cons, bind_eq_ok, bind_eq_ok]
    refine exists_congr fun mid => ?_
    rw [mergeRoles_eq, mergeLines_iff_values hm hhead]
    exact and_congr_right fun hmid => ih (keyed_mergeLines hm hmid)

/-- A full read that succeeds merges every file. -/
theorem mergeLines_of_fullRead {listing : Listing} {m m' : Roles}
    (hm : Keyed RoleEvidence.key (RoleEvidence.Readable reader) m)
    (h : listing.foldlM (fun roles file => mergeLines reader scope roles (lines file.2.bytes)) m =
      .ok m') :
    ∀ entry ∈ listing, ∃ part, mergeLines reader scope ∅ (lines entry.2.bytes) = .ok part := by
  induction listing generalizing m with
  | nil => exact fun entry hentry => absurd hentry List.not_mem_nil
  | cons head more ih =>
    rw [foldlM_cons] at h
    obtain ⟨mid, hmid, h⟩ := bind_eq_ok.1 h
    rw [List.forall_mem_cons]
    exact ⟨mergeLines_alone hm hmid, ih (keyed_mergeLines hm hmid) h⟩

section

variable {state : JournalFile} {bytes : List UInt8}

/-- A file that was read to its end has the roles of its lines. -/
theorem JournalFile.Reads.all (h : state.Reads reader scope bytes)
    (hrest : newline ∉ bytes.drop state.offset) :
    mergeLines reader scope ∅ (lines bytes) = .ok state.roles := by
  have hlines := lines_append_tail h.whole hrest
  rw [List.take_append_drop] at hlines
  rw [hlines]
  exact h.roles_eq

/-- A line that cannot be merged makes the file one that cannot be read. -/
theorem JournalFile.Reads.not_merged {line rest : List UInt8} {e : JournalError}
    (h : state.Reads reader scope bytes) (hline : IsLine line)
    (hrest : bytes.drop state.offset = line ++ rest)
    (hstuck : mergeLine reader scope state.roles line = .error e) :
    mergeLines reader scope ∅ (lines bytes) = .error e := by
  have hlines : lines bytes = lines (bytes.take state.offset) ++ line :: lines rest := by
    rw [← lines_line_append hline, ← hrest, ← lines_append h.whole, List.take_append_drop]
  have hread : (lines (bytes.take state.offset)).foldlM (mergeLine reader scope) ∅ =
    .ok state.roles := h.roles_eq
  unfold mergeLines
  rw [hlines, foldlM_append, hread, ok_bind, foldlM_cons, hstuck]
  rfl

end

/-! ## One refresh -/

theorem journalFiles_eq_some {entries : OrdMap String Content} {path : String}
    {content : Content} :
    (journalFiles entries)[path]? = some content ↔
      entries[path]? = some content ∧ isJournal path = true := by
  unfold journalFiles
  rw [Std.ExtTreeMap.getElem?_filter']
  exact Option.mem_filter_iff

/-- The states of the files for which `trusted` holds are what was read of those that are
still there. -/
def Synced (reader : JournalReader) (scope : Scope) (trusted : String → Prop) (files : Files)
    (entries : OrdMap String Content) : Prop :=
  ∀ (path : String) state content, trusted path → files[path]? = some state →
    (journalFiles entries)[path]? = some content → state.Current reader scope content

/-- Every file was read to its last newline. -/
def AllRead (reader : JournalReader) (scope : Scope) (files : Files)
    (entries : OrdMap String Content) : Prop :=
  ∀ (path : String) content, (journalFiles entries)[path]? = some content →
    ∃ state, files[path]? = some state ∧ state.Visited reader scope content ∧
      newline ∉ content.bytes.drop state.offset

/-- The file `path` was read up to a line that fails with `e`, and `state` says so. -/
structure StoppedAt (reader : JournalReader) (scope : Scope) (files : Files)
    (entries : OrdMap String Content) (path : String) (state : JournalFile) (e : JournalError) :
    Prop where
  state_eq : files[path]? = some state
  stuck : ∃ content, (journalFiles entries)[path]? = some content ∧
    state.Visited reader scope content ∧ state.Stuck reader scope content.bytes e

/-- The operating system refused the directory or one of its journal files. -/
def Faults.Hit (faults : Faults) (directory : Directory) : Prop :=
  faults.listing = true ∨ ∃ entries, directory = some entries ∧
    ∃ path : String, (journalFiles entries)[path]? ≠ none ∧ faults.file path = true

/-- `fullRead` of a directory that may not be there. -/
def fullReadOf (reader : JournalReader) (scope : Scope) :
    Directory → Except JournalError Roles
  | none => .ok ∅
  | some entries => fullRead reader scope entries

/-- The states that are kept for the files of the directory. -/
def keptFiles (files : Files) (entries : OrdMap String Content) : Files :=
  files.filter fun path _ => (journalFiles entries).contains path

/-- The files that a refresh reads. -/
def LiquidityJournal.opened (reader : JournalReader) (journal : LiquidityJournal)
    (faults : Faults) (directory : Directory) (scope : Scope) : List String :=
  if faults.listing then []
  else match directory with
    | none => []
    | some entries =>
      FillRecovery.opened reader faults scope (keptFiles (journal.rescope scope).files entries)
        (journalFiles entries).toList

structure RefreshSpec (reader : JournalReader) (faults : Faults) (scope : Scope)
    (directory : Directory) (journal : LiquidityJournal)
    (out : LiquidityJournal × Except JournalError Roles) : Prop where
  published : ∀ roles, out.2 = .ok roles →
    out.1.roles = roles ∧ fullReadOf reader scope directory = .ok roles
  synced : ∀ entries trusted, directory = some entries →
    Synced reader scope trusted (journal.rescope scope).files entries →
    Synced reader scope
      (fun path => path ∈ journal.opened reader faults directory scope ∨ trusted path)
      out.1.files entries
  failed : ∀ e, out.2 = .error e → faults.Hit directory ∨
    ∃ entries, directory = some entries ∧
      ((∃ path state, StoppedAt reader scope out.1.files entries path state e) ∨
        AllRead reader scope out.1.files entries ∧
          ∀ roles, fullRead reader scope entries ≠ .ok roles)

theorem rescope_scope (journal : LiquidityJournal) (scope : Scope) :
    (journal.rescope scope).scope = some scope := by
  unfold LiquidityJournal.rescope
  split
  · rfl
  · next h => simpa using h

theorem rescope_self {journal : LiquidityJournal} (h : journal.scope = some scope) :
    journal.rescope scope = journal := by
  unfold LiquidityJournal.rescope
  rw [h, bne_self_eq_false]
  rfl

/-- Another scope starts with no files. -/
theorem scope_of_rescope {journal : LiquidityJournal} {path : String} {state : JournalFile}
    (h : (journal.rescope scope).files[path]? = some state) :
    journal.scope = some scope ∧ journal.files[path]? = some state := by
  unfold LiquidityJournal.rescope at h
  split at h
  · simp [LiquidityJournal.empty] at h
  · next hscope => exact ⟨by simpa using hscope, h⟩

theorem refresh_scope (journal : LiquidityJournal) (faults : Faults) (directory : Directory)
    (scope : Scope) :
    (journal.refresh reader faults directory scope).1.scope = some scope := by
  have hscope := rescope_scope journal scope
  unfold LiquidityJournal.refresh
  simp only
  split
  · exact hscope
  · split
    · exact hscope
    · split
      · exact hscope
      · split <;> exact hscope

/-- A refresh that fails publishes nothing. -/
theorem refresh_failed {journal : LiquidityJournal} {faults : Faults} {directory : Directory}
    {e : JournalError} (he : (journal.refresh reader faults directory scope).2 = .error e) :
    (journal.refresh reader faults directory scope).1.roles = (journal.rescope scope).roles := by
  revert he
  unfold LiquidityJournal.refresh
  simp only
  split
  · exact fun _ => rfl
  · split
    · intro he
      cases he
    · split
      · exact fun _ => rfl
      · split
        · exact fun _ => rfl
        · intro he
          cases he

theorem Synced.kept {trusted : String → Prop} {files : Files} {entries : OrdMap String Content}
    (h : Synced reader scope trusted files entries) :
    Synced reader scope trusted (keptFiles files entries) entries := by
  intro path state content htrusted hstate hcontent
  unfold keptFiles at hstate
  rw [Std.ExtTreeMap.getElem?_filter'] at hstate
  exact h path state content htrusted (Option.mem_filter_iff.1 hstate).1 hcontent

section

variable {faults : Faults} {files : Files} {entries : OrdMap String Content}
  {out : Files × Except JournalError Unit}

/-- The states of the files that are not listed are dropped, then the others are read. -/
theorem visit_journal
    (h : Synced reader scope (· ∈ opened reader faults scope (keptFiles files entries)
      (journalFiles entries).toList) files entries) :
    VisitSpec reader faults scope (keptFiles files entries) (journalFiles entries).toList
      (visitAll reader faults scope (keptFiles files entries) (journalFiles entries).toList) := by
  refine visitAll_spec (OrdMap.nodup_keys_toList _) ?_
  intro path content state hmem hopened hstate
  exact h.kept path state content hopened hstate (OrdMap.mem_toList.1 hmem)

theorem VisitSpec.synced {trusted : String → Prop}
    (h : VisitSpec reader faults scope (keptFiles files entries) (journalFiles entries).toList out)
    (hsynced : Synced reader scope trusted files entries) :
    Synced reader scope (fun path => path ∈ opened reader faults scope (keptFiles files entries)
      (journalFiles entries).toList ∨ trusted path) out.1 entries := by
  intro path state content htrusted hstate hcontent
  by_cases hopened : path ∈ opened reader faults scope (keptFiles files entries)
      (journalFiles entries).toList
  · obtain ⟨seen, hseen, hvisited⟩ :=
      h.seen path content (OrdMap.mem_toList.2 hcontent) hopened
    rw [hseen] at hstate
    cases hstate
    exact hvisited.current
  · rw [h.kept path hopened] at hstate
    exact hsynced.kept path state content (htrusted.resolve_left hopened) hstate hcontent

theorem VisitSpec.allRead
    (h : VisitSpec reader faults scope (keptFiles files entries) (journalFiles entries).toList out)
    (hok : out.2 = .ok ()) : AllRead reader scope out.1 entries :=
  fun path content hcontent => h.complete hok path content (OrdMap.mem_toList.2 hcontent)

theorem VisitSpec.stopped {e : JournalError}
    (h : VisitSpec reader faults scope (keptFiles files entries) (journalFiles entries).toList out)
    (he : out.2 = .error e) :
    faults.Hit (some entries) ∨ ∃ path state, StoppedAt reader scope out.1 entries path state e := by
  rcases h.failed e he with ⟨path, content, hmem, hfault⟩ |
    ⟨path, content, hmem, state, hstate, hvisited, hstuck⟩
  · refine Or.inl (Or.inr ⟨entries, rfl, path, ?_, hfault⟩)
    rw [OrdMap.mem_toList.1 hmem]
    exact Option.some_ne_none content
  · exact Or.inr ⟨path, state, hstate, content, OrdMap.mem_toList.1 hmem, hvisited, hstuck⟩

/-- When every file was read, putting the roles together is the full read. -/
theorem VisitSpec.rebuild_iff
    (h : VisitSpec reader faults scope (keptFiles files entries) (journalFiles entries).toList out)
    (hok : out.2 = .ok ()) (roles : Roles) :
    rebuildRoles reader out.1 = .ok roles ↔ fullRead reader scope entries = .ok roles := by
  have hall := h.allRead hok
  have hkeys : ∀ path : String,
      (out.1[path]? : Option JournalFile).isSome =
        ((journalFiles entries)[path]? : Option Content).isSome := by
    intro path
    cases hcontent : (journalFiles entries)[path]? with
    | some content =>
      obtain ⟨state, hstate, -⟩ := hall path content hcontent
      rw [hstate]
      rfl
    | none =>
      have hnot : path ∉ opened reader faults scope (keptFiles files entries)
          (journalFiles entries).toList := by
        intro hmem
        obtain ⟨entry, hentry, rfl⟩ := List.mem_map.1 (opened_subset _ _ _ hmem)
        rw [OrdMap.mem_toList.1 hentry] at hcontent
        cases hcontent
      rw [h.kept path hnot]
      unfold keptFiles
      rw [Std.ExtTreeMap.getElem?_filter', Std.ExtTreeMap.contains_eq_isSome_getElem?, hcontent]
      simp
  have hforall : List.Forall₂ (fun (file : String × JournalFile) (entry : String × Content) =>
      mergeLines reader scope ∅ (lines entry.2.bytes) = .ok file.2.roles)
      out.1.toList (journalFiles entries).toList := by
    obtain ⟨hlength, hzip⟩ := List.forall₂_iff_zip.1 (OrdMap.forall₂_toList hkeys)
    refine List.forall₂_iff_zip.2 ⟨hlength, ?_⟩
    rintro ⟨path, state⟩ ⟨path', content⟩ hmem
    obtain rfl : path = path' := hzip hmem
    obtain ⟨hfile, hentry⟩ := List.of_mem_zip hmem
    obtain ⟨seen, hseen, hvisited, hrest⟩ := hall path content (OrdMap.mem_toList.1 hentry)
    have hstate : some seen = some state := hseen.symm.trans (OrdMap.mem_toList.1 hfile)
    cases hstate
    exact hvisited.reads.all hrest
  exact rebuild_iff_fullRead hforall keyed_empty

end

theorem refresh_spec {journal : LiquidityJournal} {faults : Faults} {directory : Directory}
    (hsynced : ∀ entries, directory = some entries →
      Synced reader scope (· ∈ journal.opened reader faults directory scope)
        (journal.rescope scope).files entries) :
    RefreshSpec reader faults scope directory journal
      (journal.refresh reader faults directory scope) := by
  unfold LiquidityJournal.refresh
  by_cases hlisting : faults.listing = true
  · have hopened : journal.opened reader faults directory scope = [] := if_pos hlisting
    simp only [if_pos hlisting]
    exact {
      published := fun roles h => by cases h
      synced := fun entries trusted _ h path state content htrusted =>
        h path state content (htrusted.resolve_left (hopened ▸ List.not_mem_nil))
      failed := fun e h => Or.inl (Or.inl hlisting) }
  simp only [if_neg hlisting]
  cases directory with
  | none =>
    exact {
      published := fun roles h => by
        cases h
        exact ⟨rfl, rfl⟩
      synced := fun entries trusted h => by cases h
      failed := fun e h => by cases h }
  | some entries =>
    have hopened : journal.opened reader faults (some entries) scope =
        opened reader faults scope (keptFiles (journal.rescope scope).files entries)
          (journalFiles entries).toList := if_neg hlisting
    have hvisit := visit_journal (hopened ▸ hsynced entries rfl)
    have hkept : (journal.rescope scope).files.filter
        (fun path _ => (journalFiles entries).contains path) =
          keptFiles (journal.rescope scope).files entries := rfl
    dsimp only
    rw [hkept]
    generalize visitAll reader faults scope (keptFiles (journal.rescope scope).files entries)
      (journalFiles entries).toList = out at hvisit ⊢
    have hnow : ∀ entries' trusted, some entries = some entries' →
        Synced reader scope trusted (journal.rescope scope).files entries' →
        Synced reader scope
          (fun path => path ∈ journal.opened reader faults (some entries) scope ∨ trusted path)
          out.1 entries' := by
      intro entries' trusted h htrusted
      cases h
      rw [hopened]
      exact hvisit.synced htrusted
    cases hresult : out.2 with
    | error e =>
      exact {
        published := fun roles h => by cases h
        synced := hnow
        failed := fun e' h => by
          cases h
          exact (hvisit.stopped hresult).imp_right fun h => ⟨entries, rfl, Or.inl h⟩ }
    | ok u =>
      have hrebuild := hvisit.rebuild_iff hresult
      simp only
      cases hroles : rebuildRoles reader out.1 with
      | error e =>
        exact {
          published := fun roles h => by cases h
          synced := hnow
          failed := fun e' h => by
            refine Or.inr ⟨entries, rfl, Or.inr ⟨hvisit.allRead hresult, fun roles hfull => ?_⟩⟩
            rw [← hrebuild, hroles] at hfull
            cases hfull }
      | ok roles =>
        exact {
          published := fun roles' h => by
            cases h
            exact ⟨rfl, (hrebuild roles).1 hroles⟩
          synced := hnow
          failed := fun e h => by cases h }

/-! ## A line that stops the refresh -/

section

variable {state : JournalFile} {content : Content} {files : Files}
  {entries : OrdMap String Content} {path : String} {e : JournalError}

/-- A file that cannot be merged is no part of a full read. -/
theorem StoppedAt.not_fullRead (h : StoppedAt reader scope files entries path state e)
    (he : e ≠ .lineTooLong) (roles : Roles) : fullRead reader scope entries ≠ .ok roles := by
  intro hfull
  obtain ⟨content, hcontent, hvisited, hstuck⟩ := h.stuck
  rcases hstuck with ⟨-, hlong⟩ | ⟨line, rest, hline, -, hrest, herror⟩
  · exact he hlong
  · obtain ⟨part, hpart⟩ := mergeLines_of_fullRead keyed_empty hfull (path, content)
      (OrdMap.mem_toList.2 hcontent)
    rw [hvisited.reads.not_merged hline hrest herror] at hpart
    cases hpart

/-- Lines that can be merged are read one after the other. -/
theorem JournalFile.readLines_append {complete : List (List UInt8)} {rest : List UInt8}
    {roles : Roles} (hlines : ∀ line ∈ complete, IsLine line)
    (hshort : ∀ line ∈ complete, line.length ≤ maxLine)
    (hmerge : mergeLines reader scope state.roles complete = .ok roles) :
    state.readLines reader scope (complete.flatten ++ rest) =
      ({ state with roles, offset := state.offset + complete.flatten.length } :
        JournalFile).readLines reader scope rest := by
  induction complete generalizing state with
  | nil =>
    cases hmerge
    rfl
  | cons line complete ih =>
    rw [List.forall_mem_cons] at hlines hshort
    obtain ⟨mid, hmid, hmore⟩ := bind_eq_ok.1 hmerge
    have hmore : mergeLines reader scope mid complete = .ok roles := hmore
    have hread : readUntil (maxLine + 1) (line ++ (complete.flatten ++ rest)) = line :=
      readUntil_line hlines.1 (by omega)
    have haccept : state.accept reader scope line =
        .ok { state with roles := mid, offset := state.offset + line.length } := by
      rw [accept_eq, hmid]
      rfl
    rw [List.flatten_cons, List.append_assoc]
    conv_lhs => unfold JournalFile.readLines
    simp only [hread]
    rw [if_neg (by omega), dif_pos (endsWithNewline_of_isLine hlines.1), haccept]
    simp only [List.drop_left]
    have hnext := @ih { state with roles := mid, offset := state.offset + line.length }
      hlines.2 hshort.2 hmore
    rw [hnext, List.length_append, Nat.add_assoc]

theorem JournalFile.readLines_stuck (h : state.Stuck reader scope content.bytes e) :
    state.readLines reader scope (content.bytes.drop state.offset) = (state, .error e) := by
  unfold JournalFile.readLines
  rcases h with ⟨hlong, rfl⟩ | ⟨line, rest, hline, hshort, hrest, herror⟩
  · exact if_pos hlong
  · have hread : readUntil (maxLine + 1) (content.bytes.drop state.offset) = line := by
      rw [hrest]
      exact readUntil_line hline (by omega)
    have haccept : state.accept reader scope line = .error e := by
      rw [accept_eq, herror]
      rfl
    simp only [hread]
    rw [if_neg (by omega), dif_pos (endsWithNewline_of_isLine hline), haccept]

theorem JournalFile.visit_stuck (hvisited : state.Visited reader scope content)
    (h : state.Stuck reader scope content.bytes e) :
    state.visit reader scope content = (state, .error e) := by
  have hkept : state.reopen content = state := by
    unfold JournalFile.reopen
    have hle := hvisited.reads.offset_le
    refine if_neg ?_
    rw [hvisited.identity_eq]
    simpa using hle
  unfold JournalFile.visit
  simp only [hkept]
  exact JournalFile.readLines_stuck h

/-- A file that is read from its first byte is at the same line in the end. -/
theorem JournalFile.visit_empty (hvisited : state.Visited reader scope content)
    (h : state.Stuck reader scope content.bytes e) :
    JournalFile.empty.visit reader scope content = (state, .error e) := by
  have hreopen : JournalFile.empty.reopen content =
      { JournalFile.empty with identity := content.identity } := by
    unfold JournalFile.reopen
    split
    · rfl
    · next hkept =>
      simp only [Bool.or_eq_true, bne_iff_ne, ne_eq, not_or, not_not] at hkept
      rw [← hkept.1]
  have hreads := hvisited.reads
  have hsplit : content.bytes =
      (lines (content.bytes.take state.offset)).flatten ++ content.bytes.drop state.offset := by
    rw [hreads.whole, List.take_append_drop]
  have hall : ({ JournalFile.empty with identity := content.identity } : JournalFile).readLines
      reader scope ((lines (content.bytes.take state.offset)).flatten ++
        content.bytes.drop state.offset) = _ :=
    JournalFile.readLines_append (fun _ hline => isLine_of_mem hline) hreads.short
      hreads.roles_eq
  rw [← hsplit, hreads.whole, List.length_take, min_eq_left hreads.offset_le] at hall
  have hstate : (⟨content.identity, 0 + state.offset, state.roles⟩ : JournalFile) = state := by
    rw [← hvisited.identity_eq, Nat.zero_add]
  unfold JournalFile.visit
  simp only [hreopen]
  refine hall.trans ?_
  show (⟨content.identity, 0 + state.offset, state.roles⟩ : JournalFile).readLines reader scope _ =
    _
  rw [hstate]
  exact JournalFile.readLines_stuck h

/-- Whatever was read of the file before, the loop does not get past the line. -/
theorem visitAll_stuck (faults : Faults) {listing : Listing}
    (hnodup : (listing.map Prod.fst).Nodup) (hmem : (path, content) ∈ listing)
    (hstate : ∀ state', files[path]? = some state' → state' = state)
    (hvisited : state.Visited reader scope content)
    (h : state.Stuck reader scope content.bytes e) :
    ((visitAll reader faults scope files listing).1[path]? = files[path]? ∨
      (visitAll reader faults scope files listing).1[path]? = some state) ∧
      ∃ e', (visitAll reader faults scope files listing).2 = .error e' := by
  induction listing generalizing files with
  | nil => exact absurd hmem List.not_mem_nil
  | cons entry more ih =>
    obtain ⟨path', content'⟩ := entry
    rw [List.map_cons, List.nodup_cons] at hnodup
    obtain ⟨hpath, hnodup⟩ := hnodup
    unfold visitAll
    by_cases hfault : faults.file path' = true
    · rw [if_pos hfault]
      exact ⟨Or.inl rfl, _, rfl⟩
    rw [if_neg hfault]
    by_cases heq : path' = path
    · subst heq
      obtain rfl : content = content' := by
        rcases List.mem_cons.1 hmem with heq | hmem
        · cases heq
          rfl
        · exact absurd (List.mem_map.2 ⟨_, hmem, rfl⟩) hpath
      have hvisit : (files[path']?.getD .empty).visit reader scope content = (state, .error e) := by
        cases hfile : files[path']? with
        | none => exact JournalFile.visit_empty hvisited h
        | some state' =>
          obtain rfl := hstate state' hfile
          exact JournalFile.visit_stuck hvisited h
      simp only [hvisit]
      rw [OrdMap.getElem?_insert_of_key, if_pos rfl]
      exact ⟨Or.inr rfl, e, rfl⟩
    · have hmore : (path, content) ∈ more := by
        rcases List.mem_cons.1 hmem with heq' | hmem
        · cases heq'
          exact absurd rfl heq
        · exact hmem
      have hkept : (files.insert path'
          ((files[path']?.getD .empty).visit reader scope content').1)[path]? = files[path]? := by
        rw [OrdMap.getElem?_insert_of_key, if_neg heq]
      simp only
      cases ((files[path']?.getD .empty).visit reader scope content').2 with
      | error e' => exact ⟨Or.inl hkept, e', rfl⟩
      | ok u =>
        have hmore := @ih (files.insert path' _) hnodup hmore (hkept ▸ hstate)
        rwa [hkept] at hmore

/-- A refresh does not get past a line that cannot be merged: of what was read of the file it
keeps all, or it is at that line now. -/
theorem refresh_stuck {journal : LiquidityJournal} (faults : Faults)
    (hcontent : (journalFiles entries)[path]? = some content)
    (hstate : ∀ state', (journal.rescope scope).files[path]? = some state' → state' = state)
    (hvisited : state.Visited reader scope content)
    (h : state.Stuck reader scope content.bytes e) :
    ((journal.refresh reader faults (some entries) scope).1.files[path]? =
        (journal.rescope scope).files[path]? ∨
      (journal.refresh reader faults (some entries) scope).1.files[path]? = some state) ∧
    ∃ e', (journal.refresh reader faults (some entries) scope).2 = .error e' := by
  have hkept : (keptFiles (journal.rescope scope).files entries)[path]? =
      (journal.rescope scope).files[path]? := by
    unfold keptFiles
    rw [Std.ExtTreeMap.getElem?_filter', Std.ExtTreeMap.contains_eq_isSome_getElem?, hcontent]
    cases (journal.rescope scope).files[path]? <;> rfl
  obtain ⟨hstays, e', he⟩ := visitAll_stuck faults (OrdMap.nodup_keys_toList _)
    (OrdMap.mem_toList.2 hcontent) (hkept ▸ hstate) hvisited h
  rw [hkept] at hstays
  unfold LiquidityJournal.refresh
  simp only
  by_cases hlisting : faults.listing = true
  · rw [if_pos hlisting]
    exact ⟨Or.inl rfl, _, rfl⟩
  · rw [if_neg hlisting]
    unfold keptFiles at hstays he
    simp only [he]
    exact ⟨hstays, e', rfl⟩

/-! ### More bytes -/

theorem JournalFile.Reads.append {bytes chunk : List UInt8} (h : state.Reads reader scope bytes) :
    state.Reads reader scope (bytes ++ chunk) := by
  have htake : (bytes ++ chunk).take state.offset = bytes.take state.offset :=
    List.take_append_of_le_length h.offset_le
  refine ⟨?_, ?_, ?_, ?_⟩
  · have hle := h.offset_le
    rw [List.length_append]
    omega
  · rw [htake]
    exact h.whole
  · rw [htake]
    exact h.short
  · rw [htake]
    exact h.roles_eq

theorem JournalFile.Reads.take {bytes : List UInt8} {length : Nat}
    (h : state.Reads reader scope bytes) (hlength : state.offset ≤ length) :
    state.Reads reader scope (bytes.take length) := by
  have htake : (bytes.take length).take state.offset = bytes.take state.offset := by
    rw [List.take_take, min_eq_left hlength]
  refine ⟨?_, ?_, ?_, ?_⟩
  · have hle := h.offset_le
    rw [List.length_take]
    omega
  · rw [htake]
    exact h.whole
  · rw [htake]
    exact h.short
  · rw [htake]
    exact h.roles_eq

theorem JournalFile.Stuck.append {bytes chunk : List UInt8} (hle : state.offset ≤ bytes.length)
    (h : state.Stuck reader scope bytes e) : state.Stuck reader scope (bytes ++ chunk) e := by
  unfold JournalFile.Stuck
  rw [List.drop_append_of_le_length hle]
  rcases h with ⟨hlong, he⟩ | ⟨line, rest, hline, hshort, hrest, herror⟩
  · have hlength := length_readUntil_le (maxLine + 1) (bytes.drop state.offset)
    refine Or.inl ⟨?_, he⟩
    rw [readUntil_append (by omega)]
    exact hlong
  · refine Or.inr ⟨line, rest ++ chunk, hline, hshort, ?_, herror⟩
    rw [hrest, List.append_assoc]

end

end CtaManager.FillRecovery
