import CtaManager.Web.TargetState

/-!
Runs of the live targets.

The writers, the requests and the reading of the catalog interleave at the locks.  A version is
somewhere in the process or in a store (`Held`); the version in memory is the last of those of its
strategy, and what is not in a store yet is on its way there (`Inv`).
-/

namespace CtaManager.Web

open Archive Catalog Check

variable {F : Type}

/-- A reading of the catalog: the rows, and the archived targets that were read since. -/
structure Loading (F : Type) where
  entries : OrdMap String (Entry F)
  recovered : OrdMap String (Option (PositionStrategy F))

structure World (F : Type) where
  targets : Targets F
  archive : PositionArchive F
  /-- `cta_position_strategies` -/
  rows : OrdMap String (Entry F)
  /-- `enqueue` is between the halves of `accept`; it holds the lock of the queue -/
  accepting : Option (Entry F)
  /-- what `flush` has copied and not written yet -/
  flushing : List (String × Entry F)
  /-- written by `flush`, and not settled -/
  mirrored : Option (String × Entry F)
  loading : Option (Loading F)
  /-- the creations of strategies so far -/
  identities : List (String × Int)
  /-- the versions accepted since the process started -/
  accepted : List (ArchiveWrite F)
  /-- those that have left the queue -/
  archived : List (ArchiveWrite F)

def World.start (archive : PositionArchive F) (rows : OrdMap String (Entry F))
    (identities : List (String × Int)) : World F where
  targets := .default
  archive := archive
  rows := rows
  accepting := none
  flushing := []
  mirrored := none
  loading := none
  identities := identities
  accepted := []
  archived := []

section

variable [DecidableEq F] [F64 F] [Text.Unicode]

/-- The rows change under the lock of the configuration, or before the reading of the catalog that
a creation makes; so not while the catalog is read.  A strategy is deleted while admission is
closed. -/
inductive Step : World F → World F → Prop where
  | edit (w : World F) (hidle : w.loading = none) : Step w { w with targets := w.targets.edit }
  | close (w : World F) : Step w { w with targets := w.targets.close }
  | create (w : World F) (name : String) (entry : Entry F) (hidle : w.loading = none)
      (hname : entry.strategy.strategyName = name) (hnew : w.rows[name]? = none)
      (hfresh : (name, entry.createdAtUs) ∉ w.identities) :
      Step w { w with
        rows := w.rows.insert name entry
        identities := (name, entry.createdAtUs) :: w.identities }
  | remove (w : World F) (name : String) (hidle : w.loading = none)
      (hclosed : w.targets.ready = false) (hlock : w.accepting = none) : Step w { w with rows := w.rows.erase name }
  /-- a request; the lock of its strategy keeps the others of its name out -/
  | admission (w : World F) (request : PositionStrategy F) (nowUs : Int) (entry : Entry F)
      (accounts : List (ArchivedPublishedAccount F)) (targets : Targets F)
      (hready : w.targets.ready = true) (hlock : w.accepting = none)
      (hentry : w.targets.nextVersion request nowUs = some entry)
      (hadmitted : w.targets.admitEntry entry accounts = .ok targets) :
      Step w { w with
        targets
        accepting := some entry
        accepted := w.accepted ++ [⟨entry.strategy, entry.createdAtUs, accounts⟩] }
  | accept (w : World F) (entry : Entry F) (haccepting : w.accepting = some entry) :
      Step w { w with targets := w.targets.acceptPending entry, accepting := none }
  | flushFront (w : World F) (outcome : WriteOutcome) :
      Step w { w with
        targets := (w.targets.flushFront w.archive outcome).1
        archive := (w.targets.flushFront w.archive outcome).2.1
        archived := match (w.targets.flushFront w.archive outcome).2.2 with
          | .ok (some _) => w.archived ++ w.targets.archivePending.head?.toList
          | _ => w.archived }
  /-- another writer of the archive -/
  | append (w : World F) (receivedAtUs : Int) (strategy : PositionStrategy F)
      (factualPositions : List (ArchivedSourcePositions F))
      (publishedAccounts : List (ArchivedPublishedAccount F)) (outcome : WriteOutcome) :
      Step w { w with
        archive := (w.archive.append receivedAtUs strategy factualPositions publishedAccounts
          outcome).1 }
  | flush (w : World F) (hdone : w.flushing = []) (hsettled : w.mirrored = none) :
      Step w { w with flushing := w.targets.pending.toList }
  | updated (w : World F) (name : String) (entry : Entry F) (rest : List (String × Entry F))
      (hnext : w.flushing = (name, entry) :: rest) (hsettled : w.mirrored = none) :
      Step w { w with
        rows := updateRow w.rows name entry, flushing := rest, mirrored := some (name, entry) }
  /-- an error, or no answer in time -/
  | updateFailed (w : World F) (name : String) (entry : Entry F) (rest : List (String × Entry F))
      (applied : Bool) (hnext : w.flushing = (name, entry) :: rest) (hsettled : w.mirrored = none) :
      Step w { w with
        rows := if applied then updateRow w.rows name entry else w.rows, flushing := rest }
  | settle (w : World F) (name : String) (entry : Entry F)
      (hmirrored : w.mirrored = some (name, entry)) :
      Step w { w with targets := w.targets.settle name entry, mirrored := none }
  | read (w : World F) (hidle : w.loading = none) :
      Step w { w with loading := some ⟨w.rows, ∅⟩ }
  | recover (w : World F) (loading : Loading F) (name : String) (entry : Entry F)
      (target : Option (PositionStrategy F)) (hloading : w.loading = some loading)
      (hentry : loading.entries[name]? = some entry)
      (htarget : w.archive.currentTarget name entry.createdAtUs = .ok target) :
      Step w { w with loading := some { loading with
        recovered := loading.recovered.insert name target } }
  | abort (w : World F) : Step w { w with loading := none }
  | install (w : World F) (loading : Loading F) (hloading : w.loading = some loading)
      (hall : ∀ name ∈ loading.entries, name ∈ loading.recovered) :
      Step w { w with
        targets := w.targets.install loading.entries loading.recovered, loading := none }
  /-- the process stops at any point and is started again -/
  | restart (w : World F) :
      Step w (.start (.openDb w.archive.db) w.rows w.identities)

end

/-! ## Where versions are -/

def ArchiveWrite.entry (job : ArchiveWrite F) : Entry F := ⟨job.strategy, job.createdAtUs⟩

def ArchiveWrite.name (job : ArchiveWrite F) : String := job.strategy.strategyName

/-- A version of `name` that requests or the writers hold. -/
def InProcess (w : World F) (name : String) (e : Entry F) : Prop :=
  (∃ job ∈ w.accepted, job.name = name ∧ job.entry = e) ∨ w.targets.pending[name]? = some e ∨
    (name, e) ∈ w.flushing ∨ w.mirrored = some (name, e) ∨
      (w.accepting = some e ∧ e.strategy.strategyName = name)

/-- A version of `name` in a store, in memory or read from a store. -/
def Held (w : World F) (name : String) (e : Entry F) : Prop :=
  w.targets.current[name]? = some e ∨ w.rows[name]? = some e ∨
    w.archive.db.current[name]? = some (e.createdAtUs, e.strategy) ∨
    (∃ l, w.loading = some l ∧ l.entries[name]? = some e) ∨
    (∃ l entry, w.loading = some l ∧ l.entries[name]? = some entry ∧
      l.recovered[name]? = some (some e.strategy) ∧ entry.createdAtUs = e.createdAtUs) ∨
    InProcess w name e

/-- The strategy in memory is the one of this creation. -/
def Live (w : World F) (name : String) (createdAtUs : Int) : Prop :=
  ∃ c, w.targets.current[name]? = some c ∧ c.createdAtUs = createdAtUs

/-- The version `e` is on its way to PostgreSQL. -/
def Mirroring (w : World F) (name : String) (c : Entry F) : Prop :=
  (∃ p, w.targets.pending[name]? = some p ∧ p.createdAtUs = c.createdAtUs ∧
      p.strategy = c.strategy) ∨
    ∃ e, w.accepting = some e ∧ e.strategy.strategyName = name ∧ e.createdAtUs = c.createdAtUs ∧
      e.strategy = c.strategy

/-- The versions of `name` in a list. -/
def ofName (name : String) (jobs : List (ArchiveWrite F)) : List (ArchiveWrite F) :=
  jobs.filter fun job => decide (job.name = name)

theorem ofName_append_singleton (name : String) (jobs : List (ArchiveWrite F))
    (job : ArchiveWrite F) : ofName name (jobs ++ [job]) =
      if job.name = name then ofName name jobs ++ [job] else ofName name jobs := by
  unfold ofName
  rw [List.filter_append, List.filter_singleton]
  by_cases hname : job.name = name
  · simp [hname]
  · simp [hname]

theorem ofName_eq_nil {name : String} {jobs : List (ArchiveWrite F)}
    (h : ∀ job ∈ jobs, job.name ≠ name) : ofName name jobs = [] :=
  List.filter_eq_nil_iff.2 fun job hjob => by simpa using h job hjob

/-- The archived target of a creation. -/
def targetOf (db : ArchiveDb F) (name : String) (createdAtUs : Int) : Option (PositionStrategy F) :=
  (db.current[name]?).bind fun p => if p.1 = createdAtUs then some p.2 else none

theorem targetOf_eq_some {db : ArchiveDb F} {name : String} {createdAtUs : Int}
    {strategy : PositionStrategy F} :
    targetOf db name createdAtUs = some strategy ↔
      db.current[name]? = some (createdAtUs, strategy) := by
  unfold targetOf
  rw [Option.bind_eq_some_iff]
  constructor
  · rintro ⟨⟨identity, stored⟩, hp, h⟩
    rw [Option.ite_none_right_eq_some] at h
    obtain ⟨rfl, h⟩ := h
    cases h
    exact hp
  · intro h
    exact ⟨_, h, if_pos rfl⟩

/-- A current target that passes its checks is read for its creation. -/
theorem currentTarget_eq_ok [F64 F] [Text.Unicode] {archive : PositionArchive F} {name : String}
    {createdAtUs : Int} {target : Option (PositionStrategy F)} :
    archive.currentTarget name createdAtUs = .ok target ↔
      target = targetOf archive.db name createdAtUs ∧
        ∀ p, archive.db.current[name]? = some p →
          p.2.strategyName = name ∧ p.2.validate = .ok () := by
  unfold PositionArchive.currentTarget targetOf
  cases hp : archive.db.current[name]? with
  | none =>
    constructor
    · intro h
      cases h
      exact ⟨rfl, fun p hp => nomatch hp⟩
    · rintro ⟨rfl, -⟩
      rfl
  | some p =>
    obtain ⟨identity, strategy⟩ := p
    constructor
    · intro h
      obtain ⟨_, hname, h⟩ := bind_eq_ok.1 h
      obtain ⟨_, hvalid, h⟩ := bind_eq_ok.1 h
      rw [ensure_eq_ok, beq_iff_eq] at hname
      cases h
      refine ⟨rfl, fun p hp => ?_⟩
      cases hp
      exact ⟨hname, mapError_eq_ok.1 hvalid⟩
    · rintro ⟨rfl, hchecked⟩
      obtain ⟨hname, hvalid⟩ := hchecked _ rfl
      dsimp only at hname hvalid
      simp only [hname, hvalid, BEq.rfl, ensure_true, ok_bind]
      rfl

/-! ## The invariant -/

/-- What is known of the versions of a world. -/
structure Versions (w : World F) : Prop where
  named : ∀ name e, Held w name e → e.strategy.strategyName = name
  known : ∀ name e, Held w name e → (name, e.createdAtUs) ∈ w.identities
  agree : ∀ name e e', Held w name e → Held w name e' → e.createdAtUs = e'.createdAtUs →
    e.strategy.updatedAtUs = e'.strategy.updatedAtUs → e.strategy = e'.strategy
  newest : ∀ name e c, Held w name e → w.targets.current[name]? = some c →
    c.createdAtUs = e.createdAtUs → e.strategy.updatedAtUs ≤ c.strategy.updatedAtUs

structure Inv (w : World F) : Prop where
  versions : Versions w
  live : ∀ (name : String) e r, InProcess w name e → w.rows[name]? = some r →
    r.createdAtUs = e.createdAtUs → Live w name e.createdAtUs
  /-- rows come and go only while no catalog is read -/
  sameRows : ∀ l, w.loading = some l → ∀ name : String,
    (l.entries[name]?).map Entry.createdAtUs = (w.rows[name]?).map Entry.createdAtUs
  grown : ∀ l, w.loading = some l → ∀ (name : String) e r, l.entries[name]? = some e →
    w.rows[name]? = some r → e.strategy.updatedAtUs ≤ r.strategy.updatedAtUs
  /-- nobody writes a strategy that is not in memory -/
  unread : ∀ l (name : String) r, w.loading = some l → w.rows[name]? = some r →
    ¬Live w name r.createdAtUs → l.entries[name]? = some r ∧
      ∀ x, l.recovered[name]? = some x → x = targetOf w.archive.db name r.createdAtUs
  quiet : ∀ (name : String) r, w.rows[name]? = some r → ¬Live w name r.createdAtUs →
    targetOf w.archive.db name r.createdAtUs = none ∨
      ∀ job ∈ w.targets.archivePending, job.name ≠ name
  published : w.targets.ready = true → ∀ (name : String) c, w.targets.current[name]? = some c →
    ∃ r, w.rows[name]? = some r ∧ r.createdAtUs = c.createdAtUs
  catalogued : ∀ name : String, (w.targets.catalog[name]?).map Entry.createdAtUs =
    (w.targets.current[name]?).map Entry.createdAtUs
  accepting : ∀ e c, w.accepting = some e →
    w.targets.current[e.strategy.strategyName]? = some c → c.createdAtUs = e.createdAtUs →
      c.strategy = e.strategy
  admitted : ∀ e, w.accepting = some e →
    ∃ r, w.rows[e.strategy.strategyName]? = some r ∧ r.createdAtUs = e.createdAtUs
  mirroring : ∀ (name : String) c r, w.targets.current[name]? = some c → w.rows[name]? = some r →
    r.createdAtUs = c.createdAtUs → r.strategy = c.strategy ∨ Mirroring w name c
  settled : ∀ (name : String) e r, w.mirrored = some (name, e) → w.rows[name]? = some r →
    r.createdAtUs = e.createdAtUs → e.strategy.updatedAtUs ≤ r.strategy.updatedAtUs
  order : w.accepted = w.archived ++ w.targets.archivePending
  latest : ∀ (name : String) c, w.targets.current[name]? = some c →
    (∃ job ∈ ofName name w.accepted, job.createdAtUs = c.createdAtUs) →
      ((ofName name w.accepted).getLast?).map ArchiveWrite.entry = some c
  stored : ∀ (name : String) job, (ofName name w.archived).getLast? = some job →
    w.archive.db.current[name]? = some (job.createdAtUs, job.strategy) ∨
      ∃ front rest, w.targets.archivePending = front :: rest ∧ front.name = name ∧
        w.archive.db.current[name]? = some (front.createdAtUs, front.strategy)
  /-- what a restart reads when no version of a creation waits -/
  recoverable : ∀ (name : String) c r, w.targets.current[name]? = some c →
    w.rows[name]? = some r → r.createdAtUs = c.createdAtUs →
    (∀ job ∈ ofName name w.targets.archivePending, job.createdAtUs ≠ c.createdAtUs) →
      r.strategy = c.strategy ∨ targetOf w.archive.db name c.createdAtUs = some c.strategy ∧
        ofName name w.targets.archivePending = []

namespace Held

variable {w : World F} {name : String} {e : Entry F}

theorem current (h : w.targets.current[name]? = some e) : Held w name e := Or.inl h

theorem row (h : w.rows[name]? = some e) : Held w name e := Or.inr (Or.inl h)

theorem stored (h : w.archive.db.current[name]? = some (e.createdAtUs, e.strategy)) :
    Held w name e :=
  Or.inr (Or.inr (Or.inl h))

theorem read {l : Loading F} (hl : w.loading = some l) (h : l.entries[name]? = some e) :
    Held w name e :=
  Or.inr (Or.inr (Or.inr (Or.inl ⟨l, hl, h⟩)))

theorem recovered {l : Loading F} {entry : Entry F} (hl : w.loading = some l)
    (hentry : l.entries[name]? = some entry) (h : l.recovered[name]? = some (some e.strategy))
    (hid : entry.createdAtUs = e.createdAtUs) : Held w name e :=
  Or.inr (Or.inr (Or.inr (Or.inr (Or.inl ⟨l, entry, hl, hentry, h, hid⟩))))

theorem process (h : InProcess w name e) : Held w name e :=
  Or.inr (Or.inr (Or.inr (Or.inr (Or.inr h))))

end Held

/-- Nothing new in a world with the same strategies in memory. -/
theorem Versions.of_held {w w' : World F} (h : Versions w)
    (hheld : ∀ name e, Held w' name e → Held w name e)
    (hcurrent : w'.targets.current = w.targets.current) (hid : w'.identities = w.identities) :
    Versions w' where
  named name e he := h.named name e (hheld name e he)
  known name e he := by
    rw [hid]
    exact h.known name e (hheld name e he)
  agree name e e' he he' := h.agree name e e' (hheld name e he) (hheld name e' he')
  newest name e c he hc := by
    rw [hcurrent] at hc
    exact h.newest name e c (hheld name e he) hc

end CtaManager.Web
