import CtaManager.Archive.PositionArchive
import CtaManager.Library.OrdMapRange
import CtaManager.Library.Steps

/-!
The archive as a store of what was appended, in call order.

A call either stores one message or none (`batch`).  The history keeps the stored
messages in call order, and for every strategy its last stored target with the
message of it.  As long as no message is added under a timestamp whose stored keys
the head does not know (`Unclashing`) and no target is stored beside an earlier
message of its own name and time (`Unshadowed`), the archive is its history
(`Faithful.step`).
-/

namespace CtaManager.Archive

open Check Catalog

variable {F : Type}

/-! ## Calls -/

/-- The arguments of `append_inner`, and how its write ends. -/
structure AppendRequest (F : Type) where
  receivedAtUs : Int
  strategy : PositionStrategy F
  factualPositions : List (ArchivedSourcePositions F)
  publishedAccounts : List (ArchivedPublishedAccount F)
  currentIdentity : Option Int
  outcome : WriteOutcome

inductive ArchiveCall (F : Type)
  | append (receivedAtUs : Int) (strategy : PositionStrategy F)
      (factualPositions : List (ArchivedSourcePositions F))
      (publishedAccounts : List (ArchivedPublishedAccount F)) (outcome : WriteOutcome)
  | appendTarget (strategy : PositionStrategy F) (createdAtUs : Int)
      (publishedAccounts : List (ArchivedPublishedAccount F)) (outcome : WriteOutcome)
  | reopen

namespace ArchiveCall

def request : ArchiveCall F → Option (AppendRequest F)
  | .append receivedAtUs strategy factualPositions publishedAccounts outcome =>
    some { receivedAtUs, strategy, factualPositions, publishedAccounts
           currentIdentity := none, outcome }
  | .appendTarget strategy createdAtUs publishedAccounts outcome =>
    some { receivedAtUs := strategy.updatedAtUs, strategy, factualPositions := []
           publishedAccounts, currentIdentity := some createdAtUs, outcome }
  | .reopen => none

end ArchiveCall

/-- The last stored target of a strategy. -/
structure StoredTarget (F : Type) where
  createdAtUs : Int
  strategy : PositionStrategy F
  message : PositionUpdateMsg F

/-- What was stored. -/
structure History (F : Type) where
  log : List (PositionUpdateMsg F)
  targets : String → Option (StoredTarget F)

namespace History

def empty : History F := { log := [], targets := fun _ => none }

/-- The messages of one timestamp, in call order. -/
def received (history : History F) (receivedAtUs : Int) : List (PositionUpdateMsg F) :=
  history.log.filter fun message => message.receivedAtUs == receivedAtUs

def record (history : History F) (message : PositionUpdateMsg F) (currentIdentity : Option Int) :
    History F :=
  { log := history.log ++ [message]
    targets := match currentIdentity with
      | some createdAtUs => fun name =>
        if message.strategy.strategyName = name then
          some { createdAtUs, strategy := message.strategy, message }
        else history.targets name
      | none => history.targets }

theorem received_record (history : History F) (message : PositionUpdateMsg F)
    (currentIdentity : Option Int) (receivedAtUs : Int) :
    (history.record message currentIdentity).received receivedAtUs =
      history.received receivedAtUs ++
        if message.receivedAtUs = receivedAtUs then [message] else [] := by
  unfold received record
  rw [List.filter_append]
  by_cases h : message.receivedAtUs = receivedAtUs
  · rw [if_pos h, List.filter_cons_of_pos (by simpa using h), List.filter_nil]
  · rw [if_neg h, List.filter_cons_of_neg (by simpa using h), List.filter_nil]

end History

section

variable [DecidableEq F] [F64 F] [Text.Unicode]

namespace PositionArchive

/-- Is the target of this call the current one already? -/
def retries (archive : PositionArchive F) (q : AppendRequest F) : Bool :=
  q.currentIdentity.any fun identity =>
    archive.db.current[q.strategy.strategyName]? == some (identity, q.strategy)

/-- The message a call stores. -/
def batch (archive : PositionArchive F) (q : AppendRequest F) : Option (PositionUpdateMsg F) :=
  if q.receivedAtUs ≤ 0 then none
  else if q.strategy.validate ≠ .ok () then none
  else if archive.retries q then none
  else
    match archive.nextSeq q.receivedAtUs with
    | .error _ => none
    | .ok seq =>
      if q.outcome = .failed then none
      else some { receivedAtUs := q.receivedAtUs, seq, strategy := q.strategy
                  factualPositions := q.factualPositions, publishedAccounts := q.publishedAccounts }

/-- One call: the archive after it, and its reply. -/
def call (archive : PositionArchive F) :
    ArchiveCall F → PositionArchive F × Option (Except ArchiveError (PositionUpdateMsg F))
  | .append receivedAtUs strategy factualPositions publishedAccounts outcome =>
    let (archive, reply) :=
      archive.append receivedAtUs strategy factualPositions publishedAccounts outcome
    (archive, some reply)
  | .appendTarget strategy createdAtUs publishedAccounts outcome =>
    let (archive, reply) := archive.appendTarget strategy createdAtUs publishedAccounts outcome
    (archive, some reply)
  | .reopen => (openDb archive.db, none)

/-- The call and its history. -/
def step (s : PositionArchive F × History F) (c : ArchiveCall F) :
    PositionArchive F × History F :=
  ((s.1.call c).1,
    match c.request with
    | none => s.2
    | some q =>
      match s.1.batch q with
      | none => s.2
      | some message => s.2.record message q.currentIdentity)

/-- No message is added under a timestamp of which a stored key is above the head. -/
def Unclashing (archive : PositionArchive F) (q : AppendRequest F) : Prop :=
  archive.retries q = false → ∀ key ∈ archive.db.updates,
    key.receivedAtUs = q.receivedAtUs → key ≤ archive.lastKey

/-- No target is added under a timestamp that holds a message of its name and time. -/
def Unshadowed (archive : PositionArchive F) (q : AppendRequest F) : Prop :=
  archive.retries q = false → q.currentIdentity.isSome = true →
    ∀ (key : SeqKey) (message : PositionUpdateMsg F), archive.db.updates[key]? = some message →
      key.receivedAtUs = q.receivedAtUs →
      ¬(message.strategy.strategyName = q.strategy.strategyName ∧
        message.strategy.updatedAtUs = q.strategy.updatedAtUs)

/-- No message above the head is stored by a call that reports an error. -/
def Acknowledged (archive : PositionArchive F) (q : AppendRequest F) : Prop :=
  archive.retries q = false → archive.lastKey.receivedAtUs ≤ q.receivedAtUs →
    q.outcome ≠ .reported ∧ (q.outcome = .committed → archive.targetWrites.revision < maxRevision)

/-! ## What a call does -/

omit [DecidableEq F] [F64 F] [Text.Unicode] in
theorem recordAppend_cases (archive : PositionArchive F) (key : SeqKey) :
    (archive.targetWrites.revision < maxRevision ∧
      ∃ writes, archive.recordAppend key =
        ({ archive with lastKey := max archive.lastKey key, targetWrites := writes }, .ok ())) ∨
    (¬archive.targetWrites.revision < maxRevision ∧
      archive.recordAppend key = (archive, .error .revisionExhausted)) := by
  unfold recordAppend
  by_cases h : archive.targetWrites.revision < maxRevision
  · rw [if_pos h]
    exact Or.inl ⟨h, _, rfl⟩
  · rw [if_neg h]
    exact Or.inr ⟨h, rfl⟩

/-- The archive and the reply after `append_inner`: a refusal, a retry that found its
event, or a new message. -/
inductive Appended (archive : PositionArchive F) (q : AppendRequest F) :
    PositionArchive F × Except ArchiveError (PositionUpdateMsg F) → Prop
  | refused (e : ArchiveError) (hbatch : archive.batch q = none) :
    Appended archive q (archive, .error e)
  | retried (key : SeqKey) (message : PositionUpdateMsg F) (writes : TargetWrites)
    (hretry : archive.retries q = true)
    (hstored : archive.storedTarget q.receivedAtUs q.strategy = some (key, message))
    (hbatch : archive.batch q = none) :
    Appended archive q
      ({ archive with lastKey := max archive.lastKey key, targetWrites := writes }, .ok message)
  | stored (message : PositionUpdateMsg F) (writes : TargetWrites)
    (hbatch : archive.batch q = some message) :
    Appended archive q
      ({ db := archive.db.write message q.currentIdentity
         lastKey := max archive.lastKey message.key, targetWrites := writes }, .ok message)
  | unacknowledged (message : PositionUpdateMsg F) (e : ArchiveError)
    (hbatch : archive.batch q = some message)
    (herror : q.outcome = .reported ∨
      q.outcome = .committed ∧ ¬archive.targetWrites.revision < maxRevision) :
    Appended archive q
      ({ archive with db := archive.db.write message q.currentIdentity }, .error e)

theorem appendInner_appended (archive : PositionArchive F) (q : AppendRequest F) :
    Appended archive q (archive.appendInner q.receivedAtUs q.strategy q.factualPositions
      q.publishedAccounts q.currentIdentity q.outcome) := by
  unfold appendInner
  by_cases hpos : q.receivedAtUs ≤ 0
  · rw [if_pos hpos]
    exact .refused _ (by unfold batch; rw [if_pos hpos])
  rw [if_neg hpos]
  cases hvalid : q.strategy.validate with
  | error e => exact .refused _ (by unfold batch; rw [if_neg hpos, hvalid, if_pos (by simp)])
  | ok u =>
    have hok : ¬(q.strategy.validate ≠ .ok ()) := by rw [hvalid]; simp
    show Appended archive q (if archive.retries q = true then _ else _)
    by_cases hretry : archive.retries q = true
    · have hbatch : archive.batch q = none := by
        unfold batch
        rw [if_neg hpos, if_neg hok, if_pos hretry]
      rw [if_pos hretry]
      cases hstored : archive.storedTarget q.receivedAtUs q.strategy with
      | none => exact .refused _ hbatch
      | some p =>
        obtain ⟨key, message⟩ := p
        simp only
        by_cases hout : q.outcome = .committed
        · rw [if_pos hout]
          rcases archive.recordAppend_cases key with ⟨-, writes, h⟩ | ⟨-, h⟩
          · rw [h]
            exact .retried key message writes hretry hstored hbatch
          · rw [h]
            exact .refused _ hbatch
        · rw [if_neg hout]
          exact .refused _ hbatch
    · rw [if_neg hretry]
      cases hseq : archive.nextSeq q.receivedAtUs with
      | error e =>
        refine .refused _ ?_
        unfold batch
        rw [if_neg hpos, if_neg hok, if_neg hretry, hseq]
      | ok seq =>
        have hbatch : q.outcome ≠ .failed → archive.batch q = some
            { receivedAtUs := q.receivedAtUs, seq, strategy := q.strategy
              factualPositions := q.factualPositions, publishedAccounts := q.publishedAccounts } := by
          intro hout
          unfold batch
          rw [if_neg hpos, if_neg hok, if_neg hretry, hseq]
          exact if_neg hout
        cases hout : q.outcome with
        | failed =>
          refine .refused _ ?_
          unfold batch
          rw [if_neg hpos, if_neg hok, if_neg hretry, hseq]
          exact if_pos hout
        | reported =>
          exact .unacknowledged _ _ (hbatch (by rw [hout]; decide)) (Or.inl hout)
        | committed =>
          have hnew := hbatch (by rw [hout]; decide)
          simp only
          rcases recordAppend_cases { archive with
              db := archive.db.write
                { receivedAtUs := q.receivedAtUs, seq, strategy := q.strategy
                  factualPositions := q.factualPositions
                  publishedAccounts := q.publishedAccounts } q.currentIdentity }
              ⟨q.receivedAtUs, seq⟩ with ⟨-, writes, h⟩ | ⟨hrev, h⟩
          · unfold PositionUpdateMsg.key
            rw [h]
            exact .stored _ writes hnew
          · unfold PositionUpdateMsg.key
            rw [h]
            exact .unacknowledged _ _ hnew (Or.inr ⟨hout, hrev⟩)

end PositionArchive

/-! ## The archive is its history -/

/-- A message of the same strategy and time. -/
def sameEvent (strategy : PositionStrategy F) (message : PositionUpdateMsg F) : Bool :=
  message.strategy.strategyName == strategy.strategyName &&
    message.strategy.updatedAtUs == strategy.updatedAtUs

/-- The rows under a timestamp are its messages in call order, numbered from zero,
and the current targets are the last stored ones. -/
structure Faithful (s : PositionArchive F × History F) : Prop where
  rows : ∀ key : SeqKey, s.1.db.updates[key]? = (s.2.received key.receivedAtUs)[key.seq]?
  stamped : ∀ (key : SeqKey) (message : PositionUpdateMsg F),
    s.1.db.updates[key]? = some message →
      message.key = key ∧ 0 < key.receivedAtUs ∧ key.seq ≤ maxSeq
  head : s.1.lastKey = ⟨0, 0⟩ ∨ s.1.lastKey ∈ s.1.db.updates
  current : ∀ name : String, s.1.db.current[name]? =
    (s.2.targets name).map fun t => (t.createdAtUs, t.strategy)
  target : ∀ name t, s.2.targets name = some t →
    t.strategy.strategyName = name ∧ 0 < t.strategy.updatedAtUs ∧ t.strategy.validate = .ok () ∧
      (s.2.received t.strategy.updatedAtUs).find? (sameEvent t.strategy) = some t.message

namespace Faithful

omit [DecidableEq F] in
theorem mem_updates {s : PositionArchive F × History F} (h : Faithful s) (key : SeqKey) :
    key ∈ s.1.db.updates ↔ key.seq < (s.2.received key.receivedAtUs).length := by
  rw [Std.ExtTreeMap.mem_iff_isSome_getElem?, h.rows, isSome_getElem?]

omit [DecidableEq F] in
/-- The number of the next message: how many there are, of a timestamp whose keys the
head knows. -/
theorem nextSeq_eq {s : PositionArchive F × History F} (h : Faithful s) {receivedAtUs : Int}
    (hpos : 0 < receivedAtUs)
    (hknown : ∀ key ∈ s.1.db.updates, key.receivedAtUs = receivedAtUs → key ≤ s.1.lastKey)
    {seq : Nat} (hseq : s.1.nextSeq receivedAtUs = .ok seq) :
    seq = (s.2.received receivedAtUs).length ∧ seq ≤ maxSeq := by
  -- the last message of the timestamp, when there is one
  have hlast : (s.2.received receivedAtUs).length ≠ 0 →
      (⟨receivedAtUs, (s.2.received receivedAtUs).length - 1⟩ : SeqKey) ∈ s.1.db.updates := by
    intro hne
    rw [h.mem_updates]
    show (s.2.received receivedAtUs).length - 1 < (s.2.received receivedAtUs).length
    omega
  have hfollowing : ∀ seq' : Nat, (do
      ensure (decide (seq' < maxSeq)) ArchiveError.sequenceExhausted
      return seq' + 1) = Except.ok seq → seq = seq' + 1 ∧ seq ≤ maxSeq := by
    intro seq' hok
    obtain ⟨_, hlt, hret⟩ := bind_eq_ok.1 hok
    rw [ensure_eq_ok, decide_eq_true_eq] at hlt
    have : seq' + 1 = seq := Except.ok.inj hret
    omega
  unfold PositionArchive.nextSeq at hseq
  simp only at hseq
  by_cases hnew : s.1.lastKey.receivedAtUs < receivedAtUs
  · -- a newer timestamp has no message
    rw [if_pos hnew] at hseq
    obtain rfl : 0 = seq := Except.ok.inj hseq
    refine ⟨?_, Nat.zero_le _⟩
    by_contra hne
    have hle := hknown _ (hlast (Ne.symm hne)) rfl
    rcases SeqKey.le_iff.1 hle with hlt | ⟨heq, -⟩
    · exact lt_asymm hnew hlt
    · exact absurd hnew (lt_irrefl _ <| heq ▸ ·)
  · rw [if_neg hnew] at hseq
    by_cases heq : receivedAtUs = s.1.lastKey.receivedAtUs
    · -- the head is the last message of its timestamp
      rw [if_pos heq] at hseq
      obtain ⟨hsucc, hmax⟩ := hfollowing _ hseq
      refine ⟨?_, hmax⟩
      have hmem : s.1.lastKey ∈ s.1.db.updates := by
        rcases h.head with hzero | hmem
        · rw [hzero] at heq
          simp only at heq
          omega
        · exact hmem
      have hlt := (h.mem_updates _).1 hmem
      rw [← heq] at hlt
      have hle := hknown _ (hlast (by omega)) rfl
      rcases SeqKey.le_iff.1 hle with hlt' | ⟨-, hle'⟩
      · exact absurd hlt' (not_lt.2 heq.ge)
      · simp only at hle'
        omega
    · -- an older timestamp is looked up
      rw [if_neg heq] at hseq
      cases hprevious : (s.1.db.updates.toList.filter fun p =>
          decide (p.1 ≤ (⟨receivedAtUs, maxSeq⟩ : SeqKey))).getLast? with
      | none =>
        rw [hprevious] at hseq
        obtain rfl : 0 = seq := Except.ok.inj hseq
        refine ⟨?_, Nat.zero_le _⟩
        by_contra hne
        have hmem := hlast (Ne.symm hne)
        obtain ⟨message, hmessage⟩ := Option.isSome_iff_exists.1
          (Std.ExtTreeMap.mem_iff_isSome_getElem?.1 hmem)
        have hfalse := OrdMap.getLast?_filter_toList_eq_none
          (p := fun k => decide (k ≤ (⟨receivedAtUs, maxSeq⟩ : SeqKey))) hprevious _ _ hmessage
        obtain ⟨-, -, hmax⟩ := h.stamped _ _ hmessage
        have hle : (⟨receivedAtUs, (s.2.received receivedAtUs).length - 1⟩ : SeqKey) ≤
            ⟨receivedAtUs, maxSeq⟩ := SeqKey.le_iff.2 (Or.inr ⟨rfl, hmax⟩)
        simp [hle] at hfalse
      | some p =>
        obtain ⟨key, message⟩ := p
        rw [hprevious] at hseq
        obtain ⟨hmessage, hbound, hgreatest⟩ := OrdMap.getLast?_filter_toList
          (p := fun k => decide (k ≤ (⟨receivedAtUs, maxSeq⟩ : SeqKey))) hprevious
        rw [decide_eq_true_eq] at hbound
        -- when the timestamp has messages, the key found is its last one
        have hkey : (s.2.received receivedAtUs).length ≠ 0 →
            key.receivedAtUs = receivedAtUs ∧
              (s.2.received receivedAtUs).length - 1 ≤ key.seq := by
          intro hne
          obtain ⟨last, hmem⟩ := Option.isSome_iff_exists.1
            (Std.ExtTreeMap.mem_iff_isSome_getElem?.1 (hlast hne))
          have hmax := (h.stamped _ _ hmem).2.2
          have hge := hgreatest _ _ hmem (by
            rw [decide_eq_true_eq]
            exact SeqKey.le_iff.2 (Or.inr ⟨rfl, hmax⟩))
          rcases SeqKey.le_iff.1 hge with hlt | ⟨heq', hle⟩
          · rcases SeqKey.le_iff.1 hbound with hlt' | ⟨heq', -⟩
            · exact absurd hlt (lt_asymm hlt')
            · exact absurd hlt (not_lt.2 heq'.le)
          · exact ⟨heq'.symm, hle⟩
        by_cases hsame : key.receivedAtUs = receivedAtUs
        · simp only [if_pos hsame] at hseq
          obtain ⟨hsucc, hmax⟩ := hfollowing _ hseq
          refine ⟨?_, hmax⟩
          have hmem : key ∈ s.1.db.updates :=
            Std.ExtTreeMap.mem_iff_isSome_getElem?.2 (by rw [hmessage]; rfl)
          have hlt := (h.mem_updates _).1 hmem
          rw [hsame] at hlt
          have hle := (hkey (by omega)).2
          omega
        · simp only [if_neg hsame] at hseq
          obtain rfl : 0 = seq := Except.ok.inj hseq
          refine ⟨?_, Nat.zero_le _⟩
          by_contra hne
          exact hsame (hkey (Ne.symm hne)).1

omit [DecidableEq F] in
/-- The rows of a timestamp, in key order. -/
theorem toList_filter {s : PositionArchive F × History F} (h : Faithful s) (receivedAtUs : Int) :
    (s.1.db.updates.toList.filter fun p => p.1.receivedAtUs == receivedAtUs) =
      (s.2.received receivedAtUs).map fun message => (message.key, message) := by
  have hkey : ∀ (i : Nat) (message : PositionUpdateMsg F),
      (s.2.received receivedAtUs)[i]? = some message → message.key = ⟨receivedAtUs, i⟩ := by
    intro i message hi
    exact (h.stamped ⟨receivedAtUs, i⟩ message (by rw [h.rows]; exact hi)).1
  refine OrdMap.eq_of_sorted_of_mem_iff ((OrdMap.sorted_keys_toList _).filter _) ?_ ?_
  · rw [List.pairwise_map, List.pairwise_iff_getElem]
    intro i j hi hj hij
    rw [hkey i _ (List.getElem?_eq_getElem hi), hkey j _ (List.getElem?_eq_getElem hj)]
    exact SeqKey.lt_iff.2 (Or.inr ⟨rfl, hij⟩)
  · rintro ⟨key, message⟩
    rw [List.mem_filter, OrdMap.mem_toList, List.mem_map]
    constructor
    · rintro ⟨hmem, hts⟩
      have hts : key.receivedAtUs = receivedAtUs := by simpa using hts
      rw [h.rows, hts] at hmem
      refine ⟨message, List.mem_of_getElem? hmem, ?_⟩
      rw [hkey _ _ hmem, ← hts]
    · rintro ⟨message', hmem, heq⟩
      obtain ⟨rfl, rfl⟩ := Prod.mk.inj heq
      obtain ⟨i, hi⟩ := List.getElem?_of_mem hmem
      refine ⟨?_, ?_⟩
      · rw [h.rows, hkey i _ hi]
        exact hi
      · rw [hkey i _ hi]
        exact beq_self_eq_true _

omit [DecidableEq F] in
/-- The retry of a target finds the first message of its strategy and time. -/
theorem storedTarget_eq {s : PositionArchive F × History F} (h : Faithful s) (receivedAtUs : Int)
    (strategy : PositionStrategy F) :
    s.1.storedTarget receivedAtUs strategy =
      ((s.2.received receivedAtUs).find? (sameEvent strategy)).map
        fun message => (message.key, message) := by
  have hstart : ∀ key : SeqKey, (key.receivedAtUs == receivedAtUs) = true →
      (⟨receivedAtUs, 0⟩ : SeqKey) ≤ key := by
    intro key hkey
    exact SeqKey.le_iff.2 (Or.inr ⟨(beq_iff_eq.1 hkey).symm, Nat.zero_le _⟩)
  have hdown : ∀ key key' : SeqKey, (⟨receivedAtUs, 0⟩ : SeqKey) ≤ key → key < key' →
      (key'.receivedAtUs == receivedAtUs) = true → (key.receivedAtUs == receivedAtUs) = true := by
    intro key key' hge hlt hkey'
    rw [beq_iff_eq] at hkey' ⊢
    have hlow : receivedAtUs ≤ key.receivedAtUs := by
      rcases SeqKey.le_iff.1 hge with hlt' | ⟨heq, -⟩
      · exact le_of_lt hlt'
      · exact le_of_eq heq
    have hhigh : key.receivedAtUs ≤ key'.receivedAtUs := by
      rcases SeqKey.lt_iff.1 hlt with hlt' | ⟨heq, -⟩
      · exact le_of_lt hlt'
      · exact le_of_eq heq
    omega
  have hrange := OrdMap.takeWhile_filter_toList s.1.db.updates ⟨receivedAtUs, 0⟩
    (fun key => key.receivedAtUs == receivedAtUs) hstart hdown
  rw [h.toList_filter] at hrange
  unfold PositionArchive.storedTarget
  simp only [hrange, List.find?_map]
  rfl

end Faithful

namespace PositionArchive

theorem batch_eq_some {archive : PositionArchive F} {q : AppendRequest F}
    {message : PositionUpdateMsg F} (h : archive.batch q = some message) :
    0 < q.receivedAtUs ∧ q.strategy.validate = .ok () ∧ archive.retries q = false ∧
      archive.nextSeq q.receivedAtUs = .ok message.seq ∧
      message.receivedAtUs = q.receivedAtUs ∧ message.strategy = q.strategy ∧
      q.outcome ≠ .failed := by
  unfold batch at h
  by_cases hpos : q.receivedAtUs ≤ 0
  · rw [if_pos hpos] at h
    cases h
  rw [if_neg hpos] at h
  by_cases hvalid : q.strategy.validate = .ok ()
  · rw [if_neg (not_not.2 hvalid)] at h
    by_cases hretry : archive.retries q = true
    · rw [if_pos hretry] at h
      cases h
    rw [if_neg hretry] at h
    cases hseq : archive.nextSeq q.receivedAtUs with
    | error e =>
      rw [hseq] at h
      cases h
    | ok seq =>
      rw [hseq] at h
      simp only at h
      by_cases hout : q.outcome = .failed
      · rw [if_pos hout] at h
        cases h
      · rw [if_neg hout] at h
        obtain rfl := Option.some.inj h
        exact ⟨not_le.1 hpos, hvalid, by simpa using hretry, rfl, rfl, rfl, hout⟩
  · rw [if_pos hvalid] at h
    cases h

end PositionArchive

namespace Faithful

/-- A new message goes behind the messages of its timestamp; no key is overwritten. -/
theorem key_not_mem {s : PositionArchive F × History F} (h : Faithful s) {q : AppendRequest F}
    (hclash : s.1.Unclashing q) {message : PositionUpdateMsg F}
    (hbatch : s.1.batch q = some message) :
    message.seq = (s.2.received message.receivedAtUs).length ∧ message.seq ≤ maxSeq ∧
      message.key ∉ s.1.db.updates := by
  obtain ⟨hpos, -, hretry, hseq, hts, -, -⟩ := PositionArchive.batch_eq_some hbatch
  obtain ⟨hlen, hmax⟩ := h.nextSeq_eq hpos (hclash hretry) hseq
  rw [← hts] at hlen
  refine ⟨hlen, hmax, ?_⟩
  rw [h.mem_updates]
  show ¬message.seq < (s.2.received message.receivedAtUs).length
  omega

/-- A message stored under the next key of its timestamp. -/
theorem write {s : PositionArchive F × History F} (h : Faithful s) {q : AppendRequest F}
    (htime : q.currentIdentity.isSome = true → q.receivedAtUs = q.strategy.updatedAtUs)
    (hclash : s.1.Unclashing q) (hshadow : s.1.Unshadowed q) {message : PositionUpdateMsg F}
    (hbatch : s.1.batch q = some message) {lastKey : SeqKey}
    (hlast : lastKey = s.1.lastKey ∨ lastKey = max s.1.lastKey message.key)
    (writes : TargetWrites) :
    Faithful ({ db := s.1.db.write message q.currentIdentity, lastKey, targetWrites := writes },
      s.2.record message q.currentIdentity) := by
  obtain ⟨hseq, hmax, hnew⟩ := h.key_not_mem hclash hbatch
  obtain ⟨hpos, hvalid, hretry, -, hts, hstrategy, -⟩ := PositionArchive.batch_eq_some hbatch
  have hinsert : ∀ key : SeqKey, (s.1.db.write message q.currentIdentity).updates[key]? =
      if message.key = key then some message else s.1.db.updates[key]? := by
    intro key
    have hget := OrdMap.getElem?_insert_of_key s.1.db.updates message.key key message
    by_cases hkey : message.key = key
    · rw [if_pos hkey] at hget ⊢
      exact hget
    · rw [if_neg hkey] at hget ⊢
      exact hget
  constructor
  · -- the rows
    intro key
    show (s.1.db.write message q.currentIdentity).updates[key]? = _
    rw [hinsert, History.received_record]
    by_cases hkey : message.key = key
    · subst hkey
      rw [if_pos rfl]
      show some message = (s.2.received message.receivedAtUs ++
        if message.receivedAtUs = message.receivedAtUs then [message] else [])[message.seq]?
      rw [if_pos rfl, hseq, List.getElem?_append_right le_rfl, Nat.sub_self]
      rfl
    · rw [if_neg hkey, h.rows]
      by_cases hsame : message.receivedAtUs = key.receivedAtUs
      · rw [if_pos hsame]
        by_cases hlt : key.seq < (s.2.received key.receivedAtUs).length
        · rw [List.getElem?_append_left hlt]
        · have hne : key.seq ≠ (s.2.received key.receivedAtUs).length := by
            intro heq
            apply hkey
            unfold PositionUpdateMsg.key
            rw [hseq, hsame, ← heq]
          rw [List.getElem?_eq_none (by omega), List.getElem?_eq_none]
          rw [List.length_append, List.length_singleton]
          omega
      · rw [if_neg hsame, List.append_nil]
  · -- the keys
    intro key message' hmem
    have hmem := (hinsert key).symm.trans hmem
    by_cases hkey : message.key = key
    · subst hkey
      rw [if_pos rfl] at hmem
      obtain rfl := Option.some.inj hmem
      refine ⟨rfl, ?_, hmax⟩
      show 0 < message.receivedAtUs
      omega
    · rw [if_neg hkey] at hmem
      exact h.stamped key message' hmem
  · -- the head
    have hold : s.1.lastKey = ⟨0, 0⟩ ∨
        s.1.lastKey ∈ (s.1.db.write message q.currentIdentity).updates := by
      rcases h.head with hzero | hmem
      · exact Or.inl hzero
      · exact Or.inr (OrdMap.mem_insert_iff.2 (Or.inr hmem))
    rcases hlast with rfl | rfl
    · exact hold
    · rcases max_choice s.1.lastKey message.key with hc | hc
      · show max s.1.lastKey message.key = _ ∨ max s.1.lastKey message.key ∈ _
        rw [hc]
        exact hold
      · right
        show max s.1.lastKey message.key ∈ _
        rw [hc]
        exact Std.ExtTreeMap.mem_insert_self
  · -- the current targets
    intro name
    show (s.1.db.write message q.currentIdentity).current[name]? = _
    unfold ArchiveDb.write History.record
    cases q.currentIdentity with
    | none => exact h.current name
    | some identity =>
      simp only
      rw [OrdMap.getElem?_insert_of_key]
      by_cases hname : message.strategy.strategyName = name
      · rw [if_pos hname, if_pos hname]
        rfl
      · rw [if_neg hname, if_neg hname]
        exact h.current name
  · -- the stored message of a target is the first of its name and time
    intro name t ht
    have hkeep : ∀ t : StoredTarget F, s.2.targets name = some t →
        t.strategy.strategyName = name ∧ 0 < t.strategy.updatedAtUs ∧
          t.strategy.validate = .ok () ∧
          ((s.2.record message q.currentIdentity).received t.strategy.updatedAtUs).find?
            (sameEvent t.strategy) = some t.message := by
      intro t ht
      obtain ⟨h1, h2, h3, h4⟩ := h.target name t ht
      refine ⟨h1, h2, h3, ?_⟩
      rw [History.received_record, List.find?_append, h4]
      rfl
    cases hid : q.currentIdentity with
    | none =>
      rw [hid] at ht hkeep
      exact hkeep t ht
    | some identity =>
      rw [hid] at ht hkeep
      by_cases hname : message.strategy.strategyName = name
      · have ht' : t = { createdAtUs := identity, strategy := message.strategy, message } := by
          unfold History.record at ht
          simp only [if_pos hname] at ht
          exact (Option.some.inj ht).symm
        have htime := htime (by rw [hid]; rfl)
        have hupdated : message.strategy.updatedAtUs = message.receivedAtUs := by
          rw [hstrategy, hts, htime]
        subst ht'
        refine ⟨hname, by rw [hupdated, hts]; exact hpos, by rw [hstrategy]; exact hvalid, ?_⟩
        show ((s.2.record message (some identity)).received message.strategy.updatedAtUs).find?
          (sameEvent message.strategy) = some message
        rw [hupdated, History.received_record, if_pos rfl, List.find?_append]
        have hnone : (s.2.received message.receivedAtUs).find? (sameEvent message.strategy) =
            none := by
          rw [List.find?_eq_none]
          intro earlier hmem hsame
          obtain ⟨i, hi⟩ := List.getElem?_of_mem hmem
          refine hshadow hretry (by rw [hid]; rfl) ⟨message.receivedAtUs, i⟩ earlier
            (by rw [h.rows]; exact hi) hts ?_
          rw [← hstrategy]
          simpa [sameEvent] using hsame
        rw [hnone]
        simp [sameEvent]
      · have ht' : s.2.targets name = some t := by
          unfold History.record at ht
          simpa only [if_neg hname] using ht
        exact hkeep t ht'

end Faithful

/-! ## Calls on a faithful archive -/

/-- Every stored key is at most the head. -/
def Settled (archive : PositionArchive F) : Prop :=
  ∀ key ∈ archive.db.updates, key ≤ archive.lastKey

theorem call_of_request {archive : PositionArchive F} {c : ArchiveCall F} {q : AppendRequest F}
    (h : c.request = some q) :
    archive.call c = ((archive.appendInner q.receivedAtUs q.strategy q.factualPositions
      q.publishedAccounts q.currentIdentity q.outcome).1,
      some (archive.appendInner q.receivedAtUs q.strategy q.factualPositions
        q.publishedAccounts q.currentIdentity q.outcome).2) := by
  cases c with
  | append receivedAtUs strategy factualPositions publishedAccounts outcome =>
    obtain rfl := Option.some.inj h
    rfl
  | appendTarget strategy createdAtUs publishedAccounts outcome =>
    obtain rfl := Option.some.inj h
    rfl
  | reopen => cases h

omit [DecidableEq F] [F64 F] [Text.Unicode] in
theorem time_of_request {c : ArchiveCall F} {q : AppendRequest F} (h : c.request = some q) :
    q.currentIdentity.isSome = true → q.receivedAtUs = q.strategy.updatedAtUs := by
  cases c with
  | append receivedAtUs strategy factualPositions publishedAccounts outcome =>
    obtain rfl := Option.some.inj h
    exact fun h => absurd h (by simp)
  | appendTarget strategy createdAtUs publishedAccounts outcome =>
    obtain rfl := Option.some.inj h
    exact fun _ => rfl
  | reopen => cases h

namespace Faithful

omit [DecidableEq F] in
theorem empty : Faithful ((PositionArchive.openDb .empty, .empty) :
    PositionArchive F × History F) := by
  constructor
  · intro key
    show (∅ : OrdMap SeqKey (PositionUpdateMsg F))[key]? = ([] : List _)[key.seq]?
    rw [Std.ExtTreeMap.getElem?_empty]
    rfl
  · intro key message h
    have h : (∅ : OrdMap SeqKey (PositionUpdateMsg F))[key]? = some message := h
    rw [Std.ExtTreeMap.getElem?_empty] at h
    cases h
  · left
    have hnil : (∅ : OrdMap SeqKey (PositionUpdateMsg F)).toList = [] :=
      Std.ExtTreeMap.toList_eq_nil_iff.2 rfl
    show ((∅ : OrdMap SeqKey (PositionUpdateMsg F)).toList.getLast?.map Prod.fst).getD ⟨0, 0⟩ = _
    rw [hnil]
    rfl
  · intro name
    exact Std.ExtTreeMap.getElem?_empty
  · intro name t h
    cases h

omit [DecidableEq F] [F64 F] [Text.Unicode] in
theorem latestKey_of_mem {db : ArchiveDb F} {key : SeqKey} (h : db.latestKey = some key) :
    key ∈ db.updates ∧ ∀ key' ∈ db.updates, key' ≤ key := by
  obtain ⟨e, he, rfl⟩ := Option.map_eq_some_iff.1 h
  exact OrdMap.getLast?_toList he

omit [DecidableEq F] [F64 F] [Text.Unicode] in
theorem not_mem_of_latestKey {db : ArchiveDb F} (h : db.latestKey = none) (key : SeqKey) :
    key ∉ db.updates := by
  rw [OrdMap.getLast?_toList_eq_none (Option.map_eq_none_iff.1 h)]
  exact Std.ExtTreeMap.not_mem_empty

omit [DecidableEq F] in
/-- The head of a reopened archive is the last stored key. -/
theorem openDb {s : PositionArchive F × History F} (h : Faithful s) :
    Faithful (PositionArchive.openDb s.1.db, s.2) ∧ Settled (PositionArchive.openDb s.1.db) := by
  refine ⟨⟨h.rows, h.stamped, ?_, h.current, h.target⟩, ?_⟩
  · show s.1.db.latestKey.getD ⟨0, 0⟩ = ⟨0, 0⟩ ∨ s.1.db.latestKey.getD ⟨0, 0⟩ ∈ s.1.db.updates
    cases hkey : s.1.db.latestKey with
    | none => exact Or.inl rfl
    | some key => exact Or.inr (latestKey_of_mem hkey).1
  · intro key hkey
    show key ≤ s.1.db.latestKey.getD ⟨0, 0⟩
    cases hlast : s.1.db.latestKey with
    | none => exact absurd hkey (not_mem_of_latestKey hlast key)
    | some last => exact (latestKey_of_mem hlast).2 key hkey

omit [DecidableEq F] in
/-- A head above every key is the last stored key. -/
theorem lastKey_eq {s : PositionArchive F × History F} (h : Faithful s) (hs : Settled s.1) :
    s.1.lastKey = s.1.db.latestKey.getD ⟨0, 0⟩ := by
  cases hlast : s.1.db.latestKey with
  | none =>
    rcases h.head with hzero | hmem
    · exact hzero
    · exact absurd hmem (not_mem_of_latestKey hlast _)
  | some last =>
    obtain ⟨hmem, hmax⟩ := latestKey_of_mem hlast
    rcases h.head with hzero | hhead
    · -- a stored key is above the initial head
      obtain ⟨message, hmessage⟩ := Option.isSome_iff_exists.1
        (Std.ExtTreeMap.mem_iff_isSome_getElem?.1 hmem)
      have hpos := (h.stamped last message hmessage).2.1
      have hle := hs last hmem
      rw [hzero] at hle
      rcases SeqKey.le_iff.1 hle with hlt | ⟨heq, -⟩
      · exact absurd hlt (lt_asymm hpos)
      · exact absurd hpos (by rw [heq]; exact lt_irrefl 0)
    · exact le_antisymm (hmax _ hhead) (hs last hmem)

/-- The step lemma: a call that neither clashes nor is shadowed. -/
theorem step {s : PositionArchive F × History F} (h : Faithful s) (c : ArchiveCall F)
    (hsafe : ∀ q, c.request = some q → s.1.Unclashing q ∧ s.1.Unshadowed q) :
    Faithful (PositionArchive.step s c) := by
  unfold PositionArchive.step
  cases hq : c.request with
  | none =>
    cases c with
    | append => cases hq
    | appendTarget => cases hq
    | reopen => exact h.openDb.1
  | some q =>
    obtain ⟨hclash, hshadow⟩ := hsafe q hq
    have htime := time_of_request hq
    have happ := s.1.appendInner_appended q
    rw [call_of_request hq]
    simp only
    generalize s.1.appendInner q.receivedAtUs q.strategy q.factualPositions q.publishedAccounts
      q.currentIdentity q.outcome = result at happ
    cases happ with
    | refused e hbatch =>
      rw [hbatch]
      exact h
    | retried key message writes hretry hstored hbatch =>
      rw [hbatch]
      refine ⟨h.rows, h.stamped, ?_, h.current, h.target⟩
      have hkey : key ∈ s.1.db.updates := by
        unfold PositionArchive.storedTarget at hstored
        have hmem := List.mem_of_find?_eq_some hstored
        have hmem := (List.mem_filter.1 (List.takeWhile_subset _ hmem)).1
        rw [Std.ExtTreeMap.mem_iff_isSome_getElem?, OrdMap.mem_toList.1 hmem]
        rfl
      rcases max_choice s.1.lastKey key with hc | hc
      · show max s.1.lastKey key = _ ∨ max s.1.lastKey key ∈ _
        rw [hc]
        exact h.head
      · right
        show max s.1.lastKey key ∈ _
        rw [hc]
        exact hkey
    | stored message writes hbatch =>
      rw [hbatch]
      exact h.write htime hclash hshadow hbatch (Or.inr rfl) writes
    | unacknowledged message e hbatch =>
      rw [hbatch]
      exact h.write htime hclash hshadow hbatch (Or.inl rfl) s.1.targetWrites

/-- No call replaces a stored message. -/
theorem kept {s : PositionArchive F × History F} (h : Faithful s) (c : ArchiveCall F)
    (hsafe : ∀ q, c.request = some q → s.1.Unclashing q) {key : SeqKey}
    {message : PositionUpdateMsg F} (hmem : s.1.db.updates[key]? = some message) :
    (PositionArchive.step s c).1.db.updates[key]? = some message := by
  unfold PositionArchive.step
  cases hq : c.request with
  | none =>
    cases c with
    | append => cases hq
    | appendTarget => cases hq
    | reopen => exact hmem
  | some q =>
    have hwrite : ∀ new, s.1.batch q = some new →
        (s.1.db.write new q.currentIdentity).updates[key]? = some message := by
      intro new hbatch
      have hnew := (h.key_not_mem (hsafe q hq) hbatch).2.2
      show (s.1.db.updates.insert new.key new)[key]? = some message
      rw [OrdMap.getElem?_insert_of_key, if_neg, hmem]
      rintro rfl
      exact hnew (Std.ExtTreeMap.mem_iff_isSome_getElem?.2 (by rw [hmem]; rfl))
    have happ := s.1.appendInner_appended q
    rw [call_of_request hq]
    simp only
    generalize s.1.appendInner q.receivedAtUs q.strategy q.factualPositions q.publishedAccounts
      q.currentIdentity q.outcome = result at happ
    cases happ with
    | refused e hbatch => exact hmem
    | retried key message writes hretry hstored hbatch => exact hmem
    | stored new writes hbatch => exact hwrite new hbatch
    | unacknowledged new e hbatch => exact hwrite new hbatch

/-- With every message above the head acknowledged, the head stays the last key, and
no call can clash. -/
theorem step_settled {s : PositionArchive F × History F} (h : Faithful s) (hs : Settled s.1)
    (c : ArchiveCall F) (hack : ∀ q, c.request = some q → s.1.Acknowledged q) :
    Settled (PositionArchive.step s c).1 := by
  unfold PositionArchive.step
  cases hq : c.request with
  | none =>
    cases c with
    | append => cases hq
    | appendTarget => cases hq
    | reopen => exact h.openDb.2
  | some q =>
    have happ := s.1.appendInner_appended q
    rw [call_of_request hq]
    simp only
    generalize s.1.appendInner q.receivedAtUs q.strategy q.factualPositions q.publishedAccounts
      q.currentIdentity q.outcome = result at happ
    cases happ with
    | refused e hbatch => exact hs
    | retried key message writes hretry hstored hbatch =>
      exact fun key' hkey' => (hs key' hkey').trans (le_max_left _ _)
    | stored new writes hbatch =>
      intro key' hkey'
      have hkey' : key' ∈ s.1.db.updates.insert new.key new := hkey'
      rcases OrdMap.mem_insert_iff.1 hkey' with rfl | hmem
      · exact le_max_right _ _
      · exact (hs key' hmem).trans (le_max_left _ _)
    | unacknowledged new e hbatch herror =>
      -- such a message is late: its key is below the head
      obtain ⟨-, -, hretry, -, hts, -, -⟩ := PositionArchive.batch_eq_some hbatch
      have hlate : q.receivedAtUs < s.1.lastKey.receivedAtUs := by
        by_contra hge
        obtain ⟨hreported, hrevision⟩ := hack q hq hretry (not_lt.1 hge)
        rcases herror with herror | ⟨hcommitted, herror⟩
        · exact hreported herror
        · exact herror (hrevision hcommitted)
      intro key' hkey'
      have hkey' : key' ∈ s.1.db.updates.insert new.key new := hkey'
      rcases OrdMap.mem_insert_iff.1 hkey' with rfl | hmem
      · refine (SeqKey.lt_iff.2 (Or.inl ?_)).le
        show new.receivedAtUs < _
        rw [hts]
        exact hlate
      · exact hs key' hmem

/-- The retry of a stored target adds nothing and returns its message. -/
theorem retry {s : PositionArchive F × History F} (h : Faithful s) {t : StoredTarget F}
    (ht : s.2.targets t.strategy.strategyName = some t)
    (publishedAccounts : List (ArchivedPublishedAccount F)) (outcome : WriteOutcome) :
    (s.1.appendTarget t.strategy t.createdAtUs publishedAccounts outcome).1.db = s.1.db ∧
      (outcome = .committed → s.1.targetWrites.revision < maxRevision →
        (s.1.appendTarget t.strategy t.createdAtUs publishedAccounts outcome).2 =
          .ok t.message ∧
        (s.1.appendTarget t.strategy t.createdAtUs publishedAccounts outcome).1.lastKey =
          max s.1.lastKey t.message.key) := by
  obtain ⟨-, hpos, hvalid, hfind⟩ := h.target _ t ht
  have hretry : ((some t.createdAtUs).any fun identity =>
      s.1.db.current[t.strategy.strategyName]? == some (identity, t.strategy)) = true := by
    rw [h.current, ht]
    simp
  have hstored : s.1.storedTarget t.strategy.updatedAtUs t.strategy =
      some (t.message.key, t.message) := by
    rw [h.storedTarget_eq, hfind]
    rfl
  unfold PositionArchive.appendTarget PositionArchive.appendInner
  rw [if_neg (not_le.2 hpos), hvalid]
  simp only [hretry, if_true, hstored]
  by_cases hout : outcome = .committed
  · rw [if_pos hout]
    rcases s.1.recordAppend_cases t.message.key with ⟨-, writes, hrecord⟩ | ⟨hrev, hrecord⟩
    · rw [hrecord]
      exact ⟨rfl, fun _ _ => ⟨rfl, rfl⟩⟩
    · rw [hrecord]
      exact ⟨rfl, fun _ hlt => absurd hlt hrev⟩
  · rw [if_neg hout]
    exact ⟨rfl, fun h => absurd h hout⟩

end Faithful

end

end CtaManager.Archive
