import CtaManager.Nav.LiquidityJournal

/-!
The journal against a full read of its files.

`fullRead` merges the roles of all complete lines of all files, in the order of the files.
A file state `Reads` the bytes of its file when its offset ends a line and its roles are
those of the lines before it.  `visitAll` keeps that of every file, and a refresh that puts
the roles together has the roles of the full read (`refresh_spec`).
-/

namespace CtaManager.FillRecovery

open Check Lines FirstKept

variable (reader : JournalReader) (scope : Scope)

/-! ## The full read -/

def mergeLine (roles : Roles) (line : List UInt8) : Except JournalError Roles := do
  match ← parseRole reader line scope.portfolio scope.exchange with
  | some role => merge reader roles role
  | none => .ok roles

def mergeLines (roles : Roles) (complete : List (List UInt8)) : Except JournalError Roles :=
  complete.foldlM (mergeLine reader scope) roles

/-- The roles of all complete lines of the journal files. -/
def fullRead (entries : OrdMap String Content) : Except JournalError Roles :=
  (journalFiles entries).toList.foldlM
    (fun roles file => mergeLines reader scope roles (lines file.2.bytes)) ∅

/-! ## Merging keeps the first -/

def RoleEvidence.key (evidence : RoleEvidence) : String := evidence.execution.transactionId

/-- Both numbers can be read. -/
def RoleEvidence.Readable (evidence : RoleEvidence) : Prop :=
  (∃ quantity, number reader evidence.execution.quantity = .ok quantity) ∧
    ∃ price, number reader evidence.execution.price = .ok price

/-- What `validate` and the comparison of the roles look at, beside the transaction id. -/
structure Print where
  ids : String × String × String × String
  timestampMs : Int
  quantity : Option ℚ
  price : Option ℚ
  role : FillLiquidity

def RoleEvidence.print (evidence : RoleEvidence) : Print where
  ids := (evidence.execution.orderId, evidence.execution.clientOrderId, evidence.execution.symbol,
    evidence.execution.side)
  timestampMs := evidence.execution.timestampMs
  quantity := (number reader evidence.execution.quantity).toOption
  price := (number reader evidence.execution.price).toOption
  role := evidence.role

def checkRole (old role : RoleEvidence) : Except JournalError Unit := do
  ensure ((← old.validate reader role.execution) == role.role) .conflictingRoles

theorem merge_eq_keep : merge reader = keep RoleEvidence.key (checkRole reader) := by
  funext roles role
  unfold merge keep RoleEvidence.key
  cases hold : roles[role.execution.transactionId]? with
  | none => rfl
  | some old =>
    unfold checkRole
    simp only
    cases old.validate reader role.execution with
    | error e => rfl
    | ok r => rfl

section

variable {reader}

/-- The execution under `j` and the one under `e` are one fill. -/
theorem agrees_eq_ok {j e : Execution} {jq jp eq ep : ℚ}
    (hjq : number reader j.quantity = .ok jq) (hjp : number reader j.price = .ok jp)
    (heq : number reader e.quantity = .ok eq) (hep : number reader e.price = .ok ep) :
    j.agrees reader e = .ok (decide (j.transactionId = e.transactionId ∧ j.orderId = e.orderId ∧
      j.clientOrderId = e.clientOrderId ∧ j.symbol = e.symbol ∧ j.side = e.side ∧
      j.timestampMs = e.timestampMs ∧ jq = eq ∧ jp = ep)) := by
  unfold Execution.agrees
  simp only [hjq, hjp, heq, hep, ok_bind, pure_eq_ok]
  split
  · next hids =>
    simp only [Bool.and_eq_true, beq_iff_eq] at hids
    obtain ⟨⟨⟨⟨⟨htx, horder⟩, hclient⟩, hsymbol⟩, hside⟩, hms⟩ := hids
    split
    · next hq =>
      have hq : jq = eq := by simpa using hq
      simp only [htx, horder, hclient, hsymbol, hside, hms, hq, true_and]
      rfl
    · next hq =>
      have hq : jq ≠ eq := by simpa using hq
      simp [hq]
  · next hids =>
    refine congrArg _ (Eq.symm (decide_eq_false ?_))
    rintro ⟨htx, horder, hclient, hsymbol, hside, hms, -⟩
    apply hids
    simp [htx, horder, hclient, hsymbol, hside, hms]

theorem checkRole_eq_ok_iff {old new : RoleEvidence} {same : Bool}
    (h : old.execution.agrees reader new.execution = .ok same) :
    checkRole reader old new = .ok () ↔ same = true ∧ old.role = new.role := by
  unfold checkRole RoleEvidence.validate
  rw [h]
  cases same with
  | false => simp [ensure]
  | true => simp [pure_eq_ok]

end

theorem checks_role :
    Checks RoleEvidence.key (checkRole reader) (RoleEvidence.print reader)
      (RoleEvidence.Readable reader) := by
  constructor
  rintro old new ⟨⟨jq, hjq⟩, ⟨jp, hjp⟩⟩ ⟨⟨eq, heq⟩, ⟨ep, hep⟩⟩ hkey
  have hid : old.execution.transactionId = new.execution.transactionId := hkey
  rw [checkRole_eq_ok_iff (agrees_eq_ok hjq hjp heq hep)]
  unfold RoleEvidence.print
  simp only [hjq, hjp, heq, hep, hid, decide_eq_true_eq, Print.mk.injEq, Prod.mk.injEq,
    Except.toOption, Option.some.injEq, true_and, and_assoc]

theorem parseRole_readable {line : List UInt8} {portfolio exchange : String}
    {role : RoleEvidence} (h : parseRole reader line portfolio exchange = .ok (some role)) :
    role.Readable reader := by
  unfold parseRole at h
  split at h
  · cases h
  · split at h
    · cases h
    · next row _ =>
      simp only at h
      split at h
      · cases h
      · split at h
        · cases h
        · split at h
          · cases h
          · obtain ⟨transactionId, -, h⟩ := bind_eq_ok.1 h
            obtain ⟨orderId, -, h⟩ := bind_eq_ok.1 h
            obtain ⟨symbol, -, h⟩ := bind_eq_ok.1 h
            obtain ⟨side, -, h⟩ := bind_eq_ok.1 h
            obtain ⟨quantity, -, h⟩ := bind_eq_ok.1 h
            obtain ⟨price, -, h⟩ := bind_eq_ok.1 h
            obtain ⟨createAt, -, h⟩ := bind_eq_ok.1 h
            obtain ⟨timestampMs, -, h⟩ := bind_eq_ok.1 h
            obtain ⟨q, hq, h⟩ := bind_eq_ok.1 h
            obtain ⟨p, hp, h⟩ := bind_eq_ok.1 h
            obtain ⟨-, -, h⟩ := bind_eq_ok.1 h
            cases h
            exact ⟨⟨q, hq⟩, ⟨p, hp⟩⟩

/-! ## Parsed lines -/

/-- The roles that the lines hold. -/
def Parsed (complete : List (List UInt8)) (roles : List RoleEvidence) : Prop :=
  ∃ parsed, complete.mapM (fun line => parseRole reader line scope.portfolio scope.exchange) =
    .ok parsed ∧ roles = parsed.flatMap Option.toList

section

variable {reader} {scope} {complete : List (List UInt8)} {found : List RoleEvidence}

theorem Parsed.readable (h : Parsed reader scope complete found) :
    ∀ role ∈ found, role.Readable reader := by
  obtain ⟨parsed, hparsed, rfl⟩ := h
  intro role hrole
  obtain ⟨o, ho, hrole⟩ := List.mem_flatMap.1 hrole
  obtain ⟨line, -, hline⟩ := (mem_of_mapM_eq_ok hparsed).2 o ho
  rw [Option.mem_toList] at hrole
  subst hrole
  exact parseRole_readable reader hline

theorem Parsed.unique {found' : List RoleEvidence} (h : Parsed reader scope complete found)
    (h' : Parsed reader scope complete found') : found = found' := by
  obtain ⟨parsed, hparsed, rfl⟩ := h
  obtain ⟨parsed', hparsed', rfl⟩ := h'
  rw [hparsed] at hparsed'
  cases hparsed'
  rfl

theorem parsed_cons {line : List UInt8} :
    Parsed reader scope (line :: complete) found ↔
      ∃ role more, parseRole reader line scope.portfolio scope.exchange = .ok role ∧
        Parsed reader scope complete more ∧ found = role.toList ++ more := by
  unfold Parsed
  constructor
  · rintro ⟨parsed, hparsed, rfl⟩
    rw [List.mapM_cons] at hparsed
    obtain ⟨role, hrole, hparsed⟩ := bind_eq_ok.1 hparsed
    obtain ⟨more, hmore, hparsed⟩ := bind_eq_ok.1 hparsed
    cases hparsed
    exact ⟨role, _, hrole, ⟨more, hmore, rfl⟩, List.flatMap_cons⟩
  · rintro ⟨role, more, hrole, ⟨parsed, hparsed, rfl⟩, rfl⟩
    refine ⟨role :: parsed, ?_, List.flatMap_cons.symm⟩
    rw [List.mapM_cons, hrole, ok_bind, hparsed]
    rfl

theorem mergeLine_eq_ok_iff {line : List UInt8} {roles roles' : Roles} :
    mergeLine reader scope roles line = .ok roles' ↔
      ∃ role, parseRole reader line scope.portfolio scope.exchange = .ok role ∧
        keepAll RoleEvidence.key (checkRole reader) roles role.toList = .ok roles' := by
  unfold mergeLine
  rw [bind_eq_ok]
  refine exists_congr fun role => and_congr_right fun _ => ?_
  cases role with
  | none => exact Iff.rfl
  | some role =>
    rw [merge_eq_keep]
    show _ ↔ [role].foldlM (keep _ _) roles = _
    rw [foldlM_cons, bind_eq_ok]
    simp only [foldlM_nil, Except.ok.injEq, exists_eq_right]

/-- The lines are parsed, then their roles are kept. -/
theorem mergeLines_eq_ok_iff {roles roles' : Roles} :
    mergeLines reader scope roles complete = .ok roles' ↔
      ∃ found, Parsed reader scope complete found ∧
        keepAll RoleEvidence.key (checkRole reader) roles found = .ok roles' := by
  induction complete generalizing roles with
  | nil =>
    constructor
    · intro h
      exact ⟨[], ⟨[], rfl, rfl⟩, h⟩
    · rintro ⟨found, ⟨parsed, hparsed, rfl⟩, h⟩
      cases hparsed
      exact h
  | cons line complete ih =>
    have hcons : mergeLines reader scope roles (line :: complete) =
        (mergeLine reader scope roles line >>= fun roles =>
          mergeLines reader scope roles complete) := rfl
    have happend : ∀ (role : Option RoleEvidence) (more : List RoleEvidence),
        keepAll RoleEvidence.key (checkRole reader) roles (role.toList ++ more) =
          (keepAll RoleEvidence.key (checkRole reader) roles role.toList >>= fun roles =>
            keepAll RoleEvidence.key (checkRole reader) roles more) :=
      fun role more => foldlM_append ..
    rw [hcons, bind_eq_ok]
    constructor
    · rintro ⟨mid, hline, hrest⟩
      obtain ⟨role, hrole, hmid⟩ := mergeLine_eq_ok_iff.1 hline
      obtain ⟨more, hmore, hkeep⟩ := ih.1 hrest
      refine ⟨role.toList ++ more, parsed_cons.2 ⟨role, more, hrole, hmore, rfl⟩, ?_⟩
      rw [happend, hmid]
      exact hkeep
    · rintro ⟨found, hparsed, hkeep⟩
      obtain ⟨role, more, hrole, hmore, rfl⟩ := parsed_cons.1 hparsed
      rw [happend] at hkeep
      obtain ⟨mid, hmid, hrest⟩ := bind_eq_ok.1 hkeep
      exact ⟨mid, mergeLine_eq_ok_iff.2 ⟨role, hrole, hmid⟩, ih.2 ⟨more, hmore, hrest⟩⟩

end

/-! ## One file -/

/-- The bytes before the offset are whole lines within the limit, and the roles are theirs. -/
structure JournalFile.Reads (state : JournalFile) (bytes : List UInt8) : Prop where
  offset_le : state.offset ≤ bytes.length
  whole : Whole (bytes.take state.offset)
  short : ∀ line ∈ lines (bytes.take state.offset), line.length ≤ maxLine
  roles_eq : mergeLines reader scope ∅ (lines (bytes.take state.offset)) = .ok state.roles

/-- The line after the offset cannot be read or merged. -/
def JournalFile.Stuck (state : JournalFile) (bytes : List UInt8) (e : JournalError) : Prop :=
  (maxLine < (readUntil (maxLine + 1) (bytes.drop state.offset)).length ∧ e = .lineTooLong) ∨
  ∃ line rest, IsLine line ∧ line.length ≤ maxLine ∧ bytes.drop state.offset = line ++ rest ∧
    mergeLine reader scope state.roles line = .error e

section

variable {reader} {scope} {state : JournalFile} {bytes : List UInt8}

theorem JournalFile.reads_empty (identity : Identity) :
    ({ JournalFile.empty with identity } : JournalFile).Reads reader scope bytes :=
  { offset_le := Nat.zero_le _
    whole := rfl
    short := fun _ hline => absurd hline List.not_mem_nil
    roles_eq := rfl }

theorem accept_eq (line : List UInt8) :
    state.accept reader scope line =
      (mergeLine reader scope state.roles line).map fun roles =>
        { state with roles, offset := state.offset + line.length } := by
  unfold JournalFile.accept mergeLine
  cases parseRole reader line scope.portfolio scope.exchange with
  | error e => rfl
  | ok role =>
    cases role with
    | none => rfl
    | some role =>
      simp only [ok_bind]
      cases merge reader state.roles role with
      | error e => rfl
      | ok roles => rfl

/-- A line that is accepted belongs to what was read. -/
theorem JournalFile.Reads.accept {line rest : List UInt8} {state' : JournalFile}
    (h : state.Reads reader scope bytes) (hline : IsLine line) (hshort : line.length ≤ maxLine)
    (hrest : bytes.drop state.offset = line ++ rest)
    (haccept : state.accept reader scope line = .ok state') :
    state'.Reads reader scope bytes ∧ state'.identity = state.identity ∧
      bytes.drop state'.offset = rest := by
  rw [accept_eq] at haccept
  obtain ⟨roles, hroles, rfl⟩ := map_eq_ok.1 haccept
  have htake : bytes.take (state.offset + line.length) = bytes.take state.offset ++ line := by
    rw [List.take_add, hrest, List.take_left]
  have hdrop : bytes.drop (state.offset + line.length) = rest := by
    rw [← List.drop_drop, hrest, List.drop_left]
  have hlength : (bytes.drop state.offset).length = line.length + rest.length := by
    rw [hrest, List.length_append]
  rw [List.length_drop] at hlength
  have hle := h.offset_le
  refine ⟨⟨?_, ?_, ?_, ?_⟩, rfl, hdrop⟩
  · show state.offset + line.length ≤ bytes.length
    omega
  · show Whole (bytes.take (state.offset + line.length))
    rw [htake]
    exact h.whole.append_line hline
  · show ∀ read ∈ lines (bytes.take (state.offset + line.length)), read.length ≤ maxLine
    rw [htake, lines_append_line h.whole hline]
    intro read hread
    rcases List.mem_append.1 hread with hread | hread
    · exact h.short read hread
    · rwa [List.mem_singleton.1 hread]
  · show mergeLines reader scope ∅ (lines (bytes.take (state.offset + line.length))) = .ok roles
    rw [htake, lines_append_line h.whole hline]
    show (lines (bytes.take state.offset) ++ [line]).foldlM (mergeLine reader scope) ∅ = _
    rw [foldlM_append]
    have hroles_eq : (lines (bytes.take state.offset)).foldlM (mergeLine reader scope) ∅ =
      .ok state.roles := h.roles_eq
    rw [hroles_eq, ok_bind, foldlM_cons, hroles]
    rfl

/-- What reading a file leaves: the whole file when it succeeds, and otherwise the offset is
at the line that failed. -/
structure ReadTo (reader : JournalReader) (scope : Scope) (identity : Identity)
    (bytes : List UInt8) (out : JournalFile × Except JournalError Unit) : Prop where
  identity_eq : out.1.identity = identity
  reads : out.1.Reads reader scope bytes
  complete : out.2 = .ok () → newline ∉ bytes.drop out.1.offset
  stuck : ∀ e, out.2 = .error e → out.1.Stuck reader scope bytes e

theorem JournalFile.readTo_readLines {rest : List UInt8} (h : state.Reads reader scope bytes)
    (hrest : bytes.drop state.offset = rest) :
    ReadTo reader scope state.identity bytes (state.readLines reader scope rest) := by
  induction hlength : rest.length using Nat.strongRecOn generalizing state rest with
  | ind n ih =>
    subst hlength
    unfold JournalFile.readLines
    simp only
    split
    · next hlong =>
      refine ⟨rfl, h, fun hok => ?_, ?_⟩
      · cases hok
      · rintro e he
        cases he
        exact Or.inl ⟨hrest ▸ hlong, rfl⟩
    · next hshort =>
      rcases readUntil_cases (maxLine + 1) rest with
        ⟨line, more, hline, hsplit, -, hread⟩ | ⟨hnone, hread⟩
      · rw [hread] at hshort
        rw [hread, dif_pos (endsWithNewline_of_isLine hline)]
        cases haccept : state.accept reader scope line with
        | error e =>
          refine ⟨rfl, h, fun hok => ?_, ?_⟩
          · cases hok
          · rintro e' he
            cases he
            refine Or.inr ⟨line, more, hline, by omega, hrest.trans hsplit, ?_⟩
            rw [accept_eq] at haccept
            cases hmerge : mergeLine reader scope state.roles line with
            | error e' =>
              rw [hmerge] at haccept
              cases haccept
              rfl
            | ok roles =>
              rw [hmerge] at haccept
              cases haccept
        | ok state' =>
          obtain ⟨hreads, hidentity, hdrop⟩ := h.accept hline (by omega) (hrest.trans hsplit) haccept
          have hmore : rest.drop line.length = more := by rw [hsplit, List.drop_left]
          have hpos := List.length_pos_of_ne_nil hline.ne_nil
          have hlt : more.length < rest.length := by
            rw [hsplit, List.length_append]
            omega
          show ReadTo reader scope state.identity bytes
            (state'.readLines reader scope (rest.drop line.length))
          rw [hmore, ← hidentity]
          exact ih more.length hlt hreads hdrop rfl
      · -- no newline within the limit, and not more bytes than the limit
        have hnotEnd := endsWithNewline_of_notMem hnone
        rw [hread, dif_neg (by rw [hnotEnd]; exact Bool.false_ne_true)]
        refine ⟨rfl, h, fun _ => ?_, fun e he => ?_⟩
        · rw [hread, List.length_take] at hshort
          show newline ∉ bytes.drop state.offset
          rw [hrest, ← List.take_of_length_le (by omega : rest.length ≤ maxLine + 1)]
          exact hnone
        · cases he

end

end CtaManager.FillRecovery
