import Mathlib.Data.List.Induction

/-!
Programs that ask their environment, and their runs.

A program ends with a value or asks and goes on with the answer.  What the environment may answer,
and what the world is afterwards, is a relation.  A run may stop before any question: a crash, or a
task that is dropped.  `Always` is the rule for such programs: an invariant of the events so far and
the world holds at every point of every run, and the result has a property.
-/

namespace CtaManager

inductive Program (Op : Type) (Answer : Op → Type) (α : Type) where
  | done (a : α)
  | ask (op : Op) (next : Answer op → Program Op Answer α)

namespace Program

variable {Op : Type} {Answer : Op → Type} {World α β ε : Type}

protected def bind : Program Op Answer α → (α → Program Op Answer β) → Program Op Answer β
  | .done a, f => f a
  | .ask op next, f => .ask op fun answer => (next answer).bind f

instance : Monad (Program Op Answer) where
  pure := .done
  bind := Program.bind

/-- One question. -/
def call (op : Op) : Program Op Answer (Answer op) := .ask op .done

structure Event (World : Type) {Op : Type} (Answer : Op → Type) where
  before : World
  op : Op
  answer : Answer op
  after : World

/-- A run from one world to another; its result, if it has not stopped before. -/
inductive Runs (T : World → (op : Op) → Answer op → World → Prop) :
    World → Program Op Answer α → List (Event World Answer) → World → Option α → Prop where
  | stopped (w : World) (p : Program Op Answer α) : Runs T w p [] w none
  | done (w : World) (a : α) : Runs T w (.done a) [] w (some a)
  | ask {w w' w'' : World} {op : Op} {next : Answer op → Program Op Answer α} {answer : Answer op}
      {es : List (Event World Answer)} {result : Option α} :
      T w op answer w' → Runs T w' (next answer) es w'' result →
        Runs T w (.ask op next) (⟨w, op, answer, w'⟩ :: es) w'' result

variable {T : World → (op : Op) → Answer op → World → Prop}

/-- `Q` holds of the events and the world at every point of a run, and `R` at its end. -/
def Always (T : World → (op : Op) → Answer op → World → Prop)
    (Q : List (Event World Answer) → World → Prop)
    (R : List (Event World Answer) → World → α → Prop) :
    Program Op Answer α → List (Event World Answer) → World → Prop
  | .done a, es, w => Q es w ∧ R es w a
  | .ask op next, es, w => Q es w ∧ ∀ answer w', T w op answer w' →
      Always T Q R (next answer) (es ++ [⟨w, op, answer, w'⟩]) w'

variable {Q : List (Event World Answer) → World → Prop}

theorem Always.here {R : List (Event World Answer) → World → α → Prop} {p : Program Op Answer α}
    {es : List (Event World Answer)} {w : World} (h : Always T Q R p es w) : Q es w := by
  cases p with
  | done a => exact h.1
  | ask op next => exact h.1

theorem Always.mono {R R' : List (Event World Answer) → World → α → Prop}
    {p : Program Op Answer α} {es : List (Event World Answer)} {w : World} (h : Always T Q R p es w)
    (hR : ∀ es w a, Q es w → R es w a → R' es w a) : Always T Q R' p es w := by
  induction p generalizing es w with
  | done a => exact ⟨h.1, hR es w a h.1 h.2⟩
  | ask op next ih => exact ⟨h.1, fun answer w' hT => ih answer (h.2 answer w' hT)⟩

theorem Always.bind {R : List (Event World Answer) → World → α → Prop}
    {R' : List (Event World Answer) → World → β → Prop} {p : Program Op Answer α}
    {f : α → Program Op Answer β} {es : List (Event World Answer)} {w : World}
    (h : Always T Q R p es w) (hf : ∀ es w a, Q es w → R es w a → Always T Q R' (f a) es w) :
    Always T Q R' (p >>= f) es w := by
  induction p generalizing es w with
  | done a => exact hf es w a h.1 h.2
  | ask op next ih => exact ⟨h.1, fun answer w' hT => ih answer (h.2 answer w' hT)⟩

/-- The events at the end begin with those at the start. -/
theorem Always.later {R : List (Event World Answer) → World → α → Prop} {p : Program Op Answer α}
    {es : List (Event World Answer)} {w : World} (h : Always T Q R p es w) :
    Always T Q (fun es' w a => R es' w a ∧ ∃ later, es' = es ++ later) p es w := by
  induction p generalizing es w with
  | done a => exact ⟨h.1, h.2, [], (List.append_nil es).symm⟩
  | ask op next ih =>
    refine ⟨h.1, fun answer w' hT => (ih answer (h.2 answer w' hT)).mono ?_⟩
    rintro _ _ _ _ ⟨hR, later, rfl⟩
    exact ⟨hR, _, List.append_assoc _ _ _⟩

/-- The rule, on a run. -/
theorem Always.runs {R : List (Event World Answer) → World → α → Prop} {p : Program Op Answer α}
    {es es' : List (Event World Answer)} {w w' : World} {result : Option α}
    (h : Always T Q R p es w) (hr : Runs T w p es' w' result) :
    Q (es ++ es') w' ∧ ∀ a, result = some a → R (es ++ es') w' a := by
  induction hr generalizing es with
  | stopped w p =>
    rw [List.append_nil]
    exact ⟨h.here, fun a ha => nomatch ha⟩
  | done w a =>
    rw [List.append_nil]
    refine ⟨h.1, fun b hb => ?_⟩
    cases hb
    exact h.2
  | ask hT _ ih =>
    have := ih (h.2 _ _ hT)
    rw [List.append_assoc] at this
    exact this

/-- Runs whose events meet a condition are runs of the steps that meet it. -/
theorem Runs.restrict {T' : World → (op : Op) → Answer op → World → Prop}
    {p : Program Op Answer α} {es : List (Event World Answer)} {w w' : World} {result : Option α}
    (hr : Runs T w p es w' result)
    (h : ∀ e ∈ es, T e.before e.op e.answer e.after → T' e.before e.op e.answer e.after) :
    Runs T' w p es w' result := by
  induction hr with
  | stopped w p => exact .stopped w p
  | done w a => exact .done w a
  | ask hT _ ih =>
    obtain ⟨hhead, htail⟩ := List.forall_mem_cons.1 h
    exact .ask (hhead hT) (ih htail)

theorem Runs.map {f : α → β} {p : Program Op Answer α} {es : List (Event World Answer)}
    {w w' : World} {result : Option α} (hr : Runs T w p es w' result) :
    Runs T w (f <$> p) es w' (result.map f) := by
  induction hr with
  | stopped w p => exact .stopped w _
  | done w a => exact .done w (f a)
  | ask hT _ ih => exact .ask hT ih

/-- Every question of the program, whatever the answers, meets a condition. -/
def Asks (P : Op → Prop) : Program Op Answer α → Prop
  | .done _ => True
  | .ask op next => P op ∧ ∀ answer, Asks P (next answer)

theorem Asks.bind {P : Op → Prop} {p : Program Op Answer α} {f : α → Program Op Answer β}
    (h : Asks P p) (hf : ∀ a, Asks P (f a)) : Asks P (p >>= f) := by
  induction p with
  | done a => exact hf a
  | ask op next ih => exact ⟨h.1, fun answer => ih answer (h.2 answer)⟩

theorem Asks.runs {P : Op → Prop} {p : Program Op Answer α} {es : List (Event World Answer)}
    {w w' : World} {result : Option α} (h : Asks P p) (hr : Runs T w p es w' result) :
    ∀ e ∈ es, P e.op := by
  induction hr with
  | stopped w p => exact fun e he => absurd he List.not_mem_nil
  | done w a => exact fun e he => absurd he List.not_mem_nil
  | ask _ _ ih => exact List.forall_mem_cons.2 ⟨h.1, ih (h.2 _)⟩

/-! ## Programs that fail -/

variable {Reply : Op → Type}

/-- Every question may fail, and a program that does not look at the failure fails with it. -/
abbrev Fallible (Op : Type) (Reply : Op → Type) (ε α : Type) :=
  ExceptT ε (Program Op fun op => Except ε (Reply op)) α

def request (op : Op) : Fallible Op Reply ε (Reply op) := call op

section

variable {T : World → (op : Op) → Except ε (Reply op) → World → Prop}
  {Q : List (Event World fun op => Except ε (Reply op)) → World → Prop}
  {es : List (Event World fun op => Except ε (Reply op))} {w : World}

/-- A program after another: its errors are those of the first as well. -/
theorem Always.andThen {R : List (Event World fun op => Except ε (Reply op)) → World →
      Except ε α → Prop}
    {R' : List (Event World fun op => Except ε (Reply op)) → World → Except ε β → Prop}
    {x : Fallible Op Reply ε α} {f : α → Fallible Op Reply ε β} (h : Always T Q R x es w)
    (hf : ∀ es w a, Q es w → R es w (.ok a) → Always T Q R' (f a) es w)
    (herror : ∀ es w e, Q es w → R es w (.error e) → R' es w (.error e)) :
    Always T Q R' (x >>= f : Fallible Op Reply ε β) es w := by
  refine Always.bind (p := x) h fun es w result hQ hR => ?_
  cases result with
  | ok a => exact hf es w a hQ hR
  | error e => exact ⟨hQ, herror es w e hQ hR⟩

/-- A question and what follows its answer. -/
theorem Always.request {R : List (Event World fun op => Except ε (Reply op)) → World →
      Except ε α → Prop} {op : Op} {f : Reply op → Fallible Op Reply ε α} (hQ : Q es w)
    (herror : ∀ e w', T w op (.error e) w' →
      Q (es ++ [⟨w, op, .error e, w'⟩]) w' ∧ R (es ++ [⟨w, op, .error e, w'⟩]) w' (.error e))
    (hok : ∀ a w', T w op (.ok a) w' → Always T Q R (f a) (es ++ [⟨w, op, .ok a, w'⟩]) w') :
    Always T Q R (request op >>= f : Fallible Op Reply ε α) es w := by
  refine ⟨hQ, fun answer w' hT => ?_⟩
  cases answer with
  | ok a => exact hok a w' hT
  | error e => exact herror e w' hT

/-- A run that begins with an answered question. -/
theorem Runs.request {op : Op} {a : Reply op} {f : Reply op → Fallible Op Reply ε α} {w' w'' : World}
    {result : Option (Except ε α)} (hT : T w op (.ok a) w') (hr : Runs T w' (f a) es w'' result) :
    Runs T w (request op >>= f : Fallible Op Reply ε α) (⟨w, op, .ok a, w'⟩ :: es) w'' result :=
  .ask hT hr

/-- A run that begins with a computation that succeeds. -/
theorem Runs.check {x : Except ε β} {b : β} {f : β → Fallible Op Reply ε α} {w' : World}
    {result : Option (Except ε α)} (hx : x = .ok b) (hr : Runs T w (f b) es w' result) :
    Runs T w (ExceptT.mk (pure x) >>= f : Fallible Op Reply ε α) es w' result := by
  rw [hx]
  exact hr

/-- A run of the first part and one of the rest. -/
theorem Runs.andThen {x : Fallible Op Reply ε β} {b : β} {f : β → Fallible Op Reply ε α}
    {es' : List (Event World fun op => Except ε (Reply op))} {w' w'' : World}
    {result : Option (Except ε α)} (hr : Runs T w x es w' (some (.ok b)))
    (hf : Runs T w' (f b) es' w'' result) :
    Runs T w (x >>= f : Fallible Op Reply ε α) (es ++ es') w'' result := by
  generalize hend : some (Except.ok b) = last at hr
  induction hr with
  | stopped w p => cases hend
  | done w a =>
    cases hend
    exact hf
  | ask hT _ ih => exact .ask hT (ih hf hend)

/-- A run that stops in the first part. -/
theorem Runs.stopped_andThen {x : Fallible Op Reply ε β} {f : β → Fallible Op Reply ε α} {w' : World}
    {result : Option (Except ε β)} (hr : Runs T w x es w' result) (hresult : result = none) :
    Runs T w (x >>= f : Fallible Op Reply ε α) es w' none := by
  induction hr with
  | stopped w p => exact .stopped w _
  | done w a => cases hresult
  | ask hT _ ih => exact .ask hT (ih hresult)

/-- The questions of a program that goes on where the first part succeeds. -/
theorem Asks.andThen {P : Op → Prop} {x : Fallible Op Reply ε α} {f : α → Fallible Op Reply ε β}
    (h : Asks P x) (hf : ∀ a, Asks P (f a)) : Asks P (x >>= f : Fallible Op Reply ε β) := by
  refine Asks.bind (p := x) h fun result => ?_
  cases result with
  | ok a => exact hf a
  | error e => exact trivial

end

end Program

/-- A place in a list with one more entry is that entry or a place before it. -/
theorem split_snoc {α : Type} {l before after : List α} {x e : α}
    (h : l ++ [x] = before ++ e :: after) :
    (before = l ∧ e = x ∧ after = []) ∨ ∃ rest, after = rest ++ [x] ∧ l = before ++ e :: rest := by
  induction after using List.reverseRecOn with
  | nil =>
    obtain ⟨hl, hx⟩ := List.append_inj' h rfl
    exact Or.inl ⟨hl.symm, (List.singleton_inj.1 hx).symm, rfl⟩
  | append_singleton rest y _ =>
    rw [← List.cons_append, ← List.append_assoc] at h
    obtain ⟨hl, hx⟩ := List.append_inj' h rfl
    exact Or.inr ⟨rest, by rw [List.singleton_inj.1 hx], hl⟩

end CtaManager
