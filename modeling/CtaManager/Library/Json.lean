import CtaManager.Library.Check
import CtaManager.Library.OrdMap

/-!
JSON documents of objects and scalars, and records read from their fields.

A record is written as the object of the fields it has, and read field by field: a field is
required, has a default, or may be `null`.  What a record writes under a name is what it reads
there (`required_of_mem`, `defaulted_of_mem`, `optional_present`).
-/

namespace CtaManager

/-- A document without arrays; a number is an integer or a float. -/
inductive Json (F : Type) where
  | null
  | bool (b : Bool)
  | integer (n : Int)
  | float (x : F)
  | string (s : String)
  | object (fields : List (String × Json F))

namespace Json

open Check OrdMap

section

variable {F α β : Type}

/-! ## Scalars -/

def toInt : Json F → Except String Int
  | integer n => .ok n
  | _ => .error "invalid type: expected an integer"

/-- An integer of the range `low ≤ n < high`. -/
def toRange (low high : Int) (value : Json F) : Except String Int := do
  let n ← value.toInt
  ensure (decide (low ≤ n) && decide (n < high)) "invalid value: integer out of range"
  return n

def toU32 (value : Json F) : Except String Nat := Int.toNat <$> value.toRange 0 (2 ^ 32)

def toI64 (value : Json F) : Except String Int := value.toRange (-2 ^ 63) (2 ^ 63)

def toStr : Json F → Except String String
  | string s => .ok s
  | _ => .error "invalid type: expected a string"

/-- `null`, or a value. -/
def nullable (decode : Json F → Except String α) : Json F → Except String (Option α)
  | null => .ok none
  | value => some <$> decode value

theorem toRange_integer {low high n : Int} (hlow : low ≤ n) (hhigh : n < high) :
    toRange low high (integer (F := F) n) = .ok n := by
  unfold toRange toInt
  rw [ok_bind, decide_eq_true hlow, decide_eq_true hhigh]
  rfl

theorem toU32_integer {n : Nat} (h : n < 2 ^ 32) : toU32 (integer (F := F) (n : Int)) = .ok n := by
  have hrange : toRange 0 (2 ^ 32) (integer (F := F) (n : Int)) = .ok (n : Int) :=
    toRange_integer (Int.natCast_nonneg n) (by omega)
  unfold toU32
  rw [hrange]
  rfl

/-! ## Fields -/

def fields : Json F → Except String (List (String × Json F))
  | object fields => .ok fields
  | _ => .error "invalid type: expected an object"

def required (decode : Json F → Except String α) (fields : List (String × Json F))
    (name : String) : Except String α :=
  match fields.lookup name with
  | some value => decode value
  | none => .error ("missing field " ++ name)

def defaulted (decode : Json F → Except String α) (dflt : α) (fields : List (String × Json F))
    (name : String) : Except String α :=
  match fields.lookup name with
  | some value => decode value
  | none => .ok dflt

/-- A field that may be absent or `null`. -/
def optional (decode : Json F → Except String α) : List (String × Json F) → String →
    Except String (Option α) :=
  defaulted (nullable decode) none

/-- `deny_unknown_fields`. -/
def denyUnknown (names : List String) (fields : List (String × Json F)) : Except String Unit :=
  ensure (fields.all fun field => names.contains field.1) "unknown field"

/-- The fields that have a value. -/
def present (fields : List (String × Option (Json F))) : List (String × Json F) :=
  fields.filterMap fun field => field.2.map fun value => (field.1, value)

def record (fields : List (String × Option (Json F))) : Json F := object (present fields)

theorem present_cons (name : String) (value : Option (Json F))
    (fields : List (String × Option (Json F))) :
    present ((name, value) :: fields) =
      (value.map fun value => (name, value)).toList ++ present fields := by
  cases value <;> rfl

theorem mem_present {fields : List (String × Option (Json F))} {name : String} {value : Json F} :
    (name, value) ∈ present fields ↔ (name, some value) ∈ fields := by
  unfold present
  rw [List.mem_filterMap]
  constructor
  · rintro ⟨⟨name', value'⟩, hmem, hvalue⟩
    obtain ⟨found, rfl, hfound⟩ := Option.map_eq_some_iff.1 hvalue
    cases hfound
    exact hmem
  · intro hmem
    exact ⟨_, hmem, rfl⟩

/-- What a record has under the name of its `i`-th field. -/
theorem lookup_present {fields : List (String × Option (Json F))}
    (hnodup : (fields.map Prod.fst).Nodup) {i : Nat} {name : String} {value : Option (Json F)}
    (h : fields[i]? = some (name, value)) : (present fields).lookup name = value := by
  induction fields generalizing i with
  | nil => cases h
  | cons field fields ih =>
    obtain ⟨name', value'⟩ := field
    rw [List.map_cons, List.nodup_cons] at hnodup
    rw [present_cons]
    cases i with
    | zero =>
      cases h
      cases value with
      | some value => exact List.lookup_cons_self
      | none =>
        -- the name does not come again
        refine List.lookup_eq_none_iff.2 fun p hp => ?_
        obtain ⟨name', value⟩ := p
        rw [bne_iff_ne]
        rintro rfl
        exact hnodup.1 (List.mem_map.2 ⟨_, mem_present.1 hp, rfl⟩)
    | succ i =>
      rw [List.getElem?_cons_succ] at h
      have hne : (name == name') = false := by
        rw [beq_eq_false_iff_ne]
        intro heq
        rw [heq] at h
        exact hnodup.1 (List.mem_map.2 ⟨_, List.mem_of_getElem? h, rfl⟩)
      cases value' with
      | none => exact ih hnodup.2 h
      | some value' =>
        rw [← ih hnodup.2 h]
        show List.lookup name ((name', value') :: present fields) = _
        rw [List.lookup_cons, hne]

theorem lookup_of_mem {fields : List (String × Option (Json F))}
    (hnodup : (fields.map Prod.fst).Nodup) {name : String} {value : Option (Json F)}
    (h : (name, value) ∈ fields) : (present fields).lookup name = value := by
  obtain ⟨i, hi⟩ := List.mem_iff_getElem?.1 h
  exact lookup_present hnodup hi

theorem required_of_mem {fields : List (String × Option (Json F))}
    (hnodup : (fields.map Prod.fst).Nodup) {name : String} {value : Json F}
    (h : (name, some value) ∈ fields) (decode : Json F → Except String α) :
    required decode (present fields) name = decode value := by
  unfold required
  rw [lookup_of_mem hnodup h]

theorem defaulted_of_mem {fields : List (String × Option (Json F))}
    (hnodup : (fields.map Prod.fst).Nodup) {name : String} {value : Option (Json F)}
    (h : (name, value) ∈ fields) (decode : Json F → Except String α) (dflt : α) :
    defaulted decode dflt (present fields) name = value.elim (.ok dflt) decode := by
  unfold defaulted
  rw [lookup_of_mem hnodup h]
  cases value <;> rfl

theorem fields_record (fields : List (String × Option (Json F))) :
    (record fields).fields = .ok (present fields) := rfl

/-- A field that is written. -/
theorem defaulted_some {fields : List (String × Option (Json F))}
    (hnodup : (fields.map Prod.fst).Nodup) (i : Nat) {name : String} {value : Json F}
    (h : fields[i]? = some (name, some value)) (decode : Json F → Except String α) (dflt : α) :
    defaulted decode dflt (present fields) name = decode value := by
  unfold defaulted
  rw [lookup_present hnodup h]

/-- A field the record does not have. -/
theorem defaulted_absent {fields : List (String × Option (Json F))} {name : String}
    (h : name ∉ fields.map Prod.fst) (decode : Json F → Except String α) (dflt : α) :
    defaulted decode dflt (present fields) name = .ok dflt := by
  have hlookup : (present fields).lookup name = none := by
    refine List.lookup_eq_none_iff.2 fun field hfield => ?_
    obtain ⟨name', value⟩ := field
    rw [bne_iff_ne]
    rintro rfl
    exact h (List.mem_map.2 ⟨_, mem_present.1 hfield, rfl⟩)
  unfold defaulted
  rw [hlookup]

theorem defaulted_present {fields : List (String × Option (Json F))}
    (hnodup : (fields.map Prod.fst).Nodup) (i : Nat) {name : String} {value : Option (Json F)}
    (h : fields[i]? = some (name, value)) (decode : Json F → Except String α) (dflt : α) :
    defaulted decode dflt (present fields) name = value.elim (.ok dflt) decode := by
  unfold defaulted
  rw [lookup_present hnodup h]
  cases value <;> rfl

/-- A field that is written where there is a value reads as that value. -/
theorem optional_present {fields : List (String × Option (Json F))}
    (hnodup : (fields.map Prod.fst).Nodup) (i : Nat) {name : String} {encode : α → Json F}
    {value : Option α} (h : fields[i]? = some (name, value.map encode))
    {decode : Json F → Except String α}
    (hdecode : ∀ a, value = some a → encode a ≠ null ∧ decode (encode a) = .ok a) :
    optional decode (present fields) name = .ok value := by
  unfold optional
  rw [defaulted_present hnodup i h]
  cases value with
  | none => rfl
  | some a =>
    obtain ⟨hnull, hread⟩ := hdecode a rfl
    show nullable decode (encode a) = .ok (some a)
    unfold nullable
    split
    · next heq => exact absurd heq hnull
    · rw [hread]
      rfl

theorem denyUnknown_present {names : List String} {fields : List (String × Option (Json F))}
    (h : ∀ name ∈ fields.map Prod.fst, name ∈ names) :
    denyUnknown names (present fields) = .ok () := by
  refine (ensure_eq_ok _ _ _).2 (List.all_eq_true.2 fun field hfield => ?_)
  rw [List.contains_iff_mem]
  exact h _ (List.mem_map_of_mem (mem_present.1 hfield))

/-! ## Maps -/

def ofMap (encode : α → Json F) (m : OrdMap String α) : Json F :=
  object (m.toList.map fun entry => (entry.1, encode entry.2))

def toMap (decode : Json F → Except String α) (value : Json F) : Except String (OrdMap String α) := do
  let fields ← value.fields
  let entries ← fields.mapM fun field => Prod.mk field.1 <$> decode field.2
  return entries.foldl (fun m entry => m.insert entry.1 entry.2) ∅

theorem mapM_fields {decode : Json F → Except String β} {encode : α → Json F} {g : α → β}
    {entries : List (String × α)} (h : ∀ entry ∈ entries, decode (encode entry.2) = .ok (g entry.2)) :
    (entries.map fun entry => (entry.1, encode entry.2)).mapM
      (fun field => Prod.mk field.1 <$> decode field.2) =
        .ok (entries.map fun entry => (entry.1, g entry.2)) := by
  induction entries with
  | nil => rfl
  | cons entry entries ih =>
    rw [List.map_cons, List.mapM_cons, ih fun e he => h e (List.mem_cons_of_mem _ he),
      h entry List.mem_cons_self]
    rfl

/-- A map reads back, each value as it reads. -/
theorem toMap_ofMap {encode : α → Json F} {decode : Json F → Except String β} {g : α → β}
    {m : OrdMap String α}
    (h : ∀ (key : String) a, m[key]? = some a → decode (encode a) = .ok (g a)) :
    toMap decode (ofMap encode m) = .ok (m.map fun _ => g) := by
  unfold toMap ofMap fields
  rw [ok_bind, mapM_fields fun entry hentry => h entry.1 entry.2 (mem_toList.1 hentry), ok_bind,
    pure_eq_ok, Except.ok.injEq]
  refine Std.ExtTreeMap.ext_getElem? fun key => ?_
  rw [Std.ExtTreeMap.getElem?_map]
  -- the entries of the map, read
  have hentry : ∀ b, (key, b) ∈ m.toList.map (fun entry => (entry.1, g entry.2)) →
      m[key]?.map g = some b := by
    intro b hb
    obtain ⟨entry, hentry, heq⟩ := List.mem_map.1 hb
    cases heq
    rw [mem_toList.1 hentry]
    rfl
  cases hkey : m[key]? with
  | none =>
    rw [getElem?_foldl_insert_of_forall_ne]
    · rfl
    · intro b hb
      have := hentry b hb
      rw [hkey] at this
      cases this
  | some a =>
    rw [getElem?_foldl_insert _ _ _ (g a)]
    · rfl
    · exact List.mem_map_of_mem (mem_toList.2 hkey)
    · intro b hb
      have := hentry b hb
      rw [hkey] at this
      exact (Option.some.inj this).symm

end

end Json

end CtaManager
