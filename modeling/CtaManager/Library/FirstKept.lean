import CtaManager.Library.Check
import CtaManager.Library.OrdMap

/-!
Maps that keep the first value of each key.

`keep` puts a value under its key when the key is new, and otherwise checks it against the
value that is there.  The checks compare what is printed of a value (`Checks`).  A list is
kept when every value prints like the first one of its key, and the result has those first
values (`keepAll_eq_ok_iff`).  A list kept apart and then the values of its map give what the list
gives in one go (`keepAll_values`).
-/

namespace FirstKept

open Check

variable {K V W ε : Type} [LinearOrder K]

def keep (key : V → K) (check : V → V → Except ε Unit) (m : OrdMap K V) (v : V) :
    Except ε (OrdMap K V) :=
  match m[key v]? with
  | some old => do
    check old v
    return m
  | none => .ok (m.insert (key v) v)

def keepAll (key : V → K) (check : V → V → Except ε Unit) (m : OrdMap K V) (l : List V) :
    Except ε (OrdMap K V) :=
  l.foldlM (keep key check) m

/-- What the check of two values of one key compares. -/
structure Checks (key : V → K) (check : V → V → Except ε Unit) (print : V → W)
    (Good : V → Prop) : Prop where
  check_eq_ok : ∀ a b, Good a → Good b → key a = key b →
    (check a b = .ok () ↔ print a = print b)

/-- The values of the map lie under their keys. -/
def Keyed (key : V → K) (Good : V → Prop) (m : OrdMap K V) : Prop :=
  ∀ k v, m[k]? = some v → key v = k ∧ Good v

/-- The value of `k` after `l` is kept in `m`. -/
def chosen (key : V → K) (m : OrdMap K V) (l : List V) (k : K) : Option V :=
  m[k]?.or (l.find? fun v => key v = k)

/-- Every value prints like the one that is kept for its key. -/
def Uniform (key : V → K) (print : V → W) (m : OrdMap K V) (l : List V) : Prop :=
  ∀ v ∈ l, ∀ w, chosen key m l (key v) = some w → print w = print v

def values (m : OrdMap K V) : List V := m.toList.map Prod.snd

variable {key : V → K} {check : V → V → Except ε Unit} {print : V → W} {Good : V → Prop}
  {m m' : OrdMap K V} {l : List V} {v : V}

theorem keyed_empty : Keyed key Good (∅ : OrdMap K V) := by
  intro k v h
  simp at h

theorem Keyed.insert (hm : Keyed key Good m) (hv : Good v) :
    Keyed key Good (m.insert (key v) v) := by
  intro k w h
  rw [OrdMap.getElem?_insert_of_key] at h
  split at h
  · next hk =>
    cases h
    exact ⟨hk, hv⟩
  · exact hm k w h

/-! ## One list -/

theorem chosen_cons_of_some {old : V} (h : m[key v]? = some old) (k : K) :
    chosen key m (v :: l) k = chosen key m l k := by
  unfold chosen
  by_cases hk : key v = k
  · subst hk
    rw [h]
    rfl
  · rw [List.find?_cons_of_neg (by simpa using hk)]

theorem chosen_cons_of_none (h : m[key v]? = none) (k : K) :
    chosen key m (v :: l) k = chosen key (m.insert (key v) v) l k := by
  unfold chosen
  rw [OrdMap.getElem?_insert_of_key]
  by_cases hk : key v = k
  · subst hk
    rw [h, if_pos rfl, List.find?_cons_of_pos (by simp)]
    rfl
  · rw [if_neg hk, List.find?_cons_of_neg (by simpa using hk)]

theorem exists_chosen (m : OrdMap K V) (l : List V) :
    ∃ m' : OrdMap K V, ∀ k, m'[k]? = chosen key m l k := by
  induction l generalizing m with
  | nil => exact ⟨m, fun k => by rw [chosen, List.find?_nil, Option.or_none]⟩
  | cons v l ih =>
    cases h : m[key v]? with
    | some old =>
      obtain ⟨m', hm'⟩ := ih m
      exact ⟨m', fun k => (hm' k).trans (chosen_cons_of_some h k).symm⟩
    | none =>
      obtain ⟨m', hm'⟩ := ih (m.insert (key v) v)
      exact ⟨m', fun k => (hm' k).trans (chosen_cons_of_none h k).symm⟩

theorem uniform_cons_of_some {old : V} (h : m[key v]? = some old) :
    Uniform key print m (v :: l) ↔ print old = print v ∧ Uniform key print m l := by
  have hold : chosen key m l (key v) = some old := by
    unfold chosen
    rw [h]
    rfl
  unfold Uniform
  simp only [chosen_cons_of_some h, List.forall_mem_cons, hold, Option.some.injEq,
    forall_eq']

theorem uniform_cons_of_none (h : m[key v]? = none) :
    Uniform key print m (v :: l) ↔ Uniform key print (m.insert (key v) v) l := by
  have hself : chosen key (m.insert (key v) v) l (key v) = some v := by
    unfold chosen
    rw [OrdMap.getElem?_insert_of_key, if_pos rfl]
    rfl
  unfold Uniform
  simp only [chosen_cons_of_none h, List.forall_mem_cons, hself, Option.some.injEq,
    forall_eq', true_and]

theorem keepAll_eq_ok_iff (hc : Checks key check print Good) (hm : Keyed key Good m)
    (hl : ∀ v ∈ l, Good v) :
    keepAll key check m l = .ok m' ↔
      Uniform key print m l ∧ ∀ k, m'[k]? = chosen key m l k := by
  induction l generalizing m with
  | nil =>
    have hchosen : ∀ k, chosen key m [] k = m[k]? := fun k => by
      unfold chosen
      rw [List.find?_nil, Option.or_none]
    constructor
    · intro h
      cases h
      exact ⟨fun v hv => absurd hv List.not_mem_nil, fun k => (hchosen k).symm⟩
    · rintro ⟨-, h⟩
      have hmm : m = m' :=
        Std.ExtTreeMap.ext_getElem? fun k => ((h k).trans (hchosen k)).symm
      rw [hmm]
      rfl
  | cons v l ih =>
    rw [List.forall_mem_cons] at hl
    have hcons : keepAll key check m (v :: l) =
        (keep key check m v >>= fun m => keepAll key check m l) := rfl
    rw [hcons]
    unfold keep
    cases hold : m[key v]? with
    | some old =>
      obtain ⟨hkey, hgood⟩ := hm _ _ hold
      have hcheck := hc.check_eq_ok old v hgood hl.1 hkey
      simp only [uniform_cons_of_some hold, chosen_cons_of_some hold, and_assoc]
      rw [← ih hm hl.2, ← hcheck]
      constructor
      · intro h
        obtain ⟨mid, hmid, h⟩ := bind_eq_ok.1 h
        obtain ⟨u, hu, hpure⟩ := bind_eq_ok.1 hmid
        cases hpure
        exact ⟨hu, h⟩
      · rintro ⟨hu, h⟩
        rw [hu]
        exact h
    | none =>
      simp only [uniform_cons_of_none hold, chosen_cons_of_none hold]
      exact ih (hm.insert hl.1) hl.2

theorem Keyed.keepAll (hc : Checks key check print Good) (hm : Keyed key Good m)
    (hl : ∀ v ∈ l, Good v) (h : keepAll key check m l = .ok m') : Keyed key Good m' := by
  obtain ⟨-, hchosen⟩ := (keepAll_eq_ok_iff hc hm hl).1 h
  intro k v hv
  rw [hchosen k] at hv
  rcases Option.or_eq_some_iff.1 hv with hv | ⟨-, hv⟩
  · exact hm k v hv
  · exact ⟨by simpa using List.find?_some hv, hl v (List.mem_of_find?_eq_some hv)⟩

/-! ## Lists kept apart -/

theorem mem_values : v ∈ values m ↔ ∃ k : K, m[k]? = some v := by
  unfold values
  simp only [List.mem_map, Prod.exists, exists_eq_right, OrdMap.mem_toList]

theorem Keyed.find?_values (hm : Keyed key Good m) (k : K) :
    ((values m).find? fun v => key v = k) = m[k]? := by
  cases hfind : (values m).find? fun v => key v = k with
  | none =>
    cases hk : m[k]? with
    | none => rfl
    | some v =>
      have hne := List.find?_eq_none.1 hfind v (mem_values.2 ⟨k, hk⟩)
      exact absurd (hm k v hk).1 (by simpa using hne)
  | some v =>
    obtain ⟨k', hk'⟩ := mem_values.1 (List.mem_of_find?_eq_some hfind)
    have hkey : key v = k := by simpa using List.find?_some hfind
    rw [← hkey, (hm k' v hk').1, hk']

/-- The values of a list that was kept on its own say the same as the list. -/
theorem keepAll_values (hc : Checks key check print Good) (hm : Keyed key Good m)
    (hl : ∀ v ∈ l, Good v) {part : OrdMap K V} (hpart : keepAll key check ∅ l = .ok part) :
    FirstKept.keepAll key check m (values part) = .ok m' ↔ keepAll key check m l = .ok m' := by
  have hkeyed := keyed_empty.keepAll hc hl hpart
  obtain ⟨huniform, hchosen⟩ := (keepAll_eq_ok_iff hc keyed_empty hl).1 hpart
  have hfirst : ∀ k, part[k]? = l.find? fun v => key v = k := fun k => by
    rw [hchosen k]
    simp [chosen]
  have hgood : ∀ v ∈ values part, Good v := by
    intro v hv
    obtain ⟨k, hk⟩ := mem_values.1 hv
    exact (hkeyed k v hk).2
  have hsame : ∀ k, chosen key m (values part) k = chosen key m l k := fun k => by
    unfold chosen
    rw [hkeyed.find?_values, hfirst]
  rw [keepAll_eq_ok_iff hc hm hgood, keepAll_eq_ok_iff hc hm hl]
  simp only [hsame]
  refine and_congr_left fun _ => ?_
  unfold Uniform
  simp only [hsame]
  constructor
  · intro h v hv w hw
    -- the first value of the key prints like `v`, and is one of the part
    obtain ⟨u, hu⟩ : ∃ u, l.find? (fun u => key u = key v) = some u :=
      Option.isSome_iff_exists.1 (List.find?_isSome.2 ⟨v, hv, by simp⟩)
    have hkey : key u = key v := by simpa using List.find?_some hu
    have hprint : print u = print v := huniform v hv u (by simpa [chosen] using hu)
    have hmem : u ∈ values part := mem_values.2 ⟨key v, (hfirst _).trans hu⟩
    rw [h u hmem w (by rw [hkey]; exact hw), hprint]
  · intro h v hv w hw
    obtain ⟨k, hk⟩ := mem_values.1 hv
    have hmem : v ∈ l := List.mem_of_find?_eq_some ((hfirst k).symm.trans hk)
    exact h v hmem w hw

/-- What can be kept in a map can be kept alone. -/
theorem keepAll_empty_of_ok (hc : Checks key check print Good) (hm : Keyed key Good m)
    (hl : ∀ v ∈ l, Good v) (h : keepAll key check m l = .ok m') :
    ∃ part, keepAll key check ∅ l = .ok part := by
  obtain ⟨huniform, -⟩ := (keepAll_eq_ok_iff hc hm hl).1 h
  have hfirst : ∀ k, chosen key ∅ l k = l.find? fun v => key v = k := fun k => by
    simp [chosen]
  have halone : Uniform key print ∅ l := by
    intro v hv w hw
    rw [hfirst] at hw
    have hkey : key w = key v := by simpa using List.find?_some hw
    cases hchosen : chosen key m l (key v) with
    | none =>
      unfold chosen at hchosen
      rw [hw, Option.or_eq_none_iff] at hchosen
      cases hchosen.2
    | some u =>
      rw [← huniform v hv u hchosen,
        huniform w (List.mem_of_find?_eq_some hw) u (by rw [hkey]; exact hchosen)]
  obtain ⟨part, hpart⟩ : ∃ part : OrdMap K V, ∀ k, part[k]? = chosen key ∅ l k :=
    exists_chosen ∅ l
  exact ⟨part, (keepAll_eq_ok_iff hc keyed_empty hl).2 ⟨halone, hpart⟩⟩

end FirstKept
