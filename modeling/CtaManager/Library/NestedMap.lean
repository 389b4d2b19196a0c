import CtaManager.Library.Commute
import CtaManager.Library.OrdMapFold

/-!
Maps of maps.

`atPath` looks an entry up at two keys, and `putPath` puts one there.  `insertOnce` refuses another
value where one is already, and so its order does not matter (`insertOnce_commutes`).
-/

namespace OrdMap

variable {K L V : Type} [LinearOrder K] [LinearOrder L]

theorem ext_of_getElem? {m m' : OrdMap K V} (h : ∀ k : K, m[k]? = m'[k]?) : m = m' :=
  Std.ExtTreeMap.ext_getElem? h

def atPath (m : OrdMap K (OrdMap L V)) (k : K) (l : L) : Option V := (m[k]?).bind fun n => n[l]?

def putPath (m : OrdMap K (OrdMap L V)) (k : K) (l : L) (v : V) : OrdMap K (OrdMap L V) :=
  m.insert k (((m[k]?).getD ∅).insert l v)

variable (m : OrdMap K (OrdMap L V))

theorem getElem?_putPath (k k' : K) (l : L) (v : V) : (m.putPath k l v)[k']? =
    if k = k' then some (((m[k]?).getD ∅).insert l v) else m[k']? :=
  getElem?_insert_of_key _ _ _ _

theorem getD_atPath (k : K) (l : L) : ((m[k]?).getD ∅)[l]? = m.atPath k l := by
  unfold atPath
  cases m[k]? with
  | none => exact Std.ExtTreeMap.getElem?_empty
  | some n => rfl

theorem atPath_putPath (k k' : K) (l l' : L) (v : V) : (m.putPath k l v).atPath k' l' =
    if k = k' ∧ l = l' then some v else m.atPath k' l' := by
  unfold atPath
  rw [getElem?_putPath]
  by_cases hk : k = k'
  · subst hk
    rw [if_pos rfl, Option.bind_some, getElem?_insert_of_key, getD_atPath]
    by_cases hl : l = l'
    · rw [if_pos hl, if_pos ⟨rfl, hl⟩]
    · rw [if_neg hl, if_neg fun h => hl h.2]
      rfl
  · rw [if_neg hk, if_neg fun h => hk h.1]

variable {m}

theorem putPath_of_atPath {k : K} {l : L} {v : V} (h : m.atPath k l = some v) :
    m.putPath k l v = m := by
  obtain ⟨n, hn, hv⟩ := Option.bind_eq_some_iff.1 h
  refine ext_of_getElem? fun k' => ?_
  rw [getElem?_putPath]
  split
  · next hk =>
    subst hk
    rw [hn, Option.getD_some]
    congr 1
    refine ext_of_getElem? fun l' => ?_
    rw [getElem?_insert_of_key]
    split
    · next hl => rw [← hl, hv]
    · rfl
  · rfl

/-- Entries at different paths, in either order. -/
theorem putPath_comm {k k' : K} {l l' : L} (h : ¬(k = k' ∧ l = l')) (v v' : V) :
    (m.putPath k l v).putPath k' l' v' = (m.putPath k' l' v').putPath k l v := by
  by_cases hk : k = k'
  · subst hk
    have hl : l ≠ l' := fun hl => h ⟨rfl, hl⟩
    show ((m.putPath k l v).insert k _) = ((m.putPath k l' v').insert k _)
    rw [getElem?_putPath, if_pos rfl, getElem?_putPath, if_pos rfl, Option.getD_some,
      Option.getD_some, insert_comm _ hl]
    exact (insert_insert _ _ _ _).trans (insert_insert _ _ _ _).symm
  · show ((m.putPath k l v).insert k' _) = ((m.putPath k' l' v').insert k _)
    rw [getElem?_putPath, if_neg hk, getElem?_putPath, if_neg (Ne.symm hk)]
    exact insert_comm _ hk _ _

/-! ## Insertion that refuses another value -/

variable [DecidableEq V]

def insertOnce (m : OrdMap K (OrdMap L V)) (p : K × L × V) : Option (OrdMap K (OrdMap L V)) :=
  if (m.atPath p.1 p.2.1).all fun v => v = p.2.2 then some (m.putPath p.1 p.2.1 p.2.2) else none

theorem insertOnce_eq_some {m m' : OrdMap K (OrdMap L V)} {p : K × L × V} :
    insertOnce m p = some m' ↔
      (∀ v, m.atPath p.1 p.2.1 = some v → v = p.2.2) ∧ m' = m.putPath p.1 p.2.1 p.2.2 := by
  unfold insertOnce
  rw [Option.ite_none_right_eq_some, Option.some.injEq, eq_comm (a := m')]
  refine and_congr_left fun _ => ?_
  cases m.atPath p.1 p.2.1 with
  | none => simp
  | some v => simp

theorem bind_insertOnce {p q : K × L × V} {m' : OrdMap K (OrdMap L V)}
    (h : ((insertOnce m p).bind fun t => insertOnce t q) = some m') :
    ((insertOnce m q).bind fun t => insertOnce t p) = some m' := by
  obtain ⟨k, l, v⟩ := p
  obtain ⟨k', l', v'⟩ := q
  obtain ⟨t, ht, hm'⟩ := Option.bind_eq_some_iff.1 h
  obtain ⟨hfirst, rfl⟩ := insertOnce_eq_some.1 ht
  obtain ⟨hsecond, rfl⟩ := insertOnce_eq_some.1 hm'
  dsimp only at hfirst hsecond ⊢
  by_cases hpath : k = k' ∧ l = l'
  · obtain ⟨rfl, rfl⟩ := hpath
    have hsame : v = v' := hsecond v (by rw [atPath_putPath, if_pos ⟨rfl, rfl⟩])
    subst hsame
    exact h
  · have hpath' : ¬(k' = k ∧ l' = l) := fun h => hpath ⟨h.1.symm, h.2.symm⟩
    refine Option.bind_eq_some_iff.2 ⟨m.putPath k' l' v', insertOnce_eq_some.2 ⟨fun w hw => ?_, rfl⟩,
      insertOnce_eq_some.2 ⟨fun w hw => ?_, putPath_comm hpath v v'⟩⟩
    · exact hsecond w (by rw [atPath_putPath, if_neg hpath]; exact hw)
    · rw [atPath_putPath, if_neg hpath'] at hw
      exact hfirst w hw

theorem insertOnce_commutes : Commute.Commutes fun (m : OrdMap K (OrdMap L V)) p => insertOnce m p :=
  fun _ _ _ => Option.ext fun _ => ⟨bind_insertOnce, bind_insertOnce⟩

end OrdMap
