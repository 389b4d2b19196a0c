import Mathlib

/-!
A key-value store with atomic pipelines.

A store maps each key to its value, or to nothing.  `exec` applies the writes of a
pipeline one after the other, in one step.  The value of a key after a pipeline is
its last write, or the value before (`exec_of_forall_ne`).  When the keys fall into
groups and each of several pipelines writes one group, the pipelines act on the
groups independently (`exec_flatMap`).
-/

namespace KeyValue

variable {K V : Type} [DecidableEq K]

/-- What each key holds. -/
abbrev Store (K V : Type) := K → Option V

namespace Store

/-- `SET`, or `DEL` when there is no value. -/
def put (s : Store K V) (key : K) (value : Option V) : Store K V := Function.update s key value

@[simp] theorem put_self (s : Store K V) (key : K) (value : Option V) :
    s.put key value key = value := Function.update_self ..

theorem put_of_ne (s : Store K V) {key key' : K} (value : Option V) (h : key' ≠ key) :
    s.put key value key' = s key' := Function.update_of_ne h ..

/-- `MULTI`, the writes, `EXEC`. -/
def exec (s : Store K V) (pipe : List (K × V)) : Store K V :=
  pipe.foldl (fun s write => s.put write.1 (some write.2)) s

@[simp] theorem exec_nil (s : Store K V) : s.exec [] = s := rfl

@[simp] theorem exec_cons (s : Store K V) (write : K × V) (pipe : List (K × V)) :
    s.exec (write :: pipe) = (s.put write.1 (some write.2)).exec pipe := rfl

theorem exec_append (s : Store K V) (pipe pipe' : List (K × V)) :
    s.exec (pipe ++ pipe') = (s.exec pipe).exec pipe' := List.foldl_append ..

/-- A key that is not written. -/
theorem exec_of_forall_ne {pipe : List (K × V)} {key : K} (h : ∀ write ∈ pipe, write.1 ≠ key)
    (s : Store K V) : s.exec pipe key = s key := by
  induction pipe generalizing s with
  | nil => rfl
  | cons write pipe ih =>
    rw [exec_cons, ih fun w hw => h w (List.mem_cons_of_mem _ hw)]
    exact put_of_ne s _ (h write List.mem_cons_self).symm

/-- What a pipeline leaves of a key depends on that key alone. -/
theorem exec_congr {s t : Store K V} {key : K} (h : s key = t key) (pipe : List (K × V)) :
    s.exec pipe key = t.exec pipe key := by
  induction pipe generalizing s t with
  | nil => exact h
  | cons write pipe ih =>
    refine ih ?_
    show s.put write.1 (some write.2) key = t.put write.1 (some write.2) key
    by_cases hk : key = write.1
    · rw [hk, put_self, put_self]
    · rw [put_of_ne s _ hk, put_of_ne t _ hk, h]

/-- Pipelines that write different groups of keys. -/
theorem exec_flatMap {α G : Type} (group : K → G) (tag : α → G) {pipe : α → List (K × V)}
    {l : List α} (hl : (l.map tag).Nodup) (hpipe : ∀ a ∈ l, ∀ w ∈ pipe a, group w.1 = tag a)
    (s : Store K V) :
    (∀ a ∈ l, ∀ key, group key = tag a → s.exec (l.flatMap pipe) key = s.exec (pipe a) key) ∧
      ∀ key, group key ∉ l.map tag → s.exec (l.flatMap pipe) key = s key := by
  induction l generalizing s with
  | nil => exact ⟨fun a ha => absurd ha List.not_mem_nil, fun _ _ => rfl⟩
  | cons b l ih =>
    rw [List.map_cons, List.nodup_cons] at hl
    have hskip : ∀ key, group key ≠ tag b → s.exec (pipe b) key = s key := by
      intro key hkey
      refine exec_of_forall_ne (fun w hw hwk => hkey ?_) s
      rw [← hwk]
      exact hpipe b List.mem_cons_self w hw
    obtain ⟨hin, hout⟩ := ih hl.2 (fun a ha => hpipe a (List.mem_cons_of_mem _ ha))
      (s.exec (pipe b))
    simp only [List.flatMap_cons, exec_append]
    refine ⟨fun a ha key hkey => ?_, fun key hkey => ?_⟩
    · rcases List.mem_cons.1 ha with rfl | ha
      · exact hout key (hkey ▸ hl.1)
      · rw [hin a ha key hkey]
        refine exec_congr (hskip key fun hb => hl.1 ?_) _
        rw [← hb, hkey]
        exact List.mem_map_of_mem ha
    · rw [List.map_cons, List.mem_cons, not_or] at hkey
      rw [hout key hkey.2, hskip key hkey.1]

end Store

end KeyValue
