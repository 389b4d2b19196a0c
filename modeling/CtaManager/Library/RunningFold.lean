import Mathlib

/-!
The running values of a fold: one for each element, of the elements up to it.
-/

namespace RunningFold

variable {α β : Type} {op : β → α → β} {z : β}

def running (op : β → α → β) (z : β) (l : List α) : List β :=
  (List.range l.length).map fun i => (l.take (i + 1)).foldl op z

@[simp] theorem length_running (l : List α) : (running op z l).length = l.length := by
  rw [running, List.length_map, List.length_range]

theorem getElem?_running {l : List α} {i : Nat} (h : i < l.length) :
    (running op z l)[i]? = some ((l.take (i + 1)).foldl op z) := by
  rw [running, List.getElem?_map, List.getElem?_range h]
  rfl

theorem running_concat (l : List α) (a : α) :
    running op z (l ++ [a]) = running op z l ++ [(l ++ [a]).foldl op z] := by
  have hinit : ((List.range l.length).map fun i => ((l ++ [a]).take (i + 1)).foldl op z) =
      running op z l := by
    refine List.map_congr_left fun i hi => ?_
    have hlt : i < l.length := List.mem_range.1 hi
    rw [List.take_append_of_le_length (by omega)]
  rw [running, List.length_append, List.length_singleton, List.range_succ, List.map_append, hinit,
    List.map_singleton, List.take_of_length_le (by simp)]

theorem getLast?_running (l : List α) : (running op z l).getLast?.getD z = l.foldl op z := by
  induction l using List.reverseRecOn with
  | nil => rfl
  | append_singleton l a _ =>
    rw [running_concat, List.getLast?_append]
    rfl

end RunningFold
