import Mathlib.Data.List.DropRight
import Mathlib.Tactic.Common

/-!
# Splitting at a separator

The pieces of a list between the separators: what they hold, and which of them are left when
separators at the ends are dropped or other lists are joined.
-/

namespace Lib.Pieces

variable {α : Type*}

theorem map_intercalate (f : α → α) (x : α) (ls : List (List α)) :
    ([x].intercalate ls).map f = [f x].intercalate (ls.map (List.map f)) := by
  induction ls with
  | nil => rfl
  | cons l ls ih =>
    rcases eq_or_ne ls [] with rfl | hne
    · simp
    · have hne' : ls.map (List.map f) ≠ [] := mt List.map_eq_nil_iff.mp hne
      rw [List.intercalate_cons_of_ne_nil hne, List.map_append, List.map_append, ih,
        List.map_cons (f := List.map f), List.intercalate_cons_of_ne_nil hne']
      rfl

/-- A filter that drops the separators and nothing else. -/
theorem filter_intercalate {p : α → Bool} {x : α} (hx : p x = false) {ls : List (List α)}
    (hls : ∀ l ∈ ls, ∀ y ∈ l, p y = true) : ([x].intercalate ls).filter p = ls.flatten := by
  induction ls with
  | nil => rfl
  | cons l ls ih =>
    rw [List.forall_mem_cons] at hls
    have hl : l.filter p = l := List.filter_eq_self.mpr hls.1
    have hsep : [x].filter p = [] := by simp [hx]
    rcases eq_or_ne ls [] with rfl | hne
    · rw [List.intercalate_singleton, hl, List.flatten_singleton]
    · rw [List.intercalate_cons_of_ne_nil hne, List.filter_append, List.filter_append, hl, hsep,
        ih hls.2, List.append_nil, List.flatten_cons]

/-- A list that is mapped to the same as joined lists is joined from lists that are, if nothing
else becomes a separator. -/
theorem exists_of_map_intercalate {f : α → α} {x : α} (hx : ∀ y, f y = f x → y = x)
    {ls : List (List α)} {s : List α} (h : s.map f = ([x].intercalate ls).map f) :
    ∃ ls', ls'.map (List.map f) = ls.map (List.map f) ∧ [x].intercalate ls' = s := by
  induction ls generalizing s with
  | nil => exact ⟨[], rfl, (List.map_eq_nil_iff.mp h).symm⟩
  | cons l ls ih =>
    rcases eq_or_ne ls [] with rfl | hne
    · rw [List.intercalate_singleton] at h
      exact ⟨[s], congrArg (fun l => [l]) h, List.intercalate_singleton⟩
    · rw [List.intercalate_cons_of_ne_nil hne, List.map_append, List.map_append, List.append_assoc]
        at h
      obtain ⟨l', tail, rfl, hl, htail⟩ := List.map_eq_append_iff.mp h
      obtain ⟨y, rest, rfl, hy, hrest⟩ := List.map_eq_cons_iff.mp htail
      obtain ⟨ls', hls, rfl⟩ := ih hrest
      have hne' : ls' ≠ [] := by
        rintro rfl
        exact hne (List.map_eq_nil_iff.mp hls.symm)
      refine ⟨l' :: ls', by rw [List.map_cons, List.map_cons, hl, hls], ?_⟩
      rw [List.intercalate_cons_of_ne_nil hne', hx y hy, List.append_assoc]
      rfl

variable [DecidableEq α] {x : α} {s piece : List α}

/-- A piece is part of the list, without the separator. -/
theorem of_mem_splitOn (h : piece ∈ s.splitOn x) : x ∉ piece ∧ piece.Sublist s := by
  induction s generalizing piece with
  | nil =>
    rw [List.splitOn_nil, List.mem_singleton] at h
    rw [h]
    exact ⟨List.not_mem_nil, .slnil⟩
  | cons c s ih =>
    rw [List.splitOn_cons_eq_if_modifyHead] at h
    split at h
    · rcases List.mem_cons.mp h with rfl | h
      · exact ⟨List.not_mem_nil, List.nil_sublist _⟩
      · exact ⟨(ih h).1, (ih h).2.cons c⟩
    · rename_i hc
      obtain ⟨first, rest, hsplit⟩ := List.exists_cons_of_ne_nil (List.splitOn_ne_nil x s)
      rw [hsplit, List.modifyHead_cons] at h
      rw [hsplit] at ih
      rcases List.mem_cons.mp h with rfl | h
      · obtain ⟨hnot, hsub⟩ := ih List.mem_cons_self
        refine ⟨?_, hsub.cons_cons c⟩
        rw [List.mem_cons, not_or]
        exact ⟨fun hx => hc (by rw [hx, beq_self_eq_true]), hnot⟩
      · obtain ⟨hnot, hsub⟩ := ih (List.mem_cons_of_mem first h)
        exact ⟨hnot, hsub.cons c⟩

/-- The pieces of joined lists are the pieces of the lists. -/
theorem splitOn_intercalate_eq {ls : List (List α)} (hls : ls ≠ []) :
    ([x].intercalate ls).splitOn x = ls.flatMap fun l => l.splitOn x := by
  induction ls with
  | nil => exact absurd rfl hls
  | cons l ls ih =>
    rcases eq_or_ne ls [] with rfl | hne
    · simp
    · rw [List.intercalate_cons_of_ne_nil hne, List.append_assoc, List.singleton_append,
        List.splitOn_append_cons_self, ih hne, List.flatMap_cons]

theorem mem_splitOn_of_dropWhile (h : piece ∈ (s.dropWhile (· == x)).splitOn x) :
    piece ∈ s.splitOn x := by
  induction s with
  | nil => exact h
  | cons c s ih =>
    rw [List.dropWhile_cons] at h
    split at h
    · rename_i hc
      rw [List.splitOn_cons_eq_if_modifyHead, if_pos hc]
      exact List.mem_cons_of_mem _ (ih h)
    · exact h

theorem mem_splitOn_of_rdropWhile (h : piece ∈ (s.rdropWhile (· == x)).splitOn x) :
    piece ∈ s.splitOn x := by
  induction s using List.reverseRecOn with
  | nil => exact h
  | append_singleton s c ih =>
    rw [List.rdropWhile_concat] at h
    split at h
    · rename_i hc
      rw [List.splitOn_append_cons_of_beq s [] hc]
      exact List.mem_append_left _ (ih h)
    · exact h

end Lib.Pieces
