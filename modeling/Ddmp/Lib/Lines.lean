import Mathlib.Tactic.Common

/-!
# Delimited streams

`split d s` cuts a stream after each delimiter `d`: its complete lines (without the
delimiter) and the unterminated tail. A consumer that keeps the tail between two reads
behaves the same however the stream is cut into chunks: that is `lines_append` and
`tail_append`, the two laws the rest of this file is for.
-/

namespace Lib.Lines

variable {α : Type*} [DecidableEq α] (d : α)

/-- The complete lines of a stream and its unterminated tail. -/
def split : List α → List (List α) × List α
  | [] => ([], [])
  | x :: xs =>
    if x = d then ([] :: (split xs).1, (split xs).2)
    else match (split xs).1 with
      | [] => ([], x :: (split xs).2)
      | l :: ls => ((x :: l) :: ls, (split xs).2)

/-- The complete lines of a stream, without their delimiters. -/
def lines (s : List α) : List (List α) := (split d s).1

/-- What follows the last delimiter. -/
def tail (s : List α) : List α := (split d s).2

@[simp] theorem lines_nil : lines d ([] : List α) = [] := rfl
@[simp] theorem tail_nil : tail d ([] : List α) = [] := rfl

@[simp] theorem lines_delim (s : List α) : lines d (d :: s) = [] :: lines d s := by
  simp [lines, split]

@[simp] theorem tail_delim (s : List α) : tail d (d :: s) = tail d s := by
  simp [tail, split]

theorem lines_cons {x : α} (hx : x ≠ d) (s : List α) :
    lines d (x :: s) = match lines d s with
      | [] => []
      | l :: ls => (x :: l) :: ls := by
  rw [lines, split, if_neg hx, lines]
  split <;> rfl

theorem tail_cons {x : α} (hx : x ≠ d) (s : List α) :
    tail d (x :: s) = if lines d s = [] then x :: tail d s else tail d s := by
  rw [tail, split, if_neg hx, lines, tail]
  split <;> simp_all

/-- A stream without delimiter is all tail. -/
theorem lines_of_not_mem {s : List α} (h : d ∉ s) : lines d s = [] := by
  induction s with
  | nil => rfl
  | cons x xs ih =>
    rw [List.mem_cons, not_or] at h
    rw [lines_cons d (Ne.symm h.1), ih h.2]

theorem tail_of_not_mem {s : List α} (h : d ∉ s) : tail d s = s := by
  induction s with
  | nil => rfl
  | cons x xs ih =>
    rw [List.mem_cons, not_or] at h
    rw [tail_cons d (Ne.symm h.1), if_pos (lines_of_not_mem d h.2), ih h.2]

/-- The first line of a stream. -/
theorem lines_line {l : List α} (h : d ∉ l) (s : List α) :
    lines d (l ++ d :: s) = l :: lines d s := by
  induction l with
  | nil => exact lines_delim d s
  | cons x xs ih =>
    rw [List.mem_cons, not_or] at h
    rw [List.cons_append, lines_cons d (Ne.symm h.1), ih h.2]

theorem tail_line {l : List α} (h : d ∉ l) (s : List α) :
    tail d (l ++ d :: s) = tail d s := by
  induction l with
  | nil => exact tail_delim d s
  | cons x xs ih =>
    rw [List.mem_cons, not_or] at h
    rw [List.cons_append, tail_cons d (Ne.symm h.1), ih h.2, lines_line d h.2,
      if_neg (List.cons_ne_nil _ _)]

/-- The tail holds no delimiter. -/
theorem not_mem_tail (s : List α) : d ∉ tail d s := by
  induction s with
  | nil => simp
  | cons x xs ih =>
    by_cases hx : x = d
    · subst hx
      rwa [tail_delim]
    · rw [tail_cons d hx]
      split
      · rw [List.mem_cons, not_or]
        exact ⟨Ne.symm hx, ih⟩
      · exact ih

/-- A complete line holds no delimiter. -/
theorem not_mem_of_mem_lines {s l : List α} (hl : l ∈ lines d s) : d ∉ l := by
  induction s generalizing l with
  | nil => simp at hl
  | cons x xs ih =>
    by_cases hx : x = d
    · subst hx
      rw [lines_delim, List.mem_cons] at hl
      rcases hl with rfl | hl
      · simp
      · exact ih hl
    · rw [lines_cons d hx] at hl
      cases hls : lines d xs with
      | nil => simp [hls] at hl
      | cons l₀ ls =>
        rw [hls, List.mem_cons] at hl
        rcases hl with rfl | hl
        · rw [List.mem_cons, not_or]
          exact ⟨Ne.symm hx, ih (hls ▸ List.mem_cons_self)⟩
        · exact ih (hls ▸ List.mem_cons_of_mem _ hl)

/-- Nothing of the stream is lost: its lines with their delimiters, then the tail. -/
theorem flatten_lines_append_tail (s : List α) :
    ((lines d s).map (· ++ [d])).flatten ++ tail d s = s := by
  induction s with
  | nil => rfl
  | cons x xs ih =>
    by_cases hx : x = d
    · subst hx
      rw [lines_delim, tail_delim, List.map_cons, List.flatten_cons, List.append_assoc, ih]
      rfl
    · rw [lines_cons d hx, tail_cons d hx]
      cases hls : lines d xs with
      | nil =>
        rw [hls] at ih
        simpa using ih
      | cons l ls =>
        rw [hls] at ih
        simpa using ih

/-- Streams made of lines and a tail split into them. -/
theorem lines_flatten {ls : List (List α)} {t : List α} (hls : ∀ l ∈ ls, d ∉ l) (ht : d ∉ t) :
    lines d ((ls.map (· ++ [d])).flatten ++ t) = ls := by
  induction ls with
  | nil => simpa using lines_of_not_mem d ht
  | cons l ls ih =>
    rw [List.map_cons, List.flatten_cons, List.append_assoc, List.append_assoc,
      List.singleton_append, lines_line d (hls l List.mem_cons_self),
      ih fun l' h => hls l' (List.mem_cons_of_mem _ h)]

theorem tail_flatten {ls : List (List α)} {t : List α} (hls : ∀ l ∈ ls, d ∉ l) (ht : d ∉ t) :
    tail d ((ls.map (· ++ [d])).flatten ++ t) = t := by
  induction ls with
  | nil => simpa using tail_of_not_mem d ht
  | cons l ls ih =>
    rw [List.map_cons, List.flatten_cons, List.append_assoc, List.append_assoc,
      List.singleton_append, tail_line d (hls l List.mem_cons_self),
      ih fun l' h => hls l' (List.mem_cons_of_mem _ h)]

/-- The lines of two streams joined hold no delimiter. -/
theorem not_mem_of_mem_joined (s t : List α) :
    ∀ l ∈ lines d s ++ lines d (tail d s ++ t), d ∉ l := by
  intro l hl
  rcases List.mem_append.mp hl with hl | hl <;> exact not_mem_of_mem_lines d hl

/-- With the last tail they make up both streams. -/
theorem flatten_joined (s t : List α) :
    ((lines d s ++ lines d (tail d s ++ t)).map (· ++ [d])).flatten ++ tail d (tail d s ++ t)
      = s ++ t := by
  have hs := flatten_lines_append_tail d s
  have hst := flatten_lines_append_tail d (tail d s ++ t)
  rw [List.map_append, List.flatten_append, List.append_assoc, hst, ← List.append_assoc, hs]

/-- **Chunking, lines.** Only the tail of what came before matters to what comes next. -/
theorem lines_append (s t : List α) :
    lines d (s ++ t) = lines d s ++ lines d (tail d s ++ t) := by
  -- a stream splits into the lines and the tail it is made of
  have hsplit := lines_flatten d (not_mem_of_mem_joined d s t) (not_mem_tail d (tail d s ++ t))
  rwa [flatten_joined] at hsplit

/-- **Chunking, tail.** -/
theorem tail_append (s t : List α) : tail d (s ++ t) = tail d (tail d s ++ t) := by
  have hsplit := tail_flatten d (not_mem_of_mem_joined d s t) (not_mem_tail d (tail d s ++ t))
  rwa [flatten_joined] at hsplit

@[simp] theorem tail_tail (s : List α) : tail d (tail d s) = tail d s :=
  tail_of_not_mem d (not_mem_tail d s)

@[simp] theorem lines_tail (s : List α) : lines d (tail d s) = [] :=
  lines_of_not_mem d (not_mem_tail d s)

/-- What is its own tail has no complete line. -/
theorem lines_of_tail_eq {s : List α} (h : tail d s = s) : lines d s = [] := by
  rw [← h]
  exact lines_tail d s

/-- A search for the delimiter that finds it at `i` cuts off the first line. -/
theorem lines_of_idxOf?_eq_some {s : List α} {i : ℕ} (h : s.idxOf? d = some i) :
    lines d s = s.take i :: lines d (s.drop (i + 1)) ∧ tail d s = tail d (s.drop (i + 1)) := by
  obtain ⟨hi, hget, hbefore⟩ := List.idxOf?_eq_some_iff.mp h
  -- the delimiter at `i` is the first one
  have hcut : s = s.take i ++ d :: s.drop (i + 1) := by
    conv_lhs => rw [← List.take_append_drop i s, List.drop_eq_getElem_cons hi, hget]
  have hnot : d ∉ s.take i := by
    intro hmem
    obtain ⟨j, hj, hjd⟩ := List.mem_take_iff_getElem.mp hmem
    exact hbefore j (by omega) hjd
  constructor
  · conv_lhs => rw [hcut]
    exact lines_line d hnot _
  · conv_lhs => rw [hcut]
    exact tail_line d hnot _

/-- A search that finds no delimiter means that everything is tail. -/
theorem lines_of_idxOf?_eq_none {s : List α} (h : s.idxOf? d = none) :
    lines d s = [] ∧ tail d s = s :=
  have hs : d ∉ s := List.idxOf?_eq_none_iff.mp h
  ⟨lines_of_not_mem d hs, tail_of_not_mem d hs⟩

end Lib.Lines
