import Mathlib.Data.List.Basic

/-! # Terminated segments of a list

The segments of a list that a terminator ends, as the lines of a text. What follows the last terminator is no segment.
-/

namespace DaemonProxy.Lib

variable {α : Type*} {terminator : α}

/-- The list is a sequence of terminated segments. -/
def WholeSegments (terminator : α) (l : List α) : Prop := l = [] ∨ l.getLast? = some terminator

theorem wholeSegments_concat (l : List α) : WholeSegments terminator (l ++ [terminator]) :=
  .inr List.getLast?_concat

/-- What follows a terminated list decides whether the whole is terminated. -/
theorem wholeSegments_append {first : List α} (whole : WholeSegments terminator first) (rest : List α) :
    WholeSegments terminator (first ++ rest) ↔ WholeSegments terminator rest := by
  rcases List.eq_nil_or_concat' rest with rfl | ⟨rest, last, rfl⟩
  · rw [List.append_nil]
    exact ⟨fun _ => .inl rfl, fun _ => whole⟩
  · simp [WholeSegments, ← List.append_assoc]

variable [DecidableEq α]

/-- The segments of a list when `start` stands in front of it. -/
def segmentsFrom (terminator : α) (start : List α) : List α → List (List α)
  | [] => []
  | a :: rest =>
      if a = terminator then start :: segmentsFrom terminator [] rest else segmentsFrom terminator (start ++ [a]) rest

/-- The segments that the terminator ends, without it. -/
def segments (terminator : α) : List α → List (List α) := segmentsFrom terminator []

theorem segmentsFrom_append {segment : List α} (within : terminator ∉ segment) (start rest : List α) :
    segmentsFrom terminator start (segment ++ rest) = segmentsFrom terminator (start ++ segment) rest := by
  induction segment generalizing start with
  | nil => simp
  | cons a segment ih =>
    rw [List.mem_cons, not_or] at within
    rw [List.cons_append, segmentsFrom, if_neg (Ne.symm within.1), ih within.2, List.append_assoc, List.singleton_append]

theorem segments_cons {segment : List α} (within : terminator ∉ segment) (rest : List α) :
    segments terminator (segment ++ terminator :: rest) = segment :: segments terminator rest := by
  rw [segments, segmentsFrom_append within, segmentsFrom, if_pos rfl, List.nil_append]

theorem segments_of_notMem {l : List α} (within : terminator ∉ l) : segments terminator l = [] := by
  rw [segments, ← List.append_nil l, segmentsFrom_append within, segmentsFrom]

theorem segmentsFrom_concat (start first rest : List α) :
    segmentsFrom terminator start (first ++ terminator :: rest) =
      segmentsFrom terminator start (first ++ [terminator]) ++ segments terminator rest := by
  induction first generalizing start with
  | nil => simp [segmentsFrom, segments]
  | cons a first ih =>
    simp only [List.cons_append, segmentsFrom]
    split
    · rw [ih, List.cons_append]
    · rw [ih]

theorem WholeSegments.segments_append {first : List α} (whole : WholeSegments terminator first) (rest : List α) :
    segments terminator (first ++ rest) = segments terminator first ++ segments terminator rest := by
  rcases whole with rfl | whole
  · rfl
  · obtain ⟨first, rfl⟩ := List.getLast?_eq_some_iff.mp whole
    rw [List.append_assoc, List.singleton_append]
    exact segmentsFrom_concat [] first rest

end DaemonProxy.Lib
