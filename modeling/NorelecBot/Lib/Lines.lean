import Mathlib.Data.List.Infix

/-! # Sequences in lines

Every sequence is lines that each end with a mark, and a tail with no mark in it.
There is one way only of cutting it so.
-/

namespace NorelecBot.Lib.Lines

variable {α : Type*} (mark : α)

def join : List (List α) → List α → List α
  | [], tail => tail
  | line :: lines, tail => line ++ mark :: join lines tail

variable [DecidableEq α]

def cut : List α → List (List α) × List α
  | [] => ([], [])
  | letter :: text =>
    if letter = mark then ([] :: (cut text).1, (cut text).2)
    else if (cut text).1 = [] then ([], letter :: (cut text).2)
    else ((letter :: (cut text).1.headD []) :: (cut text).1.tail, (cut text).2)

variable {mark}

theorem cut_of_not_mem {tail : List α} (h : mark ∉ tail) : cut mark tail = ([], tail) := by
  induction tail with
  | nil => rfl
  | cons letter tail ih =>
    rw [List.mem_cons, not_or] at h
    rw [cut, if_neg (Ne.symm h.1), ih h.2, if_pos rfl]

theorem cut_line {line : List α} (h : mark ∉ line) (rest : List α) :
    cut mark (line ++ mark :: rest) = (line :: (cut mark rest).1, (cut mark rest).2) := by
  induction line with
  | nil => rw [List.nil_append, cut, if_pos rfl]
  | cons letter line ih =>
    rw [List.mem_cons, not_or] at h
    rw [List.cons_append, cut, if_neg (Ne.symm h.1), ih h.2, if_neg (List.cons_ne_nil _ _)]
    rfl

theorem cut_join {lines : List (List α)} {tail : List α} (hlines : ∀ line ∈ lines, mark ∉ line) (htail : mark ∉ tail) :
    cut mark (join mark lines tail) = (lines, tail) := by
  induction lines with
  | nil => exact cut_of_not_mem htail
  | cons line lines ih =>
    rw [join, cut_line (hlines line List.mem_cons_self),
      ih fun other hother => hlines other (List.mem_cons_of_mem line hother)]

theorem join_cut (text : List α) :
    join mark (cut mark text).1 (cut mark text).2 = text ∧ (∀ line ∈ (cut mark text).1, mark ∉ line) ∧
      mark ∉ (cut mark text).2 := by
  induction text with
  | nil => exact ⟨rfl, by simp [cut], by simp [cut]⟩
  | cons letter text ih =>
    obtain ⟨hjoin, hlines, htail⟩ := ih
    rw [cut]
    by_cases hmark : letter = mark
    · rw [if_pos hmark]
      refine ⟨by rw [join, hjoin, hmark, List.nil_append], ?_, htail⟩
      intro line hline
      rcases List.mem_cons.mp hline with rfl | hline
      · simp
      · exact hlines line hline
    · rw [if_neg hmark]
      cases hcut : (cut mark text).1 with
      | nil =>
        rw [hcut, join] at hjoin
        rw [if_pos rfl]
        refine ⟨by rw [join, hjoin], by simp, ?_⟩
        rw [List.mem_cons, not_or]
        exact ⟨Ne.symm hmark, htail⟩
      | cons line lines =>
        rw [hcut] at hjoin hlines
        rw [join] at hjoin
        rw [if_neg (List.cons_ne_nil _ _), List.headD_cons, List.tail_cons]
        refine ⟨by rw [join, List.cons_append, hjoin], ?_, htail⟩
        intro other hother
        rcases List.mem_cons.mp hother with rfl | hother
        · rw [List.mem_cons, not_or]
          exact ⟨Ne.symm hmark, hlines line List.mem_cons_self⟩
        · exact hlines other (List.mem_cons_of_mem line hother)

theorem length_le_of_mem_cut {text line : List α} (h : line ∈ (cut mark text).1) : line.length ≤ text.length := by
  obtain ⟨hjoin, -, -⟩ := @join_cut _ mark _ text
  revert h
  conv_rhs => rw [← hjoin]
  clear hjoin
  generalize (cut mark text).1 = lines
  induction lines with
  | nil => simp
  | cons first lines ih =>
    intro h
    rw [join, List.length_append, List.length_cons]
    rcases List.mem_cons.mp h with rfl | h
    · omega
    · have hrest := ih h
      omega

/-- What comes after only adds to the tail. -/
theorem cut_append (before after : List α) :
    cut mark (before ++ after) =
      ((cut mark before).1 ++ (cut mark ((cut mark before).2 ++ after)).1,
        (cut mark ((cut mark before).2 ++ after)).2) := by
  obtain ⟨hjoin, hlines, -⟩ := @join_cut _ mark _ before
  conv_lhs => rw [← hjoin]
  clear hjoin
  generalize (cut mark before).1 = lines at hlines
  induction lines with
  | nil => simp [join]
  | cons line lines ih =>
    rw [join, List.append_assoc, List.cons_append, cut_line (hlines line List.mem_cons_self),
      ih fun other hother => hlines other (List.mem_cons_of_mem line hother), List.cons_append]

end NorelecBot.Lib.Lines
