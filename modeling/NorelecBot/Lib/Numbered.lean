import Mathlib.Data.List.Basic

/-! # Numbered things, dealt with key by key

Things come with a key and a number and wait their turn; what is done is kept in
the order it was done. For each key, what was done and what still waits are in
the order of their numbers.
-/

namespace NorelecBot.Lib

variable {κ : Type*} {done waiting : List (κ × ℕ)} {key : κ} {number : ℕ}

/-- Of two things with the same key, the first has the smaller number. -/
def Earlier (first second : κ × ℕ) : Prop := first.1 = second.1 → first.2 < second.2

def InOrder (tags : List (κ × ℕ)) : Prop := tags.Pairwise Earlier

theorem InOrder.append_iff : InOrder (done ++ waiting) ↔
    InOrder done ∧ InOrder waiting ∧ ∀ first ∈ done, ∀ second ∈ waiting, Earlier first second :=
  List.pairwise_append

theorem InOrder.drop (h : InOrder (done ++ waiting)) {rest : List (κ × ℕ)} (hrest : rest.Sublist waiting) :
    InOrder (done ++ rest) :=
  h.sublist (List.Sublist.append_left hrest done)

/-- A new thing waits behind all the others. -/
theorem InOrder.enqueue (h : InOrder (done ++ waiting)) (hlast : ∀ tag ∈ done ++ waiting, tag.2 < number) :
    InOrder (done ++ (waiting ++ [(key, number)])) := by
  rw [← List.append_assoc]
  rw [InOrder.append_iff]
  refine ⟨h, List.pairwise_singleton _ _, ?_⟩
  intro first hfirst second hsecond
  rw [List.mem_singleton.mp hsecond]
  exact fun _ => hlast first hfirst

/-- A new thing is done at once, as long as nothing with its key waits. -/
theorem InOrder.perform (h : InOrder (done ++ waiting)) (hlast : ∀ tag ∈ done ++ waiting, tag.2 < number)
    (hnobody : ∀ tag ∈ waiting, tag.1 ≠ key) : InOrder (done ++ [(key, number)] ++ waiting) := by
  obtain ⟨hdone, hwaiting, hboth⟩ := InOrder.append_iff.mp h
  rw [InOrder.append_iff, InOrder.append_iff]
  refine ⟨⟨hdone, List.pairwise_singleton _ _, ?_⟩, hwaiting, ?_⟩
  · intro first hfirst second hsecond
    rw [List.mem_singleton.mp hsecond]
    exact fun _ => hlast first (List.mem_append_left _ hfirst)
  · intro first hfirst second hsecond
    rcases List.mem_append.mp hfirst with hold | hnew
    · exact hboth first hold second hsecond
    · rw [List.mem_singleton.mp hnew]
      exact fun hkey => absurd hkey.symm (hnobody second hsecond)

/-- All that waits with one key is done at once, in the order it waits. -/
theorem InOrder.release [DecidableEq κ] (h : InOrder (done ++ waiting)) (key : κ) :
    InOrder (done ++ (waiting.filter fun tag => tag.1 = key) ++ waiting.filter fun tag => tag.1 ≠ key) := by
  obtain ⟨hdone, hwaiting, hboth⟩ := InOrder.append_iff.mp h
  rw [InOrder.append_iff, InOrder.append_iff]
  refine ⟨⟨hdone, hwaiting.filter _, ?_⟩, hwaiting.filter _, ?_⟩
  · exact fun first hfirst second hsecond => hboth first hfirst second (List.mem_of_mem_filter hsecond)
  · intro first hfirst second hsecond
    rcases List.mem_append.mp hfirst with hold | hreleased
    · exact hboth first hold second (List.mem_of_mem_filter hsecond)
    · have hkey : first.1 = key := by simpa using (List.mem_filter.mp hreleased).2
      have hother : second.1 ≠ key := by simpa using (List.mem_filter.mp hsecond).2
      exact fun hsame => absurd (hsame.symm.trans hkey) hother

end NorelecBot.Lib
