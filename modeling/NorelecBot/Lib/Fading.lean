import NorelecBot.Lib.KeyMap
import Mathlib.Data.List.Induction

/-! # Counting what fades

Things are counted by the stretch they happen in, and each time one is counted the
stretches before some bound are forgotten. While the bounds do not go back, what is
kept of a stretch is all that was ever counted in it.
-/

namespace NorelecBot.Lib.Fading

/-- Something counted, and the bound of what is forgotten with it. -/
structure Beat (κ ω : Type*) where
  stretch : κ
  what : ω
  oldest : κ
  deriving DecidableEq, Repr

variable {κ ω : Type*} [LT κ] [DecidableEq κ] [DecidableLT κ] [KeyOrder κ] [LT ω] [DecidableEq ω] [DecidableLT ω]
  [KeyOrder ω]

def beat (counts : KeyMap κ (KeyMap ω ℤ)) (b : Beat κ ω) : KeyMap κ (KeyMap ω ℤ) :=
  (counts.alter b.stretch fun found => (found.getD .empty).alter b.what fun n => n.getD 0 + 1).dropBefore b.oldest

def beatAll (counts : KeyMap κ (KeyMap ω ℤ)) (beats : List (Beat κ ω)) : KeyMap κ (KeyMap ω ℤ) := beats.foldl beat counts

/-- How many of one thing are kept of a stretch. -/
def number (counts : KeyMap κ (KeyMap ω ℤ)) (stretch : κ) (what : ω) : Option ℤ :=
  (counts.find stretch).bind fun found => found.find what

def often (beats : List (Beat κ ω)) (stretch : κ) (what : ω) : ℕ :=
  beats.countP fun b => b.stretch = stretch && b.what = what

def Forgotten (beats : List (Beat κ ω)) (stretch : κ) : Prop := ∃ b ∈ beats, stretch < b.oldest

instance (beats : List (Beat κ ω)) (stretch : κ) : Decidable (Forgotten beats stretch) :=
  inferInstanceAs (Decidable (∃ b ∈ beats, stretch < b.oldest))

def expected (beats : List (Beat κ ω)) (stretch : κ) (what : ω) : Option ℤ :=
  if Forgotten beats stretch ∨ often beats stretch what = 0 then none else some (often beats stretch what)

/-- What one more leaves. -/
theorem number_beat (counts : KeyMap κ (KeyMap ω ℤ)) (b : Beat κ ω) (stretch : κ) (what : ω) :
    number (beat counts b) stretch what =
      if stretch < b.oldest then none
      else if b.stretch = stretch ∧ b.what = what then some ((number counts stretch what).getD 0 + 1)
      else number counts stretch what := by
  rw [number, beat, KeyMap.find_dropBefore]
  by_cases hold : stretch < b.oldest
  · rw [if_pos hold, if_pos hold]
    rfl
  · rw [if_neg hold, if_neg hold, KeyMap.find_alter]
    by_cases hstretch : stretch = b.stretch
    · subst hstretch
      rw [if_pos rfl, Option.bind_some, KeyMap.find_alter]
      by_cases hwhat : what = b.what
      · subst hwhat
        rw [if_pos rfl, if_pos ⟨rfl, rfl⟩, number]
        cases counts.find b.stretch <;> rfl
      · have hother : ¬ (b.stretch = b.stretch ∧ b.what = what) := fun hsame => hwhat hsame.2.symm
        rw [if_neg hwhat, if_neg hother, number]
        cases counts.find b.stretch <;> rfl
    · have hother : ¬ (b.stretch = stretch ∧ b.what = what) := fun hsame => hstretch hsame.1.symm
      rw [if_neg hstretch, if_neg hother, number]

omit [DecidableEq κ] [DecidableLT κ] in
theorem lt_of_lt_of_not_lt {first second third : κ} (h : first < second) (hnot : ¬ third < second) : first < third := by
  rcases KeyOrder.total second third with hlt | rfl | hlt
  · exact KeyOrder.trans h hlt
  · exact h
  · exact absurd hlt hnot

theorem number_beatAll {beats : List (Beat κ ω)} (honward : beats.Pairwise fun one other => ¬ other.oldest < one.oldest)
    (stretch : κ) (what : ω) : number (beatAll .empty beats) stretch what = expected beats stretch what := by
  induction beats using List.reverseRecOn with
  | nil => rfl
  | append_singleton beats b ih =>
    obtain ⟨hbefore, -, hlast⟩ := List.pairwise_append.mp honward
    have hforgot : Forgotten beats stretch → stretch < b.oldest := by
      rintro ⟨earlier, hearlier, hold⟩
      exact lt_of_lt_of_not_lt hold (hlast earlier hearlier b List.mem_cons_self)
    have hnow : Forgotten (beats ++ [b]) stretch ↔ stretch < b.oldest := by
      constructor
      · rintro ⟨one, hone, hold⟩
        rcases List.mem_append.mp hone with hin | hin
        · exact hforgot ⟨one, hin, hold⟩
        · rwa [List.mem_singleton.mp hin] at hold
      · intro hold
        exact ⟨b, List.mem_append_right beats List.mem_cons_self, hold⟩
    have hoften : often (beats ++ [b]) stretch what =
        often beats stretch what + if b.stretch = stretch ∧ b.what = what then 1 else 0 := by
      simp [often, List.countP_append, List.countP_cons]
    rw [beatAll, List.foldl_append, List.foldl_cons, List.foldl_nil, number_beat, ← beatAll, ih hbefore, expected, expected,
      hoften]
    simp only [hnow]
    by_cases hold : stretch < b.oldest
    · simp [hold]
    · have hkept : ¬ Forgotten beats stretch := fun hforgotten => hold (hforgot hforgotten)
      by_cases hsame : b.stretch = stretch ∧ b.what = what
      · by_cases hzero : often beats stretch what = 0
        · simp [hold, hkept, hsame, hzero]
        · simp [hold, hkept, hsame, hzero]
      · simp [hold, hkept, hsame]

end NorelecBot.Lib.Fading
