import NorelecBot.Commands

/-! # A quote tags nobody

The loop of the source over an index that jumps, the reading of it a letter at a
time, and which of the bytes are left out.
-/

namespace NorelecBot

/-- At the beginning, or after something no name is made of. -/
def startsWord (text : Str) (index : ℕ) : Bool := index = 0 || !(text[index - 1]?.any isNameCharacter)

/-- The first byte from here that is not a mention is one of a name. -/
def leadsToName (text : Str) : Bool := (text.dropWhile (· = mention)).head?.any isNameCharacter

/-- `strip_mentions` from an index on; the fuel is the number of bytes left. -/
def stripLoop (text : Str) : ℕ → ℕ → Str
  | 0, _ => []
  | fuel + 1, index =>
    if hindex : index < text.length then
      let name := index + ((text.drop index).takeWhile (· = mention)).length
      if (text[index] = mention ∧ startsWord text index) ∧ text[name]?.any isNameCharacter
      then stripLoop text fuel name
      else text[index] :: stripLoop text fuel (index + 1)
    else []

def Tags (text : Str) (index : ℕ) : Prop :=
  text[index]? = some mention ∧ startsWord text index ∧ leadsToName (text.drop (index + 1))

instance (text : Str) (index : ℕ) : Decidable (Tags text index) := inferInstanceAs (Decidable (_ ∧ _))

theorem mention_not_name : isNameCharacter mention = false := by decide

@[simp] theorem startsWord_zero (text : Str) : startsWord text 0 = true := rfl

theorem startsWord_succ {text : Str} {index : ℕ} {character : UInt8} (h : text[index]? = some character) :
    startsWord text (index + 1) = !isNameCharacter character := by
  simp [startsWord, h]

theorem leadsToName_mention (text : Str) : leadsToName (mention :: text) = leadsToName text := by
  simp [leadsToName]

theorem leadsToName_cons {character : UInt8} (text : Str) (h : character ≠ mention) :
    leadsToName (character :: text) = isNameCharacter character := by
  simp [leadsToName, h]

theorem stripMentionsFrom_cons (inWord : Bool) (character : UInt8) (text : Str) :
    stripMentionsFrom inWord (character :: text) =
      if character = mention ∧ ¬ inWord ∧ leadsToName text then stripMentionsFrom false text
      else character :: stripMentionsFrom (isNameCharacter character) text := rfl

/-- A whole run of them goes where the first one does. -/
theorem stripMentionsFrom_run {text : Str} (h : leadsToName text) :
    stripMentionsFrom false text = stripMentionsFrom false (text.dropWhile (· = mention)) := by
  induction text with
  | nil => rfl
  | cons character text ih =>
    by_cases hmention : character = mention
    · subst hmention
      rw [leadsToName_mention] at h
      rw [stripMentionsFrom_cons, if_pos ⟨rfl, by simp, h⟩, ih h]
      simp
    · simp [hmention]

/-- Only a mention at the front asks what stood before it. -/
theorem stripMentionsFrom_head {text : Str} (inWord other : Bool) (h : text.head? ≠ some mention) :
    stripMentionsFrom inWord text = stripMentionsFrom other text := by
  cases text with
  | nil => rfl
  | cons character text =>
    have hmention : character ≠ mention := by simpa using h
    rw [stripMentionsFrom_cons, stripMentionsFrom_cons, if_neg fun hc => hmention hc.1,
      if_neg fun hc => hmention hc.1]

theorem getElem?_length_takeWhile (p : UInt8 → Bool) (text : Str) :
    text[(text.takeWhile p).length]? = (text.dropWhile p).head? := by
  induction text with
  | nil => rfl
  | cons character text ih =>
    by_cases h : p character
    · simpa [h] using ih
    · simp [h]

theorem drop_length_takeWhile (p : UInt8 → Bool) (text : Str) :
    text.drop (text.takeWhile p).length = text.dropWhile p := by
  induction text with
  | nil => rfl
  | cons character text ih =>
    by_cases h : p character
    · simpa [h] using ih
    · simp [h]

/-- What the loop knows of the letter before is all the reading needs. -/
theorem stripLoop_eq {text : Str} {fuel index : ℕ} (hfuel : text.length ≤ index + fuel) :
    stripLoop text fuel index = stripMentionsFrom (!startsWord text index) (text.drop index) := by
  induction fuel generalizing index with
  | zero =>
    rw [List.drop_eq_nil_of_le (by omega)]
    rfl
  | succ fuel ih =>
    rw [stripLoop]
    by_cases hindex : index < text.length
    · have hdrop : text.drop index = text[index] :: text.drop (index + 1) := List.drop_eq_getElem_cons hindex
      have hat : text[index + ((text.drop index).takeWhile (· = mention)).length]?.any isNameCharacter =
          leadsToName (text.drop index) := by
        rw [← List.getElem?_drop, getElem?_length_takeWhile]
        rfl
      rw [dif_pos hindex]
      simp only [hat]
      rw [hdrop, stripMentionsFrom_cons]
      by_cases hmention : text[index] = mention
      · have hlead : leadsToName (text[index] :: text.drop (index + 1)) = leadsToName (text.drop (index + 1)) := by
          rw [hmention, leadsToName_mention]
        rw [hlead]
        by_cases hgone : startsWord text index ∧ leadsToName (text.drop (index + 1))
        · rw [if_pos ⟨⟨hmention, hgone.1⟩, hgone.2⟩, if_pos ⟨hmention, by simp [hgone.1], hgone.2⟩]
          have hone : 0 < ((text.drop index).takeWhile (· = mention)).length := by
            rw [hdrop]
            simp [hmention]
          have hrun : text.drop (index + ((text.drop index).takeWhile (· = mention)).length) =
              (text.drop (index + 1)).dropWhile (· = mention) := by
            rw [← List.drop_drop, drop_length_takeWhile, hdrop]
            simp [hmention]
          rw [← hdrop, ih (by omega), hrun, stripMentionsFrom_run hgone.2]
          apply stripMentionsFrom_head
          intro hhead
          have hnot := List.head?_dropWhile_not (fun byte => decide (byte = mention)) (text.drop (index + 1))
          rw [hhead] at hnot
          simp at hnot
        · rw [if_neg fun h => hgone ⟨h.1.2, h.2⟩, if_neg fun h => hgone ⟨by simpa using h.2.1, h.2.2⟩]
          rw [ih (by omega), startsWord_succ (List.getElem?_eq_getElem hindex), Bool.not_not]
      · rw [if_neg fun h => hmention h.1.1, if_neg fun h => hmention h.1]
        rw [ih (by omega), startsWord_succ (List.getElem?_eq_getElem hindex), Bool.not_not]
    · rw [dif_neg hindex, List.drop_eq_nil_of_le (by omega)]
      rfl

/-- The rest of a text is read as the text is: what stands before it tells the mentions in it. -/
theorem stripMentionsFrom_eq_filter (before rest : Str) :
    stripMentionsFrom (!startsWord (before ++ rest) before.length) rest =
      ((rest.zipIdx before.length).filter fun place => ¬ Tags (before ++ rest) place.2).map Prod.fst := by
  induction rest generalizing before with
  | nil => rfl
  | cons character rest ih =>
    have hat : (before ++ character :: rest)[before.length]? = some character := by simp
    have hnext := ih (before ++ [character])
    rw [List.append_assoc, List.singleton_append, List.length_append, List.length_singleton,
      startsWord_succ hat, Bool.not_not] at hnext
    rw [stripMentionsFrom_cons, List.zipIdx_cons, List.filter_cons]
    have htags : Tags (before ++ character :: rest) before.length ↔
        character = mention ∧ ¬ !startsWord (before ++ character :: rest) before.length ∧ leadsToName rest := by
      rw [Tags, hat]
      simp
    by_cases h : Tags (before ++ character :: rest) before.length
    · have hmention := (htags.mp h).1
      rw [if_pos (htags.mp h), if_neg (by simpa using h), ← hnext, hmention, mention_not_name]
    · rw [if_neg fun hc => h (htags.mpr hc), if_pos (by simpa using h), hnext]
      rfl

theorem stripMentions_eq_filter (text : Str) :
    stripMentions text = (text.zipIdx.filter fun place => ¬ Tags text place.2).map Prod.fst :=
  stripMentionsFrom_eq_filter [] text

/-- No @ that starts a word stands right before a letter. -/
def Quiet (inWord : Bool) : Str → Prop
  | [] => True
  | character :: text =>
    (character = mention → ¬ inWord → ¬ text.head?.any isNameCharacter) ∧ Quiet (isNameCharacter character) text

/-- What leads to no name does not begin with one either, once stripped. -/
theorem head_stripMentionsFrom {text : Str} (h : ¬ leadsToName text) :
    ¬ (stripMentionsFrom false text).head?.any isNameCharacter := by
  cases text with
  | nil => simp [stripMentionsFrom]
  | cons character text =>
    rw [stripMentionsFrom_cons]
    by_cases hmention : character = mention
    · rw [hmention, leadsToName_mention] at h
      rw [if_neg fun hc => h hc.2.2, hmention]
      simp [mention_not_name]
    · rw [leadsToName_cons text hmention] at h
      rw [if_neg fun hc => hmention hc.1]
      simpa using h

theorem stripMentionsFrom_quiet (inWord : Bool) (text : Str) : Quiet inWord (stripMentionsFrom inWord text) := by
  induction text generalizing inWord with
  | nil => trivial
  | cons character text ih =>
    rw [stripMentionsFrom_cons]
    by_cases hgone : character = mention ∧ ¬ inWord ∧ leadsToName text
    · rw [if_pos hgone, show inWord = false by simpa using hgone.2.1]
      exact ih false
    · rw [if_neg hgone]
      refine ⟨fun hmention hword => ?_, ih _⟩
      rw [hmention, mention_not_name]
      exact head_stripMentionsFrom fun hleads => hgone ⟨hmention, hword, hleads⟩

/-- A run of them that starts a word leads to no name: its last one would stand before it. -/
theorem Quiet.not_leadsToName {text : Str} (h : Quiet false (mention :: text)) : ¬ leadsToName text := by
  induction text with
  | nil => simp [leadsToName]
  | cons character text ih =>
    by_cases hmention : character = mention
    · rw [hmention, leadsToName_mention]
      apply ih
      rw [hmention] at h
      exact h.2
    · rw [leadsToName_cons text hmention]
      simpa using h.1 rfl (by simp)

theorem Quiet.stripMentionsFrom_eq {inWord : Bool} {text : Str} (h : Quiet inWord text) :
    stripMentionsFrom inWord text = text := by
  induction text generalizing inWord with
  | nil => rfl
  | cons character text ih =>
    rw [stripMentionsFrom_cons]
    by_cases hgone : character = mention ∧ ¬ inWord ∧ leadsToName text
    · rw [hgone.1, show inWord = false by simpa using hgone.2.1] at h
      exact absurd hgone.2.2 h.not_leadsToName
    · rw [if_neg hgone, ih h.2]

/-- Read by index, wherever it stands after the start of a longer text. -/
theorem Quiet.at_index {before rest : Str} (h : Quiet (!startsWord (before ++ rest) before.length) rest) {index : ℕ}
    (hindex : before.length ≤ index) :
    ¬ ((before ++ rest)[index]? = some mention ∧ startsWord (before ++ rest) index ∧
      (before ++ rest)[index + 1]?.any isNameCharacter) := by
  induction rest generalizing before with
  | nil =>
    intro htag
    obtain ⟨hin, -⟩ := List.getElem?_eq_some_iff.mp htag.1
    rw [List.append_nil] at hin
    omega
  | cons character rest ih =>
    have hat : (before ++ character :: rest)[before.length]? = some character := by simp
    by_cases hhere : index = before.length
    · subst hhere
      rintro ⟨hmention, hstarts, hname⟩
      rw [hat, Option.some.injEq] at hmention
      apply h.1 hmention (by simpa using hstarts)
      rw [List.getElem?_append_right (Nat.le_add_right _ 1), Nat.add_sub_cancel_left] at hname
      simpa [List.head?_eq_getElem?] using hname
    · have hnext := h.2
      rw [← Bool.not_not (isNameCharacter character), ← startsWord_succ hat] at hnext
      have hlater := @ih (before ++ [character]) (by simpa using hnext) (by simp; omega)
      simpa using hlater

/-- `strip_mentions`: the loop from the first byte. -/
def stripText (text : Str) : Str := stripLoop text text.length 0

/-- The loop does what the commands take it to do. -/
theorem stripText_eq (text : Str) : stripText text = stripMentions text := by
  rw [stripText, stripLoop_eq (by omega), startsWord_zero, List.drop_zero]
  rfl

/-- No text keeps an @ that tags somebody, only those go, and there is nothing left for a second time. -/
theorem quote_tags_nobody (text : Str) :
    (∀ index, ¬ ((stripText text)[index]? = some mention ∧ startsWord (stripText text) index ∧
      (stripText text)[index + 1]?.any isNameCharacter)) ∧
    stripText text = (text.zipIdx.filter fun place => ¬ Tags text place.2).map Prod.fst ∧
    stripText (stripText text) = stripText text := by
  have hquiet : Quiet false (stripText text) := by
    rw [stripText_eq]
    exact stripMentionsFrom_quiet false text
  refine ⟨fun index => ?_, ?_, ?_⟩
  · apply @Quiet.at_index [] (stripText text) hquiet index (Nat.zero_le index)
  · rw [stripText_eq, stripMentions_eq_filter]
  · rw [stripText_eq (stripText text)]
    exact hquiet.stripMentionsFrom_eq

example : stripText (utf8 "a@@b @@cd @ @é") = utf8 "a@b cd @ @é" := by decide

end NorelecBot
