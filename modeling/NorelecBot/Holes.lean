import NorelecBot.EmojiPieces

/-! # Emptying a slot

Emoji are told apart from the first on, so what is read of a text does not depend on
what follows it. Whatever a place is read as, once a slot is emptied and the place
written down, the slots before it are read as they were.
-/

namespace NorelecBot
open Lib Text

theorem textWidth_flatMap (pieces : List Str) :
    textWidth Letter.width (pieces.flatMap lettersOf) = pieces.flatten.length := by
  induction pieces with
  | nil => rfl
  | cons piece pieces ih =>
    rw [List.flatMap_cons, textWidth_append, textWidth_lettersOf, ih, List.flatten_cons, List.length_append]

theorem SplitInto.front {text first : Str} {rest more : List Str} {middle last : Mood}
    (h : SplitInto text first (rest ++ more) middle last) :
    ∃ mood, SplitInto (first ++ rest.flatten) first rest middle mood := by
  obtain ⟨marks, start, hfirst, honce⟩ := h.begun
  have hfollows := h.follows
  rw [List.flatMap_append, List.map_append, List.flatMap_append] at hfollows
  obtain ⟨front, mood, behind, hfront, hbehind, hmarks⟩ := reading_append_eq_some hfollows
  have hlength : ((rest.map lettersOf).flatMap wordMarks).length = front.length := by
    rw [length_readAll hfront, List.length_flatMap, List.length_flatMap, List.map_map]
    simp [Function.comp_def]
  obtain ⟨rfl, rfl⟩ := List.append_inj hmarks hlength
  have hsettled : mood.settled = true := by
    apply settled_of_follows _ hbehind h.settled
    intro piece hpiece
    exact h.filled piece (List.mem_cons_of_mem _ (List.mem_append_right _ hpiece))
  have hletters : lettersOf (first ++ rest.flatten) = lettersOf first ++ rest.flatMap lettersOf := by
    have hwhole := h.letters
    rw [List.flatten_append, ← List.append_assoc, List.flatMap_append, ← List.append_assoc] at hwhole
    apply (lettersOf_split hwhole _).1
    rw [textWidth_append, textWidth_lettersOf, textWidth_flatMap, List.length_append]
  have hreads : reading (.free false) (lettersOf (first ++ rest.flatten)) =
      some (marks ++ (rest.map lettersOf).flatMap wordMarks, mood) := by
    rw [hletters, reading_append, hfirst, Option.bind_some, hfront]
    rfl
  refine ⟨mood, trim_of_reading hreads, fun piece hpiece => ?_, ⟨marks, start, hfirst, honce⟩, hletters, hfront, hsettled⟩
  apply h.filled
  rw [← List.cons_append]
  exact List.mem_append_left _ hpiece

/-- The first pieces of a text are its pieces when it ends there. -/
theorem emojiSplit_front {text : Str} {pieces more : List Str} (hne : pieces ≠ [])
    (h : emojiSplit text = some (pieces ++ more)) : emojiSplit pieces.flatten = some pieces := by
  obtain ⟨first, rest, rfl⟩ := List.exists_cons_of_ne_nil hne
  obtain ⟨first', rest', middle, last, hsame, hcut⟩ := splitInto_of_emojiSplit h
  rw [List.cons_append] at hsame
  obtain ⟨rfl, rfl⟩ := List.cons.inj hsame
  obtain ⟨mood, hfront⟩ := hcut.front
  exact hfront.emojiSplit

theorem no_bracket_of_emojiSplit {text : Str} {pieces : List Str} (h : emojiSplit text = some pieces) :
    91 ∉ pieces.flatten := by
  obtain ⟨first, rest, middle, last, rfl, hcut⟩ := splitInto_of_emojiSplit h
  obtain ⟨marks, start, hfirst, -⟩ := hcut.begun
  have hreads : reading (.free false) (lettersOf (first ++ rest.flatten)) =
      some (marks ++ (rest.map lettersOf).flatMap wordMarks, last) := by
    rw [hcut.letters, reading_append, hfirst, Option.bind_some, hcut.follows]
    rfl
  exact reading_no_plain hreads (by decide) (by decide)

theorem pieceSlots_front {text : Str} {front more : List Str} (hne : front ≠ []) (h : pieceSlots text = front ++ more) :
    pieceSlots front.flatten = front := by
  rw [pieceSlots] at h
  cases hsplit : emojiSplit text with
  | some pieces =>
    rw [hsplit, Option.getD_some] at h
    rw [h] at hsplit
    rw [pieceSlots, emojiSplit_front hne hsplit]
    rfl
  | none =>
    rw [hsplit, Option.getD_none] at h
    obtain ⟨slot, front, rfl⟩ := List.exists_cons_of_ne_nil hne
    obtain ⟨rfl, hrest⟩ := List.cons.inj h
    obtain ⟨rfl, rfl⟩ := List.append_eq_nil_iff.mp hrest.symm
    rw [List.flatten_singleton, pieceSlots, hsplit]
    rfl

theorem upToEmptySlot_idem (text : Str) : upToEmptySlot (upToEmptySlot text) = upToEmptySlot text := by
  induction text with
  | nil => rfl
  | cons character text ih =>
    rw [upToEmptySlot]
    split
    · rfl
    · rename_i hnot
      have hagain : ¬ emptySlot.isPrefixOf (character :: upToEmptySlot text) := by
        intro hprefix
        apply hnot
        cases text with
        | nil => exact hprefix
        | cons next text =>
          rw [upToEmptySlot] at hprefix
          split at hprefix
          · have hboth : (91 == character && false) = true := hprefix
            simp at hboth
          · exact hprefix
      rw [upToEmptySlot, if_neg hagain, ih]

/-- The first slots of a stretch make no empty slot when they are written down. -/
theorem upToEmptySlot_front {text : Str} {front more : List Str} (hne : front ≠ [])
    (h : pieceSlots (upToEmptySlot text) = front ++ more) : upToEmptySlot front.flatten = front.flatten := by
  rw [pieceSlots] at h
  cases hsplit : emojiSplit (upToEmptySlot text) with
  | some pieces =>
    rw [hsplit, Option.getD_some] at h
    rw [h] at hsplit
    exact upToEmptySlot_of_no_bracket (no_bracket_of_emojiSplit (emojiSplit_front hne hsplit))
  | none =>
    rw [hsplit, Option.getD_none] at h
    obtain ⟨slot, front, rfl⟩ := List.exists_cons_of_ne_nil hne
    obtain ⟨rfl, hrest⟩ := List.cons.inj h
    obtain ⟨rfl, rfl⟩ := List.append_eq_nil_iff.mp hrest.symm
    rw [List.flatten_singleton, upToEmptySlot_idem]

/-- Behind the first stretch there is an empty slot, or nothing. -/
theorem drop_upToEmptySlot (text : Str) :
    text.drop (upToEmptySlot text).length = [] ∨ emptySlot.isPrefixOf (text.drop (upToEmptySlot text).length) := by
  induction text with
  | nil => exact .inl rfl
  | cons character text ih =>
    rw [upToEmptySlot]
    split
    · rename_i hempty
      exact .inr hempty
    · exact ih

theorem readSlots_behind (fuel : ℕ) {text : Str} (h : text = [] ∨ emptySlot.isPrefixOf text) :
    readSlots fuel text = [] ∨ ∃ more, readSlots fuel text = [] :: more := by
  cases fuel with
  | zero => exact .inl rfl
  | succ fuel =>
    rw [readSlots]
    split_ifs with hnil hempty
    · exact .inl rfl
    · exact .inr ⟨_, rfl⟩
    · exact absurd (h.resolve_left hnil) hempty

/-- Filled slots at the front of a place were read in its first stretch. -/
theorem furnitureSlots_front {text : Str} {front more : List Str} (hne : front ≠ []) (hfilled : [] ∉ front)
    (h : furnitureSlots text = front ++ more) : ∃ others, pieceSlots (upToEmptySlot text) = front ++ others := by
  rw [furnitureSlots] at h
  cases text with
  | nil =>
    exact absurd (List.append_eq_nil_iff.mp h.symm).1 hne
  | cons character text =>
    rw [List.length_cons, readSlots, if_neg (List.cons_ne_nil _ _)] at h
    split at h
    · obtain ⟨slot, front, rfl⟩ := List.exists_cons_of_ne_nil hne
      exact absurd ((List.cons.inj h).1 ▸ List.mem_cons_self) hfilled
    · rcases List.append_eq_append_iff.mp h with ⟨others, hfront, hbehind⟩ | ⟨others, hpieces, -⟩
      · cases others with
        | nil => exact ⟨[], by rw [hfront, List.append_nil, List.append_nil]⟩
        | cons slot others =>
          rcases readSlots_behind text.length (drop_upToEmptySlot (character :: text)) with hnone | ⟨more, hmore⟩
          · rw [hnone] at hbehind
            cases hbehind
          · rw [hmore] at hbehind
            obtain ⟨rfl, -⟩ := List.cons.inj hbehind
            exact absurd (hfront ▸ List.mem_append_right _ List.mem_cons_self) hfilled
      · exact ⟨others, hpieces⟩

theorem trimSlots_append {front : List Str} (hfilled : [] ∉ front) (more : List Str) :
    trimSlots (front ++ more) = front ++ trimSlots more := by
  induction front with
  | nil => rfl
  | cons slot front ih =>
    rw [List.cons_append, trimSlots, ih fun hmem => hfilled (List.mem_cons_of_mem _ hmem), if_neg]
    · rfl
    · rintro ⟨-, rfl⟩
      exact hfilled List.mem_cons_self

theorem firstEmpty_append {front : List Str} (hfilled : [] ∉ front) {more : List Str}
    (h : more = [] ∨ ∃ others, more = [] :: others) : firstEmpty (front ++ more) = front.length := by
  induction front with
  | nil =>
    rcases h with rfl | ⟨others, rfl⟩
    · rfl
    · rfl
  | cons slot front ih =>
    obtain ⟨character, text, rfl⟩ := List.exists_cons_of_ne_nil fun hnil : slot = [] => hfilled (hnil ▸ List.mem_cons_self)
    rw [List.cons_append, firstEmpty, ih fun hmem => hfilled (List.mem_cons_of_mem _ hmem), List.length_cons]

/-- Slots in front of an empty one, read as the first of some text, are read again up to it. -/
theorem firstEmpty_stored {text : Str} {front more others : List Str} (hfilled : [] ∉ front)
    (h : furnitureSlots text = front ++ others) :
    firstEmpty (furnitureSlots (furnitureStored (front ++ [] :: more))) = front.length := by
  have hstored : furnitureStored (front ++ [] :: more) = front.flatten ++ flatSlots (trimSlots ([] :: more)) := by
    change flatSlots (trimSlots _) = _
    rw [trimSlots_append hfilled, flatSlots_append, flatSlots_filled]
    rintro slot hslot rfl
    exact hfilled hslot
  have hbehind : flatSlots (trimSlots ([] :: more)) = [] ∨ emptySlot.isPrefixOf (flatSlots (trimSlots ([] :: more))) := by
    rw [trimSlots]
    split
    · exact .inl rfl
    · exact .inr (List.isPrefixOf_iff_prefix.mpr (List.prefix_append _ _))
  rw [furnitureSlots, hstored]
  by_cases hnone : front = []
  · subst hnone
    exact firstEmpty_append List.not_mem_nil (readSlots_behind _ hbehind)
  · obtain ⟨pieces, hpieces⟩ := furnitureSlots_front hnone hfilled h
    have hsome : front.flatten ≠ [] := by
      obtain ⟨slot, front, rfl⟩ := List.exists_cons_of_ne_nil hnone
      intro hnil
      rw [List.flatten_cons, List.append_eq_nil_iff] at hnil
      exact hfilled (hnil.1 ▸ List.mem_cons_self)
    have hpos := List.length_pos_iff.mpr hsome
    obtain ⟨fuel, hfuel⟩ := Nat.exists_eq_succ_of_ne_zero
      (show (front.flatten ++ flatSlots (trimSlots ([] :: more))).length ≠ 0 by rw [List.length_append]; omega)
    rw [hfuel, readSlots_upTo fuel hsome (upToEmptySlot_front hnone hpieces) hbehind, pieceSlots_front hnone hpieces]
    exact firstEmpty_append hfilled (readSlots_behind _ hbehind)

/-- Once a slot is emptied, the first empty one is that or the one before it that was. -/
theorem firstEmpty_emptied (text : Str) {slot : ℕ} (h : slot < (furnitureSlots text).length) :
    firstEmpty (furnitureSlots (furnitureStored ((furnitureSlots text).set slot []))) =
      min slot (firstEmpty (furnitureSlots text)) := by
  generalize hslots : furnitureSlots text = slots at h
  generalize hplace : min slot (firstEmpty slots) = place
  have hlt : place < slots.length := by omega
  have hfilled : [] ∉ slots.take place := by
    intro hmem
    obtain ⟨index, hindex, hnil⟩ := List.mem_iff_getElem.mp hmem
    rw [List.length_take] at hindex
    rw [List.getElem_take] at hnil
    apply slotAt_ne_of_lt_firstEmpty (show index < firstEmpty slots by omega)
    rw [slotAt_of_lt (by omega), hnil]
  have hempty : slotAt (slots.set slot []) place = [] := by
    rw [slotAt_set]
    split
    · rfl
    · rename_i hother
      have hfirst : place = firstEmpty slots := by omega
      rw [hfirst, slotAt_firstEmpty]
  have hcut : slots.set slot [] = slots.take place ++ [] :: (slots.set slot []).drop (place + 1) := by
    have hthere : place < (slots.set slot []).length := by rwa [List.length_set]
    have htake : (slots.set slot []).take place = slots.take place := by
      apply List.take_set_of_le
      omega
    have hdrop := List.drop_eq_getElem_cons hthere
    rw [← slotAt_of_lt hthere, hempty] at hdrop
    rw [← htake, ← hdrop, List.take_append_drop]
  rw [hcut, firstEmpty_stored hfilled (hslots.trans (List.take_append_drop place slots).symm), List.length_take]
  omega

end NorelecBot
