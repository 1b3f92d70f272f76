import NorelecBot.Irc.Session

/-! # A text cannot add a line of its own

However long a text is, each message it is laid out over fits, and no newline of
it is left in any of them. A carriage return is taken away only at the end of a
line: one in the middle of it is sent as it is.
-/

namespace NorelecBot.Irc

theorem cutBack_le (text : Str) (cut : ℕ) : cutBack text cut ≤ cut := by
  induction cut with
  | zero => simp [cutBack]
  | succ cut ih =>
    rw [cutBack]
    split
    · omega
    · omega

theorem boundaryBefore_le (text : Str) (maxBytes : ℕ) : boundaryBefore text maxBytes ≤ maxBytes :=
  (cutBack_le text _).trans (min_le_left _ _)

theorem boundaryBefore_of_le {text : Str} {maxBytes : ℕ} (h : text.length ≤ maxBytes) :
    boundaryBefore text maxBytes = text.length := by
  rw [boundaryBefore, min_eq_right h]
  cases hlength : text.length with
  | zero => simp [cutBack]
  | succ length => simp [cutBack, hlength]

theorem spaceBefore_some {text : Str} {cut space : ℕ} (h : spaceBefore text cut = some space) :
    space ≤ cut ∧ text.getD space 0 = 32 := by
  induction cut with
  | zero =>
    rw [spaceBefore] at h
    split at h
    · cases h
      exact ⟨le_rfl, by assumption⟩
    · cases h
  | succ cut ih =>
    rw [spaceBefore] at h
    split at h
    · cases h
      exact ⟨le_rfl, by assumption⟩
    · exact ⟨(ih h).1.trans (Nat.le_succ cut), (ih h).2⟩

theorem cutOf_of_le {piece : Str} {maxBytes : ℕ} (h : piece.length ≤ maxBytes) :
    cutOf maxBytes piece = (piece.length, 0) := by
  simp [cutOf, boundaryBefore_of_le h]

/-- What a cut leaves out is one space at most. -/
theorem cutOf_spec (maxBytes : ℕ) (piece : Str) :
    (cutOf maxBytes piece).1 ≤ maxBytes ∧
      ((cutOf maxBytes piece).2 = 0 ∨
        (cutOf maxBytes piece).2 = 1 ∧ piece.getD (cutOf maxBytes piece).1 0 = 32) := by
  have hbound := boundaryBefore_le piece maxBytes
  simp only [cutOf]
  split_ifs with hshort
  · split
    · rename_i space hspace
      obtain ⟨hle, hchar⟩ := spaceBefore_some hspace
      split_ifs with hhalf
      · exact ⟨hle.trans hbound, .inr ⟨rfl, hchar⟩⟩
      · exact ⟨hbound, .inl rfl⟩
    · exact ⟨hbound, .inl rfl⟩
  · exact ⟨hbound, .inl rfl⟩

theorem mem_skipped {maxBytes : ℕ} {piece : Str} {character : UInt8}
    (h : character ∈ (piece.drop (cutOf maxBytes piece).1).take (cutOf maxBytes piece).2) : character = 32 := by
  rcases (cutOf_spec maxBytes piece).2 with hnone | ⟨hone, hchar⟩
  · simp [hnone] at h
  · rw [hone] at h
    cases hrest : piece.drop (cutOf maxBytes piece).1 with
    | nil => simp [hrest] at h
    | cons first rest =>
      have hfirst : piece[(cutOf maxBytes piece).1]? = some first := by
        rw [← List.head?_drop, hrest, List.head?_cons]
      rw [hrest] at h
      simp only [List.take_succ_cons, List.take_zero, List.mem_singleton] at h
      rw [List.getD_eq_getElem?_getD, hfirst] at hchar
      simpa [h] using hchar

theorem length_of_mem_cutPiece {maxBytes fuel : ℕ} {piece part : Str} (h : part ∈ cutPiece maxBytes fuel piece) :
    part.length ≤ maxBytes := by
  induction fuel generalizing piece with
  | zero => simp [cutPiece] at h
  | succ fuel ih =>
    rw [cutPiece] at h
    split at h
    · simp at h
    · dsimp only at h
      split at h
      · simp at h
      · rcases List.mem_cons.mp h with rfl | hrest
        · exact (List.length_take_le _ _).trans (cutOf_spec maxBytes piece).1
        · exact ih hrest

/-- A line up to the place, if there is one, where the rest of it is longer than a message and has
nowhere to be cut: that rest is dropped. -/
def spokenWithin (maxBytes : ℕ) : ℕ → Str → Str
  | 0, _ => []
  | fuel + 1, piece =>
    if (cutOf maxBytes piece).1 = 0 then []
    else
      let length := (cutOf maxBytes piece).1 + (cutOf maxBytes piece).2
      piece.take length ++ spokenWithin maxBytes fuel (piece.drop length)

def spoken (maxBytes : ℕ) (piece : Str) : Str := spokenWithin maxBytes piece.length piece

theorem cutOf_nil (maxBytes : ℕ) : cutOf maxBytes [] = (0, 0) := by
  simp [cutOf, boundaryBefore, cutBack]

theorem spokenWithin_nil (maxBytes fuel : ℕ) : spokenWithin maxBytes fuel [] = [] := by
  cases fuel <;> simp [spokenWithin, cutOf_nil]

theorem mem_cutPiece {maxBytes fuel : ℕ} {piece : Str} {character : UInt8} (h : character ≠ 32) :
    character ∈ (cutPiece maxBytes fuel piece).flatten ↔ character ∈ spokenWithin maxBytes fuel piece := by
  induction fuel generalizing piece with
  | zero => simp [cutPiece, spokenWithin]
  | succ fuel ih =>
    rw [cutPiece, spokenWithin]
    by_cases hnil : piece = []
    · simp [hnil, cutOf_nil]
    · rw [if_neg hnil]
      by_cases hzero : (cutOf maxBytes piece).1 = 0
      · simp [hzero]
      · dsimp only
        rw [if_neg hzero, if_neg hzero, List.flatten_cons, List.mem_append, List.mem_append, ih, List.take_add,
          List.mem_append]
        constructor
        · rintro (hfirst | hrest)
          · exact .inl (.inl hfirst)
          · exact .inr hrest
        · rintro ((hfirst | hskipped) | hrest)
          · exact .inl hfirst
          · exact absurd (mem_skipped hskipped) h
          · exact .inr hrest

theorem spoken_of_le {piece : Str} {maxBytes : ℕ} (h : piece.length ≤ maxBytes) : spoken maxBytes piece = piece := by
  cases piece with
  | nil => simp [spoken, spokenWithin_nil]
  | cons first rest => simp [spoken, spokenWithin, cutOf_of_le h, spokenWithin_nil]

theorem spokenWithin_subset (maxBytes fuel : ℕ) (piece : Str) : spokenWithin maxBytes fuel piece ⊆ piece := by
  induction fuel generalizing piece with
  | zero => simp [spokenWithin]
  | succ fuel ih =>
    intro character h
    rw [spokenWithin] at h
    split at h
    · simp at h
    · rcases List.mem_append.mp h with hfirst | hrest
      · exact List.mem_of_mem_take hfirst
      · exact List.mem_of_mem_drop (ih _ hrest)

/-- The bytes of some lines, but for the marks put between what they join. -/
theorem mem_addPiece {maxBytes : ℕ} {lines : List Str} {piece : Str} {character : UInt8}
    (h : character ∉ lineSeparator) :
    character ∈ (addPiece maxBytes lines piece).flatten ↔
      character ∈ lines.flatten ∨ character ∈ spoken maxBytes piece := by
  have hspace : character ≠ 32 := by
    rintro rfl
    exact h (by decide)
  have hcut : character ∈ (lines ++ cutPiece maxBytes piece.length piece).flatten ↔
      character ∈ lines.flatten ∨ character ∈ spoken maxBytes piece := by
    rw [List.flatten_append, List.mem_append, mem_cutPiece hspace, spoken]
  rw [addPiece]
  by_cases hnil : piece = []
  · simp [hnil, spoken, spokenWithin_nil]
  · rw [if_neg hnil]
    cases hlast : lines.getLast? with
    | none => exact hcut
    | some last =>
      dsimp only
      split_ifs with hfits
      · have hlines : lines = lines.dropLast ++ [last] := by
          rw [← List.dropLast_append_getLast? last hlast]
          simp
        rw [spoken_of_le (by omega)]
        conv_rhs => rw [hlines]
        simp only [List.flatten_append, List.flatten_cons, List.flatten_nil, List.append_nil, List.mem_append]
        constructor
        · rintro (hbefore | (hold | hmark) | hnew)
          · exact .inl (.inl hbefore)
          · exact .inl (.inr hold)
          · exact absurd hmark h
          · exact .inr hnew
        · rintro ((hbefore | hold) | hnew)
          · exact .inl hbefore
          · exact .inr (.inl (.inl hold))
          · exact .inr (.inr hnew)
      · exact hcut

theorem length_of_mem_addPiece {maxBytes : ℕ} {lines : List Str} {piece : Str}
    (h : ∀ line ∈ lines, line.length ≤ maxBytes) : ∀ line ∈ addPiece maxBytes lines piece, line.length ≤ maxBytes := by
  have hcut : ∀ line ∈ lines ++ cutPiece maxBytes piece.length piece, line.length ≤ maxBytes := by
    intro line hline
    rcases List.mem_append.mp hline with hold | hnew
    · exact h line hold
    · exact length_of_mem_cutPiece hnew
  rw [addPiece]
  by_cases hnil : piece = []
  · rwa [if_pos hnil]
  · rw [if_neg hnil]
    cases hlast : lines.getLast? with
    | none => exact hcut
    | some last =>
      dsimp only
      split_ifs with hfits
      · intro line hline
        rcases List.mem_append.mp hline with hold | hjoined
        · exact h line (List.mem_of_mem_dropLast hold)
        · rw [List.mem_singleton.mp hjoined]
          simp only [List.length_append]
          omega
      · exact hcut

theorem length_of_mem_splitText {text : Str} {maxBytes : ℕ} (h : 0 < maxBytes) :
    ∀ line ∈ splitText text maxBytes, line.length ≤ maxBytes := by
  have hmax : max maxBytes 1 = maxBytes := max_eq_left h
  rw [splitText, hmax]
  generalize piecesOf text = pieces
  suffices hmore : ∀ lines : List Str, (∀ line ∈ lines, line.length ≤ maxBytes) →
      ∀ line ∈ pieces.foldl (addPiece maxBytes) lines, line.length ≤ maxBytes by
    exact hmore [] (by simp)
  induction pieces with
  | nil => exact fun lines hlines => hlines
  | cons piece pieces ih => exact fun lines hlines => ih _ (length_of_mem_addPiece hlines)

theorem mem_splitText (text : Str) {maxBytes : ℕ} {character : UInt8} (hmax : 0 < maxBytes)
    (h : character ∉ lineSeparator) :
    character ∈ (splitText text maxBytes).flatten ↔
      ∃ piece ∈ piecesOf text, character ∈ spoken maxBytes piece := by
  have hone : max maxBytes 1 = maxBytes := max_eq_left hmax
  rw [splitText, hone]
  generalize piecesOf text = pieces
  suffices hmore : ∀ lines : List Str, character ∈ (pieces.foldl (addPiece maxBytes) lines).flatten ↔
      character ∈ lines.flatten ∨ ∃ piece ∈ pieces, character ∈ spoken maxBytes piece by
    simpa using hmore []
  induction pieces with
  | nil => simp
  | cons piece pieces ih =>
    intro lines
    rw [List.foldl_cons, ih, mem_addPiece h]
    simp only [List.mem_cons, exists_eq_or_imp, or_assoc]

theorem newline_not_mem_of_mem_splitOn {text piece : Str} (h : piece ∈ text.splitOn 10) : 10 ∉ piece := by
  induction text generalizing piece with
  | nil => simp_all [List.splitOn_nil]
  | cons first text ih =>
    rw [List.splitOn_cons_eq_if_modifyHead] at h
    split at h
    · rcases List.mem_cons.mp h with rfl | hrest
      · simp
      · exact ih hrest
    · rename_i hfirst
      obtain ⟨piece', pieces, hpieces⟩ := List.exists_cons_of_ne_nil (List.splitOn_ne_nil 10 text)
      rw [hpieces, List.modifyHead_cons] at h
      rcases List.mem_cons.mp h with rfl | hrest
      · have hpiece' : 10 ∉ piece' := ih (hpieces ▸ List.mem_cons_self)
        simp only [List.mem_cons, not_or]
        exact ⟨fun heq => hfirst (by simp [← heq]), hpiece'⟩
      · exact ih (hpieces ▸ List.mem_cons_of_mem _ hrest)

theorem newline_not_mem_of_mem_piecesOf {text piece : Str} (h : piece ∈ piecesOf text) : 10 ∉ piece := by
  rw [piecesOf, List.mem_map] at h
  obtain ⟨line, hline, rfl⟩ := h
  exact fun hmem => newline_not_mem_of_mem_splitOn hline ((List.rdropWhile_prefix _ line).subset hmem)

theorem cutBack_eq_zero {text : Str} {cut : ℕ} (h : cutBack text cut = 0) :
    ∀ index, 0 < index → index ≤ cut → isContinuation (text.getD index 0) = true := by
  induction cut with
  | zero =>
    intro index hpos hle
    omega
  | succ cut ih =>
    rw [cutBack] at h
    split at h
    · rename_i hback
      intro index hpos hle
      by_cases hlast : index = cut + 1
      · exact hlast ▸ hback.2
      · exact ih h index hpos (by omega)
    · omega

/-- Nothing of a line is dropped unless a whole message of it would be continuation bytes. -/
theorem cutOf_pos {maxBytes : ℕ} {piece : Str} (hnil : piece ≠ [])
    (hrun : ∀ run : Str, run.length = maxBytes → run <:+: piece → ∃ character ∈ run, isContinuation character = false) :
    0 < (cutOf maxBytes piece).1 := by
  have hlength := List.length_pos_iff.mpr hnil
  have hbound : 0 < boundaryBefore piece maxBytes := by
    rw [Nat.pos_iff_ne_zero]
    intro hzero
    by_cases hfits : piece.length ≤ maxBytes
    · rw [boundaryBefore_of_le hfits] at hzero
      omega
    · rw [boundaryBefore, min_eq_left (by omega)] at hzero
      have hall := cutBack_eq_zero hzero
      obtain ⟨character, hmem, hnot⟩ := hrun ((piece.drop 1).take maxBytes)
        (by rw [List.length_take, List.length_drop]; omega)
        ((List.take_prefix _ _).isInfix.trans (List.drop_suffix _ _).isInfix)
      obtain ⟨index, hindex, rfl⟩ := List.getElem_of_mem hmem
      rw [List.length_take, List.length_drop] at hindex
      have hyes := hall (1 + index) (by omega) (by omega)
      rw [List.getElem_take, List.getElem_drop] at hnot
      rw [List.getD_eq_getElem?_getD, List.getElem?_eq_getElem (by omega), Option.getD_some, hnot] at hyes
      cases hyes
  simp only [cutOf]
  split_ifs with hshort
  · split
    · split_ifs with hhalf
      · dsimp only
        omega
      · exact hbound
    · exact hbound
  · exact hbound

/-- The channel and the mark are plain words, and the mark leaves room for a text. -/
structure SessionConfig.Plain (config : SessionConfig) : Prop where
  channel : 13 ∉ config.channel ∧ 10 ∉ config.channel ∧ 32 ∉ config.channel
  noForwardPrefix : 13 ∉ config.noForwardPrefix ∧ 10 ∉ config.noForwardPrefix ∧ 32 ∉ config.noForwardPrefix
  short : config.noForwardPrefix.length < maxTextBytes

/-- One message to the channel: nothing in it ends a line before its own end, and its text fits. -/
def IsOneLine (config : SessionConfig) (line : Str) : Prop :=
  ∃ part, line = utf8 "PRIVMSG " ++ config.channel ++ utf8 " :" ++ config.noForwardPrefix ++ part ++ [13, 10] ∧
    13 ∉ utf8 "PRIVMSG " ++ config.channel ++ utf8 " :" ++ config.noForwardPrefix ++ part ∧
    10 ∉ utf8 "PRIVMSG " ++ config.channel ++ utf8 " :" ++ config.noForwardPrefix ++ part ∧
    (config.noForwardPrefix ++ part).length ≤ maxTextBytes

theorem commandLine_privmsg (channel text : Str) :
    commandLine (utf8 "PRIVMSG") [channel] (some text) =
      utf8 "PRIVMSG " ++ channel ++ utf8 " :" ++ text ++ [13, 10] := by
  have hword : utf8 "PRIVMSG " = utf8 "PRIVMSG" ++ utf8 " " := by decide
  simp [commandLine, hword]

theorem roomFor_eq {config : SessionConfig} (h : config.noForwardPrefix.length ≤ maxTextBytes) :
    roomFor config = maxTextBytes - config.noForwardPrefix.length := by
  rw [maxTextBytes] at h
  rw [roomFor, maxTextBytes]
  omega

/-- One part of a text, once it is marked, is one line if it has neither end of line in it. -/
theorem isOneLine_iff {config : SessionConfig} (hplain : config.Plain) {part : Str}
    (hfits : part.length ≤ roomFor config) :
    IsOneLine config (commandLine (utf8 "PRIVMSG") [config.channel] (some (config.noForwardPrefix ++ part))) ↔
      13 ∉ part ∧ 10 ∉ part := by
  have hroom := roomFor_eq hplain.short.le
  have hshort := hplain.short
  rw [commandLine_privmsg]
  constructor
  · rintro ⟨other, hsame, hreturn, hnewline, -⟩
    have hparts : part = other := by simpa using hsame
    subst hparts
    exact ⟨fun hmem => hreturn (List.mem_append_right _ hmem), fun hmem => hnewline (List.mem_append_right _ hmem)⟩
  · rintro ⟨hreturn, hnewline⟩
    have hcommand : 13 ∉ utf8 "PRIVMSG " ∧ 10 ∉ utf8 "PRIVMSG " := by decide
    have hcolon : 13 ∉ utf8 " :" ∧ 10 ∉ utf8 " :" := by decide
    refine ⟨part, by simp, ?_, ?_, by rw [List.length_append]; omega⟩
    · simp only [List.mem_append, not_or]
      exact ⟨⟨⟨⟨hcommand.1, hplain.channel.1⟩, hcolon.1⟩, hplain.noForwardPrefix.1⟩, hreturn⟩
    · simp only [List.mem_append, not_or]
      exact ⟨⟨⟨⟨hcommand.2, hplain.channel.2.1⟩, hcolon.2⟩, hplain.noForwardPrefix.2.1⟩, hnewline⟩

/-- What is said is one line a message exactly when no carriage return of it is said. -/
theorem say_oneLine {config : SessionConfig} (hplain : config.Plain) (text : Str) :
    (∀ line ∈ say config text, IsOneLine config line) ↔ ∀ piece ∈ piecesOf text, 13 ∉ spoken (roomFor config) piece := by
  have hpos : 0 < roomFor config := by
    rw [roomFor_eq hplain.short.le]
    exact Nat.sub_pos_of_lt hplain.short
  have hreturn := mem_splitText text hpos (show 13 ∉ lineSeparator by decide)
  have hnewline := mem_splitText text hpos (show 10 ∉ lineSeparator by decide)
  have hnone : 10 ∉ (splitText text (roomFor config)).flatten := by
    rw [hnewline]
    rintro ⟨piece, hpiece, hmem⟩
    exact newline_not_mem_of_mem_piecesOf hpiece (spokenWithin_subset _ _ _ hmem)
  have hparts : (∀ line ∈ say config text, IsOneLine config line) ↔ ∀ part ∈ splitText text (roomFor config), 13 ∉ part := by
    simp only [say, List.mem_map, forall_exists_index, and_imp, forall_apply_eq_imp_iff₂]
    refine forall₂_congr fun part hpart => ?_
    rw [isOneLine_iff hplain (length_of_mem_splitText hpos part hpart)]
    exact and_iff_left fun hmem => hnone (List.mem_flatten_of_mem hpart hmem)
  rw [hparts]
  have hflat : (∀ part ∈ splitText text (roomFor config), 13 ∉ part) ↔
      13 ∉ (splitText text (roomFor config)).flatten := by
    simp only [List.mem_flatten, not_exists, not_and]
  rw [hflat, hreturn]
  simp only [not_exists, not_and]

/-- Everything the bot says, of its own accord or in answer to a command, is one line a message exactly
when every carriage return of the text stands at the end of a line, or where a line is given up. -/
theorem spoken_lines {config : SessionConfig} (hplain : config.Plain) (text : Str) :
    ((∀ line ∈ announce config text, IsOneLine config line) ↔
        ∀ piece ∈ piecesOf text, 13 ∉ spoken (roomFor config) piece) ∧
      ∀ (ρ : Type) (responder : Responder ρ) (call : Call) (memory memory' : ρ),
        responder call memory = (some text, memory') →
        ((∀ line ∈ (linesOf config responder memory (.answer call)).1, IsOneLine config line) ↔
          ∀ piece ∈ piecesOf text, 13 ∉ spoken (roomFor config) piece) := by
  refine ⟨say_oneLine hplain text, ?_⟩
  intro ρ responder call memory memory' hreply
  rw [linesOf, hreply]
  exact say_oneLine hplain text

def plainConfig : SessionConfig := { nick := utf8 "bot", channel := utf8 "#regno", noForwardPrefix := [0xE2, 0x80, 0x8B] }

theorem plainConfig_plain : plainConfig.Plain where
  channel := by decide
  noForwardPrefix := by decide
  short := by decide

theorem spoken_lines_plain :
    plainConfig.Plain ∧ ∀ line ∈ announce plainConfig (utf8 "ciao\r\nQUIT"), IsOneLine plainConfig line :=
  ⟨plainConfig_plain, (spoken_lines plainConfig_plain _).1.mpr (by decide +kernel)⟩

/-- A carriage return in the middle of a line ends the message there. -/
theorem return_within_a_line :
    plainConfig.Plain ∧ ∃ line ∈ announce plainConfig (utf8 "ciao\rQUIT"), ¬ IsOneLine plainConfig line := by
  refine ⟨plainConfig_plain, ?_⟩
  by_contra hnone
  push Not at hnone
  exact absurd ((say_oneLine plainConfig_plain _).mp hnone) (by decide +kernel)

end NorelecBot.Irc
