import NorelecBot.Irc.OneLine
import NorelecBot.Irc.Parsing
import NorelecBot.Lib.Utf8

/-! # Nothing of a reply is lost

A valid text comes out in lines that fit, each valid, with the same letters in the
same order; only blanks and the dots between lines come and go.
-/

namespace NorelecBot.Irc

open Lib.Utf8

/-- What may be left out or put in where a line is cut or joined: a space or the end of a line. -/
def isBlank (byte : UInt8) : Bool := byte = 32 || endsLine byte

/-- The bytes without blanks and middle dots. -/
def bare : Str → Str
  | [] => []
  | [byte] => if isBlank byte then [] else [byte]
  | byte :: next :: rest =>
    if byte = 0xC2 ∧ next = 0xB7 then bare rest
    else if isBlank byte then bare (next :: rest)
    else byte :: bare (next :: rest)

theorem continues_iff (byte : UInt8) : Continues byte ↔ isContinuation byte = true := by
  rw [Continues, isContinuation, Bool.and_eq_true, decide_eq_true_eq, decide_eq_true_eq,
    UInt8.le_iff_toNat_le, UInt8.le_iff_toNat_le]
  rfl

theorem blank_small {byte : UInt8} (h : isBlank byte) : byte.toNat < 0x80 := by
  simp only [isBlank, endsLine, Bool.or_eq_true, decide_eq_true_eq] at h
  rcases h with rfl | rfl | rfl <;> decide

theorem bare_cons {byte : UInt8} (rest : Str) (h : byte ≠ 0xC2) :
    bare (byte :: rest) = (if isBlank byte then [] else [byte]) ++ bare rest := by
  cases rest with
  | nil => simp [bare]
  | cons next rest =>
    rw [bare, if_neg fun hc => h hc.1]
    by_cases hblank : isBlank byte <;> simp [hblank]

theorem not_blank {byte : UInt8} (h : 0x80 ≤ byte.toNat) : ¬ isBlank byte := by
  intro hblank
  have hsmall := blank_small hblank
  omega

theorem bare_continues {byte : UInt8} (h : Continues byte) (rest : Str) : bare (byte :: rest) = byte :: bare rest := by
  rw [Continues] at h
  have hlead : byte ≠ 0xC2 := by
    rintro rfl
    exact absurd h.2 (by decide)
  rw [bare_cons rest hlead, if_neg (not_blank h.1)]
  rfl

theorem bare_lead {lead : UInt8} (h : 0xE0 ≤ lead.toNat) (rest : Str) : bare (lead :: rest) = lead :: bare rest := by
  have hlead : lead ≠ 0xC2 := by
    rintro rfl
    exact absurd h (by decide)
  rw [bare_cons rest hlead, if_neg (not_blank (by omega))]
  rfl

/-- A character is left out or kept whole, whatever follows it. -/
theorem bare_letter {letter : Str} (h : Shape letter) (rest : Str) : bare (letter ++ rest) = bare letter ++ bare rest := by
  cases h with
  | small byte hsmall =>
    have hlead : byte ≠ 0xC2 := by
      rintro rfl
      exact absurd hsmall (by decide)
    rw [List.singleton_append, bare_cons rest hlead]
    rfl
  | two lead second hlead hsecond =>
    simp only [List.cons_append, List.nil_append]
    rw [bare, bare]
    by_cases hdot : lead = 0xC2 ∧ second = 0xB7
    · rw [if_pos hdot, if_pos hdot]
      rfl
    · rw [if_neg hdot, if_neg hdot, if_neg (not_blank (by omega)), if_neg (not_blank (by omega)),
        bare_continues hsecond, bare_continues hsecond]
      rfl
  | three lead second third hlead hsecond hthird =>
    simp only [List.cons_append, List.nil_append, bare_lead hlead, bare_continues hsecond, bare_continues hthird]
    rfl
  | four lead second third fourth hlead hsecond hthird hfourth =>
    simp only [List.cons_append, List.nil_append, bare_lead hlead, bare_continues hsecond, bare_continues hthird,
      bare_continues hfourth]
    rfl

theorem bare_append {before : Str} (h : Valid before) (after : Str) : bare (before ++ after) = bare before ++ bare after := by
  induction h using Valid.letters with
  | nil => rfl
  | cons letter rest hshape _ _ ih =>
    rw [List.append_assoc, bare_letter hshape, ih, bare_letter hshape, List.append_assoc]

theorem bare_of_blank {text : Str} (h : ∀ byte ∈ text, isBlank byte) : bare text = [] := by
  induction text with
  | nil => rfl
  | cons byte text ih =>
    have hbyte := h byte List.mem_cons_self
    have hlead : byte ≠ 0xC2 := by
      rintro rfl
      exact absurd hbyte (by decide)
    rw [bare_cons text hlead, if_pos hbyte, ih fun other hother => h other (List.mem_cons_of_mem byte hother)]
    rfl

theorem bare_lineSeparator : bare lineSeparator = [] := by decide

theorem valid_utf8 (literal : String) : Valid (utf8 literal) := valid_iff.mpr ⟨literal.toList, rfl⟩

/-- A cut is at the front, or before no continuation byte. -/
theorem cutBack_start (text : Str) (cut : ℕ) :
    cutBack text cut = 0 ∨ ∀ byte ∈ text[cutBack text cut]?, ¬ Continues byte := by
  induction cut with
  | zero => exact .inl rfl
  | succ cut ih =>
    rw [cutBack]
    by_cases hback : cut + 1 < text.length ∧ isContinuation (text.getD (cut + 1) 0)
    · rw [if_pos hback]
      exact ih
    · rw [if_neg hback]
      right
      intro byte hbyte hcontinues
      obtain ⟨hlt, rfl⟩ := List.getElem?_eq_some_iff.mp hbyte
      apply hback
      rw [List.getD_eq_getElem?_getD, List.getElem?_eq_getElem hlt]
      exact ⟨hlt, (continues_iff _).mp hcontinues⟩

/-- Where a valid piece is cut: never inside a character, and at a space when a byte is left out. -/
theorem cutOf_valid {piece : Str} (hpiece : Valid piece) (maxBytes : ℕ) :
    ∀ byte ∈ piece[(cutOf maxBytes piece).1]?, ¬ Continues byte := by
  have hbound : ∀ byte ∈ piece[boundaryBefore piece maxBytes]?, ¬ Continues byte := by
    rcases cutBack_start piece (min maxBytes piece.length) with hzero | hstart
    · rw [boundaryBefore, hzero, ← List.head?_eq_getElem?]
      exact hpiece.head
    · exact hstart
  rw [cutOf]
  split_ifs with hshort
  · split
    · rename_i space hspace
      split_ifs with hhalf
      · have hat := (spaceBefore_some hspace).2
        intro byte hbyte
        rw [List.getD_eq_getElem?_getD, Option.mem_def.mp hbyte, Option.getD_some] at hat
        subst hat
        exact fun h => absurd h.1 (by decide)
      · exact hbound
    · exact hbound
  · exact hbound

/-- There is always room for a character. -/
theorem cutOf_pos_of_valid {piece : Str} (hpiece : Valid piece) {maxBytes : ℕ} (hmax : 4 ≤ maxBytes) (hnil : piece ≠ []) :
    0 < (cutOf maxBytes piece).1 := by
  apply cutOf_pos hnil
  rintro run hlength ⟨before, after, rfl⟩
  obtain ⟨place, hle, hlt, hstart⟩ := @Valid.exists_start _ hpiece before.length (by simp; omega)
  have hin : place - before.length < run.length := by omega
  refine ⟨run[place - before.length], List.getElem_mem hin, ?_⟩
  rw [Bool.eq_false_iff, ne_eq, ← continues_iff]
  apply hstart
  rw [List.append_assoc, List.getElem?_append_right hle, List.getElem?_append_left hin, List.getElem?_eq_getElem hin]
  rfl

/-- Once round the loop of a piece: a line of it, and what is left after the byte left out. -/
theorem cutOf_round {piece : Str} (hpiece : Valid piece) {maxBytes : ℕ} (hmax : 4 ≤ maxBytes) (hnil : piece ≠ []) :
    piece.take (cutOf maxBytes piece).1 ≠ [] ∧ Valid (piece.take (cutOf maxBytes piece).1) ∧
      Valid (piece.drop ((cutOf maxBytes piece).1 + (cutOf maxBytes piece).2)) ∧
      bare piece = bare (piece.take (cutOf maxBytes piece).1) ++
        bare (piece.drop ((cutOf maxBytes piece).1 + (cutOf maxBytes piece).2)) := by
  have hpos := cutOf_pos_of_valid hpiece hmax hnil
  have hskip := (cutOf_spec maxBytes piece).2
  obtain ⟨htake, hdrop⟩ := hpiece.cut (cutOf_valid hpiece maxBytes)
  have hwhole := bare_append htake (piece.drop (cutOf maxBytes piece).1)
  rw [List.take_append_drop] at hwhole
  revert hpos hskip htake hdrop hwhole
  generalize cutOf maxBytes piece = place
  intro hpos hskip htake hdrop hwhole
  refine ⟨by simp [hnil]; omega, htake, ?_⟩
  rcases hskip with hnone | ⟨hone, hspace⟩
  · rw [hnone, Nat.add_zero]
    exact ⟨hdrop, hwhole⟩
  · have hin : place.1 < piece.length := by
      by_contra hout
      rw [List.getD_eq_getElem?_getD, List.getElem?_eq_none (by omega)] at hspace
      cases hspace
    rw [List.getD_eq_getElem?_getD, List.getElem?_eq_getElem hin, Option.getD_some] at hspace
    rw [List.drop_eq_getElem_cons hin, hspace] at hdrop hwhole
    rw [hone]
    rw [bare_cons _ (by decide), if_pos (by decide), List.nil_append] at hwhole
    exact ⟨hdrop.tail (by decide), hwhole⟩

theorem cutPiece_valid {maxBytes : ℕ} (hmax : 4 ≤ maxBytes) {fuel : ℕ} {piece : Str} (hpiece : Valid piece)
    (hfuel : piece.length ≤ fuel) :
    (∀ line ∈ cutPiece maxBytes fuel piece, line ≠ [] ∧ Valid line) ∧
      bare (cutPiece maxBytes fuel piece).flatten = bare piece := by
  induction fuel generalizing piece with
  | zero =>
    rw [List.eq_nil_of_length_eq_zero (Nat.le_zero.mp hfuel)]
    simp [cutPiece]
  | succ fuel ih =>
    by_cases hnil : piece = []
    · rw [hnil]
      simp [cutPiece]
    · have hpos := cutOf_pos_of_valid hpiece hmax hnil
      obtain ⟨hline, htake, hdrop, hwhole⟩ := cutOf_round hpiece hmax hnil
      have hlength := List.length_pos_iff.mpr hnil
      obtain ⟨hlines, hbare⟩ := ih hdrop (by rw [List.length_drop]; omega)
      have hcut : cutPiece maxBytes (fuel + 1) piece = piece.take (cutOf maxBytes piece).1 ::
          cutPiece maxBytes fuel (piece.drop ((cutOf maxBytes piece).1 + (cutOf maxBytes piece).2)) := by
        rw [cutPiece, if_neg hnil]
        dsimp only
        rw [if_neg (Nat.pos_iff_ne_zero.mp hpos)]
      rw [hcut]
      constructor
      · intro line hmem
        rcases List.mem_cons.mp hmem with rfl | hmem
        · exact ⟨hline, htake⟩
        · exact hlines line hmem
      · rw [List.flatten_cons, bare_append htake, hbare, ← hwhole]

/-- The loop of a piece is over within as many rounds as it has bytes. -/
theorem cutPiece_fuel {maxBytes fuel : ℕ} {piece : Str} (hfuel : piece.length ≤ fuel) :
    cutPiece maxBytes fuel piece = cutPiece maxBytes piece.length piece := by
  induction fuel using Nat.strong_induction_on generalizing piece with
  | _ fuel ih =>
    by_cases hnil : piece = []
    · subst hnil
      cases fuel <;> simp [cutPiece]
    · have hlength := List.length_pos_iff.mpr hnil
      obtain ⟨fuel, rfl⟩ := Nat.exists_eq_succ_of_ne_zero (show fuel ≠ 0 by omega)
      obtain ⟨length, hlen⟩ := Nat.exists_eq_succ_of_ne_zero (show piece.length ≠ 0 by omega)
      rw [hlen, Nat.succ_eq_add_one, cutPiece, cutPiece, if_neg hnil, if_neg hnil]
      dsimp only
      by_cases hzero : (cutOf maxBytes piece).1 = 0
      · rw [if_pos hzero, if_pos hzero]
      · have hless : (piece.drop ((cutOf maxBytes piece).1 + (cutOf maxBytes piece).2)).length ≤ length := by
          rw [List.length_drop]
          omega
        rw [if_neg hzero, if_neg hzero, ih fuel (by omega) (by omega), ih length (by omega) hless]

theorem valid_of_intercalate {pieces : List Str} (h : Valid ([10].intercalate pieces)) :
    (∀ piece ∈ pieces, Valid piece) ∧ bare ([10].intercalate pieces) = bare pieces.flatten := by
  induction pieces with
  | nil => simp
  | cons piece pieces ih =>
    cases pieces with
    | nil =>
      rw [List.intercalate_singleton] at h
      simpa using h
    | cons next pieces =>
      rw [List.intercalate_cons_cons, List.append_assoc] at h ⊢
      obtain ⟨hpiece, hrest⟩ := Valid.of_append h (by
        intro byte hbyte
        simp at hbyte
        subst hbyte
        exact fun hc => absurd hc.1 (by decide))
      obtain ⟨hpieces, hbare⟩ := ih (hrest.tail (by decide))
      constructor
      · intro other hother
        rcases List.mem_cons.mp hother with rfl | hother
        · exact hpiece
        · exact hpieces other hother
      · rw [bare_append hpiece, List.singleton_append, bare_cons _ (by decide), if_pos (by decide),
          List.nil_append, hbare, ← bare_append hpiece]
        rfl

/-- The end of a line without its carriage returns. -/
theorem valid_rdropWhile {piece : Str} (h : Valid piece) :
    Valid (piece.rdropWhile (· = 13)) ∧ bare (piece.rdropWhile (· = 13)) = bare piece := by
  induction piece using List.reverseRecOn with
  | nil => exact ⟨h, rfl⟩
  | append_singleton piece byte ih =>
    by_cases hreturn : byte = 13
    · subst hreturn
      obtain ⟨hpiece, -⟩ := Valid.of_append h (by
        intro byte hbyte
        simp at hbyte
        subst hbyte
        exact fun hc => absurd hc.1 (by decide))
      rw [List.rdropWhile_concat_pos _ _ _ (by decide), bare_append hpiece, @bare_of_blank [13] (by decide +kernel),
        List.append_nil]
      exact ih hpiece
    · rw [List.rdropWhile_concat_neg _ _ _ (by simpa using hreturn)]
      exact ⟨h, rfl⟩

theorem valid_piecesOf {text : Str} (h : Valid text) :
    (∀ piece ∈ piecesOf text, Valid piece) ∧ bare (piecesOf text).flatten = bare text := by
  obtain ⟨hpieces, hbare⟩ := @valid_of_intercalate (text.splitOn 10) (by rwa [List.intercalate_splitOn])
  rw [List.intercalate_splitOn] at hbare
  rw [hbare, piecesOf]
  clear hbare h
  generalize text.splitOn 10 = pieces at hpieces
  induction pieces with
  | nil => simp
  | cons piece pieces ih =>
    obtain ⟨hrest, hbare⟩ := ih fun other hother => hpieces other (List.mem_cons_of_mem piece hother)
    have hpiece := hpieces piece List.mem_cons_self
    obtain ⟨hline, hsame⟩ := valid_rdropWhile hpiece
    constructor
    · intro other hother
      rw [List.map_cons] at hother
      rcases List.mem_cons.mp hother with rfl | hother
      · exact hline
      · exact hrest other hother
    · rw [List.map_cons, List.flatten_cons, List.flatten_cons, bare_append hline, bare_append hpiece, hsame, hbare]

theorem valid_flatten {lines : List Str} (h : ∀ line ∈ lines, Valid line) : Valid lines.flatten := by
  induction lines with
  | nil => exact valid_nil
  | cons line lines ih =>
    exact (h line List.mem_cons_self).append (ih fun other hother => h other (List.mem_cons_of_mem line hother))

theorem addPiece_valid {maxBytes : ℕ} (hmax : 4 ≤ maxBytes) {lines : List Str}
    (hlines : ∀ line ∈ lines, line ≠ [] ∧ Valid line) {piece : Str} (hpiece : Valid piece) :
    (∀ line ∈ addPiece maxBytes lines piece, line ≠ [] ∧ Valid line) ∧
      bare (addPiece maxBytes lines piece).flatten = bare lines.flatten ++ bare piece := by
  obtain ⟨hcut, hbare⟩ := cutPiece_valid hmax hpiece le_rfl
  have hall := valid_flatten fun line hline => (hlines line hline).2
  have hown : (∀ line ∈ lines ++ cutPiece maxBytes piece.length piece, line ≠ [] ∧ Valid line) ∧
      bare (lines ++ cutPiece maxBytes piece.length piece).flatten = bare lines.flatten ++ bare piece := by
    constructor
    · intro line hline
      rcases List.mem_append.mp hline with hline | hline
      · exact hlines line hline
      · exact hcut line hline
    · rw [List.flatten_append, bare_append hall, hbare]
  by_cases hnil : piece = []
  · rw [addPiece, if_pos hnil, hnil]
    exact ⟨hlines, by simp [bare]⟩
  · rw [addPiece, if_neg hnil]
    split
    · exact hown
    · rename_i last hlast
      have hmem := hlines last (List.mem_of_getLast? hlast)
      split_ifs with hfits
      · have hstart : Valid (last ++ lineSeparator) := hmem.2.append (valid_utf8 _)
        obtain ⟨others, rfl⟩ : ∃ others, lines = others ++ [last] :=
          ⟨lines.dropLast, (List.dropLast_append_getLast? last hlast).symm⟩
        have hothers := valid_flatten fun line (hline : line ∈ others) =>
          (hlines line (List.mem_append_left [last] hline)).2
        rw [List.dropLast_concat]
        constructor
        · intro line hline
          rcases List.mem_append.mp hline with hline | hline
          · exact hlines line (List.mem_append_left [last] hline)
          · rw [List.mem_singleton.mp hline]
            exact ⟨by simp [hmem.1], hstart.append hpiece⟩
        · rw [List.flatten_append, List.flatten_append, bare_append hothers, bare_append hothers]
          simp only [List.flatten_cons, List.flatten_nil, List.append_nil]
          rw [bare_append hstart, bare_append hmem.2, bare_lineSeparator, List.append_nil,
            List.append_assoc]
      · exact hown

/-- A reply comes out whole: in lines that fit, each valid, the same bytes but for the blanks and dots
where it is cut and joined. -/
theorem split_loses_nothing {text : Str} {maxBytes : ℕ} (hvalid : Valid text) (hmax : 4 ≤ maxBytes) :
    (∀ piece fuel, piece.length ≤ fuel → cutPiece maxBytes fuel piece = cutPiece maxBytes piece.length piece) ∧
    (∀ line ∈ splitText text maxBytes, line ≠ [] ∧ line.length ≤ maxBytes ∧ Valid line) ∧
    bare (splitText text maxBytes).flatten = bare text := by
  have hpieces := valid_piecesOf hvalid
  have hrun : ∀ pieces lines : List Str, (∀ piece ∈ pieces, Valid piece) →
      (∀ line ∈ lines, line ≠ [] ∧ Valid line) →
      (∀ line ∈ pieces.foldl (addPiece maxBytes) lines, line ≠ [] ∧ Valid line) ∧
        bare (pieces.foldl (addPiece maxBytes) lines).flatten = bare lines.flatten ++ bare pieces.flatten := by
    intro pieces
    induction pieces with
    | nil =>
      intro lines _ hlines
      exact ⟨hlines, by simp [bare]⟩
    | cons piece pieces ih =>
      intro lines hall hlines
      have hpiece := hall piece List.mem_cons_self
      obtain ⟨hadded, hbare⟩ := addPiece_valid hmax hlines hpiece
      obtain ⟨hrest, hwhole⟩ := ih _ (fun other hother => hall other (List.mem_cons_of_mem piece hother)) hadded
      refine ⟨hrest, ?_⟩
      rw [List.foldl_cons, hwhole, hbare, List.flatten_cons, bare_append hpiece, List.append_assoc]
  obtain ⟨hlines, hbare⟩ := hrun (piecesOf text) [] hpieces.1 (by simp)
  have hone : max maxBytes 1 = maxBytes := max_eq_left (by omega)
  refine ⟨fun piece fuel => cutPiece_fuel, fun line hline => ?_, ?_⟩
  · have hlength := length_of_mem_splitText (by omega) line hline
    rw [splitText, hone] at hline
    exact ⟨(hlines line hline).1, hlength, (hlines line hline).2⟩
  · rw [splitText, hone, hbare, hpieces.2]
    rfl

/-- Two lines of it joined, and one with no room for its second character cut before it. -/
theorem split_loses_nothing_small :
    bare (splitText (utf8 "a\r\nbàé\n€") 6).flatten = utf8 "abàé€" :=
  (split_loses_nothing (valid_utf8 _) (by decide)).2.2.trans (by decide +kernel)

end NorelecBot.Irc
