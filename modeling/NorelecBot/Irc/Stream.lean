import NorelecBot.Irc.Parsing
import NorelecBot.Lib.Lines
import Mathlib.Data.List.Forall2

/-! # Reading the stream

What a connection makes of the reads it gets: the lines that end in them, and a
pending rest that is thrown away when it grows too long to be a line.
-/

namespace NorelecBot.Irc

open Lib

/-- Twice the 512 byte line limit: anything longer is not a line the server could have sent. -/
def maxPendingBytes : ℕ := 1024

def readBufferSize : ℕ := 4096

/-- `consume`: the lines taken out of what is pending, and what stays pending. The fuel is its
length and one more. -/
def consumeLoop : ℕ → Str → List Str × Str
  | 0, pending => ([], pending)
  | fuel + 1, pending =>
    if 10 ∈ pending then
      let line := pending.takeWhile (· ≠ 10)
      let (lines, rest) := consumeLoop fuel (pending.drop (line.length + 1))
      (line :: lines, rest)
    else ([], if pending.length > maxPendingBytes then [] else pending)

def consume (pending : Str) : List Str × Str := consumeLoop (pending.length + 1) pending

/-- The lines taken out over several reads, and what is pending after them. -/
def pump (pending : Str) : List Str → List Str × Str
  | [] => ([], pending)
  | read :: reads =>
    let (lines, pending) := consume (pending ++ read)
    let (more, pending) := pump pending reads
    (lines ++ more, pending)

/-- The lines handed to the parser by a connection that gets these reads. -/
def linesRead (reads : List Str) : List Str := (pump [] reads).1

/-- The messages handed to the session by a connection that gets these reads. -/
def handled (reads : List Str) : List Message := (linesRead reads).filterMap parse

structure Cutting (stream : Str) (reads : List Str) : Prop where
  whole : reads.flatten = stream
  filled : ∀ read ∈ reads, read ≠ []
  fits : ∀ read ∈ reads, read.length ≤ readBufferSize

/-- The lines of the stream itself, however it comes. -/
def streamLines (stream : Str) : List Str := (Lines.cut 10 stream).1

/-- What may be left of a line: all of it, or what follows a discarded part; never more than a full
pending buffer and a read. -/
def Leftover (line rest : Str) : Prop :=
  ∃ discarded, (discarded = 0 ∨ maxPendingBytes < discarded) ∧ discarded ≤ line.length ∧
    line.length < discarded + maxPendingBytes + readBufferSize ∧ rest = line.drop discarded

def kept (tail : Str) : Str := if tail.length > maxPendingBytes then [] else tail

theorem consumeLoop_eq {fuel : ℕ} {pending : Str} (hfuel : pending.length < fuel) :
    consumeLoop fuel pending = ((Lines.cut 10 pending).1, kept (Lines.cut 10 pending).2) := by
  induction fuel generalizing pending with
  | zero => omega
  | succ fuel ih =>
    rw [consumeLoop]
    by_cases hmark : 10 ∈ pending
    · obtain ⟨line, rest, rfl, hline⟩ := List.eq_append_cons_of_mem hmark
      have htake : (line ++ 10 :: rest).takeWhile (fun byte => decide (byte ≠ 10)) = line := by
        have hall : ∀ byte ∈ line, decide (byte ≠ 10) = true := by
          intro byte hbyte
          rw [decide_eq_true_eq]
          rintro rfl
          exact hline hbyte
        rw [List.takeWhile_append_of_pos hall]
        simp
      have hdrop : (line ++ 10 :: rest).drop (line.length + 1) = rest := by
        rw [← List.drop_drop, List.drop_left, List.drop_one, List.tail_cons]
      rw [List.length_append, List.length_cons] at hfuel
      rw [if_pos hmark, htake]
      dsimp only
      rw [hdrop, Lines.cut_line hline, ih (by omega)]
    · rw [if_neg hmark, Lines.cut_of_not_mem hmark]
      rfl

theorem consume_eq (pending : Str) : consume pending = ((Lines.cut 10 pending).1, kept (Lines.cut 10 pending).2) :=
  consumeLoop_eq (Nat.lt_succ_self _)

theorem pump_cons (pending read : Str) (reads : List Str) :
    pump pending (read :: reads) =
      ((consume (pending ++ read)).1 ++ (pump (consume (pending ++ read)).2 reads).1,
        (pump (consume (pending ++ read)).2 reads).2) := rfl

theorem pump_append (pending : Str) (before after : List Str) :
    pump pending (before ++ after) =
      ((pump pending before).1 ++ (pump (pump pending before).2 after).1, (pump (pump pending before).2 after).2) := by
  induction before generalizing pending with
  | nil => rfl
  | cons read before ih => rw [List.cons_append, pump_cons, ih, pump_cons, List.append_assoc]

/-- What is pending of an unfinished line: it never fills the buffer. -/
def Unfinished (tail pending : Str) : Prop :=
  ∃ discarded, (discarded = 0 ∨ maxPendingBytes < discarded) ∧ discarded ≤ tail.length ∧
    tail.length ≤ discarded + maxPendingBytes ∧ pending = tail.drop discarded

theorem unfinished_nil : Unfinished [] [] := ⟨0, .inl rfl, le_rfl, by simp, rfl⟩

theorem Leftover.of_short {line : Str} (h : line.length < maxPendingBytes + readBufferSize) : Leftover line line :=
  ⟨0, .inl rfl, by omega, by omega, rfl⟩

theorem unfinished_kept {tail pending : Str} (h : Unfinished tail pending) (more : Str) :
    Unfinished (tail ++ more) (kept (pending ++ more)) := by
  obtain ⟨discarded, hdiscarded, hle, hfits, rfl⟩ := h
  have hrest : tail.drop discarded ++ more = (tail ++ more).drop discarded := by
    rw [List.drop_append_of_le_length hle]
  rw [hrest, kept, List.length_drop, List.length_append]
  by_cases hlong : tail.length + more.length - discarded > maxPendingBytes
  · rw [if_pos hlong]
    refine ⟨(tail ++ more).length, ?_, le_rfl, by omega, by simp⟩
    right
    rw [List.length_append]
    omega
  · rw [if_neg hlong]
    refine ⟨discarded, hdiscarded, ?_, ?_, rfl⟩
    · rw [List.length_append]
      omega
    · rw [List.length_append]
      omega

/-- The unfinished line at the front of what is read is all that was cut before. -/
theorem cut_unfinished {tail pending : Str} (htail : 10 ∉ tail) (h : Unfinished tail pending) {read : Str}
    (hread : read.length ≤ readBufferSize) :
    List.Forall₂ Leftover (Lines.cut 10 (tail ++ read)).1 (consume (pending ++ read)).1 ∧
      Unfinished (Lines.cut 10 (tail ++ read)).2 (consume (pending ++ read)).2 := by
  have hpending : 10 ∉ pending := by
    obtain ⟨discarded, -, -, -, rfl⟩ := h
    exact fun hmem => htail (List.mem_of_mem_drop hmem)
  rw [consume_eq]
  by_cases hmark : 10 ∈ read
  · obtain ⟨line, rest, rfl, hline⟩ := List.eq_append_cons_of_mem hmark
    rw [List.length_append, List.length_cons] at hread
    have hcut : ∀ before : Str, 10 ∉ before → Lines.cut 10 (before ++ (line ++ 10 :: rest)) =
        ((before ++ line) :: (Lines.cut 10 rest).1, (Lines.cut 10 rest).2) := by
      intro before hbefore
      rw [← List.append_assoc]
      apply Lines.cut_line
      rw [List.mem_append, not_or]
      exact ⟨hbefore, hline⟩
    rw [hcut tail htail, hcut pending hpending]
    constructor
    · apply List.Forall₂.cons
      · obtain ⟨discarded, hdiscarded, hle, hfits, rfl⟩ := h
        refine ⟨discarded, hdiscarded, ?_, ?_, ?_⟩
        · rw [List.length_append]
          omega
        · rw [List.length_append]
          omega
        · rw [List.drop_append_of_le_length hle]
      · rw [List.forall₂_same]
        intro other hother
        have hshort := Lines.length_le_of_mem_cut hother
        apply Leftover.of_short
        omega
    · have hnext := unfinished_kept unfinished_nil (Lines.cut 10 rest).2
      exact hnext
  · rw [Lines.cut_of_not_mem (by rw [List.mem_append, not_or]; exact ⟨htail, hmark⟩),
      Lines.cut_of_not_mem (by rw [List.mem_append, not_or]; exact ⟨hpending, hmark⟩)]
    exact ⟨List.Forall₂.nil, unfinished_kept h read⟩

/-- Each line of the stream is handed on as something left of it, however the stream is cut. -/
theorem pump_leftover {reads : List Str} (hreads : ∀ read ∈ reads, read.length ≤ readBufferSize) {tail pending : Str}
    (htail : 10 ∉ tail) (h : Unfinished tail pending) :
    List.Forall₂ Leftover (streamLines (tail ++ reads.flatten)) (pump pending reads).1 := by
  induction reads generalizing tail pending with
  | nil =>
    rw [List.flatten_nil, List.append_nil, streamLines, Lines.cut_of_not_mem htail]
    exact List.Forall₂.nil
  | cons read reads ih =>
    have hread := cut_unfinished htail h (hreads read List.mem_cons_self)
    have hnext := (@Lines.join_cut _ 10 _ (tail ++ read)).2.2
    have hrest := ih (fun other hother => hreads other (List.mem_cons_of_mem read hother)) hnext hread.2
    rw [List.flatten_cons, ← List.append_assoc, streamLines, Lines.cut_append, pump_cons]
    exact List.rel_append hread.1 hrest

theorem linesRead_leftover {stream : Str} {reads : List Str} (h : Cutting stream reads) :
    List.Forall₂ Leftover (streamLines stream) (linesRead reads) := by
  have hall := @pump_leftover reads h.fits [] [] (by simp) unfinished_nil
  rwa [List.nil_append, h.whole] at hall

/-- A line that fits the buffer is never touched. -/
theorem Leftover.eq_of_short {line rest : Str} (h : Leftover line rest) (hshort : line.length ≤ maxPendingBytes) :
    rest = line := by
  obtain ⟨discarded, hdiscarded, hle, -, rfl⟩ := h
  rw [show discarded = 0 by omega, List.drop_zero]

theorem Cutting.append {stream more : Str} {before after : List Str} (h : Cutting stream before)
    (hmore : Cutting more after) : Cutting (stream ++ more) (before ++ after) where
  whole := by rw [List.flatten_append, h.whole, hmore.whole]
  filled read hread := by
    rcases List.mem_append.mp hread with hread | hread
    · exact h.filled read hread
    · exact hmore.filled read hread
  fits read hread := by
    rcases List.mem_append.mp hread with hread | hread
    · exact h.fits read hread
    · exact hmore.fits read hread

theorem cutting_one {read : Str} (hfilled : read ≠ []) (hfits : read.length ≤ readBufferSize) : Cutting read [read] := by
  constructor <;> simp [hfilled, hfits]

/-- A part too long to be a line can be thrown away whole. -/
theorem exists_discard {chunk : Str} (hmark : 10 ∉ chunk) (hlong : maxPendingBytes < chunk.length) :
    ∃ reads, Cutting chunk reads ∧ pump [] reads = ([], []) := by
  induction hlength : chunk.length using Nat.strong_induction_on generalizing chunk with
  | _ length ih =>
    have hone : ∀ read : Str, 10 ∉ read → maxPendingBytes < read.length → pump [] [read] = ([], []) := by
      intro read hread hsize
      rw [pump_cons, List.nil_append, consume_eq, Lines.cut_of_not_mem hread, kept, if_pos hsize]
      rfl
    by_cases hfits : chunk.length ≤ readBufferSize
    · exact ⟨[chunk], cutting_one (by rintro rfl; simp at hlong) hfits, hone chunk hmark hlong⟩
    · rw [maxPendingBytes] at hlong
      rw [readBufferSize] at hfits
      have htake : (chunk.take 1025).length = 1025 := by
        rw [List.length_take]
        omega
      have hfirst := hone (chunk.take 1025) (fun h => hmark (List.mem_of_mem_take h)) (by rw [htake, maxPendingBytes]; omega)
      obtain ⟨reads, hreads, hpump⟩ := ih (chunk.drop 1025).length (by rw [List.length_drop]; omega)
        (fun h => hmark (List.mem_of_mem_drop h)) (by rw [List.length_drop, maxPendingBytes]; omega) rfl
      have hcutting : Cutting (chunk.take 1025) [chunk.take 1025] := by
        apply cutting_one
        · intro hnil
          rw [hnil] at htake
          cases htake
        · rw [htake, readBufferSize]
          omega
      refine ⟨[chunk.take 1025] ++ reads, ?_, ?_⟩
      · have hboth := hcutting.append hreads
        rwa [List.take_append_drop] at hboth
      · rw [pump_append, hfirst, hpump]
        rfl

/-- What is left of a line when it ends is handed on as it is. -/
theorem exists_handed {rest : Str} (hmark : 10 ∉ rest) (hshort : rest.length < maxPendingBytes + readBufferSize) :
    ∃ reads, Cutting (rest ++ [10]) reads ∧ pump [] reads = ([rest], []) := by
  have hend : ∀ pending read : Str, 10 ∉ pending ++ read → consume (pending ++ (read ++ [10])) = ([pending ++ read], []) := by
    intro pending read hnot
    rw [consume_eq, ← List.append_assoc, Lines.cut_line hnot]
    rfl
  by_cases hone : rest.length < readBufferSize
  · refine ⟨[rest ++ [10]], cutting_one (by simp) (by simp; omega), ?_⟩
    rw [pump_cons, hend [] rest hmark]
    rfl
  · rw [readBufferSize] at hone hshort
    rw [maxPendingBytes] at hshort
    have htake : (rest.take 1024).length = 1024 := by
      rw [List.length_take]
      omega
    have hsplit := List.take_append_drop 1024 rest
    refine ⟨[rest.take 1024] ++ [rest.drop 1024 ++ [10]], ?_, ?_⟩
    · rw [← hsplit, List.append_assoc, hsplit]
      apply Cutting.append
      · apply cutting_one
        · intro hnil
          rw [hnil] at htake
          cases htake
        · rw [htake, readBufferSize]
          omega
      · apply cutting_one (by simp)
        rw [List.length_append, List.length_drop, List.length_singleton, readBufferSize]
        omega
    · have hpending : consume ([] ++ rest.take 1024) = ([], rest.take 1024) := by
        rw [List.nil_append, consume_eq, Lines.cut_of_not_mem fun h => hmark (List.mem_of_mem_take h), kept,
          if_neg (by rw [htake, maxPendingBytes]; omega)]
      rw [List.singleton_append, pump_cons, hpending, pump_cons, hend _ _ (by rwa [hsplit]), hsplit]
      rfl

theorem exists_leftover {line rest : Str} (hmark : 10 ∉ line) (h : Leftover line rest) :
    ∃ reads, Cutting (line ++ [10]) reads ∧ pump [] reads = ([rest], []) := by
  obtain ⟨discarded, hdiscarded, hle, hfits, rfl⟩ := h
  obtain ⟨reads, hreads, hpump⟩ := exists_handed (fun h => hmark (List.mem_of_mem_drop h))
    (show (line.drop discarded).length < maxPendingBytes + readBufferSize by rw [List.length_drop]; omega)
  rcases hdiscarded with rfl | hlong
  · exact ⟨reads, hreads, hpump⟩
  · obtain ⟨lost, hlost, hnothing⟩ := exists_discard (fun h => hmark (List.mem_of_mem_take h))
      (show maxPendingBytes < (line.take discarded).length by rw [List.length_take]; omega)
    refine ⟨lost ++ reads, ?_, ?_⟩
    · have hboth := hlost.append hreads
      rwa [← List.append_assoc, List.take_append_drop] at hboth
    · rw [pump_append, hnothing, hpump]
      rfl

/-- One line after the other, each with the leftover chosen for it, and a tail that hands nothing on. -/
theorem exists_cutting {stream : Str} {rests : List Str} (h : List.Forall₂ Leftover (streamLines stream) rests) :
    ∃ reads, Cutting stream reads ∧ linesRead reads = rests := by
  obtain ⟨hjoin, hlines, htail⟩ := @Lines.join_cut _ 10 _ stream
  rw [streamLines] at h
  rw [← hjoin]
  clear hjoin
  generalize (Lines.cut 10 stream).1 = lines at h hlines
  generalize (Lines.cut 10 stream).2 = tail at htail
  induction h with
  | nil =>
    have hbytes : Cutting tail (tail.map fun byte => [byte]) := by
      constructor
      · induction tail with
        | nil => rfl
        | cons byte tail ih =>
          rw [List.mem_cons, not_or] at htail
          rw [List.map_cons, List.flatten_cons, ih htail.2]
          rfl
      · intro read hread
        obtain ⟨byte, -, rfl⟩ := List.mem_map.mp hread
        simp
      · intro read hread
        obtain ⟨byte, -, rfl⟩ := List.mem_map.mp hread
        simp [readBufferSize]
    refine ⟨_, hbytes, ?_⟩
    have hnothing := linesRead_leftover hbytes
    rw [streamLines, Lines.cut_of_not_mem htail, List.forall₂_nil_left_iff] at hnothing
    exact hnothing
  | @cons line rest lines rests hrest _ ih =>
    obtain ⟨reads, hreads, hread⟩ := ih fun other hother => hlines other (List.mem_cons_of_mem line hother)
    obtain ⟨first, hfirst, hpump⟩ := exists_leftover (hlines line List.mem_cons_self) hrest
    refine ⟨first ++ reads, ?_, ?_⟩
    · have hboth := hfirst.append hreads
      rwa [List.append_assoc, List.singleton_append] at hboth
    · rw [linesRead, pump_append, hpump]
      rw [linesRead] at hread
      rw [hread]
      rfl

/-- What is left of no line that is too long reads as a message. -/
def NothingLeft (stream : Str) : Prop :=
  ∀ line ∈ streamLines stream, maxPendingBytes < line.length → ∀ rest, Leftover line rest → parse rest = none

/-- The messages of the lines that fit, which every cutting hands on. -/
def fitting (stream : Str) : List Message :=
  ((streamLines stream).filter fun line => line.length ≤ maxPendingBytes).filterMap parse

theorem handled_eq_fitting {stream : Str} {reads : List Str} (hnothing : NothingLeft stream) (h : Cutting stream reads) :
    handled reads = fitting stream := by
  have hleft := linesRead_leftover h
  rw [NothingLeft] at hnothing
  rw [handled, fitting]
  generalize streamLines stream = lines at hnothing hleft
  generalize linesRead reads = rests at hleft
  induction hleft with
  | nil => rfl
  | @cons line rest lines rests hrest _ ih =>
    have hothers := ih fun other hother => hnothing other (List.mem_cons_of_mem line hother)
    by_cases hshort : line.length ≤ maxPendingBytes
    · rw [List.filter_cons_of_pos (by simpa using hshort), hrest.eq_of_short hshort, List.filterMap_cons,
        List.filterMap_cons, hothers]
    · rw [List.filter_cons_of_neg (by simpa using hshort),
        List.filterMap_cons_none (hnothing line List.mem_cons_self (by omega) rest hrest), hothers]

/-- Each line as it is when it fits, and nothing of it when it does not. -/
def discarding (line : Str) : Str := if line.length ≤ maxPendingBytes then line else []

theorem leftover_discarding (line : Str) : Leftover line (discarding line) := by
  rw [discarding]
  by_cases hshort : line.length ≤ maxPendingBytes
  · rw [if_pos hshort]
    apply Leftover.of_short
    rw [readBufferSize]
    omega
  · rw [if_neg hshort]
    exact ⟨line.length, .inr (by omega), le_rfl, by rw [maxPendingBytes]; omega, by simp⟩

theorem forall₂_discarding (lines : List Str) : List.Forall₂ Leftover lines (lines.map discarding) := by
  rw [List.forall₂_map_right_iff, List.forall₂_same]
  exact fun line _ => leftover_discarding line

theorem parse_nil : parse [] = none := rfl

/-- Every cutting of a stream hands on the same messages, and none of them is what was left of a line
too long, exactly when nothing that can be left of such a line reads as a message. -/
theorem stream_cut_iff (stream : Str) :
    ((∀ one other, Cutting stream one → Cutting stream other → handled one = handled other) ∧
      ∀ reads, Cutting stream reads → ∀ pair ∈ (streamLines stream).zip (linesRead reads),
        maxPendingBytes < pair.1.length → pair.2 ≠ pair.1 → parse pair.2 = none) ↔
    NothingLeft stream := by
  constructor
  · rintro ⟨hsame, -⟩ line hline hlong rest hrest
    obtain ⟨before, after, hsplit⟩ := List.append_of_mem hline
    obtain ⟨one, hone, hread⟩ := @exists_cutting stream (before.map discarding ++ rest :: after.map discarding) (by
      rw [hsplit]
      exact List.rel_append (forall₂_discarding before) (List.Forall₂.cons hrest (forall₂_discarding after)))
    obtain ⟨other, hother, hdiscarded⟩ := @exists_cutting stream (before.map discarding ++ [] :: after.map discarding) (by
      rw [hsplit]
      apply List.rel_append (forall₂_discarding before) (List.Forall₂.cons _ (forall₂_discarding after))
      have hnone := leftover_discarding line
      rwa [discarding, if_neg (by omega)] at hnone)
    have hlengths := congrArg List.length (hsame one other hone hother)
    rw [handled, handled, hread, hdiscarded, List.filterMap_append, List.filterMap_append,
      List.filterMap_cons_none parse_nil, List.length_append, List.length_append] at hlengths
    cases hparse : parse rest with
    | none => rfl
    | some message =>
      rw [List.filterMap_cons_some hparse, List.length_cons] at hlengths
      omega
  · intro hnothing
    constructor
    · intro one other hone hother
      rw [handled_eq_fitting hnothing hone, handled_eq_fitting hnothing hother]
    · intro reads hreads pair hpair hlong _
      have hleft := linesRead_leftover hreads
      apply hnothing pair.1 (List.of_mem_zip hpair).1 hlong
      exact (List.forall₂_iff_zip.mp hleft).2 hpair

/-- More than a buffer of one letter, and then what reads as a line of its own. -/
def longLine : Str := List.replicate 1025 97

def itsEnd : Str := utf8 "PING :x" ++ [10]

/-- Read at once it is one strange command; read after what was thrown away, it is a PING. -/
theorem stream_cut_matters :
    ¬ ∀ stream, (∀ one other, Cutting stream one → Cutting stream other → handled one = handled other) ∧
      ∀ reads, Cutting stream reads → ∀ pair ∈ (streamLines stream).zip (linesRead reads),
        maxPendingBytes < pair.1.length → pair.2 ≠ pair.1 → parse pair.2 = none := by
  intro h
  have hone : Cutting (longLine ++ itsEnd) [longLine ++ itsEnd] :=
    cutting_one (by decide +kernel) (by decide +kernel)
  have htwo : Cutting (longLine ++ itsEnd) ([longLine] ++ [itsEnd]) :=
    (cutting_one (by decide +kernel) (by decide +kernel)).append (cutting_one (by decide) (by decide))
  have hsame := (h (longLine ++ itsEnd)).1 _ _ hone htwo
  have hping : handled ([longLine] ++ [itsEnd]) = [{ command := utf8 "PING", params := [utf8 "x"] }] := by decide +kernel
  have hstrange : (handled [longLine ++ itsEnd]).map (fun message => message.command.length) = [1029] := by decide +kernel
  rw [hsame, hping] at hstrange
  exact absurd hstrange (by decide)

end NorelecBot.Irc
