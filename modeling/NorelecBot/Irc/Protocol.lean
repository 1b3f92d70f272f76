import NorelecBot.Identity
import Mathlib.Data.List.DropRight

/-! # The lines of the IRC protocol

A message as it comes in, a line as it goes out, and how a reply is laid out over
as few messages as it takes.
-/

namespace NorelecBot.Irc

/-- RFC 1459 allows 512 bytes per line; 400 leaves room for the rest of it. -/
def maxTextBytes : ℕ := 400

structure Message where
  messagePrefix : Str := []
  command : Str
  params : List Str := []
  deriving DecidableEq

def Message.param (message : Message) (index : ℕ) : Str := message.params.getD index []

def commandLine (command : Str) (params : List Str) (text : Option Str) : Str :=
  command ++ params.flatMap (fun param => utf8 " " ++ param) ++
    (match text with
      | some text => utf8 " :" ++ text
      | none => []) ++ [13, 10]

def nickOf (messagePrefix : Str) : Str := messagePrefix.takeWhile fun character => character ≠ 33 && character ≠ 64

def sameName (left right : Str) : Bool := lowerName left = lowerName right

def lineSeparator : Str := utf8 " · "

def isContinuation (character : UInt8) : Bool := 0x80 ≤ character && character ≤ 0xBF

/-- Back from a cut to one that leaves every UTF-8 sequence whole. -/
def cutBack (text : Str) : ℕ → ℕ
  | 0 => 0
  | cut + 1 =>
    if cut + 1 < text.length ∧ isContinuation (text.getD (cut + 1) 0) then cutBack text cut else cut + 1

/-- The largest cut not longer than `maxBytes` that leaves every UTF-8 sequence whole. -/
def boundaryBefore (text : Str) (maxBytes : ℕ) : ℕ := cutBack text (min maxBytes text.length)

def spaceBefore (text : Str) : ℕ → Option ℕ
  | 0 => if text.getD 0 0 = 32 then some 0 else none
  | cut + 1 => if text.getD (cut + 1) 0 = 32 then some (cut + 1) else spaceBefore text cut

/-- Where a piece is cut, and how many bytes after the cut are left out: a space in the second
half of what fits is a better place than the end of it. -/
def cutOf (maxBytes : ℕ) (piece : Str) : ℕ × ℕ :=
  let cut := boundaryBefore piece maxBytes
  if cut < piece.length then
    match spaceBefore piece cut with
    | some space => if cut ≤ space * 2 then (space, 1) else (cut, 0)
    | none => (cut, 0)
  else (cut, 0)

/-- A piece over as many lines as it takes. The fuel is its length, of which every round takes
a byte at least; where no cut is possible the rest is dropped. -/
def cutPiece (maxBytes : ℕ) : ℕ → Str → List Str
  | 0, _ => []
  | fuel + 1, piece =>
    if piece = [] then []
    else
      let (cut, skip) := cutOf maxBytes piece
      if cut = 0 then [] else piece.take cut :: cutPiece maxBytes fuel (piece.drop (cut + skip))

def addPiece (maxBytes : ℕ) (lines : List Str) (piece : Str) : List Str :=
  if piece = [] then lines
  else match lines.getLast? with
    | none => lines ++ cutPiece maxBytes piece.length piece
    | some last =>
      if last.length + lineSeparator.length + piece.length ≤ maxBytes
      then lines.dropLast ++ [last ++ lineSeparator ++ piece]
      else lines ++ cutPiece maxBytes piece.length piece

/-- The lines of a text without their carriage returns. -/
def piecesOf (text : Str) : List Str := (text.splitOn 10).map fun piece => piece.rdropWhile (· = 13)

def splitText (text : Str) (maxBytes : ℕ) : List Str :=
  (piecesOf text).foldl (addPiece (max maxBytes 1)) []

example : splitText (utf8 "uno\r\ndue\ntre") 10 = [utf8 "uno · due", utf8 "tre"] := by decide +kernel

end NorelecBot.Irc
