import NorelecBot.Watch.Judge
import NorelecBot.Lib.UnionFind

/-! # The report

Who looks like a script and who looks like the same person, and why. The pairs that
look like one person are gathered into groups with a union-find over the places of
the keys.
-/

namespace NorelecBot.Watch
open Lib Lib.UnionFind

def reportLimit : ℕ := 3800

/-- Two accounts that look like one person, by the places of their keys. -/
structure Pair where
  left : ℕ
  right : ℕ
  points : ℕ := 0
  found : List Finding := []
  deriving DecidableEq, Repr

/-- Some accounts that look like one person, and the pairs it was seen in. -/
structure Group where
  members : List ℕ
  pairs : List Pair
  deriving DecidableEq, Repr

/-- The two loops over the places, the first below the second. -/
def placesOf (count : ℕ) : List (ℕ × ℕ) :=
  (List.range count).flatMap fun left => (List.range' (left + 1) (count - (left + 1))).map (Prod.mk left)

section
variable (entries : List (Str × Traits)) (started : ℤ) (raiders : KeyMap Str ℕ) (name : Str → Str)

/-- The pair at two places, when it has the points. -/
def pairAt (place : ℕ × ℕ) : Option Pair := do
  let (left, a) ← entries[place.1]?
  let (right, b) ← entries[place.2]?
  let found := pairSigns left a right b started raiders name
  if pairPoints ≤ total found then some ⟨place.1, place.2, total found, found⟩ else none

/-- The parents with the pairs found so far, and one place more. -/
def scanPlace (scanned : List ℕ × List Pair) (place : ℕ × ℕ) : List ℕ × List Pair :=
  match pairAt entries started raiders name place with
  | none => scanned
  | some pair => (unite scanned.1 pair.left pair.right, scanned.2 ++ [pair])

def scan : List ℕ × List Pair :=
  (placesOf entries.length).foldl (scanPlace entries started raiders name) (List.range entries.length, [])

end

def gatherPair (gathered : KeyMap ℕ (List ℕ) × List ℕ) (pair : Pair) : KeyMap ℕ (List ℕ) × List ℕ :=
  let (group, parents) := root gathered.2 pair.left
  let groups := gathered.1.alter group fun members => members.getD [] ++ [pair.left]
  let (group, parents) := root parents pair.left
  (groups.alter group fun members => members.getD [] ++ [pair.right], parents)

def gather (parents : List ℕ) (pairs : List Pair) : KeyMap ℕ (List ℕ) × List ℕ :=
  pairs.foldl gatherPair (.empty, parents)

/-- `std::ranges::unique`: of equal ones in a row, one. -/
def unique : List ℕ → List ℕ
  | first :: second :: members =>
    if first = second then unique (second :: members) else first :: unique (second :: members)
  | members => members

def pairsUnder (group : ℕ) : List ℕ → List Pair → List Pair × List ℕ
  | parents, [] => ([], parents)
  | parents, pair :: pairs =>
    let (above, parents) := root parents pair.left
    let (under, parents) := pairsUnder group parents pairs
    (if above = group then pair :: under else under, parents)

def listGroups (pairs : List Pair) : List ℕ → List (ℕ × List ℕ) → List Group
  | _, [] => []
  | parents, (group, members) :: groups =>
    let (under, parents) := pairsUnder group parents pairs
    ⟨unique (members.insertionSort (· ≤ ·)), under⟩ :: listGroups pairs parents groups

/-- The groups of some pairs, once their roots are united. -/
def groupsFrom (parents : List ℕ) (pairs : List Pair) : List Group :=
  let (groups, parents) := gather parents pairs
  listGroups pairs parents groups.entries

def reasons (found : List Finding) : Str := found.flatMap fun finding => utf8 "\n   · " ++ finding.why

def withCommas (names : List Str) : Str :=
  names.foldl (fun who name => who ++ (if who = [] then [] else utf8 ", ") ++ name) []

section
variable (entries : List (Str × Traits)) (name : Str → Str)

def nameAt (place : ℕ) : Str := (entries[place]?).elim [] fun entry => name entry.1

def sectionOf (judged : List Judged) (title : Str) (least most : ℕ) : Str :=
  let part := (judged.filter fun one => least ≤ one.points ∧ one.points ≤ most).flatMap fun one =>
    utf8 "\n• " ++ name one.player ++ utf8 " " ++ decimal one.points ++ utf8 "/100" ++ reasons one.found
  if part = [] then [] else utf8 "\n\n" ++ title ++ part

def blockedText (blocked : List (Str × ℤ)) (now : ℤ) : Str :=
  let part := (blocked.filter fun entry => now < entry.2).flatMap fun entry =>
    utf8 "\n• " ++ name entry.1 ++ utf8 " ancora per " ++ hours (entry.2 - now)
  if part = [] then [] else utf8 "\n\n🚫 Bloccati (sblocca con /unblock <nome>)" ++ part

def groupText (group : Group) : Str :=
  utf8 "\n• " ++ withCommas (group.members.map (nameAt entries name)) ++
    group.pairs.flatMap fun pair =>
      utf8 "\n   " ++ nameAt entries name pair.left ++ utf8 " e " ++ nameAt entries name pair.right ++ utf8 " (" ++
        decimal pair.points ++ utf8 "/100):" ++ reasons pair.found

def groupsText (groups : List Group) : Str :=
  if groups = [] then []
  else utf8 "\n\n👥 Probabilmente la stessa persona" ++ groups.flatMap (groupText entries name)

end

def normalText (normal : List Str) : Str :=
  if normal = [] then []
  else utf8 "\n\n✅ Nella norma: " ++ withCommas (normal.insertionSort (· ≤ ·))

/-- Back to where a character begins. -/
def cutTold (told : Str) : ℕ → ℕ
  | 0 => 0
  | cut + 1 => if told.getD (cut + 1) 0 &&& 0xC0 = 0x80 then cutTold told cut else cut + 1

def shortened (told : Str) : Str :=
  if told.length > reportLimit then told.take (cutTold told reportLimit) ++ utf8 "\n…" else told

section
variable [Clock] [Arranged] (memory : Memory)

/-- The pairs the report lists, by the places of their keys, and the parents they leave. -/
def Memory.scanned (now : ℤ) (name : Str → Str) : List ℕ × List Pair :=
  let traits := (judge memory.players memory.identities now name).traits
  scan traits.entries memory.started (raidersOf traits) name

def Memory.groups (now : ℤ) (name : Str → Str) : List Group :=
  groupsFrom (memory.scanned now name).1 (memory.scanned now name).2

def Memory.wholeReport (now : ℤ) (name : Str → Str) : Str :=
  let judgement := judge memory.players memory.identities now name
  let entries := judgement.traits.entries
  let groups := memory.groups now name
  utf8 "🛡️ Sentinella: ultimi " ++ decimal (max 1 (min 7 ((now - memory.started).tdiv 86400 + 1))) ++ utf8 " giorni" ++
    blockedText name (memory.blocked.entries.insertionSort fun one other => one.1 ≤ other.1) now ++
    sectionOf name judgement.judged (utf8 "🤖 Script quasi certi") scriptPoints 100 ++
    sectionOf name judgement.judged (utf8 "🤔 Da tenere d'occhio") suspectPoints (scriptPoints - 1) ++
    groupsText entries name groups ++ normalText judgement.normal ++
    if judgement.judged = [] ∧ groups = [] ∧ judgement.normal = [] then
      utf8 "\n\nAncora pochi dati: serve qualche ora di gioco."
    else []

def Memory.report (now : ℤ) (name : Str → Str) : Str := shortened (memory.wholeReport now name)

end

end NorelecBot.Watch
