import NorelecBot.Watch.Memory
import NorelecBot.Identity
import NorelecBot.Lib.Bisect
import Mathlib.Data.List.Sort

/-! # The signs of a script

What nobody who reads and types would do, with the points it is worth and the
words it is told in.
-/

namespace NorelecBot.Watch
open Lib

/-- A pause this long ends a sitting. -/
def pauseSeconds : ℤ := 15 * 60

/-- A start this soon after coming home is quicker than anybody reads and types. -/
def instantSeconds : ℤ := 3

/-- A start later than this after coming home has nothing to do with the homecoming. -/
def reactionSeconds : ℤ := 30 * 60

def bucketSeconds : ℤ := 10 * 60

structure Finding where
  points : ℕ := 0
  why : Str := []
  deriving DecidableEq, Repr

def percent (part whole : ℕ) : ℕ := if whole = 0 then 0 else part * 100 / whole

def twoDigits (value : ℤ) : Str := if value < 10 then utf8 "0" ++ decimal value else decimal value

def hours (seconds : ℤ) : Str := decimal (seconds.tdiv 3600) ++ utf8 "h" ++ twoDigits ((seconds.tmod 3600).tdiv 60)

def wait (seconds : ℤ) : Str :=
  if seconds < 120 then decimal seconds ++ utf8 "s"
  else decimal (seconds.tdiv 60) ++ utf8 "m" ++ twoDigits (seconds.tmod 60) ++ utf8 "s"

def inOrder (values : List ℤ) : List ℤ := values.insertionSort (· ≤ ·)

def median (values : List ℤ) : ℤ := (inOrder values).getD (values.length / 2) 0

def startsOf (player : Player) : List ℤ := (player.acts.filter fun act => act.kind ≠ .claims).map Act.at'

/-- Where `std::ranges::lower_bound` ends up, whether the times are in order or not. -/
def lowerBound (times : List ℤ) (time : ℤ) : Option ℤ := firstNotBelow (fun other => other < time) times

theorem lowerBound_ordered {times : List ℤ} (h : times.Pairwise (· ≤ ·)) (time : ℤ) :
    lowerBound times time = times.find? fun other => time ≤ other := by
  rw [lowerBound, firstNotBelow_eq_find?]
  · congr 1
    funext other
    rw [Bool.eq_iff_iff]
    simp
  · apply h.imp
    intro one other hle hlate
    simp only [decide_eq_true_eq] at hlate ⊢
    omega

/-- How long after each homecoming the next ride set off, when it did soon enough to follow from it. -/
def reactions (player : Player) (starts : List ℤ) : List ℤ :=
  player.backs.filterMap fun back =>
    ((lowerBound starts back).filter fun next => next - back ≤ reactionSeconds).map fun next => next - back

/-- The longest stretch so far, since when the sitting lasts, and the last act of it. -/
structure Sitting where
  longest : ℤ := 0
  since : ℤ := 0
  last : ℤ := 0

def Sitting.next (sitting : Sitting) (time : ℤ) : Sitting :=
  let since := if sitting.last = 0 ∨ pauseSeconds ≤ time - sitting.last then time else sitting.since
  { longest := max sitting.longest (time - since), since := since, last := time }

/-- The longest stretch of play without a pause. -/
def longestSitting (player : Player) : ℤ :=
  (player.acts.foldl (fun sitting act => sitting.next act.at') ({} : Sitting)).longest

def tally (names : List Str) : KeyMap Str ℕ :=
  names.foldl (fun counts name => counts.alter name fun count => count.getD 0 + 1) .empty

def mostOf : List (Str × ℕ) → Option (Str × ℕ)
  | [] => none
  | entry :: entries =>
    match mostOf entries with
    | none => some entry
    | some most => if entry.2 < most.2 then some most else some entry

def closeTogether : List ℤ → ℕ
  | first :: second :: times => (if second - first < instantSeconds then 1 else 0) + closeTogether (second :: times)
  | _ => 0

/-- `what` when it is worth any points. -/
def worth (points : ℕ) (what : Str) : List Finding := if points > 0 then [⟨points, what⟩] else []

section
variable [Clock] (player : Player) (commands chats : ℤ) (chatsCount : Bool) (commandTimes : List ℤ) (name : Str → Str)

/-- Setting off again the instant he is home, again and again. -/
def instantSign (delays : List ℤ) : List Finding :=
  if delays.length ≥ 10 then
    let instant := delays.countP fun delay => delay < instantSeconds
    let share := percent instant delays.length
    worth (if share ≥ 50 then 30 else if share ≥ 25 then 20 else if share ≥ 10 then 8 else 0)
      (utf8 "riparte entro " ++ decimal instantSeconds ++ utf8 " secondi dal rientro nel " ++ decimal share ++
        utf8 "% dei casi (" ++ decimal instant ++ utf8 " su " ++ decimal delays.length ++ utf8 ")")
  else []

/-- Waiting always the same, or too evenly when quick but not instant. -/
def waitingSign (delays : List ℤ) : List Finding :=
  let waits := delays.filter fun delay => 60 ≤ delay
  if waits.length ≥ 15 then
    let usual := median waits
    let steady := waits.countP fun delay => ((delay - usual).natAbs : ℤ) * 10 ≤ usual
    let share := percent steady waits.length
    worth (if share ≥ 60 then 25 else if share ≥ 40 then 15 else 0)
      (utf8 "aspetta sempre lo stesso tempo prima di ripartire: " ++ wait usual ++ utf8 " ±10% nel " ++
        decimal share ++ utf8 "% dei casi")
  else if delays.length ≥ 20 then
    let sorted := inOrder delays
    let usual := sorted.getD (sorted.length / 2) 0
    let most := sorted.getD (sorted.length * 9 / 10) 0
    if instantSeconds ≤ usual ∧ most * 10 < usual * 16 then
      [⟨15, utf8 "tempi di ripartenza troppo uguali: metà entro " ++ wait usual ++ utf8 ", nove su dieci entro " ++
        wait most⟩]
    else []
  else []

def sleeplessSign : List Finding :=
  let sitting := longestSitting player
  let told := utf8 "ha giocato " ++ hours sitting ++ utf8 " di fila senza una pausa di 15 minuti"
  if sitting ≥ 8 * 3600 then [⟨20, told⟩] else if sitting ≥ 5 * 3600 then [⟨10, told⟩] else []

def hoursSign : List Finding :=
  let hoursOfDay := KeyMap.ofKeys (player.acts.map fun act => Clock.localHour act.at')
  if hoursOfDay.keys.length ≥ 22 then
    [⟨10, utf8 "attivo a tutte le ore del giorno (" ++ decimal hoursOfDay.keys.length ++ utf8 " su 24)"⟩]
  else []

/-- Only commands, never a word, where the chat lets the bot hear words. -/
def wordlessSign : List Finding :=
  if chatsCount ∧ commands ≥ 50 then
    if chats = 0 then [⟨15, decimal commands ++ utf8 " comandi e nessun messaggio in chat"⟩]
    else if chats * 100 < commands then
      [⟨8, decimal commands ++ utf8 " comandi e solo " ++ decimal chats ++ utf8 " messaggi in chat"⟩]
    else []
  else []

/-- Always the same target, whatever happens to him. -/
def oneTargetSign : List Finding :=
  let raids := (player.acts.filter fun act => act.kind = .robs).map Act.target
  if raids.length ≥ 30 then
    match mostOf (tally raids).entries with
    | none => []
    | some top =>
      let share := percent top.2 raids.length
      if share ≥ 90 then [⟨5, utf8 "colpisce sempre " ++ name top.1 ++ utf8 " (" ++ decimal share ++ utf8 "%)"⟩] else []
  else []

def neverBackSign : List Finding :=
  if player.robbedBy.length ≥ 10 then
    let struckBack := player.robbedBy.any fun robbery => player.acts.any fun act =>
      act.kind = .robs ∧ act.target = robbery.2 ∧ robbery.1 ≤ act.at' ∧ act.at' - robbery.1 ≤ reactionSeconds
    if struckBack then []
    else [⟨5, utf8 "derubato " ++ decimal player.robbedBy.length ++
      utf8 " volte, non ha mai reagito contro chi l'ha colpito"⟩]
  else []

def burstSign : List Finding :=
  let bursts := closeTogether commandTimes
  if bursts ≥ 10 ∧ percent bursts commandTimes.length ≥ 20 then
    [⟨5, utf8 "raffiche di comandi: " ++ decimal bursts ++ utf8 " a meno di " ++ decimal instantSeconds ++
      utf8 " secondi dal precedente"⟩]
  else []

def scriptSigns : List Finding :=
  let starts := startsOf player
  let delays := reactions player starts
  instantSign delays ++ waitingSign delays ++ sleeplessSign player ++ hoursSign player ++
    wordlessSign commands chats chatsCount ++ oneTargetSign player name ++ neverBackSign player ++ burstSign commandTimes

end

def total (found : List Finding) : ℕ := min 100 (found.map Finding.points).sum

end NorelecBot.Watch
