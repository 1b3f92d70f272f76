import NorelecBot.Sentinel
import NorelecBot.Lib.KeyMap

/-! # What the sentinel has seen

Every ride, claim, homecoming, robbery and message, kept for a week. What is older
is forgotten in passing, once an hour at most.
-/

namespace NorelecBot.Watch
open Lib

instance : KeyOrder Str := ⟨fun _ => Std.lt_irrefl, Std.lt_trans, Std.lt_trichotomy⟩

def rememberedSeconds : ℤ := 7 * 24 * 60 * 60

/-- A ride to rob, a ride to give, or a try at the place; a file could hold another number. -/
inductive ActKind where
  | robs
  | gives
  | claims
  | other (code : ℤ) (unknown : code < 0 ∨ 2 < code)
  deriving DecidableEq, Repr

structure Act where
  at' : ℤ := 0
  kind : ActKind := .robs
  target : Str := []
  deriving DecidableEq, Repr

structure Player where
  firstSeen : ℤ := 0
  acts : List Act := []
  backs : List ℤ := []
  robbedBy : List (ℤ × Str) := []
  deriving DecidableEq, Repr

structure Identity where
  player : Str := []
  host : Str := []
  commands : List ℤ := []
  chats : List ℤ := []
  deriving DecidableEq, Repr

structure Memory extends Sentinel where
  started : ℤ := 0
  reportedDay : ℤ := 0
  forgotten : ℤ := 0
  players : KeyMap Str Player := .empty
  identities : KeyMap Str Identity := .empty
  deriving DecidableEq

/-- `forget_before` -/
def forgetBefore (times : List ℤ) (oldest : ℤ) : List ℤ := times.filter fun time => oldest ≤ time

def Player.since (player : Player) (oldest : ℤ) : Player :=
  { player with
    acts := player.acts.filter fun act => oldest ≤ act.at'
    backs := forgetBefore player.backs oldest
    robbedBy := player.robbedBy.filter fun robbery => oldest ≤ robbery.1 }

def Identity.since (identity : Identity) (oldest : ℤ) : Identity :=
  { identity with
    commands := forgetBefore identity.commands oldest
    chats := forgetBefore identity.chats oldest }

def Memory.since (memory : Memory) (oldest : ℤ) : Memory :=
  { memory with
    players := memory.players.mapVals fun player => player.since oldest
    identities := memory.identities.mapVals fun identity => identity.since oldest }

def Memory.forget (now : ℤ) (memory : Memory) : Memory :=
  if now - memory.forgotten < 3600 then memory
  else { memory.since (now - rememberedSeconds) with forgotten := now }

/-- Seen for the first time, if he never was. -/
def Player.seen (player : Player) (now : ℤ) : Player :=
  if player.firstSeen = 0 then { player with firstSeen := now } else player

def Memory.start (now : ℤ) (memory : Memory) : Memory :=
  if memory.started = 0 then { memory with started := now } else memory

section
variable (forget : ℤ → Memory → Memory)

/-- `player`, and what is done to the one it finds. -/
def Memory.player (key : Str) (now : ℤ) (change : Player → Player) (memory : Memory) : Memory :=
  let memory := forget now (memory.start now)
  { memory with players := memory.players.alter key fun found => change ((found.getD {}).seen now) }

def Memory.ride (player target : Str) (gift : Bool) (now : ℤ) : Memory → Memory :=
  Memory.player forget player now fun found =>
    { found with acts := found.acts ++ [⟨now, if gift then .gives else .robs, target⟩] }

def Memory.claim (player : Str) (now : ℤ) : Memory → Memory :=
  Memory.player forget player now fun found => { found with acts := found.acts ++ [⟨now, .claims, []⟩] }

def Memory.back (player : Str) (now : ℤ) : Memory → Memory :=
  Memory.player forget player now fun found => { found with backs := found.backs ++ [now] }

def Memory.robbed (victim robber : Str) (now : ℤ) : Memory → Memory :=
  Memory.player forget victim now fun found => { found with robbedBy := found.robbedBy ++ [(now, robber)] }

def Memory.heard (identity host : Str) (command : Bool) (now : ℤ) (memory : Memory) : Memory :=
  let memory := forget now (memory.start now)
  { memory with
    identities := memory.identities.alter identity fun found =>
      let heard := found.getD {}
      let heard := if host = [] then heard else { heard with host := host }
      if command then { heard with commands := heard.commands ++ [now] }
      else { heard with chats := heard.chats ++ [now] } }

def Memory.link (identity player : Str) (memory : Memory) : Memory :=
  { memory with identities := memory.identities.alter identity fun found => { found.getD {} with player := player } }

/-- Something the game or a chat tells it. -/
inductive Told where
  | ride (player target : Str) (gift : Bool) (now : ℤ)
  | claim (player : Str) (now : ℤ)
  | back (player : Str) (now : ℤ)
  | robbed (victim robber : Str) (now : ℤ)
  | heard (identity host : Str) (command : Bool) (now : ℤ)
  | link (identity player : Str)
  deriving DecidableEq, Repr

def Told.time : Told → Option ℤ
  | .ride _ _ _ now => some now
  | .claim _ now => some now
  | .back _ now => some now
  | .robbed _ _ now => some now
  | .heard _ _ _ now => some now
  | .link _ _ => none

def Memory.tell (memory : Memory) : Told → Memory
  | .ride player target gift now => memory.ride forget player target gift now
  | .claim player now => memory.claim forget player now
  | .back player now => memory.back forget player now
  | .robbed victim robber now => memory.robbed forget victim robber now
  | .heard identity host command now => memory.heard forget identity host command now
  | .link identity player => memory.link identity player

def Memory.tellAll (memory : Memory) (told : List Told) : Memory := told.foldl (Memory.tell forget) memory

end

def neverForget (_ : ℤ) (memory : Memory) : Memory := memory

end NorelecBot.Watch
