import NorelecBot.Watch.Memory
import NorelecBot.Saves
import NorelecBot.Lib.Acts
import Mathlib.Data.List.Sort

/-! # The sentinel's file

What it saw is written as JSON, the members of an object in the order of their
keys, and read back when the bot starts. When it last forgot and whom it told are
not written. A file that cannot be read is read as far as it goes.
-/

namespace NorelecBot.Watch
open Lib

def ActKind.code : ActKind → ℤ
  | .robs => 0
  | .gives => 1
  | .claims => 2
  | .other code _ => code

def ActKind.ofCode (code : ℤ) : ActKind :=
  if unknown : code < 0 ∨ 2 < code then .other code unknown
  else if code = 0 then .robs else if code = 1 then .gives else .claims

def actJson (act : Act) : Json := .arr [.int act.at', .int act.kind.code, .str act.target]

def robberyJson (robbery : ℤ × Str) : Json := .arr [.int robbery.1, .str robbery.2]

def timesJson (times : List ℤ) : Json := .arr (times.map Json.int)

def playerJson (player : Player) : Json :=
  .obj [(utf8 "acts", .arr (player.acts.map actJson)), (utf8 "backs", timesJson player.backs),
    (utf8 "first_seen", .int player.firstSeen), (utf8 "robbed_by", .arr (player.robbedBy.map robberyJson))]

def identityJson (identity : Identity) : Json :=
  .obj [(utf8 "chats", timesJson identity.chats), (utf8 "commands", timesJson identity.commands),
    (utf8 "host", .str identity.host), (utf8 "player", .str identity.player)]

/-- The members of an object, in the order of their keys. -/
def byKey {α : Type} (entries : List (Str × α)) : List (Str × α) := entries.insertionSort fun one other => one.1 ≤ other.1

def Memory.save (memory : Memory) : Json :=
  .obj [(utf8 "blocked", .obj ((byKey memory.blocked.entries).map fun entry => (entry.1, .int entry.2))),
    (utf8 "identities", .obj (memory.identities.entries.map fun entry => (entry.1, identityJson entry.2))),
    (utf8 "players", .obj (memory.players.entries.map fun entry => (entry.1, playerJson entry.2))),
    (utf8 "reported_day", .int memory.reportedDay), (utf8 "started", .int memory.started)]

/-- The `value` of the library: a member, or something else where there is none. -/
def valueOr {α : Type} (read : Json → Except LoadError α) (absent : α) (json : Json) (key : Str) : Except LoadError α :=
  match json with
  | .obj members =>
    match assoc key members with
    | some value => read value
    | none => .ok absent
  | other => .error (.wrongType other.typeName)

def getInt : Json → Except LoadError ℤ
  | .int value => .ok value
  | other => .error (.wrongType other.typeName)

def getList {α : Type} (read : Json → Except LoadError α) : Json → Except LoadError (List α)
  | .arr items => items.mapM read
  | other => .error (.wrongType other.typeName)

def getMembers : Json → Except LoadError (List (Str × Json))
  | .obj members => .ok members
  | other => .error (.wrongType other.typeName)

/-- The `at` of the library, by place. -/
def itemAt (json : Json) (place : ℕ) : Except LoadError Json :=
  match json with
  | .arr items =>
    match items[place]? with
    | some item => .ok item
    | none => .error (.missing (decimal place))
  | other => .error (.wrongType other.typeName)

def readAct (json : Json) : Except LoadError Act := do
  let time ← itemAt json 0 >>= getInt
  let code ← itemAt json 1 >>= getInt
  let target ← itemAt json 2 >>= Json.getString
  return ⟨time, ActKind.ofCode code, target⟩

def readRobbery (json : Json) : Except LoadError (ℤ × Str) := do
  let time ← itemAt json 0 >>= getInt
  let robber ← itemAt json 1 >>= Json.getString
  return (time, robber)

def readPlayer (found : Player) (entry : Json) : Except LoadError Player := do
  let firstSeen ← valueOr getInt 0 entry (utf8 "first_seen")
  let acts ← valueOr (getList readAct) [] entry (utf8 "acts")
  let backs ← valueOr (getList getInt) [] entry (utf8 "backs")
  let robbedBy ← valueOr (getList readRobbery) [] entry (utf8 "robbed_by")
  return { firstSeen := firstSeen, acts := found.acts ++ acts, backs := backs, robbedBy := found.robbedBy ++ robbedBy }

def readIdentity (entry : Json) : Except LoadError Identity := do
  let player ← valueOr Json.getString [] entry (utf8 "player")
  let host ← valueOr Json.getString [] entry (utf8 "host")
  let commands ← valueOr (getList getInt) [] entry (utf8 "commands")
  let chats ← valueOr (getList getInt) [] entry (utf8 "chats")
  return { player := player, host := host, commands := commands, chats := chats }

def attempt {α : Type} (read : Except LoadError α) : Lib.Act Memory α := fun memory => (read.toOption, memory)

def write (change : Memory → Memory) : Lib.Act Memory Unit := fun memory => (some (), change memory)

def look {α : Type} (view : Memory → α) : Lib.Act Memory α := fun memory => (some (view memory), memory)

def loadPlayer (entry : Str × Json) : Lib.Act Memory Unit := do
  let found ← look fun memory => (memory.players.find entry.1).getD {}
  write fun memory => { memory with players := memory.players.set entry.1 found }
  let player ← attempt (readPlayer found entry.2)
  write fun memory => { memory with players := memory.players.set entry.1 player }

def loadIdentity (entry : Str × Json) : Lib.Act Memory Unit := do
  write fun memory => { memory with identities := memory.identities.alter entry.1 fun found => found.getD {} }
  let identity ← attempt (readIdentity entry.2)
  write fun memory => { memory with identities := memory.identities.set entry.1 identity }

/-- One after the other, until one cannot be read. -/
def loadEach (load : Str × Json → Lib.Act Memory Unit) : List (Str × Json) → Lib.Act Memory Unit
  | [] => pure ()
  | entry :: entries => do
    load entry
    loadEach load entries

def readBlocked (json : Json) : Except LoadError Counters := do
  let members ← getMembers json
  members.foldlM (fun blocked entry => (getInt entry.2).map (blocked.set entry.1)) .empty

def loadSaved (saved : Json) : Lib.Act Memory Unit := do
  let started ← attempt (valueOr getInt 0 saved (utf8 "started"))
  write fun memory => { memory with started := started }
  let reportedDay ← attempt (valueOr getInt 0 saved (utf8 "reported_day"))
  write fun memory => { memory with reportedDay := reportedDay }
  let blocked ← attempt (valueOr readBlocked .empty saved (utf8 "blocked"))
  write fun memory => { memory with blocked := blocked }
  let players ← attempt (valueOr getMembers [] saved (utf8 "players"))
  loadEach loadPlayer players
  let identities ← attempt (valueOr getMembers [] saved (utf8 "identities"))
  loadEach loadIdentity identities

def Memory.load (memory : Memory) (saved : Json) : Memory := (loadSaved saved memory).2

theorem ofCode_code (kind : ActKind) : ActKind.ofCode kind.code = kind := by
  cases kind with
  | other code unknown => exact dif_pos unknown
  | _ => rfl

theorem act_readsBack : Lib.ReadsBack readAct actJson := by
  intro act
  change (Except.ok ⟨act.at', ActKind.ofCode act.kind.code, act.target⟩ : Except LoadError Act) = .ok act
  rw [ofCode_code]

theorem robbery_readsBack : Lib.ReadsBack readRobbery robberyJson := fun _ => rfl

theorem int_readsBack : Lib.ReadsBack getInt Json.int := fun _ => rfl

theorem getList_readsBack {α : Type} {read : Json → Except LoadError α} {toJson : α → Json} (h : Lib.ReadsBack read toJson)
    (values : List α) : getList read (.arr (values.map toJson)) = .ok values :=
  h.list values

theorem player_readsBack : Lib.ReadsBack (readPlayer {}) playerJson := by
  intro player
  have hfirst : valueOr getInt 0 (playerJson player) (utf8 "first_seen") = .ok player.firstSeen := rfl
  have hacts : valueOr (getList readAct) [] (playerJson player) (utf8 "acts") = .ok player.acts :=
    getList_readsBack act_readsBack player.acts
  have hbacks : valueOr (getList getInt) [] (playerJson player) (utf8 "backs") = .ok player.backs :=
    getList_readsBack int_readsBack player.backs
  have hrobbed : valueOr (getList readRobbery) [] (playerJson player) (utf8 "robbed_by") = .ok player.robbedBy :=
    getList_readsBack robbery_readsBack player.robbedBy
  rw [readPlayer, hfirst, hacts, hbacks, hrobbed]
  rfl

theorem identity_readsBack : Lib.ReadsBack readIdentity identityJson := by
  intro identity
  have hplayer : valueOr Json.getString [] (identityJson identity) (utf8 "player") = .ok identity.player := rfl
  have hhost : valueOr Json.getString [] (identityJson identity) (utf8 "host") = .ok identity.host := rfl
  have hcommands : valueOr (getList getInt) [] (identityJson identity) (utf8 "commands") = .ok identity.commands :=
    getList_readsBack int_readsBack identity.commands
  have hchats : valueOr (getList getInt) [] (identityJson identity) (utf8 "chats") = .ok identity.chats :=
    getList_readsBack int_readsBack identity.chats
  rw [readIdentity, hplayer, hhost, hcommands, hchats]
  rfl

theorem loadEach_players {entries : List (Str × Player)} (hsorted : entries.Pairwise fun one other => one.1 < other.1)
    (memory : Memory) (hnew : ∀ entry ∈ entries, memory.players.find entry.1 = none) :
    loadEach loadPlayer (entries.map fun entry => (entry.1, playerJson entry.2)) memory =
      (some (), { memory with
        players := entries.foldl (fun players entry => players.set entry.1 entry.2) memory.players }) := by
  induction entries generalizing memory with
  | nil => rfl
  | cons entry entries ih =>
    rw [List.pairwise_cons] at hsorted
    have hnone := hnew entry List.mem_cons_self
    have hload : loadPlayer (entry.1, playerJson entry.2) memory =
        (some (), { memory with players := memory.players.set entry.1 entry.2 }) := by
      have hread := player_readsBack entry.2
      simp only [loadPlayer, look, write, attempt, Lib.Act.run_bind, hnone, Option.getD_none, hread,
        Except.toOption, KeyMap.set_set]
    rw [List.map_cons, loadEach, Lib.Act.run_bind_some hload]
    apply ih hsorted.2 { memory with players := memory.players.set entry.1 entry.2 }
    intro other hother
    have hne : other.1 ≠ entry.1 := fun heq => KeyOrder.irrefl _ (heq ▸ hsorted.1 other hother)
    rw [KeyMap.find_set, if_neg hne]
    exact hnew other (List.mem_cons_of_mem entry hother)

theorem loadEach_identities (entries : List (Str × Identity)) (memory : Memory) :
    loadEach loadIdentity (entries.map fun entry => (entry.1, identityJson entry.2)) memory =
      (some (), { memory with
        identities := entries.foldl (fun identities entry => identities.set entry.1 entry.2) memory.identities }) := by
  induction entries generalizing memory with
  | nil => rfl
  | cons entry entries ih =>
    have hload : loadIdentity (entry.1, identityJson entry.2) memory =
        (some (), { memory with identities := memory.identities.set entry.1 entry.2 }) := by
      have hread := identity_readsBack entry.2
      simp only [loadIdentity, write, attempt, Lib.Act.run_bind, hread, Except.toOption, KeyMap.alter,
        KeyMap.set_set]
    rw [List.map_cons, loadEach, Lib.Act.run_bind_some hload]
    exact ih { memory with identities := memory.identities.set entry.1 entry.2 }

/-- A sentinel with nobody blocked comes back as it was, but for when it last forgot and whom it told. -/
theorem load_save {memory : Memory} (hblocked : memory.blocked = .empty) :
    ({} : Memory).load memory.save = { memory with forgotten := 0, told := .empty } := by
  have hstarted : valueOr getInt 0 memory.save (utf8 "started") = .ok memory.started := rfl
  have hreported : valueOr getInt 0 memory.save (utf8 "reported_day") = .ok memory.reportedDay := rfl
  have hnobody : valueOr readBlocked .empty memory.save (utf8 "blocked") = .ok .empty := by
    rw [Memory.save, hblocked]
    rfl
  have hplayers : valueOr getMembers [] memory.save (utf8 "players") =
      .ok (memory.players.entries.map fun entry => (entry.1, playerJson entry.2)) := rfl
  have hidentities : valueOr getMembers [] memory.save (utf8 "identities") =
      .ok (memory.identities.entries.map fun entry => (entry.1, identityJson entry.2)) := rfl
  simp only [Memory.load, loadSaved, hstarted, hreported, hnobody, hplayers, hidentities, attempt, write,
    Lib.Act.run_bind, Except.toOption]
  rw [loadEach_players memory.players.sorted _ fun entry _ => rfl]
  dsimp only
  rw [loadEach_identities, KeyMap.foldl_set_entries, KeyMap.foldl_set_entries, ← hblocked]

end NorelecBot.Watch
