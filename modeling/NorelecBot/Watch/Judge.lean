import NorelecBot.Watch.Pairs

/-! # Every account judged

What the last week shows of each account: its signs of a script, and the traits it
is compared by with the others.
-/

namespace NorelecBot.Watch
open Lib

/-- The points from which an account is told as a script, or as one to keep an eye on. -/
def scriptPoints : ℕ := 60

def suspectPoints : ℕ := 35

/-- The points a pair of accounts needs to be told as the same person. -/
def pairPoints : ℕ := 40

/-- Nobody is blocked before the sentinel has watched a whole day. -/
def watchBeforeBlocking : ℤ := 24 * 60 * 60

structure Judged where
  player : Str
  points : ℕ := 0
  found : List Finding := []
  deriving DecidableEq, Repr

structure Judgement where
  judged : List Judged := []
  normal : List Str := []
  traits : KeyMap Str Traits := .empty

/-- An unstable sort: the most points first, and those with as many in an order of its own. -/
class Arranged where
  byPoints : List Judged → List Judged
  perm : ∀ those, (byPoints those).Perm those
  ordered : ∀ those, (byPoints those).Pairwise fun one other => other.points ≤ one.points

abbrev asTheyCome : Arranged where
  byPoints those := those.insertionSort fun one other => other.points ≤ one.points
  perm those := List.perm_insertionSort _ those
  ordered those := by
    have htotal : Std.Total fun one other : Judged => other.points ≤ one.points := ⟨fun one other => le_total _ _⟩
    have htrans : IsTrans Judged fun one other => other.points ≤ one.points := ⟨fun _ _ _ h h' => le_trans h' h⟩
    exact List.pairwise_insertionSort _ those

def isTelegram (identity : Str) : Bool := telegramPrefix.isPrefixOf identity

/-- Whether the bot hears plain words at all on one side. -/
def hearsWords (identities : KeyMap Str Identity) (oldest : ℤ) (telegram : Bool) : Bool :=
  identities.entries.any fun entry =>
    isTelegram entry.1 = telegram && entry.2.chats.any fun time => oldest ≤ time

def actsOn (acts : List Act) (kind : ActKind) : List Str := (acts.filter fun act => act.kind = kind).map Act.target

def playedBy (identities : KeyMap Str Identity) (key : Str) : List (Str × Identity) :=
  identities.entries.filter fun entry => entry.2.player = key

def traitsOf (identities : KeyMap Str Identity) (key : Str) (recent : Player) : Traits where
  gifts := tally (actsOn recent.acts .gives)
  raids := tally (actsOn recent.acts .robs)
  starts := startsOf recent
  buckets := KeyMap.ofKeys (recent.acts.map fun act => act.at'.tdiv bucketSeconds)
  hosts := KeyMap.ofKeys (((playedBy identities key).map fun entry => entry.2.host).filter fun host => host ≠ [])
  firstSeen := recent.firstSeen
  acts := recent.acts.length

section
variable [Clock] (identities : KeyMap Str Identity) (oldest : ℤ) (name : Str → Str)

/-- The signs of one account, from what it did and what its identities wrote. -/
def signsOf (key : Str) (recent : Player) : List Finding :=
  let mine := playedBy identities key
  let commands := (mine.map fun entry => forgetBefore entry.2.commands oldest).flatten
  let chats := (mine.map fun entry => forgetBefore entry.2.chats oldest).flatten
  let chatsCount := mine.any fun entry => hearsWords identities oldest (isTelegram entry.1)
  scriptSigns recent commands.length chats.length chatsCount (inOrder commands) name

/-- One account after another, in the order of their keys. -/
def judgeEach : List (Str × Player) → List Judged × List Str
  | [] => ([], [])
  | (key, player) :: players =>
    let (judged, normal) := judgeEach players
    let recent := player.since oldest
    if recent.acts.length < 20 then (judged, normal)
    else
      let found := signsOf identities oldest name key recent
      if total found ≥ suspectPoints then (⟨key, total found, found⟩ :: judged, normal)
      else (judged, name key :: normal)

end

/-- Every account with enough play scored, the rest of those with enough told as normal, and what each did. -/
def judge [Clock] [Arranged] (players : KeyMap Str Player) (identities : KeyMap Str Identity) (now : ℤ)
    (name : Str → Str) : Judgement :=
  let oldest := now - rememberedSeconds
  let (judged, normal) := judgeEach identities oldest name players.entries
  { judged := Arranged.byPoints judged
    normal := normal
    traits := players.filterMap fun key player =>
      if (player.since oldest).acts = [] then none else some (traitsOf identities key (player.since oldest)) }

def raidersOf (traits : KeyMap Str Traits) : KeyMap Str ℕ :=
  tally (traits.entries.map fun entry => entry.2.raids.keys).flatten

section
variable [Clock] [Arranged] (memory : Memory)

/-- Whether two accounts look like one person behind two names. -/
def Memory.samePerson (left right : Str) (now : ℤ) : Bool :=
  let traits := (judge memory.players memory.identities now id).traits
  match traits.find left, traits.find right with
  | some a, some b => pairPoints ≤ total (pairSigns left a right b memory.started (raidersOf traits) id)
  | _, _ => false

/-- The accounts it is sure play by themselves, once it has watched a whole day. -/
def Memory.scripts (now : ℤ) : List Str :=
  if memory.started = 0 ∨ now - memory.started < watchBeforeBlocking then []
  else ((judge memory.players memory.identities now id).judged.filter fun one => scriptPoints ≤ one.points).map
    Judged.player

end

end NorelecBot.Watch
