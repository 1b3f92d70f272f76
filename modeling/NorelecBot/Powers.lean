import NorelecBot.Text

/-! # The emoji with a power

Where each works, whether anything may take it, and when two emoji are the same
one: drawn in colour or not, and whatever the tone of the skin.
-/

namespace NorelecBot

/-- Where an emoji with a power does its work. -/
inductive PowerKind where
  | home
  | carried
  | thrown
  deriving DecidableEq, Repr

structure Power where
  emoji : Str
  kind : PowerKind
  /-- Nothing takes it off a name against its owner's will. -/
  untouchable : Bool := false
  /-- Other emoji that are this one in all but looks. -/
  also : List Str := []
  deriving DecidableEq, Repr

/-- Every occurrence of one of the pieces taken out, from the front on; the counter is
what is left to skip of the last one found. -/
def withoutPieces (pieces : List Str) : ℕ → Str → Str
  | _, [] => []
  | skip + 1, _ :: text => withoutPieces pieces skip text
  | 0, character :: text =>
    match pieces.find? fun piece => piece.isPrefixOf (character :: text) with
    | some piece => withoutPieces pieces (piece.length - 1) text
    | none => character :: withoutPieces pieces 0 text

/-- The same emoji whether or not it asks to be drawn in colour. -/
def withoutVariation (emoji : Str) : Str :=
  withoutPieces [[0xEF, 0xB8, 0x8F], [0xEF, 0xB8, 0x8E]] 0 emoji

def tones : List Str := [utf8 "🏻", utf8 "🏼", utf8 "🏽", utf8 "🏾", utf8 "🏿"]

/-- The same emoji whatever the tone of its skin. -/
def withoutTone (emoji : Str) : Str :=
  tones.foldl (fun plain tone => withoutPieces [tone] 0 plain) emoji

def sameEmoji (one other : Str) : Bool := withoutVariation one = withoutVariation other

def isPower (emoji : Str) (power : Power) : Bool :=
  withoutTone (withoutVariation emoji) = withoutTone (withoutVariation power.emoji) ||
    power.also.any fun also => also ≠ [] && withoutTone (withoutVariation emoji) = also

namespace Power

def pleading : Power := { emoji := utf8 "🥺", kind := .home }
def rocket : Power := { emoji := utf8 "🚀", kind := .carried }
def bolt : Power := { emoji := utf8 "⚡", kind := .carried }
def lobster : Power := { emoji := utf8 "🦞", kind := .carried }
def poo : Power := { emoji := utf8 "💩", kind := .thrown, also := [utf8 "🇷🇺", utf8 "🇮🇱"] }
def bomb : Power := { emoji := utf8 "💣", kind := .thrown }
def nuke : Power := { emoji := utf8 "☢️", kind := .thrown }
def dog : Power := { emoji := utf8 "🐶", kind := .home }
def mailbox : Power := { emoji := utf8 "📮", kind := .home }
def ninja : Power := { emoji := utf8 "🥷", kind := .carried }
def alarm : Power := { emoji := utf8 "🔊", kind := .home }
def pirate : Power := { emoji := utf8 "🏴‍☠️", kind := .carried }
def seed : Power := { emoji := utf8 "💦", kind := .thrown }
def hen : Power := { emoji := utf8 "🐔", kind := .home }
def dino : Power := { emoji := utf8 "🦖", kind := .home }
def salt : Power := { emoji := utf8 "🧂", kind := .home }
def ice : Power := { emoji := utf8 "🧊", kind := .thrown }
def fire : Power := { emoji := utf8 "🔥", kind := .carried }
def hourglass : Power := { emoji := utf8 "⏳", kind := .carried }
def balloon : Power := { emoji := utf8 "🎈", kind := .carried, untouchable := true }

end Power

/-- Every emoji with a power, in the order they are looked up. -/
def powers : List Power :=
  [.pleading, .rocket, .bolt, .lobster, .poo, .bomb, .nuke, .dog, .balloon, .mailbox, .ninja, .alarm,
    .pirate, .seed, .hen, .ice, .fire, .hourglass, .dino, .salt]

def powerOf (emoji : Str) : Option Power := powers.find? fun power => isPower emoji power

def isLobster (emoji : Str) : Bool := isPower emoji .lobster

/-- Thrown, an emoji is not hung on the target: it needs no room there. -/
def isThrown (emoji : Str) : Bool :=
  match powerOf emoji with
  | some power => power.kind = .thrown
  | none => false

/-- One that works on him, the 🎈 among them. -/
def worksOnHim (emoji : Str) : Bool :=
  match powerOf emoji with
  | some power => power.kind = .carried
  | none => false

/-- Whether an explosion, a pirate or a newborn may take it. -/
def untouchable (emoji : Str) : Bool :=
  match powerOf emoji with
  | some power => power.untouchable
  | none => false

example : isPower (utf8 "🥷🏿") .ninja = true := by decide
example : powerOf (utf8 "☢") = some .nuke := by decide

end NorelecBot
