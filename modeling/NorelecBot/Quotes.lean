import NorelecBot.Due

/-! # Quotes, newcomers and the debug switch -/

namespace NorelecBot
open Lib

inductive QuoteAddStatus where
  | added
  | duplicate
  | insufficientScore
  deriving DecidableEq, Repr

structure QuoteAddResult where
  status : QuoteAddStatus := .added
  availableScore : ℤ := 0
  deriving DecidableEq, Repr

def quoteAdd (state : ConquisterState) (quotes : Quotes) (username quote : Str) (cost : ℤ) :
    Except Failure (QuoteAddResult × ConquisterState × Quotes) :=
  let score := counter state.scores username
  if score < cost then .ok ({ status := .insufficientScore, availableScore := score }, state, quotes)
  else if quote ∈ quotes then .ok ({ status := .duplicate, availableScore := score }, state, quotes)
  else if counter state.quotesAdded username = int64Max then .error .overflow
  else .ok ({ status := .added, availableScore := score - cost },
    { state with
      quoteAuthors := state.quoteAuthors.set quote username
      scores := state.scores.set username (score - cost)
      quotesAdded := state.quotesAdded.set username (counter state.quotesAdded username + 1) },
    quotes ++ [quote])

/-- A position shown with the quotes, from 1, or the quote itself. -/
def selectedQuote (quotes : Quotes) (selector : Str) : Option ℕ :=
  match (Text.parseInt64 selector).filter fun position =>
      0 < position && decide (position ≤ (quotes.length : ℤ)) with
  | some position => some (position - 1).toNat
  | none => if selector ∈ quotes then some (quotes.idxOf selector) else none

/-- A quote that is deleted no longer counts for whoever added it. -/
def forgetAuthor (state : ConquisterState) (quote : Str) : ConquisterState :=
  match state.quoteAuthors.find quote with
  | none => state
  | some author =>
    { state with
      quotesAdded := if 0 < counter state.quotesAdded author
        then state.quotesAdded.set author (counter state.quotesAdded author - 1)
        else state.quotesAdded
      quoteAuthors := state.quoteAuthors.erase quote }

def quoteDelete (state : ConquisterState) (quotes : Quotes) (selector : Str) :
    Option Str × ConquisterState × Quotes :=
  match selectedQuote quotes selector with
  | none => (none, state, quotes)
  | some index =>
    (some (quotes.getD index []), forgetAuthor state (quotes.getD index []), quotes.eraseIdx index)

/-- Whether a newcomer should be shown what to try now: true once. -/
def guideDue (state : ConquisterState) (player : Str) : Bool × ConquisterState :=
  if (state.joined.find player).isNone ∨ counter state.guided player ≠ 0 then (false, state)
  else (true, { state with guided := state.guided.set player 1 })

inductive InviteStatus where
  | recorded
  | unknownInviter
  | self
  | tooLate
  | already
  | notNew
  deriving DecidableEq, Repr

def inviteWindowSeconds : ℤ := 3 * 24 * 60 * 60
def inviteDaysNeeded : ℤ := 3
def inviterReward : ℤ := 1000
def invitedReward : ℤ := 500

/-- A newcomer names who brought him; with whose name as the chats know it. -/
def inviteRecord (state : ConquisterState) (newcomer inviter : Str) (platform : RaidTargetKind)
    (now : ℤ) : InviteStatus × Str × ConquisterState :=
  match state.joined.find newcomer with
  | none => (.notNew, [], state)
  | some came =>
    if now - came ≥ inviteWindowSeconds then (.tooLate, [], state)
    else match state.invitedBy.find newcomer with
      | some brought => (.already, displayName state brought, state)
      | none =>
        match playerByName state inviter platform with
        | none => (.unknownInviter, [], state)
        | some known =>
          if known = newcomer then (.self, [], state)
          else (.recorded, displayName state known,
            { state with invitedBy := state.invitedBy.set newcomer known })

structure InviteReward where
  inviter : Str
  newcomer : Str
  inviterPalle : ℤ := 0
  newcomerPalle : ℤ := 0
  deriving DecidableEq, Repr

def payReward (scores : Counters) (player : Str) (reward : ℤ) : Counters :=
  scores.set player (counter scores player + reward)

/-- The newcomer was brought by somebody, has played his days and nobody was paid for it yet. -/
def rewardDue (state : ConquisterState) (newcomer : Str) : Option Str :=
  if (state.invitePaid.find newcomer).isSome ∨ counter state.inviteDays newcomer < inviteDaysNeeded
  then none else state.invitedBy.find newcomer

/-- One person behind two names gets nothing for inviting himself. -/
def inviteDue (state : ConquisterState) (newcomer : Str) (samePerson : Bool) :
    Option InviteReward × ConquisterState :=
  match rewardDue state newcomer with
  | none => (none, state)
  | some inviter =>
    if samePerson then (none, { state with invitePaid := state.invitePaid.set newcomer (-1) })
    else
      (some
        { inviter := displayName state inviter
          newcomer := displayName state newcomer
          inviterPalle := inviterReward
          newcomerPalle := invitedReward },
        { state with
          invitePaid := state.invitePaid.set newcomer 1
          scores := payReward (payReward state.scores inviter inviterReward) newcomer invitedReward })

/-- The debug switch frees one person only. -/
def debugSet (state : ConquisterState) (username : Str) (wanted : Bool) : ConquisterState :=
  { state with
    debugging := if wanted then state.debugging.set username 1 else state.debugging.erase username }

end NorelecBot
