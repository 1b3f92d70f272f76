import NorelecBot.Quotes

/-! # Everything that can be asked of the game

One transaction of any kind, with its arguments and the numbers drawn for it.
What it answers is kept beside the state and the quotes it leaves.
-/

namespace NorelecBot

inductive Op where
  | claim (userId : ℤ) (username : Str) (now : ℤ) (rules : ClaimRules) (draws : ClaimDraws)
  | raidStart (userId : ℤ) (username : Str) (now : ℤ) (rules : RaidRules) (errand : Errand)
      (draws : StartDraws)
  | raidDue (now : ℤ) (rules : RaidRules) (draws : DueDraws)
  | buy (username emoji : Str) (position cost : ℤ) (limit : ℕ) (now inflation : ℤ)
  | move (username : Str) (source target : ℤ) (limit : ℕ) (now : ℤ)
  | burn (player emoji : Str) (now : ℤ) (rules : RaidRules) (destroy : Bool) (draws : LandDraws)
  | palleBurn (player : Str) (amount : ℤ)
  | take (player emoji swap : Str) (now : ℤ)
  | store (player emoji : Str) (limit : ℕ) (now : ℤ)
  | sortOut
  | seen (userId : ℤ) (username accountName : Str) (furnitureLimit : ℕ) (now : ℤ)
  | link (userId : ℤ) (username otherName accountName : Str)
  | handOut (furnitureLimit : ℕ)
  | quoteAdd (username quote : Str) (cost : ℤ)
  | quoteDelete (selector : Str)
  | guide (player : Str)
  | invite (newcomer inviter : Str) (platform : RaidTargetKind) (now : ℤ)
  | reward (newcomer : Str) (samePerson : Bool)
  | debug (username : Str) (wanted : Bool)

/-- What each kind of operation answers. -/
inductive Reply where
  | claim (result : ClaimResult)
  | raidStart (result : RaidResult)
  | raidDue (events : List RaidEvent)
  | buy (result : FurnitureResult)
  | move (result : FurnitureMoveResult)
  | burn (result : FurnitureBurnResult)
  | palleBurn (result : BurnResult)
  | gear (result : GearResult)
  | done
  | seen (key : Str)
  | link (status : LinkStatus)
  | quoteAdd (result : QuoteAddResult)
  | quoteDelete (removed : Option Str)
  | guide (wanted : Bool)
  | invite (status : InviteStatus) (shown : Str)
  | reward (reward : Option InviteReward)
  deriving DecidableEq, Repr

structure Files where
  state : ConquisterState := {}
  quotes : Quotes := []
  deriving DecidableEq

/-- A transaction that leaves the quotes alone. -/
def Files.only {α : Type} (files : Files) (reply : α → Reply) :
    Except Failure (α × ConquisterState) → Except Failure (Reply × Files)
  | .error failure => .error failure
  | .ok (result, state) => .ok (reply result, { files with state := state })

variable [SlotCodec] [Clock]

def step (files : Files) : Op → Except Failure (Reply × Files)
  | .claim userId username now rules draws =>
    files.only .claim (conquisterClaim files.state userId username now rules draws)
  | .raidStart userId username now rules errand draws =>
    files.only .raidStart (raidStart files.state userId username now rules errand draws)
  | .raidDue now rules draws => files.only .raidDue (raidDue files.state now rules draws)
  | .buy username emoji position cost limit now inflation =>
    files.only .buy (furnitureBuy files.state username emoji position cost limit now inflation)
  | .move username source target limit now =>
    files.only .move (furnitureMove files.state username source target limit now)
  | .burn player emoji now rules destroy draws =>
    files.only .burn (furnitureBurn files.state player emoji now rules destroy draws)
  | .palleBurn player amount => files.only .palleBurn (.ok (palleBurn files.state player amount))
  | .take player emoji swap now => files.only .gear (gearTake files.state player emoji swap now)
  | .store player emoji limit now => files.only .gear (gearStore files.state player emoji limit now)
  | .sortOut => files.only (fun _ => .done) (.ok ((), equipmentSortOut files.state))
  | .seen userId username accountName furnitureLimit now =>
    files.only .seen (.ok (playerSeen files.state userId username accountName furnitureLimit now))
  | .link userId username otherName accountName =>
    files.only .link (playerLink files.state userId username otherName accountName)
  | .handOut furnitureLimit => files.only (fun _ => .done) (.ok ((), balloonsHandOut files.state furnitureLimit))
  | .quoteAdd username quote cost =>
    match quoteAdd files.state files.quotes username quote cost with
    | .error failure => .error failure
    | .ok (result, state, quotes) => .ok (.quoteAdd result, ⟨state, quotes⟩)
  | .quoteDelete selector =>
    match quoteDelete files.state files.quotes selector with
    | (removed, state, quotes) => .ok (.quoteDelete removed, ⟨state, quotes⟩)
  | .guide player => files.only .guide (.ok (guideDue files.state player))
  | .invite newcomer inviter platform now =>
    match inviteRecord files.state newcomer inviter platform now with
    | (status, shown, state) => .ok (.invite status shown, { files with state := state })
  | .reward newcomer samePerson => files.only .reward (.ok (inviteDue files.state newcomer samePerson))
  | .debug username wanted => files.only (fun _ => .done) (.ok ((), debugSet files.state username wanted))

end NorelecBot
