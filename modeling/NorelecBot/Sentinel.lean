import NorelecBot.State

/-! # Who is kept out

The accounts the sentinel is sure play by themselves are blocked until a time,
or until an owner lets them back in. Each is told so once an hour at most.
-/

namespace NorelecBot
open Lib

structure Sentinel where
  blocked : Counters := .empty
  told : Counters := .empty
  deriving DecidableEq

namespace Sentinel

def block (sentinel : Sentinel) (player : Str) (until' : ℤ) : Sentinel :=
  { sentinel with blocked := sentinel.blocked.set player until' }

def unblock (sentinel : Sentinel) (player : Str) : Bool × Sentinel :=
  ((sentinel.blocked.find player).isSome,
    { blocked := sentinel.blocked.erase player, told := sentinel.told.erase player })

/-- Until when the account is kept out, 0 when it is not. -/
def blockedUntil (sentinel : Sentinel) (player : Str) (now : ℤ) : ℤ :=
  match sentinel.blocked.find player with
  | some until' => if until' > now then until' else 0
  | none => 0

/-- Whether a blocked account should be told so again. -/
def tellBlocked (sentinel : Sentinel) (player : Str) (now : ℤ) : Bool × Sentinel :=
  match sentinel.told.find player with
  | some told =>
    if now - told < 3600 then (false, sentinel) else (true, { sentinel with told := sentinel.told.set player now })
  | none => (true, { sentinel with told := sentinel.told.set player now })

end Sentinel

end NorelecBot
