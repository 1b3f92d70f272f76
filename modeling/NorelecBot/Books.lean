import NorelecBot.Bystanders
import NorelecBot.Linking

/-! # What is written about quotes and invites

Somebody who adds or deletes a quote, is seen, names who brought him, is due a
reward or becomes one player with another has something written in the ledgers.
Nobody else has.
-/

namespace NorelecBot
open Lib

def Op.writesLedgers : Op → Bool
  | .seen .. | .link .. | .quoteAdd .. | .quoteDelete .. | .invite .. | .reward .. => true
  | _ => false

theorem rememberPlatform_ledgers (s : ConquisterState) (username : Str) (userId : ℤ) :
    ledgers (rememberPlatform s username userId) = ledgers s := by
  rw [rememberPlatform, rememberIrc, rememberTelegram]
  split_ifs <;> rfl

theorem introduce_ledgers (s : ConquisterState) (userId : ℤ) (username accountName : Str) (now : ℤ) :
    ledgers (introduce s userId username accountName now) = ledgers s := by
  simp only [introduce, join, rememberPlatform, rememberIrc, rememberTelegram, showName, takeName, bindAccount]
  split_ifs <;> rfl

section
variable [SlotCodec]

/-- Being seen, it is only the day that is counted. -/
theorem playerSeen_ledgers [Clock] (s : ConquisterState) (userId : ℤ) (username accountName : Str) (limit : ℕ)
    (now : ℤ) :
    ∃ welcomed, ledgers welcomed = ledgers s ∧
      welcomed.joined = (introduce s userId username accountName now).joined ∧
      (playerSeen s userId username accountName limit now).2 =
        countDay welcomed (keyFor s userId username accountName) now := by
  have hwelcome := welcome_aside (introduce s userId username accountName now)
    (keyFor s userId username accountName) limit
  refine ⟨_, hwelcome.ledgers.trans (introduce_ledgers s userId username accountName now), ?_, rfl⟩
  exact congrArg Register.joined hwelcome.register

/-- Whoever is merged in no longer counts his quotes, of which there are none. -/
theorem playerLink_ledgers {s t : ConquisterState} {userId : ℤ} {username otherName accountName : Str}
    {status : LinkStatus} (h : playerLink s userId username otherName accountName = .ok (status, t)) :
    ledgers t = ledgers s ∨ ∃ dropped, hasAssets s dropped = false ∧
      ledgers t = { ledgers s with quotesAdded := s.quotesAdded.erase dropped } := by
  rcases playerLink_cases h with ⟨-, -, requests, rfl⟩ | ⟨keys, mine, theirs, -, -, -, hassets, rfl⟩
  · exact Or.inl rfl
  · exact Or.inr ⟨droppedKey s keys, droppedKey_noAssets hassets, rfl⟩

variable [Clock]

/-- Everything else leaves the ledgers and the quotes alone. -/
theorem step_ledgers {files files' : Files} {op : Op} {reply : Reply} (h : step files op = .ok (reply, files'))
    (hop : op.writesLedgers = false) : ledgers files'.state = ledgers files.state ∧ files'.quotes = files.quotes := by
  cases op with
  | claim userId username now rules draws =>
    obtain ⟨result, hclaim, -, hquotes⟩ := Files.only_eq_ok h
    exact ⟨(conquisterClaim_aside hclaim).ledgers.trans (rememberPlatform_ledgers _ _ _), hquotes⟩
  | raidStart userId username now rules errand draws =>
    obtain ⟨result, hstart, -, hquotes⟩ := Files.only_eq_ok h
    exact ⟨(raidStart_setsOff hstart).1.ledgers.trans (rememberPlatform_ledgers _ _ _), hquotes⟩
  | raidDue now rules draws =>
    obtain ⟨events, hdue, -, hquotes⟩ := Files.only_eq_ok h
    exact ⟨(raidDue_books hdue).ledgers, hquotes⟩
  | buy username emoji position cost limit now inflation =>
    obtain ⟨result, hbuy, -, hquotes⟩ := Files.only_eq_ok h
    exact ⟨(furnitureBuy_aside hbuy).ledgers, hquotes⟩
  | move username source target limit now =>
    obtain ⟨result, hmove, -, hquotes⟩ := Files.only_eq_ok h
    exact ⟨(furnitureMove_aside hmove).ledgers, hquotes⟩
  | burn player emoji now rules destroy draws =>
    obtain ⟨result, hburn, -, hquotes⟩ := Files.only_eq_ok h
    exact ⟨(furnitureBurn_rides hburn).1.ledgers, hquotes⟩
  | palleBurn player amount =>
    cases h
    exact ⟨(palleBurn_aside files.state player amount).ledgers, rfl⟩
  | take player emoji swap now =>
    obtain ⟨result, htake, -, hquotes⟩ := Files.only_eq_ok h
    exact ⟨(gearTake_aside htake).ledgers, hquotes⟩
  | store player emoji limit now =>
    obtain ⟨result, hstore, -, hquotes⟩ := Files.only_eq_ok h
    exact ⟨(gearStore_aside hstore).ledgers, hquotes⟩
  | sortOut =>
    cases h
    exact ⟨(equipmentSortOut_aside files.state).ledgers, rfl⟩
  | handOut furnitureLimit =>
    cases h
    exact ⟨(balloonsHandOut_aside files.state furnitureLimit).ledgers, rfl⟩
  | guide player =>
    cases h
    exact ⟨(guideDue_aside files.state player).ledgers, rfl⟩
  | debug username wanted =>
    cases h
    exact ⟨rfl, rfl⟩
  | _ => cases hop

end

end NorelecBot
