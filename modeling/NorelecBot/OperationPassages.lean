import NorelecBot.DuePassages

/-! # Everything that can be asked, as edits -/

namespace NorelecBot
open Lib

variable [SlotCodec]

def QuoteAddResult.spent (result : QuoteAddResult) (cost : ℤ) : ℤ := if result.status = .added then cost else 0

theorem quoteAdd_passage {s t : ConquisterState} {quotes quotes' : Quotes} {username quote : Str} {cost : ℤ}
    {result : QuoteAddResult} (h : quoteAdd s quotes username quote cost = .ok (result, t, quotes')) :
    Passage [] s { palle := -result.spent cost } t := by
  simp only [quoteAdd] at h
  split at h
  · cases h
    exact .refl [] _
  · rename_i hscore
    split at h
    · cases h
      exact .refl [] _
    · split at h
      · cases h
      · cases h
        have hpaid := Passage.score [] s username (counter s.scores username - cost) fun _ =>
          sub_nonneg.mpr (not_lt.mp hscore)
        refine Passage.entered (hpaid.trans (.quiet [] ?_)) ?_
        · exact ⟨rfl, rfl, rfl, rfl, rfl, rfl⟩
        · rw [sub_sub_cancel_left, add_zero]
          rfl

omit [SlotCodec] in
theorem quoteDelete_quiet (s : ConquisterState) (quotes : Quotes) (selector : Str) :
    SamePlay s (quoteDelete s quotes selector).2.1 := by
  rw [quoteDelete]
  split
  · exact .refl s
  · simp only [forgetAuthor]
    split
    · exact .refl s
    · exact ⟨rfl, rfl, rfl, rfl, rfl, rfl⟩

omit [SlotCodec] in
theorem inviteRecord_quiet (s : ConquisterState) (newcomer inviter : Str) (platform : RaidTargetKind) (now : ℤ) :
    SamePlay s (inviteRecord s newcomer inviter platform now).2.2 := by
  rw [inviteRecord]
  split
  · exact .refl s
  · split
    · exact .refl s
    · split
      · exact .refl s
      · split
        · exact .refl s
        · split
          · exact .refl s
          · exact ⟨rfl, rfl, rfl, rfl, rfl, rfl⟩

def rewarded (reward : Option InviteReward) : ℤ :=
  reward.elim 0 fun reward => reward.inviterPalle + reward.newcomerPalle

theorem inviteDue_passage (s : ConquisterState) (newcomer : Str) (samePerson : Bool) :
    Passage [] s { palle := rewarded (inviteDue s newcomer samePerson).1 } (inviteDue s newcomer samePerson).2 := by
  rw [inviteDue]
  split
  · exact .refl [] s
  · rename_i inviter _
    split
    · exact .quiet [] ⟨rfl, rfl, rfl, rfl, rfl, rfl⟩
    · have hinviter := Passage.score [] s inviter (counter s.scores inviter + inviterReward) fun hs =>
        add_nonneg (hs.scores inviter) (by decide)
      let thanked : ConquisterState := { s with scores := payReward s.scores inviter inviterReward }
      have hnewcomer := Passage.score [] thanked newcomer (counter thanked.scores newcomer + invitedReward) fun hs =>
        add_nonneg (hs.scores newcomer) (by decide)
      refine Passage.entered ((hinviter.trans hnewcomer).trans (.quiet [] ?_)) ?_
      · exact ⟨rfl, rfl, rfl, rfl, rfl, rfl⟩
      · rw [add_sub_cancel_left, add_sub_cancel_left, add_zero]
        rfl

omit [SlotCodec] in
theorem guideDue_quiet (s : ConquisterState) (player : Str) : SamePlay s (guideDue s player).2 := by
  rw [guideDue]
  split
  · exact .refl s
  · exact ⟨rfl, rfl, rfl, rfl, rfl, rfl⟩

/-- The emoji somebody writes for an operation to hang or to send. -/
def Op.inputs : Op → List Str
  | .buy _ emoji _ _ _ _ _ => [emoji]
  | .raidStart _ _ _ _ errand _ => [errand.giftEmoji]
  | _ => []

omit [SlotCodec] in
theorem Files.only_eq_ok {α : Type} {files files' : Files} {reply : α → Reply} {answer : Reply}
    {outcome : Except Failure (α × ConquisterState)} (h : files.only reply outcome = .ok (answer, files')) :
    ∃ result, outcome = .ok (result, files'.state) ∧ answer = reply result ∧ files'.quotes = files.quotes := by
  match outcome, h with
  | .ok (result, state), h =>
    cases h
    exact ⟨result, rfl, rfl, rfl⟩

/-- Everything but what is brought back to the place and what comes due. -/
def Op.Gentle : Op → Prop
  | .burn .. => False
  | .raidDue .. => False
  | _ => True

/-- Whether nobody comes into the place and no hold is counted. -/
def Op.Untended : Op → Prop
  | .claim .. => False
  | .burn .. => False
  | _ => True

/-- Every operation is a run of edits; the gentle ones leave the children alone, and nobody comes into the
place by the untended ones. -/
theorem step_passage [Clock] {files files' : Files} {op : Op} {reply : Reply}
    (h : step files op = .ok (reply, files')) :
    ∃ f, Passage op.inputs files.state f files'.state ∧ (op.Gentle → f.left = 0) ∧ (op.Untended → f.tended = 0) := by
  cases op with
  | claim userId username now rules draws =>
    obtain ⟨result, hclaim, -, -⟩ := Files.only_eq_ok h
    obtain ⟨tended, hpassage⟩ := conquisterClaim_passage hclaim
    exact ⟨_, hpassage, fun _ => rfl, False.elim⟩
  | raidStart userId username now rules errand draws =>
    obtain ⟨result, hstart, -, -⟩ := Files.only_eq_ok h
    exact ⟨_, raidStart_passage hstart, fun _ => add_zero _, fun _ => rfl⟩
  | raidDue now rules draws =>
    obtain ⟨events, hdue, -, -⟩ := Files.only_eq_ok h
    obtain ⟨-, palle, hround, -⟩ := raidDue_round hdue
    exact ⟨_, hround, False.elim, fun _ => roundEntry_tended files.state now rules draws events⟩
  | buy username emoji position cost limit now inflation =>
    obtain ⟨result, hbuy, -, -⟩ := Files.only_eq_ok h
    exact ⟨_, furnitureBuy_passage hbuy, fun _ => add_zero _, fun _ => rfl⟩
  | move username source target limit now =>
    obtain ⟨result, hmove, -, -⟩ := Files.only_eq_ok h
    exact ⟨_, furnitureMove_passage hmove, fun _ => rfl, fun _ => rfl⟩
  | burn player emoji now rules destroy draws =>
    obtain ⟨result, hburn, -, -⟩ := Files.only_eq_ok h
    rcases furnitureBurn_passage hburn with ⟨-, hsame⟩ | ⟨-, -, child, -, -, hburnt⟩ | ⟨-, taken, tended, -, hburnt⟩
    · rw [hsame]
      exact ⟨0, .refl _ _, False.elim, False.elim⟩
    · exact ⟨_, hburnt, False.elim, False.elim⟩
    · exact ⟨_, hburnt, False.elim, False.elim⟩
  | palleBurn player amount =>
    cases h
    exact ⟨_, palleBurn_passage files.state player amount, fun _ => rfl, fun _ => rfl⟩
  | take player emoji swap now =>
    obtain ⟨result, htake, -, -⟩ := Files.only_eq_ok h
    exact ⟨_, gearTake_passage htake, fun _ => rfl, fun _ => rfl⟩
  | store player emoji limit now =>
    obtain ⟨result, hstore, -, -⟩ := Files.only_eq_ok h
    exact ⟨_, gearStore_passage hstore, fun _ => rfl, fun _ => rfl⟩
  | sortOut =>
    cases h
    exact ⟨_, equipmentSortOut_passage files.state, fun _ => rfl, fun _ => rfl⟩
  | seen userId username accountName furnitureLimit now =>
    cases h
    exact ⟨_, playerSeen_passage files.state userId username accountName furnitureLimit now, fun _ => rfl, fun _ => rfl⟩
  | link userId username otherName accountName =>
    obtain ⟨status, hlink, -, -⟩ := Files.only_eq_ok h
    rcases playerLink_passage hlink with hsame | ⟨secondary, -, -, hmerged⟩
    · exact ⟨_, hsame, fun _ => rfl, fun _ => rfl⟩
    · exact ⟨_, hmerged, fun _ => rfl, fun _ => rfl⟩
  | handOut furnitureLimit =>
    cases h
    exact ⟨_, balloonsHandOut_passage files.state furnitureLimit, fun _ => rfl, fun _ => rfl⟩
  | quoteAdd username quote cost =>
    rw [step] at h
    split at h
    · cases h
    · rename_i result state quotes hadd
      cases h
      exact ⟨_, quoteAdd_passage hadd, fun _ => rfl, fun _ => rfl⟩
  | quoteDelete selector =>
    have hquiet := quoteDelete_quiet files.state files.quotes selector
    rw [step] at h
    split at h
    rename_i removed state quotes hdelete
    cases h
    rw [hdelete] at hquiet
    exact ⟨_, .quiet _ hquiet, fun _ => rfl, fun _ => rfl⟩
  | guide player =>
    cases h
    exact ⟨0, .quiet _ (guideDue_quiet files.state player), fun _ => rfl, fun _ => rfl⟩
  | invite newcomer inviter platform now =>
    have hquiet := inviteRecord_quiet files.state newcomer inviter platform now
    rw [step] at h
    split at h
    rename_i status shown state hinvite
    cases h
    rw [hinvite] at hquiet
    exact ⟨_, .quiet _ hquiet, fun _ => rfl, fun _ => rfl⟩
  | reward newcomer samePerson =>
    cases h
    exact ⟨_, inviteDue_passage files.state newcomer samePerson, fun _ => rfl, fun _ => rfl⟩
  | debug username wanted =>
    cases h
    exact ⟨0, .quiet _ ⟨rfl, rfl, rfl, rfl, rfl, rfl⟩, fun _ => rfl, fun _ => rfl⟩

end NorelecBot
