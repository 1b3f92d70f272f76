import NorelecBot.CleanEmoji
import NorelecBot.PalleBooks

/-! # The books of the emoji

Emoji are in the houses, on the players and on the rides. What an operation brings
in or takes out is written here kind by kind, variation selectors apart; taking along,
storing, moving, giving, refusing and bringing home have no line of their own.
-/

namespace NorelecBot
open Lib

section
variable [SlotCodec]

/-- What is left of an operation that brings an emoji back to the place. -/
def burnBooks (state : ConquisterState) (player emoji : Str) (result : FurnitureBurnResult) : Str → ℤ :=
  if result.status ≠ .burned then 0
  else if result.reset then
    (knownPlayers ((takeEmoji state player emoji).getD state)).length • unit Power.balloon.emoji - census state
  else -unit emoji - shelf result.blown

theorem furnitureBurn_census {P : Str → Prop} (law : Lawful P) {s t : ConquisterState} {player emoji : Str} {now : ℤ}
    {rules : RaidRules} {destroy : Bool} {draws : LandDraws} {result : FurnitureBurnResult} (hs : Kept P s)
    (h : furnitureBurn s player emoji now rules destroy draws = .ok (result, t)) :
    census t = census s + burnBooks s player emoji result := by
  rw [burnBooks]
  rcases furnitureBurn_passage h with ⟨hstatus, rfl⟩ | ⟨hstatus, hdestroy, child, -, -, hburnt⟩ |
    ⟨hstatus, taken, tended, htaken, hburnt⟩
  · rw [if_pos hstatus, add_zero]
  · obtain ⟨hreset, hblown⟩ := furnitureBurn_spares h fun hthrown => by
      rw [hthrown.2] at hdestroy
      cases hdestroy
    rw [if_neg (not_not.mpr hstatus), hreset, if_neg Bool.false_ne_true, hblown, shelf_nil, sub_zero]
    exact hburnt.census law hs allOf_nil
  · rw [if_neg (not_not.mpr hstatus), hburnt.census law hs allOf_nil, Receipt.emoji_add, burnToll, htaken,
      Option.getD_some]
    split
    · -- What the ☢️ wipes is what is left once it is taken.
      rw [(takeEmoji_passage htaken).census law hs allOf_nil]
      dsimp only
      abel
    · dsimp only
      abel

/-- Nothing but the welcome 🎈 goes with an account that is merged in. -/
theorem playerLink_census {P : Str → Prop} (law : Lawful P) {s t : ConquisterState} {userId : ℤ}
    {username otherName accountName : Str} {status : LinkStatus} (hs : Kept P s)
    (h : playerLink s userId username otherName accountName = .ok (status, t)) :
    ∃ welcome, census t = census s - shelf welcome ∧
      (welcome = [] ∨ status = .linked ∧ ∃ one, welcome = [one] ∧ isPower one .balloon = true) := by
  rcases playerLink_passage h with hlink | ⟨secondary, hlinked, hassets, hlink⟩
  · refine ⟨[], ?_, .inl rfl⟩
    rw [hlink.census law hs allOf_nil, shelf_nil]
    abel
  · have honly : owned s secondary = [] ∨ onlyTheWelcome (owned s secondary) = true := by
      simp only [hasAssets, Bool.or_eq_false_iff, Bool.and_eq_false_iff] at hassets
      rcases hassets.1.1.2 with hnone | honly
      · exact .inl (by simpa using hnone)
      · exact .inr (by simpa using honly)
    refine ⟨owned s secondary, ?_, honly.imp_right fun hwelcome => ⟨hlinked, ?_⟩⟩
    · rw [hlink.census law hs allOf_nil]
      dsimp only
      abel
    · rcases howned : owned s secondary with _ | ⟨one, _ | ⟨two, more⟩⟩
      · rw [howned] at hwelcome
        cases hwelcome
      · rw [howned] at hwelcome
        exact ⟨one, rfl, hwelcome⟩
      · rw [howned] at hwelcome
        cases hwelcome

variable [Clock]

/-- What an operation brings into the game, or takes out of it, kind by kind. -/
def Op.emojiBooks (state : ConquisterState) : Op → Reply → Str → ℤ
  | .buy _ emoji .., .buy result => result.hung emoji
  | .burn player emoji .., .burn result => burnBooks state player emoji result
  | .raidDue now rules draws, .raidDue events =>
    entries events + (growthDue state now rules).emoji +
      (strikes now rules draws.ride (beforeRides state now rules draws).2.raids.length 0
        (beforeRides state now rules draws).2).emoji
  | .seen _ _ _ furnitureLimit _, .seen key =>
    if handsBalloon state key furnitureLimit then unit Power.balloon.emoji else 0
  | .handOut furnitureLimit, .done =>
    (knownPlayers state).countP (handsBalloon state · furnitureLimit) • unit Power.balloon.emoji
  | _, _ => 0

/-- As long as the places are read back as they were stored, the emoji change by what is on the books, and
by the welcome 🎈 of an account that is merged in. -/
theorem step_census {P : Str → Prop} (law : Lawful P) {files files' : Files} {op : Op} {reply : Reply}
    (hs : Kept P files.state) (hinputs : AllOf P op.inputs) (h : step files op = .ok (reply, files')) :
    ∃ welcome, census files'.state = census files.state + op.emojiBooks files.state reply - shelf welcome ∧
      (welcome = [] ∨
        reply = .link .linked ∧ ∃ one, welcome = [one] ∧ isPower one .balloon = true) := by
  -- Everything but a link has nothing to do with the welcome 🎈.
  have hbooks (hcensus : census files'.state = census files.state + op.emojiBooks files.state reply) :
      ∃ welcome, census files'.state = census files.state + op.emojiBooks files.state reply - shelf welcome ∧
        (welcome = [] ∨ reply = .link .linked ∧ ∃ one, welcome = [one] ∧ isPower one .balloon = true) :=
    ⟨[], by rw [hcensus, shelf_nil, sub_zero], .inl rfl⟩
  have hown {f : Receipt} (hpassage : Passage [] files.state f files'.state)
      (hf : f.emoji = op.emojiBooks files.state reply) :
      census files'.state = census files.state + op.emojiBooks files.state reply := by
    rw [hpassage.census law hs allOf_nil, hf]
  cases op with
  | link userId username otherName accountName =>
    obtain ⟨status, hlink, rfl, -⟩ := Files.only_eq_ok h
    obtain ⟨welcome, hcensus, hwelcome⟩ := playerLink_census law hs hlink
    refine ⟨welcome, ?_, hwelcome.imp_right fun hone => ⟨congrArg Reply.link hone.1, hone.2⟩⟩
    rw [hcensus]
    exact congrArg (· - shelf welcome) (add_zero _).symm
  | claim userId username now rules draws =>
    obtain ⟨result, hclaim, rfl, -⟩ := Files.only_eq_ok h
    obtain ⟨tended, hpassage⟩ := conquisterClaim_passage hclaim
    exact hbooks (hown hpassage rfl)
  | raidStart userId username now rules errand draws =>
    obtain ⟨result, hstart, rfl, -⟩ := Files.only_eq_ok h
    exact hbooks ((raidStart_passage hstart).census law hs hinputs)
  | raidDue now rules draws =>
    obtain ⟨events, hdue, rfl, -⟩ := Files.only_eq_ok h
    obtain ⟨-, palle, hround, -⟩ := raidDue_round hdue
    exact hbooks (hown hround rfl)
  | buy username emoji position cost limit now inflation =>
    obtain ⟨result, hbuy, rfl, -⟩ := Files.only_eq_ok h
    refine hbooks (((furnitureBuy_passage hbuy).census law hs hinputs).trans ?_)
    rw [Receipt.emoji_add, Receipt.emoji_pay, zero_add]
    rfl
  | move username source target limit now =>
    obtain ⟨result, hmove, rfl, -⟩ := Files.only_eq_ok h
    exact hbooks (hown (furnitureMove_passage hmove) rfl)
  | burn player emoji now rules destroy draws =>
    obtain ⟨result, hburn, rfl, -⟩ := Files.only_eq_ok h
    exact hbooks (furnitureBurn_census law hs hburn)
  | palleBurn player amount =>
    cases h
    exact hbooks (hown (palleBurn_passage files.state player amount) rfl)
  | take player emoji swap now =>
    obtain ⟨result, htake, rfl, -⟩ := Files.only_eq_ok h
    exact hbooks (hown (gearTake_passage htake) rfl)
  | store player emoji limit now =>
    obtain ⟨result, hstore, rfl, -⟩ := Files.only_eq_ok h
    exact hbooks (hown (gearStore_passage hstore) rfl)
  | sortOut =>
    cases h
    exact hbooks (hown (equipmentSortOut_passage files.state) rfl)
  | seen userId username accountName furnitureLimit now =>
    cases h
    exact hbooks (hown (playerSeen_passage files.state userId username accountName furnitureLimit now) rfl)
  | handOut furnitureLimit =>
    cases h
    exact hbooks (hown (balloonsHandOut_passage files.state furnitureLimit) rfl)
  | quoteAdd username quote cost =>
    rw [step] at h
    split at h
    · cases h
    · rename_i result state quotes hadd
      cases h
      exact hbooks (hown (quoteAdd_passage hadd) rfl)
  | quoteDelete selector =>
    have hquiet := quoteDelete_quiet files.state files.quotes selector
    rw [step] at h
    split at h
    rename_i removed state quotes hdelete
    cases h
    rw [hdelete] at hquiet
    exact hbooks (hown (.quiet [] hquiet) rfl)
  | guide player =>
    cases h
    exact hbooks (hown (.quiet [] (guideDue_quiet files.state player)) rfl)
  | invite newcomer inviter platform now =>
    have hquiet := inviteRecord_quiet files.state newcomer inviter platform now
    rw [step] at h
    split at h
    rename_i status shown state hinvite
    cases h
    rw [hinvite] at hquiet
    exact hbooks (hown (.quiet [] hquiet) rfl)
  | reward newcomer samePerson =>
    cases h
    exact hbooks (hown (inviteDue_passage files.state newcomer samePerson) rfl)
  | debug username wanted =>
    cases h
    exact hbooks (add_zero _).symm

end

theorem pocket_kept : Kept Clean pocket :=
  ⟨fun _ => allOf_nil, fun _ => allOf_nil, nofun⟩

def pizza : Str := utf8 "🍕"

theorem clean_pizza : Clean pizza :=
  clean_of_reading (by decide +kernel) (by decide +kernel) (by decide +kernel) (by decide +kernel)

def buysPizza : Op := .buy (utf8 "alice") pizza 0 5 3 0 0

theorem step_census_pizza : ∃ reply files' welcome,
    @step _ utc { state := pocket } buysPizza = .ok (reply, files') ∧
      census files'.state = census pocket + @Op.emojiBooks _ utc pocket buysPizza reply - shelf welcome ∧
      (welcome = [] ∨ reply = .link .linked ∧ ∃ one, welcome = [one] ∧ isPower one .balloon = true) := by
  have hinputs : AllOf Clean buysPizza.inputs := fun emoji hemoji _ => List.mem_singleton.mp hemoji ▸ clean_pizza
  obtain ⟨welcome, hcensus, hwelcome⟩ :=
    @step_census _ utc Clean lawful_clean { state := pocket } _ _ _ pocket_kept hinputs rfl
  exact ⟨_, _, welcome, rfl, hcensus, hwelcome⟩

end NorelecBot
