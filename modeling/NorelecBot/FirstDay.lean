import NorelecBot.Onward

/-! # A newcomer's first day

A ride is on the road for as long as it takes, so what protects a newcomer is
said of the rides under way: one that set off for him on his first day brings a
present. What comes to the place he holds is not looked at, nor is something
thrown by somebody who brings palle along.
-/

namespace NorelecBot
open Lib

/-- Both legs are the same length, so a ride that has not arrived set off as far before its arrival as its
arrival is before its return. -/
def Raid.setOffAt (raid : Raid) : ℤ := raid.arrive - (raid.back - raid.arrive)

/-- Whether it robs or throws something where it gets. -/
def Raid.attacks (raid : Raid) : Bool := !raid.brings || raid.throws

/-- Whether a time falls in the first day of somebody who came then. -/
def firstDay (came now : ℤ) : Bool := came ≤ now && now < came + newcomerSeconds

def onFirstDay (state : ConquisterState) (player : Str) (now : ℤ) : Bool :=
  (state.joined.find player).any (firstDay · now)

/-- A 💣 that is no good goes off on whoever threw it. -/
def dud (thrown : Str) (rules : RaidRules) (draws : LandDraws) : Bool :=
  !isPower thrown .poo && isPower thrown .bomb && 0 < rules.bombDudPercent &&
    wins draws.dud rules.bombDudPercent

section
variable [SlotCodec]

/-- Somebody throws something at the place while the newcomer holds it. -/
def thrownAtHim (state : ConquisterState) (newcomer player emoji : Str) (now : ℤ) (rules : RaidRules) (destroy : Bool)
    (draws : LandDraws) : Bool :=
  onFirstDay state newcomer now && player ≠ newcomer && !decide (onTheRoad state player) &&
    (takeEmoji state player emoji).isSome && !destroy && isThrown emoji && !isPower emoji .nuke &&
    otherHolder state player = some newcomer && !dud emoji rules draws

/-- Somebody sets off for the newcomer with something to throw, and palle along with it. -/
def smuggled (state : ConquisterState) (newcomer : Str) (userId : ℤ) (username : Str) (now : ℤ) (rules : RaidRules)
    (errand : Errand) : Bool :=
  onFirstDay state newcomer now && username ≠ newcomer && 0 < errand.gift && isThrown errand.giftEmoji &&
    !errand.intact && !homewards (rememberPlatform state username userId) userId username errand &&
    playerByName (rememberPlatform state username userId) errand.target errand.kind = some newcomer &&
    (raidOf state username).isNone && frozenFor state username now ≤ 0 && whereabouts state username ≠ .conquister &&
    errand.gift ≤ counter state.scores username &&
    (cannotCarry state username newcomer errand rules.furnitureLimit).isNone

/-- Whether a ride is an attack of somebody else on the newcomer that set off on that day. -/
def Raid.comesFor (raid : Raid) (newcomer : Str) (came : ℤ) : Bool :=
  !raid.arrived && raid.raider ≠ newcomer && raid.target = newcomer && firstDay came raid.setOffAt && raid.attacks

/-- He is first seen in the very second in which somebody set off for him. -/
def metOnTheWay (state : ConquisterState) (newcomer key : Str) (now : ℤ) : Bool :=
  key = newcomer && 0 < now && counter state.welcomed newcomer = 0 && (state.joined.find newcomer).isNone &&
    state.raids.any (·.comesFor newcomer now)

/-- Whether an operation lets something through that is meant for the newcomer. -/
def slips (state : ConquisterState) (newcomer : Str) : Op → Bool
  | .burn player emoji now rules destroy draws => thrownAtHim state newcomer player emoji now rules destroy draws
  | .raidStart userId username now rules errand _ => smuggled state newcomer userId username now rules errand
  | .seen userId username accountName _ now => metOnTheWay state newcomer (keyFor state userId username accountName) now
  | _ => false

variable [Clock]

/-- No operation of a run lets anything through. -/
def guards (newcomer : Str) : Files → List Op → Bool
  | _, [] => true
  | files, op :: ops => !slips files.state newcomer op && guards newcomer (files.after op) ops

/-- No palle are gone, nothing landed on him, and he did not start over. The emoji he has are as they
were, or as a present was put among them. -/
structure Unharmed (player : Str) (s t : ConquisterState) : Prop where
  palle : counter s.scores player ≤ counter t.scores player
  smeared : t.smeared.find player = s.smeared.find player
  frozen : t.frozen.find player = s.frozen.find player
  expecting : t.pregnancies.filter (fun pregnancy => pregnancy.mother = player) =
    s.pregnancies.filter fun pregnancy => pregnancy.mother = player
  children : t.children.filter (fun child => child.owner = player) =
    s.children.filter fun child => child.owner = player
  rides : t.raids.filter (fun raid => raid.raider = player) = s.raids.filter fun raid => raid.raider = player
  emoji : t.furniture.find player = s.furniture.find player ∧ t.equipped.find player = s.equipped.find player ∨
    ∃ emoji limit onHim kept, receive s player emoji limit = some (onHim, kept) ∧
      t.furniture.find player = kept.furniture.find player ∧ t.equipped.find player = kept.equipped.find player

/-- A present reached him: the palle are his, and the emoji is where he puts what he receives, if he has
room for it. -/
structure Presented (raid : Raid) (limit : ℕ) (event : RaidEvent) (s t : ConquisterState) : Prop where
  kind : event.kind = .delivered
  palle : counter t.scores raid.target = counter s.scores raid.target + max raid.gift 0
  emoji : raid.giftEmoji ≠ [] → ∀ onHim kept, receive s raid.target raid.giftEmoji limit = some (onHim, kept) →
    t.furniture = kept.furniture ∧ t.equipped = kept.equipped
  noRoom : raid.giftEmoji ≠ [] → event.noRoom = (receive s raid.target raid.giftEmoji limit).isNone

/-- The ride at an index reaches its target as the keeper, who has settled those before it, gets to it. -/
def Arrives (state : ConquisterState) (now : ℤ) (rules : RaidRules) (draws : DueDraws) (index : ℕ) (raid : Raid)
    (event : RaidEvent) (there after : ConquisterState) : Prop :=
  ∃ events, settleRides now rules draws.ride index 0 (beforeRides state now rules draws).2 = .ok (events, there) ∧
    there.raids[index]? = some raid ∧ raid.due now = true ∧
    arrival there index raid now rules (draws.ride index) = .ok (event, after)

def SafeFor (player : Str) (came : ℤ) (files : Files) (reply : Reply) (files' : Files) : Op → Prop
  | .burn thrower _ now _ _ _ => thrower ≠ player → firstDay came now = true →
      (∀ result, reply = .burn result → result.reset = false) → Unharmed player files.state files'.state
  | .raidDue now rules draws => ∀ index raid event there after,
      Arrives files.state now rules draws index raid event there after → raid.raider ≠ player →
      firstDay came raid.setOffAt = true → Unharmed player there after ∧
        (raid.target = player → Presented raid rules.furnitureLimit event there after)
  | .raidStart _ _ _ _ errand _ => errand.blow = false →
      ∀ result, reply = .raidStart result → result.status ≠ .protectedTarget
  | _ => True

/-- Whatever is on its way to him since his first day began is a present. -/
def Guarded (newcomer : Str) (state : ConquisterState) : Prop :=
  ∀ came, state.joined.find newcomer = some came → ∀ raid ∈ state.raids, raid.comesFor newcomer came = false

omit [SlotCodec] [Clock] in
theorem Raid.comesFor_waiting {raid : Raid} {newcomer : Str} {came : ℤ} (h : raid.comesFor newcomer came = true) :
    raid.arrived = false := by
  simp only [comesFor, Bool.and_eq_true, Bool.not_eq_true'] at h
  exact h.1.1.1.1

omit [SlotCodec] [Clock] in
/-- Rides that go on bring nothing new. -/
theorem Guarded.onward {newcomer : Str} {s t : ConquisterState} (h : Guarded newcomer s)
    (hjoined : t.joined = s.joined) (hrides : Onward s.raids t.raids) : Guarded newcomer t := by
  intro came hcame raid hraid
  rw [hjoined] at hcame
  obtain ⟨old, hold, -, -, hsame⟩ := hrides raid hraid
  apply Bool.eq_false_iff.mpr
  intro hcomes
  rw [hsame (Raid.comesFor_waiting hcomes), h came hcame old hold] at hcomes
  cases hcomes

omit [SlotCodec] [Clock] in
theorem setOffAt_ride (errand : Errand) (username target : Str) (now seconds : ℤ) :
    (errand.ride username target now seconds).setOffAt = now := by
  change now + seconds - (now + 2 * seconds - (now + seconds)) = now
  omega

omit [SlotCodec] [Clock] in
/-- What is no blow and yet attacks brings palle along with what is thrown. -/
theorem smuggles_of_attacks {errand : Errand} {username target : Str} {now seconds : ℤ} (hgift : 0 ≤ errand.gift)
    (hblow : errand.blow = false) (hattacks : (errand.ride username target now seconds).attacks = true) :
    0 < errand.gift ∧ isThrown errand.giftEmoji = true ∧ errand.intact = false := by
  have hwhat : (errand.gift ≤ 0 ∧ errand.giftEmoji = []) ∨ (isThrown errand.giftEmoji = true ∧ errand.intact = false) := by
    change (!(decide (0 < errand.gift) || decide (errand.giftEmoji ≠ [])) ||
      (isThrown errand.giftEmoji && !errand.intact)) = true at hattacks
    simpa using hattacks
  have hpresent : errand.gift = 0 → errand.giftEmoji ≠ [] ∧ (errand.intact = false → isThrown errand.giftEmoji = false) := by
    simpa [Errand.blow] using hblow
  rcases hwhat with ⟨hnone, hempty⟩ | ⟨hthrown, hintact⟩
  · exact absurd hempty (hpresent (le_antisymm hnone hgift)).1
  · refine ⟨lt_of_le_of_ne hgift fun hnone => ?_, hthrown, hintact⟩
    have hkept := (hpresent hnone.symm).2 hintact
    rw [hthrown] at hkept
    cases hkept

omit [SlotCodec] [Clock] in
theorem newcomer_of_firstDay {s : ConquisterState} {player : Str} {came now : ℤ}
    (hcame : s.joined.find player = some came) (hday : firstDay came now = true) : newcomer s player now = true := by
  simp only [firstDay, Bool.and_eq_true, decide_eq_true_eq] at hday
  rw [newcomer, hcame]
  simp only [Option.any_some, decide_eq_true_eq]
  omega

omit [Clock] in
/-- Whoever sets off for him on his first day brings a present, unless he slips through. -/
theorem Guarded.pushed {newcomer : Str} {s t : ConquisterState} {userId : ℤ} {username target : Str} {now : ℤ}
    {rules : RaidRules} {errand : Errand} {result : RaidResult} (h : Guarded newcomer s)
    (hjoined : t.joined = s.joined) (hslips : smuggled s newcomer userId username now rules errand = false)
    (haway : ¬ homewards (rememberPlatform s username userId) userId username errand = true)
    (hknown : playerByName (rememberPlatform s username userId) errand.target errand.kind = some target)
    (hfair : errand.blow = true → NorelecBot.newcomer s target now = false)
    (hfit : FitToGo s username target now rules errand)
    (hpushed : t.raids = s.raids ++ [errand.ride username target now result.seconds]) : Guarded newcomer t := by
  intro came hcame raid hraid
  rw [hjoined] at hcame
  rw [hpushed, List.mem_append, List.mem_singleton] at hraid
  rcases hraid with hold | rfl
  · exact h came hcame raid hold
  · apply Bool.eq_false_iff.mpr
    intro hcomes
    simp only [Raid.comesFor, setOffAt_ride, Bool.and_eq_true, decide_eq_true_eq] at hcomes
    obtain ⟨⟨⟨⟨-, hother⟩, htarget⟩, hday⟩, hattacks⟩ := hcomes
    change username ≠ newcomer at hother
    change target = newcomer at htarget
    subst htarget
    have hblow : errand.blow = false := by
      apply Bool.eq_false_iff.mpr
      intro hblow
      have hspared := hfair hblow
      rw [newcomer_of_firstDay hcame hday] at hspared
      cases hspared
    obtain ⟨hgift, hthrown, hintact⟩ := smuggles_of_attacks hfit.gift hblow hattacks
    have hcarried := hfit.affords hgift
    apply Bool.eq_false_iff.mp hslips
    simp [smuggled, onFirstDay, hcame, hday, hother, hgift, hthrown, hintact, haway, hknown, hfit.free, hfit.thawed,
      hfit.notInPlace, hcarried, hfit.carries]

/-- He is on file from the moment he is first seen, and whoever is on the way to him then is not after him. -/
theorem Guarded.seen {newcomer : Str} {s : ConquisterState} (h : Guarded newcomer s) (userId : ℤ)
    (username accountName : Str) (limit : ℕ) (now : ℤ)
    (hslips : metOnTheWay s newcomer (keyFor s userId username accountName) now = false) :
    Guarded newcomer (playerSeen s userId username accountName limit now).2 := by
  have hjoined : (playerSeen s userId username accountName limit now).2.joined =
      (introduce s userId username accountName now).joined :=
    congrArg Register.joined (playerSeen_register s userId username accountName limit now)
  intro came hcame raid hraid
  rw [playerSeen_raids] at hraid
  rw [hjoined, introduce_joined] at hcame
  split at hcame
  · rename_i hnew
    rw [OrderedMap.find_set] at hcame
    split at hcame
    · rename_i hkey
      cases hcame
      rw [← hkey] at hnew
      apply Bool.eq_false_iff.mpr
      intro hcomes
      apply Bool.eq_false_iff.mp hslips
      have hany : s.raids.any (·.comesFor newcomer now) = true := List.any_eq_true.mpr ⟨raid, hraid, hcomes⟩
      simp [metOnTheWay, ← hkey, hnew.1, hnew.2.1, hnew.2.2, hany]
    · exact h came hcame raid hraid
  · exact h came hcame raid hraid

omit [SlotCodec] [Clock] in
theorem remembers_joined (op : Op) (s : ConquisterState) : (op.remembers s).joined = s.joined := by
  have hknown (userId : ℤ) (username : Str) : (rememberPlatform s username userId).joined = s.joined := by
    rw [rememberPlatform, rememberIrc, rememberTelegram]
    split_ifs <;> rfl
  cases op with
  | claim userId username now rules draws => exact hknown userId username
  | raidStart userId username now rules errand draws => exact hknown userId username
  | _ => rfl

theorem step_guarded {newcomer : Str} {files files' : Files} {op : Op} {reply : Reply}
    (h : Guarded newcomer files.state) (hslips : slips files.state newcomer op = false)
    (hstep : step files op = .ok (reply, files')) : Guarded newcomer files'.state := by
  have hgoes := step_goes hstep
  have hkept (hregister : op.registers = false) : files'.state.joined = files.state.joined :=
    (congrArg Register.joined (hgoes.register hregister)).trans (remembers_joined op files.state)
  by_cases hregisters : op.registers = false
  · rcases hgoes.rides.onward with honward | ⟨userId, username, now, rules, errand, draws, result, target, rfl, rfl,
      haway, hknown, hfair, hfit, hpushed⟩
    · exact h.onward (hkept hregisters) honward
    · exact h.pushed (hkept hregisters) hslips haway hknown hfair hfit hpushed
  · cases op with
    | seen userId username accountName furnitureLimit now =>
      cases hstep
      exact h.seen userId username accountName furnitureLimit now hslips
    | link userId username otherName accountName =>
      obtain ⟨status, hlink, -, -⟩ := Files.only_eq_ok hstep
      obtain ⟨hraids, hjoined⟩ := playerLink_raids hlink
      exact h.onward hjoined (hraids ▸ .refl _)
    | _ => exact absurd rfl hregisters

theorem run_guarded {newcomer : Str} {files : Files} {ops : List Op} (h : Guarded newcomer files.state)
    (hguards : guards newcomer files ops = true) : Guarded newcomer (files.run ops).state := by
  induction ops generalizing files with
  | nil => exact h
  | cons op ops ih =>
    rw [guards, Bool.and_eq_true, Bool.not_eq_true'] at hguards
    refine ih ?_ hguards.2
    cases hop : step files op with
    | error failure =>
      rw [Files.after, hop]
      exact h
    | ok result =>
      obtain ⟨reply, files'⟩ := result
      rw [Files.after_eq hop]
      exact step_guarded h hguards.1 hop

omit [SlotCodec] [Clock] in
theorem filter_set_of_not {α : Type} {test : α → Bool} {those : List α} {index : ℕ} {old new : α}
    (h : those[index]? = some old) (hold : test old = false) (hnew : test new = false) :
    (those.set index new).filter test = those.filter test := by
  induction those generalizing index with
  | nil => rfl
  | cons one those ih =>
    cases index with
    | zero =>
      cases h
      simp [hold, hnew]
    | succ index =>
      rw [List.set_cons_succ, List.filter_cons, List.filter_cons, ih h]

omit [SlotCodec] [Clock] in
theorem filter_struckRides (raids : List Raid) {player victim : Str} (h : player ≠ victim) (reset : Bool) (now : ℤ) :
    (struckRides raids victim reset now).filter (fun raid => raid.raider = player) =
      raids.filter fun raid => raid.raider = player := by
  rw [struckRides]
  split
  · rw [callOff]
    induction raids with
    | nil => rfl
    | cons raid raids ih =>
      rw [List.map_cons, List.filter_cons, List.filter_cons, ih]
      by_cases hstruck : raid.raider = victim
      · simp [hstruck, Raid.calledOff, Ne.symm h]
      · simp [hstruck]
  · rfl

omit [Clock] in
theorem Unharmed.of_spares {player : Str} {s t : ConquisterState} (h : Spares player s t)
    (hrides : t.raids.filter (fun raid => raid.raider = player) = s.raids.filter fun raid => raid.raider = player) :
    Unharmed player s t :=
  ⟨h.score.ge, h.smeared, h.frozen, h.expecting, h.children, hrides, .inl ⟨h.house, h.gear⟩⟩

omit [Clock] in
theorem burnChild_spares (s : ConquisterState) {player other : Str} (h : player ≠ other) (emoji : Str) :
    Spares player s (burnChild s other emoji) := by
  rw [burnChild]
  split
  · exact .refl player s
  · refine ⟨rfl, rfl, find_hangIn_of_ne _ h _, rfl, rfl, rfl, rfl, ?_⟩
    change (s.children.eraseP (looksLike other (slotsOf s other) emoji)).filter _ = _
    induction s.children with
    | nil => rfl
    | cons child children ih =>
      rw [List.eraseP_cons]
      cases hlike : looksLike other (slotsOf s other) emoji child with
      | true =>
        have howner : child.owner = other := by
          simp only [looksLike, Bool.and_eq_true, decide_eq_true_eq] at hlike
          exact hlike.1.1.1
        simp [howner, Ne.symm h]
      | false => simp only [Bool.cond_false, List.filter_cons, ih]

omit [Clock] in
theorem loseBolts_spares {s t : ConquisterState} {now : ℤ} (player : Str) (h : loseBolts s now = .ok t) :
    Spares player s t := by
  obtain ⟨current, rfl, -⟩ := loseBolts_current h
  exact ⟨rfl, rfl, rfl, rfl, rfl, rfl, rfl, rfl⟩

omit [Clock] in
/-- A dud goes off on the thrower, whoever it was meant for. -/
theorem dud_spares (s : ConquisterState) {player thrower : Str} (h : player ≠ thrower) {thrown : Str} (victim : Str)
    (site : Whereabouts) (now : ℤ) {rules : RaidRules} {draws : LandDraws} (hdud : dud thrown rules draws = true) :
    Spares player s (land s thrown thrower victim site now rules draws).2 := by
  simp only [dud, Bool.and_eq_true, Bool.not_eq_true', decide_eq_true_eq] at hdud
  obtain ⟨⟨⟨hpoo, hbomb⟩, hchance⟩, hdraw⟩ := hdud
  rw [land, if_neg (Bool.eq_false_iff.mp hpoo), if_pos hbomb, if_pos ⟨hchance, hdraw⟩]
  exact (blowUp_spares s h true draws.hit).toSpares

omit [Clock] in
theorem otherHolder_takeEmoji {s t : ConquisterState} {player emoji : Str} (h : takeEmoji s player emoji = some t) :
    otherHolder t player = otherHolder s player := by
  have hcurrent : t.current = s.current := by
    rw [takeEmoji] at h
    split at h
    · cases h
      rfl
    · obtain ⟨slot, -, rfl⟩ := Option.map_eq_some_iff.mp h
      rfl
  rw [otherHolder, otherHolder, hcurrent]

omit [Clock] in
/-- Thrown at the place, it lands on somebody else, or is no good. -/
theorem burn_unharmed {newcomer : Str} {came : ℤ} {s t : ConquisterState} {player emoji : Str} {now : ℤ}
    {rules : RaidRules} {destroy : Bool} {draws : LandDraws} {result : FurnitureBurnResult}
    (hcame : s.joined.find newcomer = some came) (hday : firstDay came now = true) (hother : newcomer ≠ player)
    (hslips : thrownAtHim s newcomer player emoji now rules destroy draws = false)
    (hreset : result.reset = false)
    (h : furnitureBurn s player emoji now rules destroy draws = .ok (result, t)) : Unharmed newcomer s t := by
  suffices hspared : Spares newcomer s t ∧ t.raids = s.raids from .of_spares hspared.1 (by rw [hspared.2])
  rw [furnitureBurn] at h
  split at h
  · cases h
    exact ⟨.refl _ _, rfl⟩
  · rename_i hhome
    split at h
    · split at h
      · cases h
        exact ⟨.refl _ _, rfl⟩
      · split at h
        · cases h
          exact ⟨.refl _ _, rfl⟩
        · cases h
          exact ⟨burnChild_spares s hother emoji, (burnChild_aside s player emoji).raids⟩
    · rename_i taken htaken
      have htake := takeEmoji_spares hother htaken
      have hrides := (takeEmoji_aside htaken).raids
      split at h
      · have hlost := (thenLoseBolts_eq_ok h).2
        exact ⟨htake.toSpares.trans (loseBolts_spares _ hlost), (loseBolts_aside hlost).raids.trans hrides⟩
      · rename_i hthrown
        split at h
        · cases h
          cases hreset
        · rename_i hnuke
          have hlost := (thenLoseBolts_eq_ok h).2
          suffices hlanded : Spares newcomer taken (throwAtPlace taken player emoji now rules draws).2 ∧
              (throwAtPlace taken player emoji now rules draws).2.raids = taken.raids from
            ⟨(htake.toSpares.trans hlanded.1).trans (loseBolts_spares _ hlost),
              (loseBolts_aside hlost).raids.trans (hlanded.2.trans hrides)⟩
          rw [throwAtPlace]
          split
          · exact ⟨.refl _ _, rfl⟩
          · rename_i holder hholder
            have hspared : (land taken emoji player holder .conquister now rules draws).1.reset = false :=
              Bool.eq_false_iff.mpr fun hstruck => hnuke (land_reset hstruck)
            have hstays := land_raids taken emoji player holder .conquister now rules draws
            rw [hspared] at hstays
            refine ⟨?_, hstays⟩
            by_cases hhim : holder = newcomer
            · -- all but the 💣 that is no good slips through
              apply dud_spares taken hother
              by_contra hgood
              apply Bool.eq_false_iff.mp hslips
              split at hholder
              · rename_i hemoji
                rw [otherHolder_takeEmoji htaken, hhim] at hholder
                simpa [thrownAtHim, onFirstDay, hcame, hday, hother.symm, hhome, htaken, hthrown, hemoji, hnuke,
                  hholder] using hgood
              · cases hholder
            · exact (land_spares taken hother (Ne.symm hhim) _ now rules draws).toSpares

omit [Clock] in
/-- What is received is hung by what is there and where the player is, and nothing else. -/
theorem receive_congr {s u : ConquisterState} {player : Str} (hhouse : u.furniture = s.furniture)
    (hgear : u.equipped = s.equipped) (hwhere : whereabouts u player = whereabouts s player) (emoji : Str) (limit : ℕ) :
    (receive u player emoji limit).map (fun received => (received.1, received.2.furniture, received.2.equipped)) =
      (receive s player emoji limit).map fun received => (received.1, received.2.furniture, received.2.equipped) := by
  have hslots : slotsOf u player = slotsOf s player := by rw [slotsOf, slotsOf, hhouse]
  have hgears : gearOf u player = gearOf s player := by rw [gearOf, gearOf, hgear]
  have hworn : (putOn u player emoji).map (fun worn => (worn.furniture, worn.equipped)) =
      (putOn s player emoji).map fun worn => (worn.furniture, worn.equipped) := by
    simp only [putOn, hgears, Option.map_map]
    congr 1
    funext slots
    simp [hangGear, hhouse, hgear]
  have hkept : (putInHouse u player emoji limit).map (fun kept => (kept.furniture, kept.equipped)) =
      (putInHouse s player emoji limit).map fun kept => (kept.furniture, kept.equipped) := by
    simp only [putInHouse, hslots, Option.map_map]
    congr 1
    funext slots
    simp [hang, hhouse, hgear]
  have hhung := congrArg (Option.map fun places : Authors × Authors => (false, places)) hkept
  rw [Option.map_map, Option.map_map] at hhung
  simp only [receive, hwhere]
  by_cases hhim : worksOnHim emoji = true ∧ whereabouts s player = .home
  · simp only [if_pos hhim]
    cases hu : putOn u player emoji with
    | none =>
      cases hs : putOn s player emoji with
      | none =>
        rw [Option.map_map, Option.map_map]
        exact hhung
      | some worn => simp [hu, hs] at hworn
    | some worn =>
      cases hs : putOn s player emoji with
      | none => simp [hu, hs] at hworn
      | some other => simpa [hu, hs] using hworn
  · simp only [if_neg hhim]
    rw [Option.map_map, Option.map_map]
    exact hhung

omit [SlotCodec] [Clock] in
theorem whereabouts_congr {s u : ConquisterState} (hcurrent : u.current = s.current)
    (hrides : u.raids.map Raid.raider = s.raids.map Raid.raider) (player : Str) :
    whereabouts u player = whereabouts s player := by
  have hany (state : ConquisterState) : (state.raids.any fun raid => raid.raider = player) =
      (state.raids.map Raid.raider).any (· = player) := by
    rw [List.any_map]
    rfl
  rw [whereabouts, whereabouts, hany, hany, hcurrent, hrides]

omit [SlotCodec] [Clock] in
/-- Handing over the palle changes nothing but them and the ride. -/
theorem deliverPalle_eq {s : ConquisterState} {index : ℕ} {raid : Raid} (h : s.raids[index]? = some raid) :
    deliverPalle (onRide s index Raid.reached) index raid = { s with
      scores := if raid.gift > 0 then s.scores.set raid.target (counter s.scores raid.target + raid.gift) else s.scores
      raids := s.raids.set index raid.handed } := by
  have hreached : s.raids.modify index Raid.reached = s.raids.set index raid.reached := modify_eq_set h Raid.reached
  have hlt := (List.getElem?_eq_some_iff.mp h).1
  have hget : (s.raids.set index raid.reached)[index]? = some raid.reached := List.getElem?_set_self hlt
  rw [deliverPalle, Raid.handed]
  split
  · have hgone : (s.raids.set index raid.reached).modify index Raid.withoutGift =
        s.raids.set index raid.reached.withoutGift := by
      rw [modify_eq_set hget Raid.withoutGift, List.set_set]
    simp only [onRide, hreached, hgone]
  · simp only [onRide, hreached]

omit [Clock] in
theorem receive_keeps {s t : ConquisterState} {player emoji : Str} {limit : ℕ} {onHim : Bool}
    (h : receive s player emoji limit = some (onHim, t)) :
    t.scores = s.scores ∧ t.raids = s.raids ∧ t.smeared = s.smeared ∧ t.frozen = s.frozen ∧
      t.pregnancies = s.pregnancies ∧ t.children = s.children := by
  rw [receive] at h
  split at h
  · rename_i worn hworn
    cases h
    split at hworn
    · obtain ⟨slots, -, rfl⟩ := Option.map_eq_some_iff.mp hworn
      exact ⟨rfl, rfl, rfl, rfl, rfl, rfl⟩
    · cases hworn
  · obtain ⟨kept, hkept, hsame⟩ := Option.map_eq_some_iff.mp h
    cases hsame
    obtain ⟨slots, -, rfl⟩ := Option.map_eq_some_iff.mp hkept
    exact ⟨rfl, rfl, rfl, rfl, rfl, rfl⟩

omit [Clock] in
theorem noteChanges_noRoom (event : RaidEvent) (raid : Raid) (then_ : RaidEvent) (s : ConquisterState) :
    (noteChanges event raid then_ s).noRoom = event.noRoom := by
  simp only [noteChanges]
  split_ifs <;> rfl

/-- A ride that attacks nobody hands over what it brings. -/
theorem arrival_eq_deliver {s t : ConquisterState} {index : ℕ} {raid : Raid} {now : ℤ} {rules : RaidRules}
    {draws : RaidDraws} {event : RaidEvent} (hbrings : raid.brings = true)
    (h : arrival s index raid now rules draws = .ok (event, t)) :
    ∃ outcome, deliver (onRide s index Raid.reached) index raid (arrivalEvent (onRide s index Raid.reached) raid now) now
      rules draws = (outcome, t) ∧ event.kind = outcome.kind ∧ event.noRoom = outcome.noRoom := by
  have hnot : ¬ (raid.gift = 0 ∧ raid.giftEmoji = []) := by
    rintro ⟨hgift, hemoji⟩
    simp [Raid.brings, hgift, hemoji] at hbrings
  simp only [arrival, if_neg hnot, if_pos hbrings] at h
  cases h
  exact ⟨_, rfl, (noteChanges_keeps _ raid _ _).2.1, noteChanges_noRoom _ raid _ _⟩

/-- A present is all that changes for whoever it was brought to. -/
theorem arrival_presented {s t : ConquisterState} {index : ℕ} {raid : Raid} {now : ℤ} {rules : RaidRules}
    {draws : RaidDraws} {event : RaidEvent} (hraid : s.raids[index]? = some raid)
    (hother : raid.raider ≠ raid.target) (hpresent : raid.attacks = false)
    (h : arrival s index raid now rules draws = .ok (event, t)) :
    Unharmed raid.target s t ∧ Presented raid rules.furnitureLimit event s t := by
  simp only [Raid.attacks, Bool.or_eq_false_iff, Bool.not_eq_false'] at hpresent
  obtain ⟨outcome, hdeliver, hkind, hroom⟩ := arrival_eq_deliver hpresent.1 h
  have hlt := (List.getElem?_eq_some_iff.mp hraid).1
  have hrides (ride : Raid) (hsame : ride.raider = raid.raider) :
      (s.raids.set index ride).filter (fun raid' => raid'.raider = raid.target) =
        s.raids.filter fun raid' => raid'.raider = raid.target :=
    filter_set_of_not hraid (by simpa using hother) (by simpa [hsame] using hother)
  have hhanded := (handed_settled raid).1.raider
  let paid : ConquisterState := { s with
    scores := if raid.gift > 0 then s.scores.set raid.target (counter s.scores raid.target + raid.gift) else s.scores
    raids := s.raids.set index raid.handed }
  have hpalle : counter paid.scores raid.target = counter s.scores raid.target + max raid.gift 0 := by
    change counter (if raid.gift > 0 then _ else s.scores) _ = _
    split
    · rename_i hgift
      rw [counter_set_self, max_eq_left hgift.le]
    · rename_i hgift
      rw [max_eq_right (not_lt.mp hgift), add_zero]
  have hscore : counter s.scores raid.target ≤ counter paid.scores raid.target := by
    rw [hpalle]
    exact le_add_of_nonneg_right (le_max_right _ _)
  have hwhere : whereabouts paid raid.target = whereabouts s raid.target :=
    @whereabouts_congr s paid rfl (map_set_same hraid Raid.raider hhanded) raid.target
  have hreceive := receive_congr (s := s) (u := paid) rfl rfl hwhere raid.giftEmoji rules.furnitureLimit
  simp only [deliver, deliverPalle_eq hraid] at hdeliver
  change (if raid.giftEmoji = [] then (_, paid) else deliverEmoji paid index raid _ now rules draws) = _ at hdeliver
  split at hdeliver
  · rename_i hnone
    obtain ⟨houtcome, hafter⟩ := Prod.mk.inj hdeliver
    rw [← houtcome] at hkind hroom
    rw [← hafter]
    exact ⟨⟨hscore, rfl, rfl, rfl, rfl, hrides _ hhanded, .inl ⟨rfl, rfl⟩⟩,
      ⟨hkind, hpalle, fun hemoji => absurd hnone hemoji, fun hemoji => absurd hnone hemoji⟩⟩
  · simp only [deliverEmoji, hpresent.2, Bool.false_and, Bool.false_eq_true, if_false] at hdeliver
    split at hdeliver
    · rename_i onHim kept hkept
      obtain ⟨houtcome, hafter⟩ := Prod.mk.inj hdeliver
      rw [← houtcome] at hkind hroom
      rw [← hafter]
      obtain ⟨hscores, hraids, hsmeared, hfrozen, hexpecting, hchildren⟩ := receive_keeps hkept
      have hgone : (kept.raids.modify index Raid.withoutEmoji) = s.raids.set index raid.handed.withoutEmoji := by
        rw [hraids, modify_eq_set (List.getElem?_set_self hlt) Raid.withoutEmoji, List.set_set]
      rw [hkept] at hreceive
      obtain ⟨⟨onHim', kept'⟩, hkept', hsame⟩ := Option.map_eq_some_iff.mp hreceive.symm
      obtain ⟨-, hplaces⟩ := Prod.mk.inj hsame
      obtain ⟨hhouse, hgear⟩ := Prod.mk.inj hplaces
      refine ⟨⟨?_, congrArg (OrderedMap.find · raid.target) hsmeared, congrArg (OrderedMap.find · raid.target) hfrozen,
        congrArg (List.filter fun pregnancy => pregnancy.mother = raid.target) hexpecting,
        congrArg (List.filter fun child => child.owner = raid.target) hchildren, ?_,
        .inr ⟨raid.giftEmoji, rules.furnitureLimit, onHim', kept', hkept',
          congrArg (OrderedMap.find · raid.target) hhouse.symm, congrArg (OrderedMap.find · raid.target) hgear.symm⟩⟩,
        ⟨hkind, ?_, fun _ other those hthose => ?_, fun _ => ?_⟩⟩
      · exact hscore.trans_eq (congrArg (counter · raid.target) hscores.symm)
      · change (kept.raids.modify index Raid.withoutEmoji).filter _ = _
        rw [hgone]
        exact hrides _ hhanded
      · exact (congrArg (counter · raid.target) hscores).trans hpalle
      · rw [hkept'] at hthose
        cases hthose
        exact ⟨hhouse.symm, hgear.symm⟩
      · rw [hroom, hkept']
        rfl
    · rename_i hfull
      obtain ⟨houtcome, hafter⟩ := Prod.mk.inj hdeliver
      rw [← houtcome] at hkind hroom
      rw [← hafter]
      rw [hfull] at hreceive
      have hnone := Option.map_eq_none_iff.mp hreceive.symm
      refine ⟨⟨hscore, rfl, rfl, rfl, rfl, hrides _ hhanded, .inl ⟨rfl, rfl⟩⟩,
        ⟨hkind, hpalle, fun _ other those hthose => ?_, fun _ => ?_⟩⟩
      · rw [hnone] at hthose
        cases hthose
      · rw [hroom, hnone]
        rfl

/-- A ride of somebody else to somebody else leaves him alone. -/
theorem arrival_unharmed {player : Str} {s t : ConquisterState} {index : ℕ} {raid : Raid} {now : ℤ}
    {rules : RaidRules} {draws : RaidDraws} {event : RaidEvent} (hraid : s.raids[index]? = some raid)
    (hdue : raid.due now = true) (hraider : player ≠ raid.raider) (htarget : player ≠ raid.target)
    (h : arrival s index raid now rules draws = .ok (event, t)) : Unharmed player s t := by
  have hfresh : raid.arrived = false := by
    simp only [Raid.due, Bool.and_eq_true, Bool.not_eq_true'] at hdue
    exact hdue.1
  obtain ⟨-, raid', hsettled, hafter, -⟩ := arrival_round hraid hraid hfresh h
  apply Unharmed.of_spares (arrival_spares hraider htarget h).toSpares
  rw [hafter, filter_struckRides _ (struck_ne hraider htarget _)]
  apply filter_set_of_not hraid
  · simpa using hraider.symm
  · simpa [hsettled.raider] using hraider.symm

/-- The rides the keeper gets to are those that were on the road, with the register as it was. -/
theorem Arrives.waiting {s there after : ConquisterState} {now : ℤ} {rules : RaidRules} {draws : DueDraws} {index : ℕ}
    {raid : Raid} {event : RaidEvent} (h : Arrives s now rules draws index raid event there after) : raid ∈ s.raids := by
  obtain ⟨events, hwalk, hraid, hdue, -⟩ := h
  have hrides := settleRides_onward hwalk
  rw [(beforeRides_aside s now rules draws).raids] at hrides
  obtain ⟨old, hold, -, -, hsame⟩ := hrides raid (List.mem_of_getElem? hraid)
  have hfresh : raid.arrived = false := by
    simp only [Raid.due, Bool.and_eq_true, Bool.not_eq_true'] at hdue
    exact hdue.1
  rw [hsame hfresh]
  exact hold

theorem raidDue_safe {newcomer : Str} {came : ℤ} {s : ConquisterState} (hguarded : Guarded newcomer s)
    (hcame : s.joined.find newcomer = some came) {now : ℤ} {rules : RaidRules} {draws : DueDraws} {index : ℕ}
    {raid : Raid} {event : RaidEvent} {there after : ConquisterState}
    (harrives : Arrives s now rules draws index raid event there after) (hraider : raid.raider ≠ newcomer)
    (hday : firstDay came raid.setOffAt = true) : Unharmed newcomer there after ∧
      (raid.target = newcomer → Presented raid rules.furnitureLimit event there after) := by
  have hwaiting := harrives.waiting
  obtain ⟨events, -, hraid, hdue, harrival⟩ := harrives
  by_cases htarget : raid.target = newcomer
  · subst htarget
    have hpresent : raid.attacks = false := by
      have hfresh : raid.arrived = false := by
        simp only [Raid.due, Bool.and_eq_true, Bool.not_eq_true'] at hdue
        exact hdue.1
      simpa [Raid.comesFor, hfresh, hraider, hday] using hguarded came hcame raid hwaiting
    obtain ⟨hunharmed, hpresented⟩ := arrival_presented hraid hraider hpresent harrival
    exact ⟨hunharmed, fun _ => hpresented⟩
  · exact ⟨arrival_unharmed hraid hdue hraider.symm (Ne.symm htarget) harrival, fun hhim => absurd hhim htarget⟩

omit [Clock] in
/-- Only a blow is refused for the newcomer's sake. -/
theorem present_not_refused {s t : ConquisterState} {userId : ℤ} {username : Str} {now : ℤ} {rules : RaidRules}
    {errand : Errand} {draws : StartDraws} {result : RaidResult} (hblow : errand.blow = false)
    (h : raidStart s userId username now rules errand draws = .ok (result, t)) : result.status ≠ .protectedTarget := by
  simp only [raidStart] at h
  split at h
  · rcases rideHome_status h with hstatus | hstatus | hstatus <;> simp [hstatus]
  · split at h
    · cases h
      simp
    · rw [setOff] at h
      split at h
      · cases h
        simp
      · rw [hblow, Bool.false_and, if_neg Bool.false_ne_true] at h
        split_ifs at h
        iterate 4
          · cases h
            simp
        simp only [load] at h
        split at h
        · rename_i status hcannot
          cases h
          rcases cannotCarry_eq_some hcannot with rfl | rfl | rfl <;> simp
        · rw [(depart_eq_ok h).1]
          simp

/-- In a run in which nothing slips through, from before a player is first seen, whatever somebody else sets
off with on his first day, or throws at the place he holds then, leaves him as he was; what is brought as a
present is not refused, and reaches him. -/
theorem first_day_safe {newcomer : Str} {files files' : Files} {ops : List Op} {op : Op} {reply : Reply} {came : ℤ}
    (hnew : files.state.joined.find newcomer = none) (hguards : guards newcomer files ops = true)
    (hslips : slips (files.run ops).state newcomer op = false) (hstep : step (files.run ops) op = .ok (reply, files'))
    (hcame : (files.run ops).state.joined.find newcomer = some came) :
    SafeFor newcomer came (files.run ops) reply files' op := by
  have hunseen : Guarded newcomer files.state := by
    intro other hother
    rw [hnew] at hother
    cases hother
  have hguarded := run_guarded hunseen hguards
  cases op with
  | burn player emoji now rules destroy draws =>
    obtain ⟨result, hburn, rfl, -⟩ := Files.only_eq_ok hstep
    intro hother hday hreset
    exact burn_unharmed hcame hday hother.symm hslips (hreset result rfl) hburn
  | raidDue now rules draws =>
    intro index raid event there after harrives hraider hday
    exact raidDue_safe hguarded hcame harrives hraider hday
  | raidStart userId username now rules errand draws =>
    obtain ⟨result, hstart, rfl, -⟩ := Files.only_eq_ok hstep
    intro hblow other hother
    cases hother
    exact present_not_refused hblow hstart
  | _ => trivial

end

def adaArmed : Files := { state := { equipped := OrderedMap.empty.set (utf8 "tg:1") (utf8 "🍕💩") } }

def zoeComes : List Op := [
  .seen 1 (utf8 "ada") [] 10 (day 1),
  .seen 0 (utf8 "zoe") [] 10 (day 1)]

def adaSends : Op :=
  .raidStart 1 (utf8 "tg:1") (day 1 + 60) {} { target := utf8 "zoe", giftEmoji := utf8 "🍕" } ⟨[5], [7]⟩

def quietDraws : DueDraws where
  courting _ := 0
  birth _ := ⟨0, 0⟩
  ride _ := ⟨0, 0, 0, ⟨0, 0⟩, 0, 0, 0, [], [], 0, 0⟩

def keeperComes : Op := .raidDue (day 1 + 3600) {} quietDraws

/-- A 🍕 reaches the newcomer on her first day. -/
theorem first_day_safe_pizza : ∃ reply files',
    @step _ utc (@Files.run _ utc adaArmed (zoeComes ++ [adaSends])) keeperComes = .ok (reply, files') ∧
    @SafeFor _ utc (utf8 "irc:zoe") (day 1) (@Files.run _ utc adaArmed (zoeComes ++ [adaSends])) reply files'
      keeperComes ∧
    files'.state.furniture.find (utf8 "irc:zoe") = some (utf8 "🍕") := by
  have hgoes : (@step _ utc (@Files.run _ utc adaArmed (zoeComes ++ [adaSends])) keeperComes).toOption.map
      (fun result => result.2.state.furniture.find (utf8 "irc:zoe")) = some (some (utf8 "🍕")) := by decide +kernel
  cases hstep : @step _ utc (@Files.run _ utc adaArmed (zoeComes ++ [adaSends])) keeperComes with
  | error failure =>
    rw [hstep] at hgoes
    cases hgoes
  | ok result =>
    rw [hstep] at hgoes
    exact ⟨result.1, result.2, rfl,
      @first_day_safe _ utc (utf8 "irc:zoe") adaArmed result.2 (zoeComes ++ [adaSends]) keeperComes result.1 (day 1)
        (by decide +kernel) (by decide +kernel) (by decide +kernel) hstep (by decide +kernel),
      Option.some.inj hgoes⟩

def zoeEnters : Op := .claim 0 (utf8 "irc:zoe") (day 1 + 30) {} ⟨0, 0⟩

def adaThrows : Op := .burn (utf8 "tg:1") (utf8 "💩") (day 1 + 60) {} false ⟨0, 0⟩

/-- A minute after she was first seen, Zoe is smeared in the place she holds. -/
theorem newcomer_is_smeared :
    adaArmed.state.joined.find (utf8 "irc:zoe") = none ∧
    (@Files.run _ utc adaArmed (zoeComes ++ [zoeEnters])).state.joined.find (utf8 "irc:zoe") = some (day 1) ∧
    ∃ reply files', @step _ utc (@Files.run _ utc adaArmed (zoeComes ++ [zoeEnters])) adaThrows = .ok (reply, files') ∧
      ¬ @SafeFor _ utc (utf8 "irc:zoe") (day 1) (@Files.run _ utc adaArmed (zoeComes ++ [zoeEnters])) reply files'
        adaThrows := by
  refine ⟨by decide +kernel, by decide +kernel, ?_⟩
  have hgoes : (@step _ utc (@Files.run _ utc adaArmed (zoeComes ++ [zoeEnters])) adaThrows).toOption.map
      (fun result => (result.2.state.smeared.find (utf8 "irc:zoe"), result.1)) =
        some (some (day 1 + 60 + 86400), .burn
          { shown := utf8 "🍕[]🎈", hit := utf8 "zoe", hitFurniture := utf8 "🎈", hitBefore := utf8 "🎈" }) := by
    decide +kernel
  cases hstep : @step _ utc (@Files.run _ utc adaArmed (zoeComes ++ [zoeEnters])) adaThrows with
  | error failure =>
    rw [hstep] at hgoes
    cases hgoes
  | ok result =>
    obtain ⟨reply, files'⟩ := result
    rw [hstep] at hgoes
    obtain ⟨hsmeared, hreply⟩ := Prod.mk.inj (Option.some.inj hgoes)
    refine ⟨reply, files', rfl, fun hsafe => ?_⟩
    have hspared (burnt : FurnitureBurnResult) (hburnt : reply = .burn burnt) : burnt.reset = false := by
      have hsame := hburnt.symm.trans hreply
      cases hsame
      rfl
    have hunharmed := hsafe (by decide) (by decide) hspared
    have hbefore : (@Files.run _ utc adaArmed (zoeComes ++ [zoeEnters])).state.smeared.find (utf8 "irc:zoe") = none := by
      decide +kernel
    have hsame := hunharmed.smeared
    rw [hbefore] at hsame
    rw [hsame] at hsmeared
    cases hsmeared

end NorelecBot
