import NorelecBot.OperationPassages

/-! # Turning back

A player on the road who names himself rides home for as long as he has been
riding. Only the first time: the road already walked is worked out from two legs
of the same length, and turning back makes the second one shorter.
-/

namespace NorelecBot
open Lib

section
variable [SlotCodec]

omit [SlotCodec] in
theorem raidOf_append {s t : ConquisterState} (raid : Raid) (hnone : raidOf s raid.raider = none)
    (h : t.raids = s.raids ++ [raid]) : raidOf t raid.raider = some raid := by
  rw [raidOf] at hnone ⊢
  rw [h, List.find?_append, hnone, Option.none_or, List.find?_cons_of_pos (by simp)]

omit [SlotCodec] in
theorem raidOf_onFirst {s t : ConquisterState} {username : Str} {f : Raid → Raid}
    (hf : ∀ raid, (f raid).raider = raid.raider) (h : t.raids = onFirst s.raids username f) :
    raidOf t username = (raidOf s username).map f := by
  rw [raidOf, raidOf, h]
  induction s.raids with
  | nil => rfl
  | cons raid raids ih =>
    rw [onFirst]
    split
    · rename_i his
      rw [List.find?_cons_of_pos (by simp [hf, his]), List.find?_cons_of_pos (by simp [his])]
      rfl
    · rename_i other
      rw [List.find?_cons_of_neg (by simp [other]), List.find?_cons_of_neg (by simp [other])]
      exact ih

/-- Whoever is off has a ride with two legs of the same length. -/
theorem raidStart_off {s t : ConquisterState} {userId : ℤ} {username : Str} {now : ℤ} {rules : RaidRules}
    {errand : Errand} {draws : StartDraws} {result : RaidResult}
    (h : raidStart s userId username now rules errand draws = .ok (result, t)) (hoff : result.status = .started) :
    ∃ ride, raidOf t username = some ride ∧ ride.arrive = now + result.seconds ∧
      ride.back = now + 2 * result.seconds := by
  rw [raidStart] at h
  generalize rememberPlatform s username userId = known at h
  split at h
  · rcases rideHome_status h with hstatus | hstatus | hstatus <;> rw [hstatus] at hoff <;> cases hoff
  · split at h
    · cases h
      cases hoff
    · rename_i target _
      rw [setOff] at h
      split at h
      · cases h
        cases hoff
      · rename_i hroad
        split_ifs at h
        iterate 5
          · cases h
            cases hoff
        rw [load] at h
        dsimp only at h
        split at h
        · rename_i status hcannot
          cases h
          rcases cannotCarry_eq_some hcannot with rfl | rfl | rfl <;> cases hoff
        · obtain ⟨-, -, ids, rfl⟩ := depart_eq_ok h
          have hraids := (takeAlong_fields (takePalle known username errand.gift) username errand.giftEmoji).1
          have hfree := (takePalle_fields known username errand.gift).1
          rw [hraids, hfree]
          exact ⟨_, raidOf_append (errand.ride username target now result.seconds) hroad rfl, rfl, rfl⟩

/-- Whoever names himself on the road is told how long he rides, and no more. -/
theorem raidStart_turns {s : ConquisterState} {userId : ℤ} {username : Str} (now : ℤ) (rules : RaidRules)
    {errand : Errand} (draws : StartDraws) {ride : Raid} (hride : raidOf s username = some ride)
    (hhome : homewards (rememberPlatform s username userId) userId username errand) :
    ∃ t, raidStart s userId username now rules errand draws =
        .ok ({ status := .comingHome, seconds := ride.left now }, t) ∧
      raidOf t username = some (ride.turned now) := by
  have hraids := (rememberPlatform_quiet s username userId).raids
  have hsame : raidOf (rememberPlatform s username userId) username = some ride := by
    rw [← hride, raidOf, raidOf, hraids]
  refine ⟨{ rememberPlatform s username userId with
    raids := onFirst (rememberPlatform s username userId).raids username (·.turned now) }, ?_, ?_⟩
  · rw [raidStart]
    dsimp only
    rw [if_pos hhome, rideHome, hsame]
  · have hturned := raidOf_onFirst (s := rememberPlatform s username userId)
      (t := { rememberPlatform s username userId with
        raids := onFirst (rememberPlatform s username userId).raids username (·.turned now) })
      (f := (·.turned now)) (fun _ => rfl) rfl
    rw [hturned, hsame]
    rfl

/-- A line by which somebody on the road names himself, and what he is told. -/
structure Turn where
  now : ℤ
  result : RaidResult

/-- One line after the other by which a rider names himself. Whatever happens in between leaves the hours of
his ride alone. -/
inductive Turns (username : Str) : ConquisterState → List Turn → ConquisterState → Prop
  | none (s : ConquisterState) : Turns username s [] s
  | meanwhile {s t u : ConquisterState} {turns : List Turn}
      (same : (raidOf t username).map (fun ride => (ride.arrive, ride.back)) =
        (raidOf s username).map fun ride => (ride.arrive, ride.back)) :
      Turns username t turns u → Turns username s turns u
  | named {s t u : ConquisterState} {turns : List Turn} {userId now : ℤ} {rules : RaidRules} {errand : Errand}
      {draws : StartDraws} {result : RaidResult}
      (home : homewards (rememberPlatform s username userId) userId username errand)
      (told : raidStart s userId username now rules errand draws = .ok (result, t)) :
      Turns username t turns u → Turns username s (⟨now, result⟩ :: turns) u

/-- When a rider who first turned back at some time is to be home. -/
def homeAt (since seconds turned : ℤ) : ℤ :=
  if turned < since + seconds then turned + (turned - since) else since + 2 * seconds

/-- He is told the seconds that are left until he is home. -/
def Turn.Exact (home : ℤ) (turn : Turn) : Prop :=
  turn.result = { status := .comingHome, seconds := home - turn.now }

def backOf (state : ConquisterState) (username : Str) : Option ℤ := (raidOf state username).map Raid.back

/-- A ride with its hours, as long as it lasts. -/
def RidesBy (state : ConquisterState) (username : Str) (arrive back : ℤ) : Prop :=
  (raidOf state username).map (fun ride => (ride.arrive, ride.back)) = some (arrive, back)

variable {username : Str}

omit [SlotCodec] in
theorem RidesBy.ride {s : ConquisterState} {arrive back : ℤ} (h : RidesBy s username arrive back) :
    ∃ ride, raidOf s username = some ride ∧ ride.arrive = arrive ∧ ride.back = back := by
  obtain ⟨ride, hride, heq⟩ := Option.map_eq_some_iff.mp h
  obtain ⟨harrive, hback⟩ := Prod.mk.inj heq
  exact ⟨ride, hride, harrive, hback⟩

omit [SlotCodec] in
theorem RidesBy.backOf {s : ConquisterState} {arrive back : ℤ} (h : RidesBy s username arrive back) :
    backOf s username = some back := by
  obtain ⟨ride, hride, -, hback⟩ := h.ride
  rw [NorelecBot.backOf, hride, Option.map_some, hback]

def leftOf (arrive back now : ℤ) : ℤ :=
  if now < arrive then max (now - (arrive - (back - arrive))) 0 else max (back - now) 0

theorem Turns.first {s u : ConquisterState} {turn : Turn} {turns : List Turn} {arrive back : ℤ}
    (hrides : RidesBy s username arrive back) (h : Turns username s (turn :: turns) u) :
    turn.Exact (turn.now + leftOf arrive back turn.now) ∧
      ∃ t, RidesBy t username arrive (turn.now + leftOf arrive back turn.now) ∧ Turns username t turns u := by
  generalize hall : turn :: turns = all at h
  induction h with
  | none s => cases hall
  | meanwhile same _ ih => exact ih (same.trans hrides) hall
  | @named s t u turns' userId now rules errand draws result home told hrest =>
    cases hall
    obtain ⟨ride, hride, rfl, rfl⟩ := hrides.ride
    obtain ⟨t', hturns, hturned⟩ := raidStart_turns now rules draws hride home
    cases told.symm.trans hturns
    refine ⟨?_, t, ?_, hrest⟩
    · rw [Turn.Exact, add_sub_cancel_left]
      rfl
    · rw [RidesBy, hturned]
      rfl

theorem Turns.over {s u : ConquisterState} {arrive back : ℤ} (hrides : RidesBy s username arrive back)
    (h : Turns username s [] u) : RidesBy u username arrive back := by
  generalize hall : ([] : List Turn) = all at h
  induction h with
  | none s => exact hrides
  | meanwhile same _ ih => exact ih (same.trans hrides) hall
  | named => cases hall

/-- From the time he would have arrived on, naming himself changes nothing. -/
theorem Turns.late {s u : ConquisterState} {turns : List Turn} {arrive home : ℤ}
    (hrides : RidesBy s username arrive home) (h : Turns username s turns u)
    (hlate : ∀ turn ∈ turns, arrive ≤ turn.now) (hbefore : ∀ turn ∈ turns, turn.now < home) :
    (∀ turn ∈ turns, turn.Exact home) ∧ RidesBy u username arrive home := by
  induction turns generalizing s with
  | nil => exact ⟨nofun, h.over hrides⟩
  | cons turn turns ih =>
    rw [List.forall_mem_cons] at hlate hbefore
    have hleft : turn.now + leftOf arrive home turn.now = home := by
      rw [leftOf]
      split <;> omega
    obtain ⟨hexact, t, hrides', hrest⟩ := h.first hrides
    rw [hleft] at hexact hrides'
    obtain ⟨hothers, hover⟩ := ih hrides' hrest hlate.2 hbefore.2
    exact ⟨List.forall_mem_cons.mpr ⟨hexact, hothers⟩, hover⟩

/-- A rider who names himself again before he is home is home when the first time said exactly if every further
time comes no sooner than he would have arrived. -/
theorem way_home {s started home : ConquisterState} {userId since : ℤ} {rules : RaidRules} {errand : Errand}
    {draws : StartDraws} {result : RaidResult}
    (hoff : raidStart s userId username since rules errand draws = .ok (result, started))
    (hstarted : result.status = .started) {first : Turn} {later : List Turn}
    (hturns : Turns username started (first :: later) home)
    (htimes : (since :: (first :: later).map Turn.now).Pairwise (· ≤ ·))
    (hout : first.now < since + 2 * result.seconds)
    (hbefore : ∀ turn ∈ later, turn.now < homeAt since result.seconds first.now) :
    ((∀ turn ∈ first :: later, turn.Exact (homeAt since result.seconds first.now)) ∧
        backOf home username = some (homeAt since result.seconds first.now)) ↔
      ∀ turn ∈ later, since + result.seconds ≤ turn.now := by
  obtain ⟨ride, hride, harrive, hback⟩ := raidStart_off hoff hstarted
  have hrides : RidesBy started username (since + result.seconds) (since + 2 * result.seconds) := by
    rw [RidesBy, hride, Option.map_some, harrive, hback]
  obtain ⟨hexact, t, hturned, hrest⟩ := hturns.first hrides
  rw [List.map_cons, List.pairwise_cons, List.forall_mem_cons, List.pairwise_cons] at htimes
  obtain ⟨⟨hsince, -⟩, hfirst, hsorted⟩ := htimes
  have hhome : first.now + leftOf (since + result.seconds) (since + 2 * result.seconds) first.now =
      homeAt since result.seconds first.now := by
    rw [leftOf, homeAt]
    split <;> omega
  rw [hhome] at hexact hturned
  refine ⟨fun ⟨hall, _⟩ turn hturn => ?_, fun hlate => ?_⟩
  · cases later with
    | nil => cases hturn
    | cons second others =>
      rw [List.map_cons, List.pairwise_cons] at hsorted
      have hsecond : second.now ≤ turn.now := by
        rcases List.mem_cons.mp hturn with rfl | hmem
        · exact le_rfl
        · exact hsorted.1 _ (List.mem_map_of_mem hmem)
      have hafter := hfirst second.now (List.mem_map_of_mem List.mem_cons_self)
      have hnot := hbefore second List.mem_cons_self
      have htold := hall second (List.mem_cons_of_mem _ List.mem_cons_self)
      have htrue := (hrest.first hturned).1
      rw [Turn.Exact, htold] at htrue
      have hseconds := congrArg RaidResult.seconds htrue
      dsimp only at hseconds
      rw [add_sub_cancel_left, leftOf] at hseconds
      by_contra hearly
      rw [homeAt] at hseconds hnot
      -- The road already walked is counted as if the way back were still a whole leg.
      split_ifs at hseconds hnot <;> omega
  · obtain ⟨hothers, hover⟩ := hrest.late hturned hlate hbefore
    exact ⟨List.forall_mem_cons.mpr ⟨hexact, hothers⟩, hover.backOf⟩

end

/-- What is left on file by what was asked. -/
def leaving {α : Type} (outcome : Except Failure (α × ConquisterState)) : ConquisterState :=
  (outcome.toOption.map Prod.snd).getD {}

theorem answered {α : Type} {outcome : Except Failure (α × ConquisterState)} {result : α}
    (h : outcome.toOption.map Prod.fst = some result) : outcome = .ok (result, leaving outcome) := by
  cases outcome with
  | error failure => cases h
  | ok outcome =>
    cases h
    rfl

/-- Alice and Bob live 99 seconds apart. -/
def neighbours : ConquisterState := { ids := (OrderedMap.empty.set (utf8 "alice") 0).set (utf8 "bob") 99999 }

def aliceRides : Except Failure (RaidResult × ConquisterState) :=
  raidStart neighbours 0 (utf8 "alice") 0 {} { target := utf8 "bob" } ⟨[], []⟩

def aliceNames (s : ConquisterState) (now : ℤ) : Except Failure (RaidResult × ConquisterState) :=
  raidStart s 0 (utf8 "alice") now {} { target := utf8 "alice" } ⟨[], []⟩

theorem aliceRides_eq : aliceRides = .ok ({ target := utf8 "bob", seconds := 99 }, leaving aliceRides) :=
  answered (by decide +kernel)

theorem aliceNames_turns {s : ConquisterState} {now : ℤ} {result : RaidResult}
    (h : (aliceNames s now).toOption.map Prod.fst = some result)
    (hhome : homewards (rememberPlatform s (utf8 "alice") 0) 0 (utf8 "alice") { target := utf8 "alice" }) :
    Turns (utf8 "alice") s [⟨now, result⟩] (leaving (aliceNames s now)) :=
  .named hhome (answered h) (.none _)

/-- After 60 seconds on the road she turns, and ten later she asks again and is home at once. -/
theorem turned_twice : ∃ home, Turns (utf8 "alice") (leaving aliceRides)
      [⟨60, { status := .comingHome, seconds := 60 }⟩, ⟨70, { status := .comingHome, seconds := 0 }⟩] home ∧
    backOf home (utf8 "alice") = some 70 ∧ homeAt 0 99 60 = 120 := by
  refine ⟨leaving (aliceNames (leaving (aliceNames (leaving aliceRides) 60)) 70), ?_, by decide +kernel, by decide⟩
  exact .named (by decide +kernel) (answered (by decide +kernel)) (aliceNames_turns (by decide +kernel) (by decide +kernel))

/-- Ten seconds before she would have been there, and again once she would have been. -/
theorem way_home_alice : backOf (leaving (aliceNames (leaving (aliceNames (leaving aliceRides) 89)) 99)) (utf8 "alice") =
    some (homeAt 0 99 89) := by
  have hturns : Turns (utf8 "alice") (leaving aliceRides)
      [⟨89, { status := .comingHome, seconds := 89 }⟩, ⟨99, { status := .comingHome, seconds := 79 }⟩]
      (leaving (aliceNames (leaving (aliceNames (leaving aliceRides) 89)) 99)) :=
    .named (by decide +kernel) (answered (by decide +kernel)) (aliceNames_turns (by decide +kernel) (by decide +kernel))
  have hhome := (way_home aliceRides_eq rfl hturns (by decide) (by decide) (by decide)).mpr (by decide)
  exact hhome.2

end NorelecBot
