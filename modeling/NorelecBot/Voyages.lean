import NorelecBot.Lib.Logbook
import NorelecBot.Onward

/-! # Every ride comes home once

Rides are numbered as they set off, and what is said of each is written in a
logbook: that it set off, turned back, reached its target, came home. The keeper
passes over the list once; a ☢️ that lands behind him, on somebody whose ride he
has already passed, takes that ride off the list with nothing said.
-/

namespace NorelecBot
open Lib

inductive Mark where
  | setOff
  | turned
  | arrived
  | returned
  | cleared
  deriving DecidableEq, Repr

inductive Stage where
  | ashore
  | outward
  | homeward
  | gone
  deriving DecidableEq, Repr

/-- What may be said next of a ride. One that is called off comes home from wherever it is. -/
def Stage.next : Stage → Mark → Option Stage
  | .ashore, .setOff => some .outward
  | .outward, .turned => some .homeward
  | .outward, .arrived => some .homeward
  | .outward, .returned => some .gone
  | .outward, .cleared => some .gone
  | .homeward, .turned => some .homeward
  | .homeward, .returned => some .gone
  | .homeward, .cleared => some .gone
  | _, _ => none

/-- A ride reached its target, to rob or to deliver, or is home. -/
def Mark.of (event : RaidEvent) : Mark := if event.kind = .returned then .returned else .arrived

/-- The numbers of the rides on file, in their order, and all that was ever said of each. -/
structure Logbook where
  numbers : List ℕ
  next : ℕ
  log : List (ℕ × Mark)

/-- Whoever is on the road when the book is opened has a number. -/
def Logbook.opened (raids : List Raid) : Logbook := ⟨List.range raids.length, raids.length, []⟩

def Logbook.setsOff (book : Logbook) : Logbook :=
  ⟨book.numbers ++ [book.next], book.next + 1, book.log ++ [(book.next, .setOff)]⟩

def Logbook.turns (book : Logbook) (index : ℕ) : Logbook :=
  { book with log := book.log ++ (book.numbers[index]?.map fun number => (number, Mark.turned)).toList }

def Logbook.cleared (book : Logbook) : Logbook :=
  { book with numbers := [], log := book.log ++ book.numbers.map fun number => (number, .cleared) }

section
variable [SlotCodec] [Clock]

/-- What the keeper says of each ride, with its place on the list. -/
def roundEvents (now : ℤ) (rules : RaidRules) (draws : ℕ → RaidDraws) : ℕ → ℕ → ConquisterState → List (ℕ × RaidEvent)
  | 0, _, _ => []
  | count + 1, index, state =>
    match settleRide state index now rules (draws index) with
    | .error _ => []
    | .ok (events, settled) =>
      events.map (fun event => (index, event)) ++ roundEvents now rules draws count (index + 1) settled

/-- What is said of the rides in a keeper's round, by their numbers. -/
def roundMarks (numbers : List ℕ) (events : List (ℕ × RaidEvent)) : List (ℕ × Mark) :=
  events.filterMap fun entry => numbers[entry.1]?.map fun number => (number, Mark.of entry.2)

/-- The rides as the keeper leaves them, before those that are over go. -/
def walkedRides (now : ℤ) (rules : RaidRules) (draws : DueDraws) (before : ConquisterState) : List Raid :=
  match settleRides now rules draws.ride before.raids.length 0 before with
  | .error _ => before.raids
  | .ok (_, after) => after.raids

def Logbook.round (book : Logbook) (state : ConquisterState) (now : ℤ) (rules : RaidRules) (draws : DueDraws) :
    Logbook :=
  let before := (beforeRides state now rules draws).2
  { book with
    numbers := numbersOf (fun raid => ¬ raid.over now) book.numbers (walkedRides now rules draws before)
    log := book.log ++ roundMarks book.numbers (roundEvents now rules draws.ride before.raids.length 0 before) }

def Logbook.write (book : Logbook) (files : Files) (op : Op) : Logbook :=
  match step files op with
  | .error _ => book
  | .ok (reply, _) =>
    match op, reply with
    | .raidStart _ username .., .raidStart result =>
      if result.status = .started then book.setsOff
      else if result.status = .comingHome then
        book.turns (files.state.raids.findIdx fun raid => raid.raider = username)
      else book
    | .raidDue now rules draws, _ => book.round files.state now rules draws
    | .burn .., .burn result => if result.reset then book.cleared else book
    | _, _ => book

def Logbook.writeAll : Logbook → Files → List Op → Logbook
  | book, _, [] => book
  | book, files, op :: ops => (book.write files op).writeAll (files.after op) ops

/-- The ride at an index brings a ☢️ now, to the house of somebody whose ride stands before it on the list and is
still under way. -/
def strandsAt (state : ConquisterState) (index : ℕ) (now : ℤ) (rules : RaidRules) (draws : RaidDraws) : Bool :=
  match state.raids[index]? with
  | none => false
  | some raid =>
    raid.due now && raid.throws && isPower raid.giftEmoji .nuke &&
      (state.raids.take index).any fun passed =>
        passed.raider = struck raid (sentBack state raid rules draws.mailbox) && !passed.over now

def strandsFrom (now : ℤ) (rules : RaidRules) (draws : ℕ → RaidDraws) : ℕ → ℕ → ConquisterState → Bool
  | 0, _, _ => false
  | count + 1, index, state =>
    strandsAt state index now rules (draws index) ||
      match settleRide state index now rules (draws index) with
      | .error _ => false
      | .ok (_, settled) => strandsFrom now rules draws count (index + 1) settled

/-- Whether the keeper's round strands a ride he has passed. -/
def strands (state : ConquisterState) : Op → Bool
  | .raidDue now rules draws =>
    strandsFrom now rules draws.ride (beforeRides state now rules draws).2.raids.length 0
      (beforeRides state now rules draws).2
  | _ => false

/-- No round of a run strands anybody. -/
def strandsNobody : Files → List Op → Bool
  | _, [] => true
  | files, op :: ops => !strands files.state op && strandsNobody (files.after op) ops

/-- The events of a walk are those said of each ride in turn. -/
theorem roundEvents_events {now : ℤ} {rules : RaidRules} {draws : ℕ → RaidDraws} {count index : ℕ}
    {s t : ConquisterState} {events : List RaidEvent}
    (h : settleRides now rules draws count index s = .ok (events, t)) :
    (roundEvents now rules draws count index s).map Prod.snd = events := by
  induction count generalizing index s events with
  | zero =>
    cases h
    rfl
  | succ count ih =>
    rw [settleRides] at h
    rw [roundEvents]
    rcases hfirst : settleRide s index now rules (draws index) with _ | ⟨first, settled⟩
    · rw [hfirst] at h
      cases h
    rw [hfirst] at h
    dsimp only at h
    rcases hothers : settleRides now rules draws count (index + 1) settled with _ | ⟨others, after⟩
    · rw [hothers] at h
      cases h
    rw [hothers] at h
    cases h
    simp [ih hothers, Function.comp_def]

omit [Clock] in
theorem sentBack_congr {s t : ConquisterState} (h : t.furniture = s.furniture) (raid : Raid) (rules : RaidRules) (draw : ℕ) :
    sentBack t raid rules draw = sentBack s raid rules draw := by
  rw [sentBack, sentBack, houseCopies, houseCopies, slotsOf, slotsOf, h]

omit [Clock] in
theorem deliverEmoji_reset {s : ConquisterState} {index : ℕ} {raid : Raid} {event : RaidEvent} {now : ℤ}
    {rules : RaidRules} {draws : RaidDraws} (hspared : event.reset = false)
    (h : (deliverEmoji s index raid event now rules draws).1.reset = true) :
    raid.throws = true ∧ isPower raid.giftEmoji .nuke = true ∧
      (deliverEmoji s index raid event now rules draws).1.sentBack = sentBack s raid rules draws.mailbox := by
  rw [deliverEmoji] at h ⊢
  dsimp only at h ⊢
  split at h
  · rw [hspared] at h
    cases h
  · rename_i hhome
    split at h
    · rename_i hthrows
      rw [if_neg hhome, if_pos hthrows]
      exact ⟨hthrows, land_reset h, rfl⟩
    · split at h <;> rw [hspared] at h <;> cases h

omit [Clock] in
theorem deliver_reset {s : ConquisterState} {index : ℕ} {raid : Raid} {event : RaidEvent} {now : ℤ}
    {rules : RaidRules} {draws : RaidDraws} (hspared : event.reset = false)
    (h : (deliver s index raid event now rules draws).1.reset = true) :
    raid.throws = true ∧ isPower raid.giftEmoji .nuke = true ∧
      (deliver s index raid event now rules draws).1.sentBack = sentBack s raid rules draws.mailbox := by
  have hhouse : (deliverPalle s index raid).furniture = s.furniture := by
    rw [deliverPalle]
    split <;> rfl
  rw [deliver] at h ⊢
  by_cases hnothing : raid.giftEmoji = []
  · rw [if_pos hnothing, hspared] at h
    cases h
  · rw [if_neg hnothing] at h ⊢
    have hbringing : ({ event with kind := .delivered, gift := raid.gift } : RaidEvent).reset = false := hspared
    obtain ⟨hthrows, hnuke, hback⟩ := deliverEmoji_reset hbringing h
    exact ⟨hthrows, hnuke, hback.trans (sentBack_congr hhouse raid rules _)⟩

/-- Only a ☢️ that is thrown resets anybody, and it lands where the 📮 sends it. -/
theorem arrival_reset {s t : ConquisterState} {index : ℕ} {raid : Raid} {now : ℤ} {rules : RaidRules}
    {draws : RaidDraws} {event : RaidEvent} (hraid : s.raids[index]? = some raid) (hfresh : raid.arrived = false)
    (h : arrival s index raid now rules draws = .ok (event, t)) (hreset : event.reset = true) :
    raid.throws = true ∧ isPower raid.giftEmoji .nuke = true ∧
      event.sentBack = sentBack s raid rules draws.mailbox := by
  rw [arrival] at h
  split at h
  · cases h
  · rename_i outcome after houtcome
    obtain ⟨rfl, rfl⟩ := Prod.mk.inj (Except.ok.inj h)
    obtain ⟨-, -, hsame, hsent⟩ := noteChanges_keeps outcome raid (arrivalEvent (onRide s index Raid.reached) raid now) after
    rw [hsame] at hreset
    rw [hsent]
    split at houtcome
    · rename_i hbrings
      have hnot : ¬ (raid.gift = 0 ∧ raid.giftEmoji = []) := by
        rintro ⟨hgift, hemoji⟩
        rw [Raid.brings, hgift, hemoji] at hbrings
        cases hbrings
      rw [if_neg hnot] at houtcome
      have hdelivered := congrArg Prod.fst (Except.ok.inj houtcome)
      dsimp only at hdelivered
      rw [← hdelivered] at hreset ⊢
      exact deliver_reset rfl hreset
    · rename_i hbrings
      have hrob : raid.gift ≤ 0 ∧ raid.giftEmoji = [] := by simpa [Raid.brings] using hbrings
      obtain ⟨amount, -, hrobbing, -⟩ := raidHouse_round hraid hfresh hrob houtcome
      rw [hrobbing.reset] at hreset
      split at hreset
      · have hdoor := (atTheDoor_round (onRide s index Raid.reached) s.raids raid
          (arrivalEvent (onRide s index Raid.reached) raid now) now rules draws rfl).2.2.2
        rw [hdoor] at hreset
        cases hreset
      · cases hreset

section Walk
variable {start : ℕ → Stage} {log : List (ℕ × Mark)}

/-- It set off, and it is not home; while it has not arrived, nothing else was said of it. -/
def Afoot (start : ℕ → Stage) (log : List (ℕ × Mark)) (number : ℕ) (raid : Raid) : Prop :=
  ∃ stage, Staged Stage.next start log number stage ∧ (stage = .outward ∨ stage = .homeward) ∧
    (raid.arrived = false → stage = .outward)

omit [SlotCodec] [Clock] in
theorem Afoot.other {number written : ℕ} {raid : Raid} (h : Afoot start log number raid) (hne : number ≠ written)
    (mark : Mark) : Afoot start (log ++ [(written, mark)]) number raid := by
  obtain ⟨stage, hstaged, hstage, hout⟩ := h
  exact ⟨stage, hstaged.other hne mark, hstage, hout⟩

omit [SlotCodec] [Clock] in
/-- It may be called off with nothing said. -/
theorem Afoot.settled {number : ℕ} {raid raid' : Raid} (h : Afoot start log number raid) (harrived : raid'.arrived = true) :
    Afoot start log number raid' := by
  obtain ⟨stage, hstaged, hstage, -⟩ := h
  refine ⟨stage, hstaged, hstage, fun hfresh => ?_⟩
  rw [harrived] at hfresh
  cases hfresh

omit [SlotCodec] [Clock] in
theorem Afoot.arrives {number : ℕ} {raid raid' : Raid} (h : Afoot start log number raid) (hfresh : raid.arrived = false)
    (harrived : raid'.arrived = true) : Afoot start (log ++ [(number, .arrived)]) number raid' := by
  obtain ⟨stage, hstaged, -, hout⟩ := h
  rw [hout hfresh] at hstaged
  refine ⟨.homeward, hstaged.write rfl, Or.inr rfl, fun hfresh' => ?_⟩
  rw [harrived] at hfresh'
  cases hfresh'

omit [SlotCodec] [Clock] in
theorem Afoot.returns {number : ℕ} {raid : Raid} (h : Afoot start log number raid) :
    Staged Stage.next start (log ++ [(number, .returned)]) number .gone := by
  obtain ⟨stage, hstaged, rfl | rfl, -⟩ := h
  · exact hstaged.write rfl
  · exact hstaged.write rfl

/-- The keeper is at an index: behind him, what is over is gone, and everything else is under way. -/
structure Walked (start : ℕ → Stage) (numbers : List ℕ) (now : ℤ) (index : ℕ) (raids : List Raid)
    (log : List (ℕ × Mark)) : Prop where
  length : numbers.length = raids.length
  behind : ∀ (place number : ℕ) (raid : Raid), numbers[place]? = some number → raids[place]? = some raid →
    place < index → raid.over now = true → Staged Stage.next start log number .gone
  afoot : ∀ (place number : ℕ) (raid : Raid), numbers[place]? = some number → raids[place]? = some raid →
    ¬ (place < index ∧ raid.over now = true) → Afoot start log number raid

variable {numbers : List ℕ} {now : ℤ} {index : ℕ}

omit [SlotCodec] [Clock] in
theorem ne_of_place_ne (hnodup : numbers.Nodup) {place other number written : ℕ} (hnumber : numbers[place]? = some number)
    (hwritten : numbers[other]? = some written) (hne : place ≠ other) : number ≠ written := by
  rintro rfl
  exact hne ((List.getElem?_inj (List.getElem?_eq_some_iff.mp hnumber).1 hnodup).mp (hnumber.trans hwritten.symm))

omit [SlotCodec] [Clock] in
/-- What becomes of the rides when something lands. -/
theorem getElem?_struckRides (raids : List Raid) (victim : Str) (reset : Bool) (now : ℤ) (place : ℕ) :
    (struckRides raids victim reset now)[place]? = raids[place]?.map fun raid =>
      if reset = true ∧ raid.raider = victim then raid.calledOff now else raid := by
  rw [struckRides]
  split
  · rename_i hreset
    rw [callOff, List.getElem?_map]
    congr 1
    funext raid
    simp [hreset]
  · rename_i hspared
    cases raids[place]? <;> simp [hspared]

omit [SlotCodec] [Clock] in
/-- A ride that arrives, and whom it strikes: nobody behind the keeper who is still under way. -/
theorem Walked.arrives {raids : List Raid} {raid raid' : Raid} {number : ℕ} {victim : Str} {reset : Bool}
    (h : Walked start numbers now index raids log) (hnodup : numbers.Nodup) (hraid : raids[index]? = some raid)
    (hnumber : numbers[index]? = some number) (hfresh : raid.arrived = false) (hsettled : raid.Settled raid')
    (hsafe : reset = true → ∀ place passed, place < index → raids[place]? = some passed → passed.raider = victim →
      passed.over now = true) :
    Walked start numbers now index (struckRides (raids.set index raid') victim reset now) (log ++ [(number, .arrived)]) := by
  have hlt := (List.getElem?_eq_some_iff.mp hraid).1
  have hhere := h.afoot index number raid hnumber hraid fun hbehind => lt_irrefl _ hbehind.1
  have hlength : (struckRides (raids.set index raid') victim reset now).length = raids.length := by
    rw [struckRides]
    split <;> simp [callOff]
  refine ⟨h.length.trans hlength.symm, fun place other ride hother hride hbehind hover => ?_,
    fun place other ride hother hride hfront => ?_⟩
  · have hne : place ≠ index := hbehind.ne
    have hnumbers := ne_of_place_ne hnodup hother hnumber hne
    rw [getElem?_struckRides, List.getElem?_set_ne hne.symm] at hride
    obtain ⟨old, hold, rfl⟩ := Option.map_eq_some_iff.mp hride
    apply Staged.other _ hnumbers
    apply h.behind place other old hother hold hbehind
    split at hover
    · rename_i hstruck
      exact hsafe hstruck.1 place old hbehind hold hstruck.2
    · exact hover
  · rw [getElem?_struckRides] at hride
    by_cases hplace : place = index
    · subst hplace
      rw [hnumber] at hother
      cases hother
      rw [List.getElem?_set_self hlt, Option.map_some] at hride
      cases hride
      apply hhere.arrives hfresh
      split
      · rfl
      · exact hsettled.arrived
    · have hnumbers := ne_of_place_ne hnodup hother hnumber hplace
      rw [List.getElem?_set_ne (Ne.symm hplace)] at hride
      obtain ⟨old, hold, rfl⟩ := Option.map_eq_some_iff.mp hride
      apply Afoot.other _ hnumbers
      split at hfront
      · rename_i hstruck
        rw [if_pos hstruck]
        have hahead : ¬ place < index := fun hbehind => hfront ⟨hbehind, by simp [Raid.over, Raid.calledOff]⟩
        exact (h.afoot place other old hother hold fun hboth => hahead hboth.1).settled rfl
      · rename_i hstruck
        rw [if_neg hstruck]
        exact h.afoot place other old hother hold hfront

omit [SlotCodec] [Clock] in
/-- The keeper goes on, once the ride he is at is settled at home if it is over. -/
theorem Walked.passes {raids : List Raid} {raid : Raid} {number : ℕ} (h : Walked start numbers now index raids log)
    (hnodup : numbers.Nodup) (hraid : raids[index]? = some raid) (hnumber : numbers[index]? = some number) :
    Walked start numbers now (index + 1) raids
      (log ++ if raid.over now then [(number, .returned)] else []) := by
  have hhere := h.afoot index number raid hnumber hraid fun hbehind => lt_irrefl _ hbehind.1
  have hwritten {other place : ℕ} (hother : numbers[place]? = some other) (hne : place ≠ index) :
      entriesOf (if raid.over now = true then [(number, Mark.returned)] else []) other = [] := by
    split
    · exact entriesOf_of_ne (ne_of_place_ne hnodup hother hnumber hne) _
    · rfl
  refine ⟨h.length, fun place other ride hother hride hbehind hover => ?_,
    fun place other ride hother hride hfront => ?_⟩
  · rcases Nat.lt_succ_iff_lt_or_eq.mp hbehind with hlt | rfl
    · exact (h.behind place other ride hother hride hlt hover).silent (hwritten hother hlt.ne)
    · rw [hnumber] at hother
      cases hother
      rw [hraid] at hride
      cases hride
      rw [if_pos hover]
      exact hhere.returns
  · by_cases hplace : place = index
    · subst hplace
      rw [hnumber] at hother
      cases hother
      rw [hraid] at hride
      cases hride
      rw [if_neg fun hover => hfront ⟨Nat.lt_succ_self _, hover⟩, List.append_nil]
      exact hhere
    · have hstill : ¬ (place < index ∧ ride.over now = true) := fun hboth => hfront ⟨Nat.lt_succ_of_lt hboth.1, hboth.2⟩
      obtain ⟨stage, hstaged, hstage, hout⟩ := h.afoot place other ride hother hride hstill
      exact ⟨stage, hstaged.silent (hwritten hother hplace), hstage, hout⟩

omit [SlotCodec] [Clock] in
theorem roundMarks_append (numbers : List ℕ) (events later : List (ℕ × RaidEvent)) :
    roundMarks numbers (events ++ later) = roundMarks numbers events ++ roundMarks numbers later :=
  List.filterMap_append

omit [SlotCodec] [Clock] in
theorem roundMarks_single {numbers : List ℕ} {index number : ℕ} (h : numbers[index]? = some number) (event : RaidEvent) :
    roundMarks numbers [(index, event)] = [(number, Mark.of event)] := by
  simp [roundMarks, h]

omit [Clock] in
/-- A ride that is over is said to be home, and nothing else is. -/
theorem settleHomecoming_marks {s : ConquisterState} {raid : Raid} {number : ℕ} (now : ℤ)
    (hraid : s.raids[index]? = some raid) (hnumber : numbers[index]? = some number) :
    roundMarks numbers ((settleHomecoming s index now).1.map fun event => (index, event)) =
      if raid.over now then [(number, .returned)] else [] := by
  rw [settleHomecoming, hraid]
  dsimp only
  split
  · exact roundMarks_single hnumber _
  · rfl

/-- What the ride at an index strikes lies before the keeper, or is over. -/
theorem safe_of_strandsAt {s t : ConquisterState} {raid : Raid} {rules : RaidRules} {draws : RaidDraws}
    {event : RaidEvent} (hraid : s.raids[index]? = some raid) (hdue : raid.due now = true)
    (h : arrival s index raid now rules draws = .ok (event, t)) (hsafe : strandsAt s index now rules draws = false)
    (hreset : event.reset = true) (place : ℕ) (passed : Raid) (hbehind : place < index)
    (hpassed : s.raids[place]? = some passed) (hstruck : passed.raider = struck raid event.sentBack) :
    passed.over now = true := by
  have hfresh : raid.arrived = false := by
    simp only [Raid.due, Bool.and_eq_true, Bool.not_eq_true'] at hdue
    exact hdue.1
  obtain ⟨hthrows, hnuke, hback⟩ := arrival_reset hraid hfresh h hreset
  have hmem : passed ∈ s.raids.take index := by
    apply List.mem_of_getElem?
    rw [List.getElem?_take_of_lt hbehind]
    exact hpassed
  simp only [strandsAt, hraid, hdue, hthrows, hnuke, Bool.true_and, List.any_eq_false] at hsafe
  have hspared := hsafe passed hmem
  rw [← hback, hstruck] at hspared
  simpa using hspared

theorem settleRide_walked {s t : ConquisterState} {rules : RaidRules} {draws : RaidDraws} {events : List RaidEvent}
    (hwalked : Walked start numbers now index s.raids log) (hnodup : numbers.Nodup) (hindex : index < s.raids.length)
    (hsafe : strandsAt s index now rules draws = false) (h : settleRide s index now rules draws = .ok (events, t)) :
    Walked start numbers now (index + 1) t.raids (log ++ roundMarks numbers (events.map fun event => (index, event))) := by
  have hraid := List.getElem?_eq_getElem hindex
  have hnumber := List.getElem?_eq_getElem (hwalked.length ▸ hindex)
  rw [settleRide] at h
  split at h
  · cases h
  rename_i arrived there harrived
  cases h
  rw [(settleHomecoming_round there index now).2, List.map_append, roundMarks_append, ← List.append_assoc]
  rw [settleArrival, hraid] at harrived
  dsimp only at harrived
  by_cases hdue : s.raids[index].due now = true
  · rw [if_pos hdue] at harrived
    split at harrived
    · cases harrived
    rename_i event after harrival
    cases harrived
    have hfresh : s.raids[index].arrived = false := by
      simp only [Raid.due, Bool.and_eq_true, Bool.not_eq_true'] at hdue
      exact hdue.1
    obtain ⟨hkind, raid', hsettled, hafter, -⟩ := arrival_round hraid hraid hfresh harrival
    have hthere := hwalked.arrives hnodup hraid hnumber hfresh hsettled
      (fun hreset place passed hbehind hpassed hstruck =>
        safe_of_strandsAt hraid hdue harrival hsafe hreset place passed hbehind hpassed hstruck)
    rw [← hafter] at hthere
    have hindex' : index < there.raids.length := by
      rw [← hthere.length, hwalked.length]
      exact hindex
    have hmark : Mark.of event = .arrived := by
      rcases hkind with hstolen | hdelivered
      · simp [Mark.of, hstolen]
      · simp [Mark.of, hdelivered]
    have hraid' := List.getElem?_eq_getElem hindex'
    rw [settleHomecoming_marks now hraid' hnumber, List.map_singleton, roundMarks_single hnumber, hmark]
    exact hthere.passes hnodup hraid' hnumber
  · rw [if_neg hdue] at harrived
    cases harrived
    rw [settleHomecoming_marks now hraid hnumber]
    simpa [roundMarks] using hwalked.passes hnodup hraid hnumber

theorem settleRides_walked {s t : ConquisterState} {rules : RaidRules} {draws : ℕ → RaidDraws} {count : ℕ}
    {events : List RaidEvent} (hwalked : Walked start numbers now index s.raids log) (hnodup : numbers.Nodup)
    (hcount : index + count = s.raids.length) (hsafe : strandsFrom now rules draws count index s = false)
    (h : settleRides now rules draws count index s = .ok (events, t)) :
    Walked start numbers now (index + count) t.raids
      (log ++ roundMarks numbers (roundEvents now rules draws count index s)) := by
  induction count generalizing index s log events with
  | zero =>
    cases h
    rw [roundEvents]
    simpa [roundMarks] using hwalked
  | succ count ih =>
    rw [settleRides] at h
    rw [strandsFrom, Bool.or_eq_false_iff] at hsafe
    rw [roundEvents]
    rcases hfirst : settleRide s index now rules (draws index) with _ | ⟨first, settled⟩
    · rw [hfirst] at h
      cases h
    rw [hfirst] at h hsafe
    dsimp only at h
    rcases hothers : settleRides now rules draws count (index + 1) settled with _ | ⟨others, after⟩
    · rw [hothers] at h
      cases h
    rw [hothers] at h
    cases h
    have hnext := settleRide_walked hwalked hnodup (by omega) hsafe.1 hfirst
    have hlength : index + 1 + count = settled.raids.length := by
      rw [← hnext.length, hwalked.length]
      omega
    have hrest := ih hnext hlength hsafe.2 hothers
    rw [List.append_assoc, ← roundMarks_append] at hrest
    rw [show index + (count + 1) = index + 1 + count by omega]
    exact hrest

end Walk

/-- What is on file has its number and is under way, and every other number given is that of a ride that is over. -/
structure Logged (start : ℕ → Stage) (book : Logbook) (raids : List Raid) : Prop where
  nodup : book.numbers.Nodup
  given : ∀ number ∈ book.numbers, number < book.next
  afoot : List.Forall₂ (Afoot start book.log) book.numbers raids
  gone : ∀ number < book.next, number ∉ book.numbers → Staged Stage.next start book.log number .gone
  ahead : ∀ number ≥ book.next, Staged Stage.next start book.log number .ashore

variable {start : ℕ → Stage} {book : Logbook}

omit [SlotCodec] [Clock] in
theorem roundMarks_numbers {numbers : List ℕ} {events : List (ℕ × RaidEvent)} :
    ∀ entry ∈ roundMarks numbers events, entry.1 ∈ numbers := by
  intro entry hentry
  obtain ⟨event, -, hmarked⟩ := List.mem_filterMap.mp hentry
  obtain ⟨number, hnumber, rfl⟩ := Option.map_eq_some_iff.mp hmarked
  exact List.mem_of_getElem? hnumber

omit [SlotCodec] [Clock] in
/-- Nothing is written of a number that is not on the list. -/
theorem roundMarks_silent {numbers : List ℕ} {number : ℕ} (h : number ∉ numbers) (events : List (ℕ × RaidEvent)) :
    entriesOf (roundMarks numbers events) number = [] :=
  entriesOf_of_forall_ne fun entry hentry heq => h (heq ▸ roundMarks_numbers entry hentry)

omit [SlotCodec] [Clock] in
theorem Logged.walked {raids : List Raid} (h : Logged start book raids) (now : ℤ) :
    Walked start book.numbers now 0 raids book.log := by
  refine ⟨h.afoot.length_eq, fun place number raid _ _ hbehind => absurd hbehind (Nat.not_lt_zero place), ?_⟩
  intro place number raid hnumber hraid _
  obtain ⟨hlt, rfl⟩ := List.getElem?_eq_some_iff.mp hnumber
  obtain ⟨hlt', rfl⟩ := List.getElem?_eq_some_iff.mp hraid
  exact h.afoot.get hlt hlt'

omit [SlotCodec] [Clock] in
/-- Once the keeper has passed everybody, those that are over are gone, and the others are under way. -/
theorem Walked.done {numbers : List ℕ} {now : ℤ} {index : ℕ} {raids : List Raid} {log : List (ℕ × Mark)}
    (h : Walked start numbers now index raids log) (hall : index = raids.length) :
    List.Forall₂ (fun number raid => if decide (¬ raid.over now = true) = true then Afoot start log number raid
      else Staged Stage.next start log number .gone) numbers raids := by
  rw [List.forall₂_iff_get]
  refine ⟨h.length, fun place hnumber hraid => ?_⟩
  have hnumber' := List.getElem?_eq_getElem hnumber
  have hraid' := List.getElem?_eq_getElem hraid
  simp only [List.get_eq_getElem]
  by_cases hover : raids[place].over now = true
  · rw [if_neg (by simp [hover])]
    exact h.behind place _ _ hnumber' hraid' (hall ▸ hraid) hover
  · rw [if_pos (by simpa using hover)]
    exact h.afoot place _ _ hnumber' hraid' fun hboth => hover hboth.2

theorem Logged.round {state : ConquisterState} {now : ℤ} {rules : RaidRules} {draws : DueDraws}
    {events : List RaidEvent} {after : ConquisterState} (h : Logged start book state.raids)
    (hsafe : strands state (.raidDue now rules draws) = false) (hdue : raidDue state now rules draws = .ok (events, after)) :
    Logged start (book.round state now rules draws) after.raids := by
  have hbefore := (beforeRides_aside state now rules draws).raids
  simp only [raidDue] at hdue
  split at hdue
  · cases hdue
  rename_i walked there hwalk
  cases hdue
  rw [← hbefore] at h
  have hwalked := settleRides_walked (h.walked now) h.nodup (Nat.zero_add _) hsafe hwalk
  have hall : 0 + (beforeRides state now rules draws).2.raids.length = there.raids.length := by
    rw [← hwalked.length, (h.walked now).length, Nat.zero_add]
  obtain ⟨hafoot, hgone⟩ := forall₂_numbersOf (hwalked.done hall)
  have hnumbers : (book.round state now rules draws).numbers =
      numbersOf (fun raid => ¬ raid.over now) book.numbers there.raids := by
    rw [Logbook.round, walkedRides, hwalk]
  have hlog : (book.round state now rules draws).log = book.log ++ roundMarks book.numbers
      (roundEvents now rules draws.ride (beforeRides state now rules draws).2.raids.length 0
        (beforeRides state now rules draws).2) := rfl
  constructor
  · rw [hnumbers]
    exact numbersOf_nodup h.nodup _
  · rw [hnumbers]
    exact fun number hnumber => h.given number (mem_numbersOf hnumber)
  · rw [hnumbers, hlog]
    exact hafoot
  · rw [hnumbers, hlog]
    intro number hgiven hleft
    by_cases hthere : number ∈ book.numbers
    · obtain ⟨-, hstaged⟩ := hgone number hthere hleft
      exact hstaged
    · exact (h.gone number hgiven hthere).silent (roundMarks_silent hthere _)
  · rw [hlog]
    intro number hahead
    exact (h.ahead number hahead).silent
      (roundMarks_silent (fun hthere => absurd (h.given number hthere) (not_lt.mpr hahead)) _)

omit [SlotCodec] [Clock] in
theorem Logged.setsOff {raids : List Raid} (h : Logged start book raids) (ride : Raid) :
    Logged start book.setsOff (raids ++ [ride]) := by
  have hnew : book.next ∉ book.numbers := fun hthere => lt_irrefl _ (h.given _ hthere)
  have hold {number : ℕ} (hnumber : number ∈ book.numbers) : number ≠ book.next := (h.given number hnumber).ne
  rw [Logbook.setsOff]
  constructor
  · change (book.numbers ++ [book.next]).Nodup
    rw [List.nodup_append_comm]
    exact List.nodup_cons.mpr ⟨hnew, h.nodup⟩
  · intro number hnumber
    rw [List.mem_append, List.mem_singleton] at hnumber
    rcases hnumber with hthere | rfl
    · exact Nat.lt_succ_of_lt (h.given number hthere)
    · exact Nat.lt_succ_self _
  · apply List.rel_append
    · apply List.Forall₂.imp _ ((List.forall₂_and_left _ _).mpr ⟨fun _ => hold, h.afoot⟩)
      intro number raid hraid
      exact hraid.2.other hraid.1 _
    · refine .cons ⟨.outward, (h.ahead book.next le_rfl).write rfl, .inl rfl, fun _ => rfl⟩ .nil
  · intro number hgiven hleft
    rw [List.mem_append, List.mem_singleton, not_or] at hleft
    exact (h.gone number (lt_of_le_of_ne (Nat.le_of_lt_succ hgiven) hleft.2) hleft.1).other hleft.2 _
  · intro number hahead
    have hlater : book.next < number := hahead
    exact (h.ahead number hlater.le).other hlater.ne' _

omit [SlotCodec] [Clock] in
theorem onFirst_eq_modify (raids : List Raid) (username : Str) (f : Raid → Raid) :
    onFirst raids username f = raids.modify (raids.findIdx fun raid => raid.raider = username) f := by
  induction raids with
  | nil => rfl
  | cons raid raids ih =>
    rw [onFirst, List.findIdx_cons]
    by_cases hfirst : raid.raider = username
    · simp [hfirst]
    · simp [hfirst, ih]

omit [SlotCodec] [Clock] in
/-- Wherever he is, he is on his way home from then on. -/
theorem Afoot.turns {log : List (ℕ × Mark)} {number : ℕ} {raid : Raid} (h : Afoot start log number raid) (now : ℤ) :
    Afoot start (log ++ [(number, .turned)]) number (raid.turned now) := by
  obtain ⟨stage, hstaged, hunder, -⟩ := h
  have hnext : stage.next .turned = some .homeward := by
    rcases hunder with rfl | rfl <;> rfl
  refine ⟨.homeward, hstaged.write hnext, .inr rfl, fun hfresh => ?_⟩
  cases hfresh

omit [SlotCodec] [Clock] in
theorem Logged.turns {raids : List Raid} (h : Logged start book raids) {index : ℕ} (hindex : index < raids.length)
    (now : ℤ) : Logged start (book.turns index) (raids.modify index fun raid => raid.turned now) := by
  obtain ⟨written, hnumber⟩ : ∃ written, book.numbers[index]? = some written :=
    ⟨_, List.getElem?_eq_getElem (h.afoot.length_eq ▸ hindex)⟩
  have hwritten := List.mem_of_getElem? hnumber
  have hlog : (book.turns index).log = book.log ++ [(written, .turned)] := by
    rw [Logbook.turns, hnumber]
    rfl
  constructor
  · exact h.nodup
  · exact h.given
  · rw [hlog]
    change List.Forall₂ _ book.numbers _
    rw [List.forall₂_iff_get]
    refine ⟨by rw [List.length_modify, h.afoot.length_eq], fun place hplace hride => ?_⟩
    have hthere : place < raids.length := h.afoot.length_eq ▸ hplace
    have hafoot := h.afoot.get hplace hthere
    simp only [List.get_eq_getElem, List.getElem_modify] at hafoot ⊢
    by_cases hhere : index = place
    · subst hhere
      rw [List.getElem?_eq_getElem hplace] at hnumber
      cases hnumber
      rw [if_pos rfl]
      exact hafoot.turns now
    · rw [if_neg hhere]
      exact hafoot.other (ne_of_place_ne h.nodup (List.getElem?_eq_getElem hplace) hnumber (Ne.symm hhere)) _
  · rw [hlog]
    intro number hgiven hleft
    exact (h.gone number hgiven hleft).other (fun heq => hleft (heq ▸ hwritten)) _
  · rw [hlog]
    intro number hahead
    exact (h.ahead number hahead).other (fun heq => absurd (h.given number (heq ▸ hwritten)) (not_lt.mpr hahead)) _

omit [SlotCodec] [Clock] in
theorem Logged.cleared {raids : List Raid} (h : Logged start book raids) : Logged start book.cleared [] := by
  constructor
  · exact List.nodup_nil
  · exact fun number hnumber => absurd hnumber List.not_mem_nil
  · exact .nil
  · intro number hgiven _
    have hentries := entriesOf_map h.nodup Mark.cleared number
    by_cases hthere : number ∈ book.numbers
    · rw [if_pos hthere] at hentries
      obtain ⟨place, hplace, rfl⟩ := List.getElem_of_mem hthere
      obtain ⟨stage, hstaged, hunder, -⟩ := h.afoot.get hplace (h.afoot.length_eq ▸ hplace)
      have hnext : stage.next .cleared = some .gone := by
        rcases hunder with rfl | rfl <;> rfl
      exact hstaged.append hentries hnext
    · rw [if_neg hthere] at hentries
      exact (h.gone number hgiven hthere).silent hentries
  · intro number hahead
    apply (h.ahead number hahead).silent
    rw [entriesOf_map h.nodup, if_neg fun hthere => absurd (h.given number hthere) (not_lt.mpr hahead)]

/-- Whatever is asked of the game, the book is kept, unless the keeper strands a ride he has passed. -/
theorem Logged.write {files files' : Files} {op : Op} {reply : Reply} (h : Logged start book files.state.raids)
    (hsafe : strands files.state op = false) (hstep : step files op = .ok (reply, files')) :
    Logged start (book.write files op) files'.state.raids := by
  have hrides := (step_goes hstep).rides
  rw [Logbook.write, hstep]
  cases op with
  | raidStart userId username now rules errand draws =>
    obtain ⟨result, hstart, rfl, -⟩ := Files.only_eq_ok hstep
    dsimp only
    cases (raidStart_setsOff hstart).2 with
    | stays notOff notTurned same =>
      rw [if_neg notOff, if_neg notTurned, same]
      exact h
    | turns comes riding turned =>
      have hindex : (files.state.raids.findIdx fun raid => raid.raider = username) < files.state.raids.length := by
        rw [raidOf, List.find?_isSome] at riding
        exact List.findIdx_lt_length_of_exists riding
      rw [if_neg (by rw [comes]; decide), if_pos comes, turned, onFirst_eq_modify]
      exact h.turns hindex now
    | off target started away known fair fit pushed =>
      rw [if_pos started, pushed]
      exact h.setsOff _
  | raidDue now rules draws =>
    obtain ⟨events, hdue, rfl, -⟩ := Files.only_eq_ok hstep
    exact h.round hsafe hdue
  | burn player emoji now rules destroy draws =>
    obtain ⟨result, hburn, rfl, -⟩ := Files.only_eq_ok hstep
    dsimp only
    rcases (furnitureBurn_rides hburn).2 with ⟨hspared, hsame⟩ | ⟨hreset, hnone⟩
    · rw [if_neg (by simp [hspared]), hsame]
      exact h
    · rw [if_pos hreset, hnone]
      exact h.cleared
  | _ =>
    cases hrides with
    | same same =>
      rw [same]
      exact h

theorem Logged.writeAll {files : Files} {ops : List Op} (h : Logged start book files.state.raids)
    (hsafe : strandsNobody files ops = true) : Logged start (book.writeAll files ops) (files.run ops).state.raids := by
  induction ops generalizing book files with
  | nil => exact h
  | cons op ops ih =>
    rw [strandsNobody, Bool.and_eq_true, Bool.not_eq_true'] at hsafe
    apply ih _ hsafe.2
    cases hstep : step files op with
    | error failure =>
      rw [Logbook.write, Files.after, hstep]
      exact h
    | ok result =>
      rw [Files.after_eq hstep]
      exact h.write hsafe.1 hstep

/-- The stage a ride is at when the book is opened. -/
def startStage (raids : List Raid) (number : ℕ) : Stage :=
  match raids[number]? with
  | none => .ashore
  | some raid => if raid.arrived then .homeward else .outward

omit [SlotCodec] [Clock] in
theorem logged_opened (raids : List Raid) : Logged (startStage raids) (.opened raids) raids := by
  constructor
  · exact List.nodup_range
  · exact fun number hnumber => List.mem_range.mp hnumber
  · change List.Forall₂ _ (List.range raids.length) raids
    rw [List.forall₂_iff_get]
    refine ⟨List.length_range, fun number hnumber hraid => ?_⟩
    refine ⟨startStage raids number, ?_, ?_, fun hfresh => ?_⟩
    · rw [List.get_eq_getElem, List.getElem_range]
      exact .of_nothing rfl
    · rw [startStage, List.getElem?_eq_getElem hraid]
      dsimp only
      split
      · exact .inr rfl
      · exact .inl rfl
    · rw [List.get_eq_getElem] at hfresh
      rw [startStage, List.getElem?_eq_getElem hraid]
      dsimp only
      rw [if_neg (by simp [hfresh])]
  · exact fun number hgiven hleft => absurd (List.mem_range.mpr hgiven) hleft
  · intro number hahead
    have hnone : startStage raids number = .ashore := by
      rw [startStage, List.getElem?_eq_none hahead]
    exact hnone ▸ .of_nothing rfl

/-- The course of a ride: it sets off, reaches its target or not, turns back, as often as he who rides says so, and
nothing more while it is under way. In the end it comes home, or the whole game is cleared away. -/
def Voyage (said : List Mark) (under : Prop) : Prop :=
  ∃ reached turns ending, said = .setOff :: (reached ++ List.replicate turns .turned ++ ending) ∧
    (reached = [] ∨ reached = [.arrived]) ∧ (under → ending = []) ∧ (¬ under → ending = [.returned] ∨ ending = [.cleared])

/-- What the book ends with, by the stage it leaves the ride at. -/
def Stage.Ends (stage : Stage) (ending : List Mark) : Prop :=
  stage ≠ .gone ∧ ending = [] ∨ stage = .gone ∧ (ending = [.returned] ∨ ending = [.cleared])

omit [SlotCodec] [Clock] in
theorem said_of_gone {said : List Mark} {stage : Stage} (h : said.foldlM Stage.next .gone = some stage) :
    said = [] ∧ stage = .gone := by
  cases said with
  | nil =>
    cases h
    exact ⟨rfl, rfl⟩
  | cons mark said => cases mark <;> cases h

omit [SlotCodec] [Clock] in
theorem said_of_homeward {said : List Mark} {stage : Stage} (h : said.foldlM Stage.next .homeward = some stage) :
    ∃ turns ending, said = List.replicate turns .turned ++ ending ∧ stage.Ends ending := by
  induction said with
  | nil =>
    cases h
    exact ⟨0, [], rfl, .inl ⟨by decide, rfl⟩⟩
  | cons mark said ih =>
    rw [List.foldlM_cons] at h
    cases mark with
    | setOff => cases h
    | arrived => cases h
    | turned =>
      obtain ⟨turns, ending, rfl, hends⟩ := ih h
      exact ⟨turns + 1, ending, rfl, hends⟩
    | returned =>
      obtain ⟨rfl, rfl⟩ := said_of_gone h
      exact ⟨0, _, rfl, .inr ⟨rfl, .inl rfl⟩⟩
    | cleared =>
      obtain ⟨rfl, rfl⟩ := said_of_gone h
      exact ⟨0, _, rfl, .inr ⟨rfl, .inr rfl⟩⟩

omit [SlotCodec] [Clock] in
theorem said_of_outward {said : List Mark} {stage : Stage} (h : said.foldlM Stage.next .outward = some stage) :
    ∃ reached turns ending, said = reached ++ List.replicate turns .turned ++ ending ∧
      (reached = [] ∨ reached = [.arrived]) ∧ stage.Ends ending := by
  cases said with
  | nil =>
    cases h
    exact ⟨[], 0, [], rfl, .inl rfl, .inl ⟨by decide, rfl⟩⟩
  | cons mark said =>
    rw [List.foldlM_cons] at h
    cases mark with
    | setOff => cases h
    | arrived =>
      obtain ⟨turns, ending, rfl, hends⟩ := said_of_homeward h
      exact ⟨_, turns, ending, rfl, .inr rfl, hends⟩
    | turned =>
      obtain ⟨turns, ending, rfl, hends⟩ := said_of_homeward h
      exact ⟨[], turns + 1, ending, rfl, .inl rfl, hends⟩
    | returned =>
      obtain ⟨rfl, rfl⟩ := said_of_gone h
      exact ⟨[], 0, _, rfl, .inl rfl, .inr ⟨rfl, .inl rfl⟩⟩
    | cleared =>
      obtain ⟨rfl, rfl⟩ := said_of_gone h
      exact ⟨[], 0, _, rfl, .inl rfl, .inr ⟨rfl, .inr rfl⟩⟩

omit [SlotCodec] [Clock] in
/-- A ride that set off since the book was opened has the course of one. -/
theorem Logged.voyage {raids : List Raid} (h : Logged start book raids) {number : ℕ} (hnew : start number = .ashore)
    (hgiven : number < book.next) : Voyage (entriesOf book.log number) (number ∈ book.numbers) := by
  have hcourse {stage : Stage} (hstaged : Staged Stage.next start book.log number stage) (hoff : stage ≠ .ashore) :
      ∃ reached turns ending,
        entriesOf book.log number = .setOff :: (reached ++ List.replicate turns .turned ++ ending) ∧
        (reached = [] ∨ reached = [.arrived]) ∧ stage.Ends ending := by
    rw [Staged, hnew] at hstaged
    cases hsaid : entriesOf book.log number with
    | nil =>
      rw [hsaid] at hstaged
      cases hstaged
      exact absurd rfl hoff
    | cons mark said =>
      rw [hsaid, List.foldlM_cons] at hstaged
      cases mark with
      | setOff =>
        obtain ⟨reached, turns, ending, rfl, hreached, hends⟩ := said_of_outward hstaged
        exact ⟨reached, turns, ending, rfl, hreached, hends⟩
      | _ => cases hstaged
  by_cases hunder : number ∈ book.numbers
  · obtain ⟨place, hplace, rfl⟩ := List.getElem_of_mem hunder
    obtain ⟨stage, hstaged, hstage, -⟩ := h.afoot.get hplace (h.afoot.length_eq ▸ hplace)
    obtain ⟨reached, turns, ending, hsaid, hreached, hends⟩ := hcourse hstaged (by rcases hstage with rfl | rfl <;> decide)
    refine ⟨reached, turns, ending, hsaid, hreached, fun _ => ?_, fun hover => absurd hunder hover⟩
    rcases hends with ⟨-, hnone⟩ | ⟨rfl, -⟩
    · exact hnone
    · rcases hstage with hstage | hstage <;> cases hstage
  · obtain ⟨reached, turns, ending, hsaid, hreached, hends⟩ := hcourse (h.gone number hgiven hunder) (by decide)
    refine ⟨reached, turns, ending, hsaid, hreached, fun hthere => absurd hthere hunder, fun _ => ?_⟩
    rcases hends with ⟨hnot, -⟩ | ⟨-, hhome⟩
    · exact absurd rfl hnot
    · exact hhome

omit [SlotCodec] [Clock] in
theorem not_cleared_of_round {numbers : List ℕ} {number : ℕ} (events : List (ℕ × RaidEvent)) :
    (entriesOf (roundMarks numbers events) number).count .cleared = 0 := by
  rw [List.count_eq_zero]
  intro hcleared
  obtain ⟨entry, hentry, hmark⟩ := List.mem_filterMap.mp hcleared
  obtain ⟨event, -, hevent⟩ := List.mem_filterMap.mp hentry
  obtain ⟨written, -, rfl⟩ := Option.map_eq_some_iff.mp hevent
  split at hmark
  · simp only [Mark.of, Option.some_inj] at hmark
    split at hmark <;> cases hmark
  · cases hmark

omit [SlotCodec] [Clock] in
theorem Voyage.homecomings {said : List Mark} {under : Prop} (h : Voyage said under) :
    (under → said.count .returned = 0 ∧ said.count .cleared = 0) ∧
      (¬ under → said.count .returned = 1 ∨ said.count .cleared = 1) := by
  obtain ⟨reached, turns, ending, rfl, hreached, haway, hhome⟩ := h
  have hcount (mark : Mark) (hend : mark = .returned ∨ mark = .cleared) :
      (Mark.setOff :: (reached ++ List.replicate turns .turned ++ ending)).count mark = ending.count mark := by
    rcases hreached with rfl | rfl <;> rcases hend with rfl | rfl <;> simp [List.count_replicate]
  rw [hcount _ (.inl rfl), hcount _ (.inr rfl)]
  constructor
  · intro hunder
    rw [haway hunder]
    exact ⟨rfl, rfl⟩
  · intro hover
    rcases hhome hover with rfl | rfl
    · exact .inl rfl
    · exact .inr rfl

/-- The keeper's round in which a ride leaves the list says once that it is home, and any other does not. -/
theorem Logged.returns {state after : ConquisterState} {now : ℤ} {rules : RaidRules} {draws : DueDraws}
    {events : List RaidEvent} {number : ℕ} (h : Logged start book state.raids)
    (hsafe : strands state (.raidDue now rules draws) = false) (hdue : raidDue state now rules draws = .ok (events, after))
    (hnew : start number = .ashore) (hthere : number ∈ book.numbers) :
    (entriesOf (roundMarks book.numbers (roundEvents now rules draws.ride
        (beforeRides state now rules draws).2.raids.length 0 (beforeRides state now rules draws).2)) number).count .returned =
      if number ∈ (book.round state now rules draws).numbers then 0 else 1 := by
  have hgiven := h.given number hthere
  have hbefore := (h.voyage hnew hgiven).homecomings.1 hthere
  have hafter := ((h.round hsafe hdue).voyage hnew hgiven).homecomings
  have hlog : (book.round state now rules draws).log = book.log ++ roundMarks book.numbers
      (roundEvents now rules draws.ride (beforeRides state now rules draws).2.raids.length 0
        (beforeRides state now rules draws).2) := rfl
  rw [hlog, entriesOf_append, List.count_append, List.count_append, hbefore.1, hbefore.2, not_cleared_of_round] at hafter
  by_cases hunder : number ∈ (book.round state now rules draws).numbers
  · rw [if_pos hunder]
    simpa using (hafter.1 hunder).1
  · rw [if_neg hunder]
    simpa using hafter.2 hunder

/-- What the keeper tells: what time brought, and what became of each ride in turn. -/
theorem raidDue_events {s t : ConquisterState} {now : ℤ} {rules : RaidRules} {draws : DueDraws} {events : List RaidEvent}
    (h : raidDue s now rules draws = .ok (events, t)) :
    events = (beforeRides s now rules draws).1 ++ (roundEvents now rules draws.ride
      (beforeRides s now rules draws).2.raids.length 0 (beforeRides s now rules draws).2).map Prod.snd := by
  simp only [raidDue] at h
  split at h
  · cases h
  rename_i walked after hwalk
  cases h
  rw [roundEvents_events hwalk]

/-- Every ride that sets off in a run comes home once, in the round that takes it off the list, and before reaches its
target once at most and only if it did not turn back, as long as no round strands a ride the keeper has passed. -/
theorem every_ride_comes_home {files : Files} {ops : List Op} (hsafe : strandsNobody files ops = true) :
    let book := (Logbook.opened files.state.raids).writeAll files ops
    book.numbers.length = (files.run ops).state.raids.length ∧
    (∀ number, files.state.raids.length ≤ number → number < book.next →
      Voyage (entriesOf book.log number) (number ∈ book.numbers)) ∧
    ∀ now rules draws events after, raidDue (files.run ops).state now rules draws = .ok (events, after) →
      strands (files.run ops).state (.raidDue now rules draws) = false →
      let before := beforeRides (files.run ops).state now rules draws
      let said := roundEvents now rules draws.ride before.2.raids.length 0 before.2
      events = before.1 ++ said.map Prod.snd ∧
      ∀ number ∈ book.numbers, files.state.raids.length ≤ number →
        (entriesOf (roundMarks book.numbers said) number).count .returned =
          if number ∈ (book.write (files.run ops) (.raidDue now rules draws)).numbers then 0 else 1 := by
  have hlogged := (logged_opened files.state.raids).writeAll hsafe
  have hnew {number : ℕ} (hnumber : files.state.raids.length ≤ number) :
      startStage files.state.raids number = .ashore := by
    rw [startStage, List.getElem?_eq_none hnumber]
  refine ⟨hlogged.afoot.length_eq, fun number hnumber hgiven => hlogged.voyage (hnew hnumber) hgiven, ?_⟩
  intro now rules draws events after hdue hspared
  refine ⟨raidDue_events hdue, fun number hthere hnumber => ?_⟩
  have hwrite : ((Logbook.opened files.state.raids).writeAll files ops).write (files.run ops) (.raidDue now rules draws) =
      ((Logbook.opened files.state.raids).writeAll files ops).round (files.run ops).state now rules draws := by
    rw [Logbook.write, step, hdue]
    rfl
  rw [hwrite]
  exact hlogged.returns hspared hdue (hnew hnumber) hthere

end

/-- Alice and Bob are neighbours, and Carol lives far from both. -/
def threeHouses : Files :=
  { state :=
      { ids := ((OrderedMap.empty.set (utf8 "alice") 0).set (utf8 "bob") 1).set (utf8 "carol") 99999
        equipped := OrderedMap.empty.set (utf8 "bob") Power.nuke.emoji } }

def ridesTo (name target : String) (giftEmoji : Str) : Op :=
  .raidStart 0 (utf8 name) 0 { travelDivisor := 350 } { target := utf8 target, giftEmoji := giftEmoji } ⟨[], []⟩

def undrawn : DueDraws := ⟨fun _ => 0, fun _ => ⟨0, 0⟩, fun _ => ⟨0, 0, 0, ⟨0, 0⟩, 0, 0, 0, [], [], 0, 0⟩⟩

/-- She sets off first, and the keeper makes a round. -/
def blownUp (now : ℤ) : List Op :=
  [ridesTo "alice" "carol" [], ridesTo "bob" "alice" Power.nuke.emoji, .raidDue now {} undrawn]

/-- In a late round she is home before the ☢️ lands. -/
theorem every_ride_comes_home_late :
    Voyage (entriesOf (@Logbook.writeAll _ utc (.opened []) threeHouses (blownUp 600)).log 0)
      (0 ∈ (@Logbook.writeAll _ utc (.opened []) threeHouses (blownUp 600)).numbers) :=
  (@every_ride_comes_home _ utc threeHouses (blownUp 600) (by decide +kernel)).2.1 0 (by decide) (by decide +kernel)

/-- In an early one she is taken off the list, with nothing said. -/
theorem alice_never_comes_home :
    (0 ∉ (@Logbook.writeAll _ utc (.opened []) threeHouses (blownUp 10)).numbers ∧
      entriesOf (@Logbook.writeAll _ utc (.opened []) threeHouses (blownUp 10)).log 0 = [.setOff]) ∧
    ¬ Voyage (entriesOf (@Logbook.writeAll _ utc (.opened []) threeHouses (blownUp 10)).log 0)
      (0 ∈ (@Logbook.writeAll _ utc (.opened []) threeHouses (blownUp 10)).numbers) := by
  have hgone : 0 ∉ (@Logbook.writeAll _ utc (.opened []) threeHouses (blownUp 10)).numbers := by decide +kernel
  have hsaid : entriesOf (@Logbook.writeAll _ utc (.opened []) threeHouses (blownUp 10)).log 0 = [.setOff] := by
    decide +kernel
  refine ⟨⟨hgone, hsaid⟩, fun hvoyage => ?_⟩
  rw [hsaid] at hvoyage
  rcases hvoyage.homecomings.2 hgone with hhome | hcleared
  · cases hhome
  · cases hcleared

end NorelecBot
