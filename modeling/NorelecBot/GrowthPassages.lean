import NorelecBot.RidePassages

/-! # Eggs, growth and births, as edits

What the keeper settles before the rides. While the children are walked through
the list on file is still the old one; the edits take off it who leaves.
-/

namespace NorelecBot
open Lib

variable [SlotCodec]

def eggs (state : ConquisterState) (now : ℤ) (rules : RaidRules) : ℤ :=
  ((eggsLaid state (eggMinutes state now rules) rules).map Prod.snd).sum

omit [SlotCodec] in
theorem countPower_nonneg (slots : List Str) (power : Power) : 0 ≤ countPower slots power :=
  Int.natCast_nonneg _

theorem eggsLaid_nonneg (s : ConquisterState) {minutes : ℤ} {rules : RaidRules}
    (hminutes : 0 ≤ minutes) (hrules : 0 ≤ rules.henPerMinute) :
    ∀ laid ∈ eggsLaid s minutes rules, 0 ≤ laid.2 := by
  intro laid hlaid
  obtain ⟨player, -, rfl⟩ := List.mem_map.mp hlaid
  exact mul_nonneg (mul_nonneg (countPower_nonneg _ _) hrules) hminutes

theorem payEggs_passage (s : ConquisterState) (laid : List (Str × ℤ)) (h : ∀ eggs ∈ laid, 0 ≤ eggs.2) :
    Passage [] s { palle := (laid.map Prod.snd).sum } { s with scores := laid.foldl payEggs s.scores } := by
  induction laid generalizing s with
  | nil => exact .refl [] s
  | cons eggs laid ih =>
    have hpaid := Passage.score [] s eggs.1 (counter s.scores eggs.1 + eggs.2)
      fun hs => add_nonneg (hs.scores eggs.1) (h eggs List.mem_cons_self)
    have hrest := ih { s with scores := payEggs s.scores eggs }
      fun others hothers => h others (List.mem_cons_of_mem _ hothers)
    refine (hpaid.trans hrest).entered ?_
    ext <;> simp

theorem eggs_eq_zero {s : ConquisterState} {now : ℤ} {rules : RaidRules}
    (h : eggMinutes s now rules = 0) : eggs s now rules = 0 := by
  rw [eggs, h, eggsLaid]
  simp [Function.comp_def]

omit [SlotCodec] in
theorem eggMinutes_nonneg (s : ConquisterState) (now : ℤ) (rules : RaidRules) :
    0 ≤ eggMinutes s now rules := by
  rw [eggMinutes]
  split_ifs with h
  · exact le_rfl
  · exact Int.tdiv_nonneg (by omega) (by norm_num)

theorem layEggs_passage (s : ConquisterState) (now : ℤ) (rules : RaidRules) :
    Passage [] s { palle := eggs s now rules } (layEggs s now rules) := by
  rw [layEggs]
  split_ifs with hnone hlate hsoon
  · have hzero : eggMinutes s now rules = 0 := if_pos (.inl hnone)
    exact (Passage.refl [] s).entered (by rw [eggs_eq_zero hzero, Receipt.mk_zero])
  · have hzero : eggMinutes s now rules = 0 := if_pos (.inr hlate)
    rw [eggs_eq_zero hzero, Receipt.mk_zero]
    exact .quiet [] ⟨rfl, rfl, rfl, rfl, rfl, rfl⟩
  · have hzero : eggMinutes s now rules = 0 := le_antisymm hsoon (eggMinutes_nonneg s now rules)
    exact (Passage.refl [] s).entered (by rw [eggs_eq_zero hzero, Receipt.mk_zero])
  · have hlaid := payEggs_passage s (eggsLaid s (eggMinutes s now rules) rules)
      (eggsLaid_nonneg s (eggMinutes_nonneg s now rules) (not_le.mp hnone).le)
    refine Passage.entered (hlaid.trans (.quiet [] ?_)) (add_zero _)
    exact ⟨rfl, rfl, rfl, rfl, rfl, rfl⟩

def Child.stray (child : Child) (state : ConquisterState) : Prop :=
  child.slot < 0 ∨ slotAt (slotsOf state child.owner) child.slot.toNat = []

instance (child : Child) (state : ConquisterState) : Decidable (child.stray state) :=
  inferInstanceAs (Decidable (_ ∨ _))

/-- What growing changes of a child: its looks, or that it is there at all. -/
def growthOf (state : ConquisterState) (now : ℤ) (rules : RaidRules) (child : Child) : Receipt :=
  if child.stray state then { left := {child.self} }
  else
    { emoji := unit (childEmoji child.male (child.age now rules)) -
        unit (slotAt (slotsOf state child.owner) child.slot.toNat)
      left := if childEmoji child.male (child.age now rules) = [] then {child.self} else 0 }

def growth (now : ℤ) (rules : RaidRules) : List Child → ConquisterState → Receipt
  | [], _ => 0
  | child :: children, state =>
    growthOf state now rules child + growth now rules children (growOne state now rules child).2.2

omit [SlotCodec] in
theorem childEmoji_mem_age {male : Bool} {age : ℤ} (h : childEmoji male age ≠ []) :
    childEmoji male age ∈ ageEmoji male := by
  rw [childEmoji] at h ⊢
  split at h
  · exact absurd rfl h
  · rename_i hage
    rw [if_neg hage, ageEmoji]
    exact slotAt_mem h

/-- Everything growing can do to one child: whether it stays, and the game after it. -/
theorem growOne_cases (s : ConquisterState) (now : ℤ) (rules : RaidRules) (child : Child) :
    (child.stray s ∧ (growOne s now rules child).1 = false ∧ (growOne s now rules child).2.2 = s) ∨
      (¬ child.stray s ∧ childEmoji child.male (child.age now rules) = [] ∧
        (growOne s now rules child).1 = false ∧ (growOne s now rules child).2.2 =
          hang s child.owner ((slotsOf s child.owner).set child.slot.toNat [])) ∨
      (¬ child.stray s ∧ childEmoji child.male (child.age now rules) ≠ [] ∧
        (growOne s now rules child).1 = true ∧ (growOne s now rules child).2.2 =
          if slotAt (slotsOf s child.owner) child.slot.toNat = childEmoji child.male (child.age now rules)
          then s
          else hang s child.owner ((slotsOf s child.owner).set child.slot.toNat
            (childEmoji child.male (child.age now rules)))) := by
  rw [growOne]
  dsimp only
  split
  · exact .inl ⟨‹_›, rfl, rfl⟩
  · refine .inr ?_
    split
    · exact .inl ⟨‹_›, ‹_›, rfl, rfl⟩
    · split
      · exact .inr ⟨‹_›, ‹_›, rfl, rfl⟩
      · rename_i hsame
        exact .inr ⟨‹_›, ‹_›, rfl, (if_pos (not_not.mp hsame)).symm⟩

/-- One child grows, and is off the list if it leaves. -/
theorem growOne_passage (s : ConquisterState) (now : ℤ) (rules : RaidRules) (child : Child)
    (before after : List Child) :
    Passage [] { s with children := before ++ child :: after } (growthOf s now rules child)
      { (growOne s now rules child).2.2 with
        children := before ++ (if (growOne s now rules child).1 then child :: after else after) } := by
  let there : ConquisterState := { s with children := before ++ child :: after }
  have hmem : child ∈ there.children := List.mem_append_right _ List.mem_cons_self
  rw [growthOf]
  rcases growOne_cases s now rules child with ⟨hstray, hleaves, hafter⟩ | ⟨hthere, hlooks, hleaves, hafter⟩ |
    ⟨hthere, hlooks, hstays, hafter⟩
  · rw [if_pos hstray, hleaves, hafter]
    exact .edit [] (.strays there before after child rfl hstray) rfl rfl
  · obtain ⟨-, hfilled⟩ := not_or.mp hthere
    rw [if_neg hthere, hleaves, hafter, hlooks, unit_nil, zero_sub, if_pos rfl]
    exact .edit [] (.gone there before after child rfl (lt_length_of_slotAt_ne hfilled)) rfl rfl
  · obtain ⟨hnonneg, hfilled⟩ := not_or.mp hthere
    rw [if_neg hthere, hstays, hafter, if_neg hlooks, if_pos rfl]
    split
    · rename_i hsame
      rw [hsame, sub_self]
      exact .refl [] there
    · exact .edit [] (.grows there child _ hmem ⟨not_lt.mp hnonneg, hfilled⟩ (childEmoji_mem_age hlooks))
        rfl rfl

theorem growAll_passage (now : ℤ) (rules : RaidRules) (children : List Child) (s : ConquisterState)
    (before : List Child) :
    Passage [] { s with children := before ++ children } (growth now rules children s)
      { (growAll now rules children s).2.2 with
        children := before ++ (growAll now rules children s).1 } := by
  induction children generalizing s before with
  | nil => exact .refl [] _
  | cons child children ih =>
    have hone := growOne_passage s now rules child before children
    rw [growth, growAll]
    dsimp only
    cases hstays : (growOne s now rules child).1 with
    | true =>
      have hrest := ih (growOne s now rules child).2.2 (before ++ [child])
      simp only [List.append_assoc, List.singleton_append] at hrest
      rw [hstays, if_pos rfl] at hone
      exact hone.trans hrest
    | false =>
      rw [hstays, if_neg Bool.false_ne_true] at hone
      exact hone.trans (ih (growOne s now rules child).2.2 before)

theorem grow_passage (s : ConquisterState) (now : ℤ) (rules : RaidRules) (draws : ℕ → ℕ) :
    Passage [] s (growth now rules s.children s) (grow s now rules draws).2 := by
  have hall := growAll_passage now rules s.children s []
  rw [grow]
  refine Passage.entered (hall.trans (.quiet [] ?_)) (add_zero _)
  refine ⟨rfl, rfl, rfl, rfl, rfl, ?_⟩
  simp only [List.nil_append, List.map_map]
  refine List.map_congr_left fun child _ => ?_
  rw [Function.comp_apply, court]
  split <;> rfl

theorem cradle_eq_some {s : ConquisterState} {mother : Str} {limit draw place : ℕ}
    (h : cradle s mother limit draw = some place) :
    freeSlot (slotsOf s mother) limit = some place ∨
      freeSlot (slotsOf s mother) limit = none ∧ isChild s mother place = false := by
  rw [cradle] at h
  split at h
  · rename_i slot hfree
    cases h
    exact .inl hfree
  · rename_i hfull
    dsimp only at h
    split at h
    · cases h
    · rename_i hothers
      cases h
      obtain ⟨-, htest⟩ := mem_slotsWhere (drawn_mem hothers draw)
      simp only [Bool.and_eq_true, Bool.not_eq_true'] at htest
      exact .inr ⟨hfull, htest.2⟩

/-- What an event says has come into the game, or has gone from it. -/
def RaidEvent.entry (event : RaidEvent) : Str → ℤ :=
  match event.kind with
  | .born => unit event.giftEmoji - shelf event.blown
  | .stolen => -unit event.eaten
  | .delivered =>
    if isThrown event.giftEmoji ∧ event.intact = false ∧ event.nobodyHome = false
    then -(unit event.giftEmoji + shelf event.blown) else 0
  | .returned | .gone => 0

def entries (events : List RaidEvent) : Str → ℤ := (events.map RaidEvent.entry).sum

theorem birth_passage (s : ConquisterState) (pregnancy : Pregnancy) (now : ℤ) (rules : RaidRules)
    (draws : BirthDraws) :
    Passage [] s { emoji := entries (birth s pregnancy now rules draws).1 }
      (birth s pregnancy now rules draws).2 := by
  simp only [birth]
  cases hcradle : cradle s pregnancy.mother rules.furnitureLimit draws.place with
  | none => exact .refl [] s
  | some place =>
    have hfree : ∀ child ∈ s.children, child.owner = pregnancy.mother → child.slot = place →
        slotAt (slotsOf s pregnancy.mother) place ∉ ageEmoji child.male := by
      intro child hchild howner hslot hage
      rcases cradle_eq_some hcradle with hempty | ⟨-, hkid⟩
      · exact ageEmoji_ne_nil hage (freeSlot_eq_some hempty).2
      · have hnone : ∀ other ∈ s.children, ¬ (other.owner = pregnancy.mother ∧ other.slot = (place : ℤ)) := by
          simpa [isChild] using hkid
        exact hnone child hchild ⟨howner, hslot⟩
    refine Passage.entered (.edit [] (.newborn s pregnancy.mother place _ now hfree) rfl rfl) ?_
    have hblown : shelf (if (freeSlot (slotsOf s pregnancy.mother) rules.furnitureLimit).isSome then []
        else [slotAt (slotsOf s pregnancy.mother) place]) = unit (slotAt (slotsOf s pregnancy.mother) place) := by
      rcases cradle_eq_some hcradle with hempty | ⟨hfull, -⟩
      · rw [hempty, Option.isSome_some, if_pos rfl, (freeSlot_eq_some hempty).2, unit_nil, shelf_nil]
      · rw [hfull, Option.isSome_none, if_neg Bool.false_ne_true]
        simp [shelf]
    simp only [entries, List.map_cons, List.map_nil, List.sum_cons, List.sum_nil, add_zero, RaidEvent.entry]
    rw [hblown]

omit [SlotCodec] in
theorem entries_append (events more : List RaidEvent) : entries (events ++ more) = entries events + entries more := by
  rw [entries, List.map_append, List.sum_append, entries, entries]

theorem birthsFrom_passage (now : ℤ) (rules : RaidRules) (draws : ℕ → BirthDraws)
    (pregnancies : List Pregnancy) (index : ℕ) (s : ConquisterState) :
    Passage [] s { emoji := entries (birthsFrom now rules draws pregnancies index s).1 }
      (birthsFrom now rules draws pregnancies index s).2 := by
  induction pregnancies generalizing index s with
  | nil => exact .refl [] s
  | cons pregnancy pregnancies ih =>
    rw [birthsFrom]
    split
    · exact ih (index + 1) s
    · have hone := birth_passage s pregnancy now rules (draws index)
      refine (hone.trans (ih (index + 1) (birth s pregnancy now rules (draws index)).2)).entered ?_
      rw [entries_append]
      rfl

theorem births_passage (s : ConquisterState) (now : ℤ) (rules : RaidRules) (draws : ℕ → BirthDraws) :
    Passage [] s { emoji := entries (births s now rules draws).1 } (births s now rules draws).2 := by
  have hborn := birthsFrom_passage now rules draws s.pregnancies 0 s
  refine Passage.entered (hborn.trans (.quiet [] ?_)) (add_zero _)
  exact ⟨rfl, rfl, rfl, rfl, rfl, rfl⟩

omit [SlotCodec] in
theorem wash_quiet (s : ConquisterState) (now : ℤ) : SamePlay s (wash s now) :=
  ⟨rfl, rfl, rfl, rfl, rfl, rfl⟩

/-- What the children on file change by growing, once the eggs are laid. -/
def growthDue (state : ConquisterState) (now : ℤ) (rules : RaidRules) : Receipt :=
  growth now rules (layEggs (wash state now) now rules).children (layEggs (wash state now) now rules)

theorem entries_growAll (now : ℤ) (rules : RaidRules) (children : List Child) (s : ConquisterState) :
    entries (growAll now rules children s).2.1 = 0 := by
  induction children generalizing s with
  | nil => rfl
  | cons child children ih =>
    rw [growAll, entries_append, ih, add_zero, growOne]
    dsimp only
    split_ifs <;> rfl

theorem beforeRides_passage (s : ConquisterState) (now : ℤ) (rules : RaidRules) (draws : DueDraws) :
    Passage [] s
      ({ palle := eggs s now rules, emoji := entries (beforeRides s now rules draws).1 } +
        growthDue s now rules) (beforeRides s now rules draws).2 := by
  have hwashed := Passage.quiet [] (wash_quiet s now)
  have heggs := layEggs_passage (wash s now) now rules
  have hgrown := grow_passage (layEggs (wash s now) now rules) now rules draws.courting
  have hborn := births_passage (grow (layEggs (wash s now) now rules) now rules draws.courting).2 now rules
    draws.birth
  refine (((hwashed.trans heggs).trans hgrown).trans hborn).entered ?_
  rw [beforeRides]
  dsimp only
  have hgone : entries (grow (layEggs (wash s now) now rules) now rules draws.courting).1 = 0 :=
    entries_growAll now rules _ _
  rw [entries_append, hgone, zero_add, zero_add, add_right_comm]
  congr 1
  ext <;> simp
  rfl

end NorelecBot
