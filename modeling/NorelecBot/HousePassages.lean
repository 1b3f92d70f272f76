import NorelecBot.Passages

/-! # What a player does at home, as edits -/

namespace NorelecBot
open Lib

theorem holdValue_nonneg {hold : Holder} {now : ℤ} {value : Settlement}
    (h : holdValue hold now = .ok value) : 0 ≤ value.earned := by
  have huncounted := uncounted_nonneg hold now
  rw [holdValue] at h
  split at h
  · rename_i hpercent
    split at h
    · cases h
    · cases h
      rw [byTheDay_eq]
      exact Int.tdiv_nonneg (mul_nonneg huncounted (by omega)) (by norm_num)
  · cases h
    rwa [byTheDay_eq]

theorem settleHold_eq_ok {s t : ConquisterState} {hold : Holder} {now : ℤ} {settled : Settlement}
    (h : settleHold s hold now = .ok (settled, t)) :
    (∃ value, holdValue hold now = .ok value ∧ settled = { value with earned := value.earned + hold.banked }) ∧
      t = { s with
        scores := s.scores.set hold.username (counter s.scores hold.username + settled.earned) } := by
  rw [settleHold] at h
  split at h
  · cases h
  · rename_i value hvalue
    dsimp only at h
    split at h
    · cases h
    · cases h
      exact ⟨⟨value, hvalue, rfl⟩, rfl⟩

theorem goHome_eq_ok {s t : ConquisterState} {player : Str} {now : ℤ} {departure : Departure}
    (h : goHome s player now = .ok (departure, t)) :
    (departure = {} ∧ t = s) ∨
      ∃ hold settled, whereabouts s player = .conquister ∧ s.current = some hold ∧
        settleHold { s with current := none } hold now = .ok (settled, t) ∧
        departure = { left := true, earned := settled.earned, lightning := settled.lightning,
                      zodiacPercent := settled.zodiacPercent } := by
  rw [goHome] at h
  split at h
  · cases h
    exact .inl ⟨rfl, rfl⟩
  · rename_i hplace
    have hplace := not_not.mp hplace
    rw [leavePlace] at h
    cases hheld : s.current with
    | none =>
      rw [whereabouts, hheld, Option.any_none, if_neg Bool.false_ne_true] at hplace
      split at hplace <;> cases hplace
    | some hold =>
      rw [hheld] at h
      dsimp only at h
      split at h
      · cases h
      · rename_i settled away hsettled
        cases h
        exact .inr ⟨hold, settled, hplace, rfl, hsettled, rfl⟩

variable [SlotCodec]

/-- Paying a hold takes nothing from anybody, as long as what it put aside is in order. -/
theorem Passage.paid (inputs : List Str) (s : ConquisterState) (player : Str) {amount : ℤ}
    (h : Thrifty s → 0 ≤ amount) : Passage inputs s (.pay amount)
      { s with scores := s.scores.set player (counter s.scores player + amount) } := by
  refine ⟨0, {amount}, le_rfl, .single (.paid s player amount), fun _ _ _ _ _ hmem => (by cases hmem), ?_⟩
  intro hs other hother
  rw [Multiset.mem_singleton.mp hother]
  exact h hs

theorem settleHold_passage {s t : ConquisterState} {hold : Holder} {now : ℤ} {settled : Settlement}
    (h : settleHold s hold now = .ok (settled, t)) (hbanked : Thrifty s → 0 ≤ hold.banked)
    (inputs : List Str) : Passage inputs s (.pay settled.earned) t := by
  obtain ⟨⟨value, hvalue, rfl⟩, rfl⟩ := settleHold_eq_ok h
  exact .paid inputs s hold.username fun hs => add_nonneg (holdValue_nonneg hvalue) (hbanked hs)

/-- A hold that did not end is paid nothing. -/
theorem Passage.unearned (inputs : List Str) {s t : ConquisterState} (same : SamePlay s t) :
    Passage inputs s (.pay 0) t := (Passage.quiet inputs same).unpaid rfl {0}

theorem goHome_passage {s t : ConquisterState} {player : Str} {now : ℤ} {departure : Departure}
    (h : goHome s player now = .ok (departure, t)) (inputs : List Str) :
    Passage inputs s (.pay departure.earned) t := by
  rcases goHome_eq_ok h with ⟨rfl, rfl⟩ | ⟨hold, settled, -, hheld, hsettled, rfl⟩
  · exact .unearned inputs (.refl _)
  · obtain ⟨⟨value, hvalue, rfl⟩, rfl⟩ := settleHold_eq_ok hsettled
    have hpaid := Passage.paid inputs s hold.username
      fun hs => add_nonneg (holdValue_nonneg hvalue) (hs hold hheld)
    exact (hpaid.trans (.edit inputs (.leaves _) rfl rfl)).entered (add_zero _)

theorem Passage.score (inputs : List Str) (s : ConquisterState) (player : Str) (value : ℤ)
    (h : Solvent s → 0 ≤ value) : Passage inputs s { palle := value - counter s.scores player }
      { s with scores := s.scores.set player value } :=
  .edit inputs (.score s player value h) rfl rfl

theorem palleBurn_passage (s : ConquisterState) (player : Str) (amount : ℤ) :
    Passage [] s { palle := -(palleBurn s player amount).1.amount } (palleBurn s player amount).2 := by
  simp only [palleBurn]
  split_ifs with hroad hinvalid hmore
  · exact .refl [] s
  · exact .refl [] s
  · exact .refl [] s
  · refine (Passage.score [] s player _ fun _ => by omega).entered ?_
    simp

/-- What a purchase hangs and what it takes down. -/
def FurnitureResult.hung (result : FurnitureResult) (emoji : Str) : Str → ℤ :=
  if result.status = .bought then unit emoji - unit result.replaced else 0

/-- What a purchase takes off the score. -/
def FurnitureResult.spent (result : FurnitureResult) : ℤ :=
  if result.status = .bought then result.charged else 0

theorem chosenSlot_fits {s : ConquisterState} {username emoji : Str} {position : ℤ} {limit slot : ℕ}
    (h : chosenSlot s username emoji position limit = .ok (true, slot)) : slot < carriedLimit := by
  rw [chosenSlot] at h
  split at h
  · split at h
    · rename_i hgear
      cases h
      split at hgear
      · exact (freeSlot_eq_some hgear).1
      · cases hgear
    · cases h
    · cases h
  · split at h
    · cases h
    · cases h

theorem kidsSpared_fillSlot {s : ConquisterState} {player : Str} {slot : ℕ}
    (hkid : isChild s player slot = false) (emoji : Str) :
    KidsSpared s player (fillSlot (slotsOf s player) slot emoji) := by
  intro child hchild howner hnonneg _
  rw [slotAt_fillSlot, if_neg]
  rintro rfl
  have hnone : ∀ other ∈ s.children, ¬ (other.owner = player ∧ other.slot = (child.slot.toNat : ℤ)) := by
    simpa [isChild] using hkid
  refine hnone child hchild ⟨howner, ?_⟩
  omega

theorem hangBought_passage {s : ConquisterState} {username emoji : Str} {withHim : Bool} {slot : ℕ}
    {charged : ℤ} (hcharged : charged ≤ counter s.scores username)
    (hfits : withHim = true → slot < carriedLimit)
    (hkid : withHim = false → isChild s username slot = false) :
    Passage [emoji] s
      { palle := -charged
        emoji := unit emoji - unit (slotAt (if withHim then gearOf s username else slotsOf s username) slot) }
      (hangBought s username emoji withHim slot charged) := by
  have hpalle : counter s.scores username - charged - counter s.scores username = -charged := by omega
  cases withHim with
  | true =>
    have hpaid := Passage.score [emoji] (hangGear s username (fillSlot (gearOf s username) slot emoji))
      username (counter s.scores username - charged) fun _ => by omega
    exact ((write_gear s username emoji fun _ => hfits rfl).trans hpaid).entered (by ext <;> simp [hpalle])
  | false =>
    have hspared := kidsSpared_fillSlot (hkid rfl) emoji
    have hpaid := Passage.score [emoji] (hang s username (fillSlot (slotsOf s username) slot emoji))
      username (counter s.scores username - charged) fun _ => by omega
    exact ((write_house s username hspared).trans hpaid).entered (by ext <;> simp [hpalle])

theorem chosenSlot_ne_bought {s : ConquisterState} {username emoji : Str} {position : ℤ} {limit : ℕ}
    {status : FurnitureStatus} (h : chosenSlot s username emoji position limit = .error status) :
    status ≠ .bought := by
  rintro rfl
  rw [chosenSlot] at h
  split at h
  · split at h <;> cases h
  · split at h <;> cases h

/-- Everything a purchase at home can come to. -/
theorem buyAtHome_eq {s t : ConquisterState} {departure : Departure} {username emoji : Str}
    {position cost : ℤ} {limit : ℕ} {inflation : ℤ} {result : FurnitureResult}
    (h : buyAtHome s departure username emoji position cost limit inflation = (result, t)) :
    result.departure = departure ∧
      (result.status ≠ .bought ∧ t = s ∨
        result.status = .bought ∧ ∃ withHim slot,
          chosenSlot s username emoji position limit = .ok (withHim, slot) ∧
          (withHim = false → isChild s username slot = false) ∧
          result.charged = inflated cost (copiesOf s (withoutVariation emoji)) inflation ∧
          result.charged ≤ counter s.scores username ∧
          result.replaced = slotAt (if withHim then gearOf s username else slotsOf s username) slot ∧
          t = hangBought s username emoji withHim slot result.charged) := by
  rw [buyAtHome] at h
  cases hslot : chosenSlot s username emoji position limit with
  | error status =>
    rw [hslot] at h
    cases h
    exact ⟨rfl, .inl ⟨chosenSlot_ne_bought hslot, rfl⟩⟩
  | ok chosen =>
    obtain ⟨withHim, slot⟩ := chosen
    rw [hslot] at h
    dsimp only at h
    split at h
    · cases h
      exact ⟨rfl, .inl ⟨nofun, rfl⟩⟩
    · rename_i hkid
      split at h
      · cases h
        exact ⟨rfl, .inl ⟨nofun, rfl⟩⟩
      · split at h
        · cases h
          exact ⟨rfl, .inl ⟨nofun, rfl⟩⟩
        · rename_i hscore
          cases h
          refine ⟨rfl, .inr ⟨rfl, withHim, slot, rfl, fun hhim => ?_, rfl, not_lt.mp hscore, rfl, rfl⟩⟩
          cases hchild : isChild s username slot with
          | false => rfl
          | true => exact absurd ⟨by simp [hhim], hchild⟩ hkid

theorem furnitureBuy_passage {s t : ConquisterState} {username emoji : Str} {position cost : ℤ}
    {limit : ℕ} {now inflation : ℤ} {result : FurnitureResult}
    (h : furnitureBuy s username emoji position cost limit now inflation = .ok (result, t)) :
    Passage [emoji] s
      (.pay result.departure.earned + { palle := -result.spent, emoji := result.hung emoji }) t := by
  rw [furnitureBuy] at h
  split at h
  · cases h
  · rename_i departure away hgone
    have hleft := goHome_passage hgone [emoji]
    split at h
    · cases h
      simpa [FurnitureResult.spent, FurnitureResult.hung] using hleft
    · have hdone : buyAtHome away departure username emoji position cost limit inflation = (result, t) :=
        Except.ok.inj h
      obtain ⟨hdeparture, ⟨hstatus, rfl⟩ | ⟨hstatus, withHim, slot, hslot, hkid, -, hcharged, hreplaced, rfl⟩⟩ :=
        buyAtHome_eq hdone
      · rw [FurnitureResult.spent, FurnitureResult.hung, if_neg hstatus, if_neg hstatus, neg_zero,
          Receipt.mk_zero, add_zero, hdeparture]
        exact hleft
      · have hfits : withHim = true → slot < carriedLimit := fun hhim => chosenSlot_fits (hhim ▸ hslot)
        refine (hleft.trans (hangBought_passage hcharged hfits hkid)).entered ?_
        rw [FurnitureResult.spent, FurnitureResult.hung, if_pos hstatus, if_pos hstatus, hdeparture, hreplaced]

theorem furnitureMove_passage {s t : ConquisterState} {username : Str} {source target : ℤ} {limit : ℕ}
    {now : ℤ} {result : FurnitureMoveResult}
    (h : furnitureMove s username source target limit now = .ok (result, t)) :
    Passage [] s (.pay result.departure.earned) t := by
  simp only [furnitureMove] at h
  split at h
  · cases h
    exact .unearned [] (.refl _)
  · split at h
    · cases h
      exact .unearned [] (.refl _)
    · split at h
      · cases h
      · rename_i departure away hgone
        have hleft := goHome_passage hgone []
        split at h
        · cases h
          exact hleft
        · have hdone := Except.ok.inj h
          simp only [moveAtHome] at hdone
          split at hdone
          · cases hdone
            exact hleft
          · rename_i hfilled
            cases hdone
            exact (hleft.trans (.edit [] (.moves away username _ _ hfilled) rfl rfl)).entered (add_zero _)

/-- What is in a slot of the house goes on him, and what was there takes its place. -/
theorem exchange_passage {s : ConquisterState} {player : Str} {source target : ℕ}
    (hsource : slotAt (slotsOf s player) source ≠ []) (hkid : isChild s player source = false)
    (htarget : (gearOf s player).length ≤ carriedLimit → target < carriedLimit) :
    Passage [] s 0 (exchange s player source target (slotAt (gearOf s player) target)) := by
  have hset : (slotsOf s player).set source (slotAt (gearOf s player) target) =
      fillSlot (slotsOf s player) source (slotAt (gearOf s player) target) :=
    (fillSlot_of_lt (lt_length_of_slotAt_ne hsource) _).symm
  have hworn := (write_gear s player (slotAt (slotsOf s player) source) htarget).unvouched
    (fun P _ hs emoji hemoji hne => by
      rw [List.mem_singleton.mp hemoji] at hne ⊢
      exact (hs.house player).slotAt hne) [slotAt (gearOf s player) target]
  have hback := write_house (hangGear s player (fillSlot (gearOf s player) target
    (slotAt (slotsOf s player) source))) player (kidsSpared_fillSlot hkid (slotAt (gearOf s player) target))
  have hboth := (hworn.trans hback).unvouched (fun P _ hs emoji hemoji hne => by
      rw [List.mem_singleton.mp hemoji] at hne ⊢
      exact (hs.gear player).slotAt hne) []
  rw [exchange, hset]
  exact hboth.entered (by ext <;> simp)

theorem gearTake_passage {s t : ConquisterState} {player emoji swap : Str} {now : ℤ} {result : GearResult}
    (h : gearTake s player emoji swap now = .ok (result, t)) :
    Passage [] s (.pay result.departure.earned) t := by
  rw [gearTake] at h
  split at h
  · cases h
  · rename_i departure away hgone
    have hleft := goHome_passage hgone []
    split at h
    · cases h
      exact hleft
    · have hdone := Except.ok.inj h
      rw [takeAtHome] at hdone
      split at hdone
      · cases hdone
        exact hleft
      · rename_i source hsource
        obtain ⟨hfilled, -, hkid⟩ := slotHolding_eq_some hsource
        split at hdone
        · split at hdone
          · cases hdone
            exact hleft
          · rename_i target htarget
            cases hdone
            obtain ⟨hworn, -⟩ := gearSlotHolding_eq_some htarget
            have hfits : (gearOf away player).length ≤ carriedLimit → target < carriedLimit :=
              (lt_length_of_slotAt_ne hworn).trans_le
            exact (hleft.trans (exchange_passage hfilled hkid hfits)).entered (add_zero _)
        · split at hdone
          · cases hdone
            exact hleft
          · rename_i target htarget
            cases hdone
            obtain ⟨hfits, hempty⟩ := freeSlot_eq_some htarget
            have hrun := exchange_passage hfilled hkid fun _ => hfits
            rw [hempty] at hrun
            exact (hleft.trans hrun).entered (add_zero _)

theorem gearStore_passage {s t : ConquisterState} {player emoji : Str} {limit : ℕ} {now : ℤ}
    {result : GearResult} (h : gearStore s player emoji limit now = .ok (result, t)) :
    Passage [] s (.pay result.departure.earned) t := by
  rw [gearStore] at h
  split at h
  · cases h
  · rename_i departure away hgone
    have hleft := goHome_passage hgone []
    split at h
    · cases h
      exact hleft
    · have hdone := Except.ok.inj h
      rw [storeAtHome] at hdone
      split at hdone
      · cases hdone
        exact hleft
      · rename_i source hsource
        obtain ⟨hworn, -⟩ := gearSlotHolding_eq_some hsource
        split at hdone
        · cases hdone
          exact hleft
        · rename_i kept hkept
          cases hdone
          have hgear : gearOf kept player = gearOf away player := by
            rw [putInHouse, Option.map_eq_some_iff] at hkept
            obtain ⟨slots, -, rfl⟩ := hkept
            rfl
          have hhung := (putInHouse_passage hkept).unvouched (fun P _ hs other hother hne => by
            rw [List.mem_singleton.mp hother]
            exact (hs.gear player).slotAt hworn) []
          have hcleared := clear_gear kept player (hgear.symm ▸ hworn) []
          rw [hgear] at hcleared
          exact (hleft.trans (hhung.trans hcleared)).entered (by ext <;> simp)

omit [SlotCodec] in
theorem movedLobsters_quiet (s : ConquisterState) (hold : Holder) (h : s.current = some hold)
    (moved : List (ℕ × ℕ)) : SamePlay s
      { s with current := some { hold with lobsters := movedLobsters hold.lobsters moved } } :=
  ⟨rfl, rfl, by rw [h]; rfl, rfl, rfl, rfl⟩

omit [SlotCodec] in
/-- What is sorted out moves from the house to the player and nothing else. -/
theorem sortOutFrom_spec {s : ConquisterState} {player : Str} {slots : List ℕ} {house gear : List Str}
    {moved : List (ℕ × ℕ)} {house' gear' : List Str} {moved' : List (ℕ × ℕ)}
    (h : sortOutFrom s player slots house gear moved = (house', gear', moved')) :
    shelf house' + shelf gear' = shelf house + shelf gear ∧
      (gear.length ≤ carriedLimit → gear'.length ≤ carriedLimit) ∧
      (∀ P, AllOf P house → AllOf P house' ∧ (AllOf P gear → AllOf P gear')) ∧
      ∀ slot, isChild s player slot = true → slotAt house' slot = slotAt house slot := by
  induction slots generalizing house gear moved with
  | nil =>
    cases h
    exact ⟨rfl, id, fun P hh => ⟨hh, id⟩, fun _ _ => rfl⟩
  | cons slot slots ih =>
    rw [sortOutFrom] at h
    split at h
    · exact ih h
    · rename_i hmoves
      obtain ⟨hfilled, -, hkid⟩ : slotAt house slot ≠ [] ∧ worksOnHim (slotAt house slot) = true ∧
          ¬ isChild s player slot = true := by simpa [not_or] using hmoves
      split at h
      · cases h
        exact ⟨rfl, id, fun P hh => ⟨hh, id⟩, fun _ _ => rfl⟩
      · rename_i target htarget
        obtain ⟨hfits, hempty⟩ := freeSlot_eq_some htarget
        obtain ⟨hsum, hlimit, hkind, hkids⟩ := ih h
        refine ⟨?_, fun hgear => hlimit (fillSlot_fits (fun _ => hfits) hgear), fun P hh =>
          ⟨(hkind P (hh.cleared slot)).1, fun hg =>
            (hkind P (hh.cleared slot)).2 (hg.fillSlot target fun hne => hh.slotAt hne)⟩, fun other hother => ?_⟩
        · rw [hsum, shelf_set (lt_length_of_slotAt_ne hfilled), shelf_fillSlot, hempty, unit_nil]
          abel
        · rw [hkids other hother, slotAt_set, if_neg]
          rintro ⟨rfl, -⟩
          exact hkid hother

omit [SlotCodec] in
theorem isChild_of_mem {s : ConquisterState} {child : Child} (h : child ∈ s.children)
    (hnonneg : 0 ≤ child.slot) : isChild s child.owner child.slot.toNat = true := by
  rw [isChild, List.any_eq_true]
  exact ⟨child, h, by simpa using hnonneg⟩

theorem sortOut_passage {s : ConquisterState} {player stored : Str}
    (hstored : storedIn s.furniture player = stored) : Passage [] s 0 (sortOut s player stored) := by
  subst hstored
  rw [sortOut]
  split
  rename_i house gear moved hsorted
  obtain ⟨hsum, hlimit, hkind, hkids⟩ := sortOutFrom_spec hsorted
  split
  · exact .refl [] s
  · have hworn := Edit.gear s player gear 0 hlimit fun P hs _ =>
      (hkind P (hs.house player)).2 (hs.gear player)
    have hspared : KidsSpared (hangGear s player gear) player house := fun child hchild howner hnonneg _ =>
      hkids child.slot.toNat (howner ▸ isChild_of_mem hchild hnonneg)
    have hhung := Edit.house (hangGear s player gear) player house 0 hspared fun P hs _ =>
      (hkind P (hs.house player)).1
    have hboth : Passage [] s 0 (hangGear (hang s player house) player gear) := by
      refine ((Passage.edit [] hworn rfl rfl).trans (.edit [] hhung rfl rfl)).entered ?_
      have hzero : shelf gear - shelf (gearOf s player) + (shelf house - shelf (slotsOf s player)) = 0 := by
        have hsum' : shelf house + shelf gear = shelf (slotsOf s player) + shelf (gearOf s player) := hsum
        rw [add_comm, sub_add_sub_comm, hsum', sub_self]
      ext
      · rfl
      · exact congrFun hzero _
      all_goals rfl
    dsimp only
    split
    · exact hboth
    · rename_i hold hheld
      split
      · exact hboth
      · exact (hboth.trans (.quiet [] (movedLobsters_quiet _ hold hheld moved))).entered (add_zero _)

theorem sortOut_others {s : ConquisterState} {player stored other : Str} (h : other ≠ player) :
    (sortOut s player stored).furniture.find other = s.furniture.find other := by
  have hhung (house gear : List Str) :
      (hangGear (hang s player house) player gear).furniture.find other = s.furniture.find other := by
    change (hangIn s.furniture player house).find other = _
    rw [hangIn]
    split
    · exact OrderedMap.find_erase_of_ne _ h
    · exact OrderedMap.find_set_of_ne _ _ h
  rw [sortOut]
  split
  rename_i house gear moved _
  split
  · rfl
  · dsimp only
    split
    · exact hhung house gear
    · split
      · exact hhung house gear
      · exact hhung house gear

theorem equipmentSortOut_passage (s : ConquisterState) : Passage [] s 0 (equipmentSortOut s) := by
  have hrun : ∀ (houses : List (Str × Str)) (t : ConquisterState), (houses.map Prod.fst).Nodup →
      (∀ house ∈ houses, t.furniture.find house.1 = some house.2) →
      Passage [] t 0 (houses.foldl (fun sorted house => sortOut sorted house.1 house.2) t) := by
    intro houses
    induction houses with
    | nil => exact fun t _ _ => .refl [] t
    | cons house houses ih =>
      intro t hnodup hfound
      rw [List.map_cons, List.nodup_cons] at hnodup
      have hstored : storedIn t.furniture house.1 = house.2 := by
        rw [storedIn, hfound house List.mem_cons_self, Option.getD_some]
      have hothers : ∀ other ∈ houses,
          (sortOut t house.1 house.2).furniture.find other.1 = some other.2 := by
        intro other hother
        have hne : other.1 ≠ house.1 := fun heq =>
          hnodup.1 (heq ▸ List.mem_map_of_mem hother)
        rw [sortOut_others hne]
        exact hfound other (List.mem_cons_of_mem _ hother)
      rw [List.foldl_cons]
      exact ((sortOut_passage hstored).trans (ih _ hnodup.2 hothers)).entered (add_zero _)
  rw [equipmentSortOut]
  split
  · exact .refl [] s
  · have hfold := hrun s.furniture.entries s s.furniture.nodup
      fun house hhouse => OrderedMap.find_eq_some.mpr hhouse
    refine (hfold.trans (.quiet [] ?_)).entered (add_zero _)
    exact ⟨rfl, rfl, rfl, rfl, rfl, rfl⟩

end NorelecBot
