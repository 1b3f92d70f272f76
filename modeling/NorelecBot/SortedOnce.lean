import NorelecBot.CleanEmoji
import NorelecBot.EditPlaces

/-! # The old saves are sorted out once, and nothing is lost

What works on a player and lies in his house is put on him, slot by slot, as long as
there is room. The slots it leaves and the slots it takes are paired in their order;
everything else stays in its slot, and the 🦞 of the holder follow.
-/

namespace NorelecBot
open Lib

def goesOnHim (state : ConquisterState) (player : Str) (house : List Str) (slot : ℕ) : Bool :=
  slotAt house slot ≠ [] && worksOnHim (slotAt house slot) && !isChild state player slot

/-- The slots of his house that empty, each with the slot on him that it fills. -/
def sortMoves (state : ConquisterState) (player : Str) : List (ℕ × ℕ) :=
  ((List.range (slotsOf state player).length).filter (goesOnHim state player (slotsOf state player))).zip
    (emptySlots carriedLimit (gearOf state player))

def contents (slots : List Str) : Multiset Str := shelfSum (fun emoji => if emoji = [] then 0 else {emoji}) slots

structure SortedOut (s t : ConquisterState) (player : Str) : Prop where
  house : ∀ slot, slotAt (slotsOf t player) slot =
    if slot ∈ (sortMoves s player).map Prod.fst then [] else slotAt (slotsOf s player) slot
  onHim : ∀ move ∈ sortMoves s player, slotAt (gearOf t player) move.2 = slotAt (slotsOf s player) move.1
  kept : ∀ slot, slot ∉ (sortMoves s player).map Prod.snd → slotAt (gearOf t player) slot = slotAt (gearOf s player) slot
  together : contents (slotsOf t player) + contents (gearOf t player) =
    contents (slotsOf s player) + contents (gearOf s player)
  children : ∀ child ∈ s.children, child.owner = player → 0 ≤ child.slot →
    slotAt (slotsOf t player) child.slot.toNat = slotAt (slotsOf s player) child.slot.toNat

structure LobstersFollow (hold hold' : Holder) (moves : List (ℕ × ℕ)) : Prop where
  same : { hold' with lobsters := hold.lobsters } = hold
  stay : moves = [] → hold' = hold
  follow : moves ≠ [] → ∀ slot emoji, hold'.lobsters.find slot = some emoji ↔
    ∃ source, (source, slot) ∈ moves ∧ hold.lobsters.find source = some emoji

theorem contents_set {slots : List Str} {slot : ℕ} (h : slotAt slots slot ≠ []) :
    contents (slots.set slot []) + {slotAt slots slot} = contents slots := by
  have hset := shelfSum_set (fun emoji : Str => if emoji = [] then (0 : Multiset Str) else {emoji})
    (lt_length_of_slotAt_ne h) []
  simpa [contents, h] using hset

theorem contents_fillSlot {slots : List Str} {slot : ℕ} {emoji : Str} (h : slotAt slots slot = [])
    (hne : emoji ≠ []) : contents (fillSlot slots slot emoji) = contents slots + {emoji} := by
  have hfill := shelfSum_fillSlot (w := fun emoji : Str => if emoji = [] then (0 : Multiset Str) else {emoji})
    (if_pos rfl) slots slot emoji
  simpa [contents, h, hne] using hfill

@[simp] theorem contents_trimSlots (slots : List Str) : contents (trimSlots slots) = contents slots :=
  shelfSum_trimSlots (w := fun emoji : Str => if emoji = [] then (0 : Multiset Str) else {emoji}) (if_pos rfl) slots

structure Moved (house gear house' gear' : List Str) (moves : List (ℕ × ℕ)) : Prop where
  left : ∀ slot, slotAt house' slot = if slot ∈ moves.map Prod.fst then [] else slotAt house slot
  onHim : ∀ move ∈ moves, slotAt gear' move.2 = slotAt house move.1
  kept : ∀ slot, slot ∉ moves.map Prod.snd → slotAt gear' slot = slotAt gear slot
  together : contents house' + contents gear' = contents house + contents gear
  from_there : ∀ emoji, emoji ∈ house' ∨ emoji ∈ gear' → emoji ≠ [] → emoji ∈ house ∨ emoji ∈ gear

theorem Moved.none (house gear : List Str) : Moved house gear house gear [] where
  left _ := rfl
  onHim := nofun
  kept _ _ := rfl
  together := rfl
  from_there _ h _ := h

/-- One emoji more, moved before the others. -/
theorem Moved.one {house gear house' gear' : List Str} {slot target : ℕ} {moves : List (ℕ × ℕ)}
    (h : Moved (house.set slot []) (fillSlot gear target (slotAt house slot)) house' gear' moves)
    (hfilled : slotAt house slot ≠ []) (hfree : slotAt gear target = []) (hslot : slot ∉ moves.map Prod.fst)
    (htarget : target ∉ moves.map Prod.snd) : Moved house gear house' gear' ((slot, target) :: moves) := by
  have hlt := lt_length_of_slotAt_ne hfilled
  refine ⟨fun other => ?_, fun move hmove => ?_, fun other hother => ?_, ?_, fun emoji hemoji hne => ?_⟩
  · rw [h.left, slotAt_set]
    by_cases hother : other = slot
    · simp [hother, hlt]
    · rw [if_neg (fun h : other = slot ∧ _ => hother h.1)]
      simp only [List.map_cons, List.mem_cons, hother, false_or]
  · rcases List.mem_cons.mp hmove with rfl | hlater
    · rw [h.kept _ htarget, slotAt_fillSlot, if_pos rfl]
    · rw [h.onHim move hlater, slotAt_set, if_neg]
      rintro ⟨hsame, -⟩
      exact hslot (hsame ▸ List.mem_map_of_mem hlater)
  · rw [List.map_cons, List.mem_cons, not_or] at hother
    rw [h.kept other hother.2, slotAt_fillSlot, if_neg hother.1]
  · rw [h.together, contents_fillSlot hfree hfilled, ← contents_set hfilled]
    abel
  · rcases h.from_there emoji hemoji hne with hhouse | hgear
    · rcases List.mem_or_eq_of_mem_set hhouse with hmem | hnil
      · exact .inl hmem
      · exact absurd hnil hne
    · rcases mem_fillSlot hgear with hmem | hnil | rfl
      · exact .inr hmem
      · exact absurd hnil hne
      · exact .inl (slotAt_mem hfilled)

theorem sortOutFrom_moves (s : ConquisterState) (player : Str) {slots : List ℕ} (hslots : slots.Nodup)
    (house gear : List Str) (before : List (ℕ × ℕ)) : ∃ house' gear',
      sortOutFrom s player slots house gear before = (house', gear',
        before ++ (slots.filter (goesOnHim s player house)).zip (emptySlots carriedLimit gear)) ∧
      Moved house gear house' gear'
        ((slots.filter (goesOnHim s player house)).zip (emptySlots carriedLimit gear)) := by
  induction slots generalizing house gear before with
  | nil => exact ⟨house, gear, by rw [List.filter_nil, List.zip_nil_left, List.append_nil]; rfl, .none house gear⟩
  | cons slot slots ih =>
    obtain ⟨hnew, hslots⟩ := List.nodup_cons.mp hslots
    rw [sortOutFrom]
    by_cases hgoes : goesOnHim s player house slot = true
    · have hcond := hgoes
      simp only [goesOnHim, Bool.and_eq_true, decide_eq_true_eq, Bool.not_eq_true'] at hcond
      obtain ⟨⟨hfilled, hworks⟩, hchild⟩ := hcond
      rw [if_neg (by simp [hfilled, hworks, hchild]), List.filter_cons_of_pos hgoes]
      by_cases hroom : firstEmpty gear < carriedLimit
      · obtain ⟨rest, hrest⟩ := emptySlots_eq_cons hroom
        rw [freeSlot, if_pos hroom, hrest, List.zip_cons_cons]
        -- Emptying one slot does not change which of the others go.
        have hothers : slots.filter (goesOnHim s player (house.set slot [])) =
            slots.filter (goesOnHim s player house) := by
          apply List.filter_congr
          intro other hother
          have hne : other ≠ slot := fun heq => hnew (heq ▸ hother)
          simp [goesOnHim, slotAt_set, hne]
        obtain ⟨house', gear', hresult, hmoved⟩ := ih hslots (house.set slot [])
          (fillSlot gear (firstEmpty gear) (slotAt house slot)) (before ++ [(slot, firstEmpty gear)])
        rw [hothers, emptySlots_fillSlot hfilled hrest] at hresult hmoved
        refine ⟨house', gear', by simpa using hresult, hmoved.one hfilled (slotAt_firstEmpty gear) ?_ ?_⟩
        · intro hmem
          obtain ⟨move, hmove, rfl⟩ := List.mem_map.mp hmem
          exact hnew (List.mem_of_mem_filter (List.of_mem_zip hmove).1)
        · intro hmem
          obtain ⟨move, hmove, hsame⟩ := List.mem_map.mp hmem
          have hnodup : (emptySlots carriedLimit gear).Nodup := List.nodup_range.filter _
          rw [hrest] at hnodup
          exact (List.nodup_cons.mp hnodup).1 (hsame ▸ (List.of_mem_zip hmove).2)
      · rw [freeSlot, if_neg hroom, emptySlots_eq_nil (not_lt.mp hroom), List.zip_nil_right, List.append_nil]
        exact ⟨house, gear, rfl, .none house gear⟩
    · have hstays : slotAt house slot = [] ∨ ¬ worksOnHim (slotAt house slot) = true ∨
          isChild s player slot = true := by
        by_contra hnot
        simp only [not_or, not_not] at hnot
        exact hgoes (by simp [goesOnHim, hnot])
      rw [if_pos hstays, List.filter_cons_of_neg hgoes]
      exact ih hslots house gear before

theorem sortMoves_nodup (s : ConquisterState) (player : Str) :
    ((sortMoves s player).map Prod.fst).Nodup ∧ ((sortMoves s player).map Prod.snd).Nodup := by
  have hfst {sources targets : List ℕ} (h : sources.Nodup) : ((sources.zip targets).map Prod.fst).Nodup := by
    rw [List.zip_eq_zip_take_min, List.map_fst_zip (by simp)]
    exact h.sublist (List.take_sublist _ _)
  have hsnd {sources targets : List ℕ} (h : targets.Nodup) : ((sources.zip targets).map Prod.snd).Nodup := by
    rw [List.zip_eq_zip_take_min, List.map_snd_zip (by simp)]
    exact h.sublist (List.take_sublist _ _)
  exact ⟨hfst (List.nodup_range.filter _), hsnd (List.nodup_range.filter _)⟩

theorem movedLobsters_find {moved : List (ℕ × ℕ)} (hsources : (moved.map Prod.fst).Nodup)
    (htargets : (moved.map Prod.snd).Nodup) (lobsters : SortedMap Str) (slot : ℕ) (emoji : Str) :
    (movedLobsters lobsters moved).find slot = some emoji ↔
      ∃ source, (source, slot) ∈ moved ∧ lobsters.find source = some emoji := by
  have hone {source target : ℕ} (h : (source, target) ∈ moved) {other : ℕ} (hother : (other, target) ∈ moved) :
      other = source := by
    have hsame := List.inj_on_of_nodup_map htargets hother h rfl
    exact congrArg Prod.fst hsame
  have hfold (entries : List (ℕ × Str)) (hentries : (entries.map Prod.fst).Nodup) (kept : SortedMap Str) :
      (entries.foldl (fun kept entry =>
        (assoc entry.1 moved).elim kept fun target => kept.set target entry.2) kept).find slot = some emoji ↔
      (∃ source, (source, slot) ∈ moved ∧ (source, emoji) ∈ entries) ∨
        kept.find slot = some emoji ∧ ∀ source, (source, slot) ∈ moved → source ∉ entries.map Prod.fst := by
    induction entries generalizing kept with
    | nil => simp
    | cons entry entries ih =>
      obtain ⟨hnew, hentries⟩ := List.nodup_cons.mp hentries
      rw [List.foldl_cons, ih hentries]
      cases htarget : assoc entry.1 moved with
      | none =>
        have hstays (target : ℕ) : (entry.1, target) ∉ moved := by
          intro hmem
          rw [(assoc_eq_some_iff_mem hsources _ _).mpr hmem] at htarget
          cases htarget
        have hother {source : ℕ} (h : (source, slot) ∈ moved) : source ≠ entry.1 := by
          rintro rfl
          exact hstays slot h
        constructor
        · rintro (⟨source, hmoved, hmem⟩ | ⟨hkept, hnone⟩)
          · exact .inl ⟨source, hmoved, List.mem_cons_of_mem _ hmem⟩
          · refine .inr ⟨hkept, fun source hmoved hmem => ?_⟩
            rcases List.mem_cons.mp hmem with heq | hlater
            · exact hother hmoved heq
            · exact hnone source hmoved hlater
        · rintro (⟨source, hmoved, hmem⟩ | ⟨hkept, hnone⟩)
          · rcases List.mem_cons.mp hmem with rfl | hlater
            · exact absurd rfl (hother hmoved)
            · exact .inl ⟨source, hmoved, hlater⟩
          · exact .inr ⟨hkept, fun source hmoved hmem => hnone source hmoved (List.mem_cons_of_mem _ hmem)⟩
      | some target =>
        have hmoves := (assoc_eq_some_iff_mem hsources _ _).mp htarget
        rw [Option.elim_some, SortedMap.find_set]
        by_cases hslot : slot = target
        · subst hslot
          rw [if_pos rfl]
          constructor
          · rintro (⟨source, hmoved, hmem⟩ | ⟨hvalue, -⟩)
            · exact .inl ⟨source, hmoved, List.mem_cons_of_mem _ hmem⟩
            · exact .inl ⟨entry.1, hmoves, List.mem_cons.mpr (.inl (Prod.ext rfl (Option.some.inj hvalue).symm))⟩
          · rintro (⟨source, hmoved, hmem⟩ | ⟨-, hnone⟩)
            · rcases List.mem_cons.mp hmem with rfl | hlater
              · refine .inr ⟨rfl, fun other hother hmem => ?_⟩
                rw [hone hmoves hother] at hmem
                exact hnew hmem
              · exact .inl ⟨source, hmoved, hlater⟩
            · exact absurd List.mem_cons_self (hnone entry.1 hmoves)
        · rw [if_neg hslot]
          have hother {source : ℕ} (h : (source, slot) ∈ moved) : source ≠ entry.1 := by
            rintro rfl
            have hsame := List.inj_on_of_nodup_map hsources h hmoves rfl
            exact hslot (congrArg Prod.snd hsame)
          constructor
          · rintro (⟨source, hmoved, hmem⟩ | ⟨hkept, hnone⟩)
            · exact .inl ⟨source, hmoved, List.mem_cons_of_mem _ hmem⟩
            · refine .inr ⟨hkept, fun source hmoved hmem => ?_⟩
              rcases List.mem_cons.mp hmem with heq | hlater
              · exact hother hmoved heq
              · exact hnone source hmoved hlater
          · rintro (⟨source, hmoved, hmem⟩ | ⟨hkept, hnone⟩)
            · rcases List.mem_cons.mp hmem with rfl | hlater
              · exact absurd rfl (hother hmoved)
              · exact .inl ⟨source, hmoved, hlater⟩
            · exact .inr ⟨hkept, fun source hmoved hmem => hnone source hmoved (List.mem_cons_of_mem _ hmem)⟩
  have hentries : (lobsters.entries.map Prod.fst).Nodup := by
    rw [List.nodup_iff_pairwise_ne, List.pairwise_map]
    exact lobsters.sorted.imp fun h => h.ne
  have hsame : movedLobsters lobsters moved = lobsters.entries.foldl (fun kept entry =>
      (assoc entry.1 moved).elim kept fun target => kept.set target entry.2) .empty := by
    rw [movedLobsters]
    congr
    funext kept entry
    cases assoc entry.1 moved with
    | none => rfl
    | some target => rfl
  rw [hsame]
  refine (hfold lobsters.entries hentries .empty).trans ?_
  simp only [SortedMap.find_empty, reduceCtorEq, false_and, or_false, SortedMap.find_eq_some]

/-- The slots of one house and of who lives there are read back, whatever is moved between them. -/
def SlotsReadBack (state : ConquisterState) (player : Str) : Prop :=
  ∀ slots, (∀ emoji ∈ slots, emoji ≠ [] → emoji ∈ slotsOf state player ∨ emoji ∈ gearOf state player) →
    SlotCodec.slots (SlotCodec.stored slots) = trimSlots slots

theorem slotsReadBack_of_clean {s : ConquisterState} (h : Kept Clean s) (player : Str) : SlotsReadBack s player := by
  intro slots hslots
  apply lawful_clean.back
  intro emoji hemoji hne
  rcases hslots emoji hemoji hne with hhouse | hgear
  · exact h.house player emoji hhouse hne
  · exact h.gear player emoji hgear hne

structure SamePlaces (s t : ConquisterState) (player : Str) : Prop where
  house : slotsOf t player = slotsOf s player
  gear : gearOf t player = gearOf s player
  children : t.children = s.children

theorem SamePlaces.moves {s t : ConquisterState} {player : Str} (h : SamePlaces s t player) :
    sortMoves t player = sortMoves s player := by
  have hgoes : goesOnHim t player = goesOnHim s player := by
    funext house slot
    simp only [goesOnHim, isChild, h.children]
  rw [sortMoves, sortMoves, hgoes, h.house, h.gear]

theorem SamePlaces.before {s t u : ConquisterState} {player : Str} (h : SamePlaces s t player)
    (hsorted : SortedOut t u player) : SortedOut s u player where
  house := h.moves ▸ h.house ▸ hsorted.house
  onHim := h.moves ▸ h.house ▸ hsorted.onHim
  kept := h.moves ▸ h.gear ▸ hsorted.kept
  together := h.house ▸ h.gear ▸ hsorted.together
  children := h.children ▸ h.house ▸ hsorted.children

theorem SamePlaces.after {s t u : ConquisterState} {player : Str} (h : SamePlaces t u player)
    (hsorted : SortedOut s t player) : SortedOut s u player where
  house := h.house ▸ hsorted.house
  onHim := h.gear ▸ hsorted.onHim
  kept := h.gear ▸ hsorted.kept
  together := h.house ▸ h.gear ▸ hsorted.together
  children := h.house ▸ hsorted.children

theorem not_child_of_moves {s : ConquisterState} {player : Str} {child : Child} (hchild : child ∈ s.children)
    (howner : child.owner = player) (hslot : 0 ≤ child.slot) :
    child.slot.toNat ∉ (sortMoves s player).map Prod.fst := by
  intro hmem
  obtain ⟨move, hmove, hsame⟩ := List.mem_map.mp hmem
  have hgoes := (List.mem_filter.mp (List.of_mem_zip hmove).1).2
  have hkid : isChild s player move.1 = true := by
    rw [isChild, List.any_eq_true]
    exact ⟨child, hchild, by simp [howner, hsame, hslot]⟩
  simp [goesOnHim, hkid] at hgoes

theorem SortedOut.of_no_moves {s : ConquisterState} {player : Str} (h : sortMoves s player = []) :
    SortedOut s s player where
  house slot := by simp [h]
  onHim := by simp [h]
  kept _ _ := rfl
  together := rfl
  children _ _ _ _ := rfl

def holderSorted (state : ConquisterState) (player : Str) (hold : Holder) : Holder :=
  if hold.username = player ∧ sortMoves state player ≠ [] then
    { hold with lobsters := movedLobsters hold.lobsters (sortMoves state player) }
  else hold

/-- All but the two places, the holder and whether they are sorted out. -/
def besidePlaces (state : ConquisterState) : ConquisterState :=
  { state with furniture := .empty, equipped := .empty, current := none, split := false }

structure OneSorted (s t : ConquisterState) (player : Str) : Prop where
  own : SortedOut s t player
  others : ∀ other, other ≠ player → SamePlaces s t other
  holder : t.current = s.current.map (holderSorted s player)
  rest : besidePlaces t = besidePlaces s
  stored : ∀ other, other ≠ player → storedIn t.furniture other = storedIn s.furniture other

theorem sortOut_one {s : ConquisterState} {player stored : Str} (hstored : storedIn s.furniture player = stored)
    (hback : SlotsReadBack s player) : OneSorted s (sortOut s player stored) player := by
  subst hstored
  obtain ⟨house, gear, hresult, hmoved⟩ := sortOutFrom_moves s player
    (List.nodup_range (n := (slotsOf s player).length)) (slotsOf s player) (gearOf s player) []
  rw [List.nil_append] at hresult
  change sortOutFrom s player (List.range (slotsOf s player).length) (slotsOf s player) (gearOf s player) [] =
    (house, gear, sortMoves s player) at hresult
  change Moved _ _ house gear (sortMoves s player) at hmoved
  have hnone (other : Str) : SamePlaces s s other := ⟨rfl, rfl, rfl⟩
  by_cases hmoves : sortMoves s player = []
  · have hsame : sortOut s player (storedIn s.furniture player) = s := by
      rw [sortOut]
      split
      rename_i hsorted
      cases hsorted.symm.trans hresult
      exact if_pos hmoves
    rw [hsame]
    refine ⟨.of_no_moves hmoves, fun other _ => hnone other, ?_, rfl, fun _ _ => rfl⟩
    have hstays : holderSorted s player = id := funext fun hold => if_neg fun h => h.2 hmoves
    rw [hstays, Option.map_id, id]
  · -- Both places are written, and read back as they were written.
    have hhouse : SlotCodec.slots (SlotCodec.stored house) = trimSlots house :=
      hback house fun emoji hemoji => hmoved.from_there emoji (.inl hemoji)
    have hgear : SlotCodec.slots (SlotCodec.stored gear) = trimSlots gear :=
      hback gear fun emoji hemoji => hmoved.from_there emoji (.inr hemoji)
    have hsorted : sortOut s player (storedIn s.furniture player) =
        { hangGear (hang s player house) player gear with current := s.current.map (holderSorted s player) } := by
      rw [sortOut]
      split
      rename_i hsorted
      cases hsorted.symm.trans hresult
      rw [if_neg hmoves]
      dsimp only
      rw [hangGear_current, hang_current]
      cases hheld : s.current with
      | none =>
        dsimp only
        rw [Option.map_none, ← hheld]
        rfl
      | some hold =>
        dsimp only
        rw [Option.map_some, holderSorted]
        by_cases hown : hold.username = player
        · rw [if_neg (not_not.mpr hown), if_pos ⟨hown, hmoves⟩]
        · rw [if_pos hown, if_neg fun h => hown h.1, ← hheld]
          rfl
    rw [hsorted]
    have hown : slotsOf (hangGear (hang s player house) player gear) player = trimSlots house := by
      rw [slotsOf_hangGear, slotsOf_hang, if_pos rfl, hhouse]
    have hworn : gearOf (hangGear (hang s player house) player gear) player = trimSlots gear := by
      rw [gearOf_hangGear, if_pos rfl, hgear]
    refine ⟨⟨fun slot => ?_, fun move hmove => ?_, fun slot hslot => ?_, ?_, fun child hchild howner hslot => ?_⟩,
      fun other hother => ⟨?_, ?_, rfl⟩, rfl, rfl, fun other hother => ?_⟩
    · change slotAt (slotsOf (hangGear (hang s player house) player gear) player) slot = _
      rw [hown, slotAt_trimSlots, hmoved.left]
    · change slotAt (gearOf (hangGear (hang s player house) player gear) player) _ = _
      rw [hworn, slotAt_trimSlots, hmoved.onHim move hmove]
    · change slotAt (gearOf (hangGear (hang s player house) player gear) player) _ = _
      rw [hworn, slotAt_trimSlots, hmoved.kept slot hslot]
    · change contents (slotsOf (hangGear (hang s player house) player gear) player) +
        contents (gearOf (hangGear (hang s player house) player gear) player) = _
      rw [hown, hworn, contents_trimSlots, contents_trimSlots, hmoved.together]
    · change slotAt (slotsOf (hangGear (hang s player house) player gear) player) _ = _
      rw [hown, slotAt_trimSlots, hmoved.left, if_neg (not_child_of_moves hchild howner hslot)]
    · change slotsOf (hangGear (hang s player house) player gear) other = _
      rw [slotsOf_hangGear, slotsOf_hang, if_neg hother]
    · change gearOf (hangGear (hang s player house) player gear) other = _
      rw [gearOf_hangGear, if_neg hother, gearOf_hang]
    · change storedIn (hangIn s.furniture player house) other = _
      rw [storedIn_hangIn, if_neg hother]

structure AllSorted (s t : ConquisterState) (players : List Str) : Prop where
  own : ∀ player ∈ players, SortedOut s t player
  others : ∀ other, other ∉ players → SamePlaces s t other
  holder : t.current = s.current.map fun hold =>
    if hold.username ∈ players then holderSorted s hold.username hold else hold
  rest : besidePlaces t = besidePlaces s

theorem holderSorted_username (s : ConquisterState) (player : Str) (hold : Holder) :
    (holderSorted s player hold).username = hold.username := by
  rw [holderSorted]
  split <;> rfl

theorem sortOut_all (houses : List (Str × Str)) (s : ConquisterState) (hnodup : (houses.map Prod.fst).Nodup)
    (hstored : ∀ house ∈ houses, storedIn s.furniture house.1 = house.2)
    (hback : ∀ house ∈ houses, SlotsReadBack s house.1) :
    AllSorted s (houses.foldl (fun sorted house => sortOut sorted house.1 house.2) s) (houses.map Prod.fst) := by
  induction houses generalizing s with
  | nil => exact ⟨nofun, fun other _ => ⟨rfl, rfl, rfl⟩, by simp, rfl⟩
  | cons house houses ih =>
    rw [List.map_cons] at hnodup ⊢
    obtain ⟨hnew, hnodup⟩ := List.nodup_cons.mp hnodup
    have hone := sortOut_one (hstored house List.mem_cons_self) (hback house List.mem_cons_self)
    generalize hnext : sortOut s house.1 house.2 = next at hone
    rw [List.foldl_cons, hnext]
    have hother {other : Str × Str} (h : other ∈ houses) : other.1 ≠ house.1 :=
      fun heq => hnew (heq ▸ List.mem_map_of_mem h)
    have hlater := ih next hnodup
      (fun other h => (hone.stored other.1 (hother h)).trans (hstored other (List.mem_cons_of_mem _ h)))
      (fun other h => by
        have hsame := hone.others other.1 (hother h)
        rw [SlotsReadBack, hsame.house, hsame.gear]
        exact hback other (List.mem_cons_of_mem _ h))
    generalize houses.foldl (fun sorted house => sortOut sorted house.1 house.2) next = last at hlater ⊢
    refine ⟨fun player hplayer => ?_, fun other hout => ?_, ?_, ?_⟩
    · rcases List.mem_cons.mp hplayer with rfl | hmem
      · exact (hlater.others house.1 hnew).after hone.own
      · have hne : player ≠ house.1 := fun heq => hnew (heq ▸ hmem)
        exact (hone.others player hne).before (hlater.own player hmem)
    · rw [List.mem_cons, not_or] at hout
      have hfirst := hone.others other hout.1
      have hthen := hlater.others other hout.2
      exact ⟨hthen.house.trans hfirst.house, hthen.gear.trans hfirst.gear, hthen.children.trans hfirst.children⟩
    · rw [hlater.holder, hone.holder, Option.map_map]
      refine congrArg (s.current.map ·) (funext fun hold => ?_)
      simp only [Function.comp_apply, holderSorted_username]
      by_cases hhere : hold.username = house.1
      · rw [if_neg (hhere ▸ hnew), if_pos (hhere ▸ List.mem_cons_self), hhere]
      · have hstays : holderSorted s house.1 hold = hold := if_neg fun h => hhere h.1
        rw [hstays]
        by_cases hthere : hold.username ∈ houses.map Prod.fst
        · rw [if_pos hthere, if_pos (List.mem_cons_of_mem _ hthere), holderSorted, holderSorted,
            (hone.others _ hhere).moves]
        · rw [if_neg hthere, if_neg (by simp [hhere, hthere])]
    · exact hlater.rest.trans hone.rest

theorem sortMoves_of_no_house {s : ConquisterState} {player : Str} (h : player ∉ s.furniture.keys) :
    sortMoves s player = [] := by
  have hempty : slotsOf s player = [] := by
    rw [slotsOf, storedIn, OrderedMap.find_eq_none.mpr h]
    rfl
  rw [sortMoves, hempty]
  rfl

/-- The saves from before there were two places are sorted out, and sorting them out again changes nothing. -/
theorem sorted_out_once {s : ConquisterState} (hsplit : s.split = false) (hback : ∀ player, SlotsReadBack s player) :
    (∀ player, SortedOut s (equipmentSortOut s) player) ∧
      (s.current = none → (equipmentSortOut s).current = none) ∧
      (∀ hold, s.current = some hold → ∃ hold', (equipmentSortOut s).current = some hold' ∧
        LobstersFollow hold hold' (sortMoves s hold.username)) ∧
      besidePlaces (equipmentSortOut s) = besidePlaces s ∧ (equipmentSortOut s).split = true ∧
      equipmentSortOut (equipmentSortOut s) = equipmentSortOut s := by
  have hall := sortOut_all s.furniture.entries s s.furniture.nodup
    (fun house hhouse => by rw [storedIn, OrderedMap.find_eq_some.mpr hhouse]; rfl) fun house _ => hback house.1
  have hstate : equipmentSortOut s = { s.furniture.entries.foldl (fun sorted house =>
      sortOut sorted house.1 house.2) s with split := true } := by
    rw [equipmentSortOut, hsplit, if_neg Bool.false_ne_true]
  rw [hstate]
  generalize s.furniture.entries.foldl (fun sorted house => sortOut sorted house.1 house.2) s = sorted at hall
  have hsame (player : Str) : SamePlaces sorted { sorted with split := true } player := ⟨rfl, rfl, rfl⟩
  refine ⟨fun player => ?_, fun hnone => ?_, fun hold hheld => ?_, hall.rest, rfl, ?_⟩
  · apply (hsame player).after
    by_cases hhouse : player ∈ s.furniture.keys
    · exact hall.own player hhouse
    · exact (hall.others player hhouse).after (.of_no_moves (sortMoves_of_no_house hhouse))
  · exact hall.holder.trans (by rw [hnone, Option.map_none])
  · refine ⟨_, hall.holder.trans (by rw [hheld, Option.map_some]), ?_⟩
    by_cases hmoves : sortMoves s hold.username = []
    · have hstays : holderSorted s hold.username hold = hold := if_neg fun h => h.2 hmoves
      rw [hstays, ite_self]
      exact ⟨rfl, fun _ => rfl, fun h => absurd hmoves h⟩
    · have hhouse : hold.username ∈ s.furniture.entries.map Prod.fst := by
        by_contra hnot
        exact hmoves (sortMoves_of_no_house hnot)
      rw [if_pos hhouse, holderSorted, if_pos ⟨rfl, hmoves⟩]
      refine ⟨rfl, fun h => absurd h hmoves, fun _ slot emoji => ?_⟩
      obtain ⟨hsources, htargets⟩ := sortMoves_nodup s hold.username
      exact movedLobsters_find hsources htargets hold.lobsters slot emoji
  · rw [equipmentSortOut]
    exact if_pos rfl

/-- Bob holds the place with a 🍕, a 🎈, a ⚡ and a 🦞 in his house, and has nothing on him. -/
def packedSave : ConquisterState :=
  { current := some { username := utf8 "bob", lobsters := SortedMap.empty.set 3 (utf8 "⚡") }
    furniture := OrderedMap.empty.set (utf8 "bob") (utf8 "🍕🎈⚡🦞") }

theorem oldSave_kept : Kept Clean packedSave := by
  have hclean : ∀ emoji ∈ [utf8 "🍕", utf8 "🎈", utf8 "⚡", utf8 "🦞"], Clean emoji := by
    have hreads : ∀ emoji ∈ [utf8 "🍕", utf8 "🎈", utf8 "⚡", utf8 "🦞"], Text.OneEmoji emoji ∧
        (∀ letter ∈ Text.lettersOf emoji, letter.broken = false) ∧
        Text.sticksToTheOneBefore (Text.letterAt emoji).code = false ∧
        (Text.reading (.free false) (Text.lettersOf emoji)).map Prod.snd = some (.free false) := by
      decide +kernel
    intro emoji hemoji
    obtain ⟨hone, hunbroken, hstarts, hmood⟩ := hreads emoji hemoji
    exact clean_of_reading hone hunbroken hstarts hmood
  refine ⟨fun player => ?_, fun _ => allOf_nil, nofun⟩
  rw [slotsOf, storedIn, packedSave, OrderedMap.find_set]
  split
  · have hslots : SlotCodec.slots ((some (utf8 "🍕🎈⚡🦞")).getD []) =
        [utf8 "🍕", utf8 "🎈", utf8 "⚡", utf8 "🦞"] := by
      decide +kernel
    rw [hslots]
    exact fun emoji hemoji _ => hclean emoji hemoji
  · exact allOf_nil

theorem sorted_out_once_bob :
    (∀ player, SortedOut packedSave (equipmentSortOut packedSave) player) ∧
      (packedSave.current = none → (equipmentSortOut packedSave).current = none) ∧
      (∀ hold, packedSave.current = some hold → ∃ hold', (equipmentSortOut packedSave).current = some hold' ∧
        LobstersFollow hold hold' (sortMoves packedSave hold.username)) ∧
      besidePlaces (equipmentSortOut packedSave) = besidePlaces packedSave ∧ (equipmentSortOut packedSave).split = true ∧
      equipmentSortOut (equipmentSortOut packedSave) = equipmentSortOut packedSave :=
  sorted_out_once rfl (slotsReadBack_of_clean oldSave_kept)

example : sortMoves packedSave (utf8 "bob") = [(1, 0), (2, 1), (3, 2)] := by decide +kernel

end NorelecBot
