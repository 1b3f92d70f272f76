import NorelecBot.PalleBooks
import NorelecBot.Runs

/-! # Children stay in their slots

Along any run each child is in a slot of its own, where it looks like one of its
ages, and it is there after an operation unless the operation says otherwise.
-/

namespace NorelecBot
open Lib

section
variable [SlotCodec]

def Child.outgrown (child : Child) (now : ℤ) (rules : RaidRules) : Bool :=
  childEmoji child.male (child.age now rules) = []

def outgrown (state : ConquisterState) (now : ℤ) (rules : RaidRules) : Multiset (Str × Bool × ℤ) :=
  ((state.children.filter (·.outgrown now rules)).map Child.self : List _)

theorem KidsHome.not_stray {s : ConquisterState} (h : KidsHome s) {child : Child} (hmem : child ∈ s.children) :
    ¬ child.stray s := by
  obtain ⟨hnonneg, hage⟩ := h.there child hmem
  rintro (hnegative | hempty)
  · omega
  · exact ageEmoji_ne_nil hage hempty

/-- Where every child is in its slot, only those who have lived all their ages leave. -/
theorem growth_left {P : Str → Prop} (law : Lawful P) (now : ℤ) (rules : RaidRules) (children : List Child)
    (s : ConquisterState) (before : List Child) (hs : Cared P { s with children := before ++ children }) :
    (growth now rules children s).left = ((children.filter (·.outgrown now rules)).map Child.self : List _) := by
  induction children generalizing s before with
  | nil => rfl
  | cons child children ih =>
    have hthere : ¬ child.stray s := hs.home.not_stray (List.mem_append_right _ List.mem_cons_self)
    have hone := (growOne_passage s now rules child before children).cared law allOf_nil hs
    rw [growth, Receipt.left_add, growthOf, if_neg hthere]
    rcases growOne_cases s now rules child with ⟨hstray, -, -⟩ | ⟨-, hlooks, hleaves, -⟩ | ⟨-, hlooks, hstays, -⟩
    · exact absurd hstray hthere
    · rw [hleaves, if_neg Bool.false_ne_true] at hone
      have hout : child.outgrown now rules = true := decide_eq_true hlooks
      rw [ih _ before hone, List.filter_cons, if_pos hout, List.map_cons, if_pos hlooks]
      exact Multiset.singleton_add _ _
    · rw [hstays, if_pos rfl, List.append_cons] at hone
      have hout : ¬ child.outgrown now rules = true := fun hout => hlooks (of_decide_eq_true hout)
      rw [ih _ (before ++ [child]) hone, List.filter_cons, if_neg hout, if_neg hlooks]
      exact zero_add _

theorem layEggs_children (s : ConquisterState) (now : ℤ) (rules : RaidRules) :
    (layEggs s now rules).children = s.children := by
  rw [layEggs]
  split_ifs <;> rfl

theorem growthDue_left {P : Str → Prop} (law : Lawful P) {s : ConquisterState} (now : ℤ) (rules : RaidRules)
    (hs : Cared P s) : (growthDue s now rules).left = outgrown s now rules := by
  have hready : Cared P (layEggs (wash s now) now rules) :=
    ((Passage.quiet [] (wash_quiet s now)).trans (layEggs_passage (wash s now) now rules)).cared law allOf_nil hs
  have hchildren := layEggs_children (wash s now) now rules
  rw [growthDue]
  generalize layEggs (wash s now) now rules = fed at hready hchildren ⊢
  rw [growth_left law now rules fed.children fed [] hready, hchildren]
  rfl

variable [Clock]

/-- The children an operation takes out of the game: the one that is burnt on purpose, those who have lived
all their ages, and those of whoever a ☢️ starts over. -/
def Op.takesChildren (state : ConquisterState) : Op → Reply → Multiset (Str × Bool × ℤ) → Prop
  | .burn player emoji _ _ destroy _, .burn result, left =>
    left = 0 ∨ (result.reset = true ∧ left = kids state) ∨
      (destroy = true ∧ ∃ child ∈ state.children, looksLike player (slotsOf state player) emoji child = true ∧
        left = {child.self})
  | .raidDue now rules draws, .raidDue _, left =>
    left = outgrown state now rules +
      (strikes now rules draws.ride (beforeRides state now rules draws).2.raids.length 0
        (beforeRides state now rules draws).2).left
  | _, _, left => left = 0

theorem furnitureBurn_kids {s t : ConquisterState} {player emoji : Str} {now : ℤ} {rules : RaidRules} {destroy : Bool}
    {draws : LandDraws} {result : FurnitureBurnResult}
    (h : furnitureBurn s player emoji now rules destroy draws = .ok (result, t)) :
    ∃ left, kids s ≤ kids t + left ∧
      (Op.burn player emoji now rules destroy draws).takesChildren s (.burn result) left := by
  rcases furnitureBurn_passage h with ⟨-, rfl⟩ | ⟨-, hdestroy, child, hchild, hlooks, hburnt⟩ |
    ⟨-, taken, tended, htaken, hburnt⟩
  · exact ⟨0, Multiset.le_add_right _ _, .inl rfl⟩
  · exact ⟨{child.self}, hburnt.kids_le, .inr (.inr ⟨hdestroy, child, hchild, hlooks, rfl⟩)⟩
  · have hkids := hburnt.kids_le
    rw [Receipt.left_add, zero_add, burnToll] at hkids
    split at hkids
    · rename_i hreset
      exact ⟨kids s, Multiset.le_add_left _ _, .inr (.inl ⟨hreset, rfl⟩)⟩
    · exact ⟨0, hkids, .inl rfl⟩

theorem step_kids {P : Str → Prop} (law : Lawful P) {files files' : Files} {op : Op} {reply : Reply}
    (hs : Cared P files.state) (h : step files op = .ok (reply, files')) :
    ∃ left, kids files.state ≤ kids files'.state + left ∧ op.takesChildren files.state reply left := by
  have hgentle (hop : op.Gentle) : kids files.state ≤ kids files'.state + 0 := by
    obtain ⟨f, hpassage, hleft, -⟩ := step_passage h
    rw [← hleft hop]
    exact hpassage.kids_le
  cases op with
  | burn player emoji now rules destroy draws =>
    obtain ⟨result, hburn, rfl, -⟩ := Files.only_eq_ok h
    exact furnitureBurn_kids hburn
  | raidDue now rules draws =>
    obtain ⟨events, hdue, rfl, -⟩ := Files.only_eq_ok h
    obtain ⟨-, palle, hround, -⟩ := raidDue_round hdue
    refine ⟨_, hround.kids_le, ?_⟩
    rw [Op.takesChildren, ← growthDue_left law now rules hs]
    exact congrArg (· + _) (zero_add _)
  | _ => exact ⟨0, hgentle trivial, rfl⟩

/-- From a game with no children in it: along any run every child is in a slot of its own where it looks like
one of its ages, and the next operation takes out only the children it says. -/
theorem children_stay {P : Str → Prop} (law : Lawful P) {files : Files} (hs : Kept P files.state)
    (hnone : files.state.children = []) {ops : List Op} (hinputs : ∀ op ∈ ops, AllOf P op.inputs) :
    KidsHome (files.run ops).state ∧
      ∀ op reply files', step (files.run ops) op = .ok (reply, files') →
        ∃ left, kids (files.run ops).state ≤ kids files'.state + left ∧
          op.takesChildren (files.run ops).state reply left := by
  have hhome : KidsHome files.state := by
    refine ⟨?_, ?_⟩ <;> rw [hnone]
    · exact nofun
    · exact List.nodup_nil
  have hcared : Cared P (files.run ops).state :=
    Files.run_keeps (fun hemoji hpassage => hpassage.cared law hemoji) hinputs ⟨hs, hhome⟩
  exact ⟨hcared.home, fun op reply files' h => step_kids law hcared h⟩

end

def expecting : Files := { state := { pregnancies := [⟨utf8 "alice", utf8 "bob", 0⟩] } }

def night : Op := .raidDue 1 {} ⟨fun _ => 0, fun _ => ⟨0, 0⟩, fun _ => ⟨0, 0, 0, ⟨0, 0⟩, 0, 0, 0, [], [], 0, 0⟩⟩

theorem expecting_kept : Kept Clean expecting.state := ⟨fun _ => allOf_nil, fun _ => allOf_nil, nofun⟩

theorem children_stay_night : (@Files.run _ utc expecting [night]).state.children ≠ [] ∧
    KidsHome (@Files.run _ utc expecting [night]).state ∧
      ∀ op reply files', @step _ utc (@Files.run _ utc expecting [night]) op = .ok (reply, files') →
        ∃ left, kids (@Files.run _ utc expecting [night]).state ≤ kids files'.state + left ∧
          @Op.takesChildren _ utc (@Files.run _ utc expecting [night]).state op reply left := by
  refine ⟨by decide +kernel, @children_stay _ utc Clean lawful_clean expecting expecting_kept rfl [night] ?_⟩
  intro op hop
  rw [List.mem_singleton.mp hop]
  exact allOf_nil

end NorelecBot
