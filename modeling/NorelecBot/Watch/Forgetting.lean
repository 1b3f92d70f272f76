import NorelecBot.Watch.Report
import NorelecBot.Watch.Save

/-! # Forgetting is invisible

Two sentinels that agree on what is not older than a time answer alike from a week
after it on. Forgetting, and being written and read back, change nothing of that.
-/

namespace NorelecBot.Watch
open Lib

theorem forgetBefore_again (times : List ℤ) {early late : ℤ} (h : early ≤ late) :
    forgetBefore (forgetBefore times early) late = forgetBefore times late := by
  rw [forgetBefore, forgetBefore, forgetBefore, List.filter_filter]
  apply List.filter_congr
  intro time _
  by_cases hlate : late ≤ time
  · simp [hlate, le_trans h hlate]
  · simp [hlate]

theorem Player.since_again (player : Player) {early late : ℤ} (h : early ≤ late) :
    (player.since early).since late = player.since late := by
  have hacts : ((player.acts.filter fun act => early ≤ act.at').filter fun act => late ≤ act.at') =
      player.acts.filter fun act => late ≤ act.at' := by
    rw [List.filter_filter]
    apply List.filter_congr
    intro act _
    by_cases hlate : late ≤ act.at'
    · simp [hlate, le_trans h hlate]
    · simp [hlate]
  have hrobbed : ((player.robbedBy.filter fun robbery => early ≤ robbery.1).filter fun robbery => late ≤ robbery.1) =
      player.robbedBy.filter fun robbery => late ≤ robbery.1 := by
    rw [List.filter_filter]
    apply List.filter_congr
    intro robbery _
    by_cases hlate : late ≤ robbery.1
    · simp [hlate, le_trans h hlate]
    · simp [hlate]
  simp only [Player.since, hacts, hrobbed, forgetBefore_again player.backs h]

theorem Identity.since_again (identity : Identity) {early late : ℤ} (h : early ≤ late) :
    (identity.since early).since late = identity.since late := by
  simp only [Identity.since, forgetBefore_again _ h]

theorem mapVals_mapVals {κ α β γ : Type*} [LT κ] (m : KeyMap κ α) (f : α → β) (g : β → γ) :
    (m.mapVals f).mapVals g = m.mapVals fun value => g (f value) := by
  ext1
  simp [KeyMap.mapVals]

/-- As far back as a time, the two saw the same. -/
structure Alike (oldest : ℤ) (memory other : Memory) : Prop where
  blocked : memory.blocked = other.blocked
  started : memory.started = other.started
  players : (memory.players.mapVals fun player => player.since oldest) = other.players.mapVals fun player => player.since oldest
  identities : (memory.identities.mapVals fun identity => identity.since oldest) =
    other.identities.mapVals fun identity => identity.since oldest

namespace Alike
variable {oldest : ℤ} {memory other third : Memory}

theorem refl (oldest : ℤ) (memory : Memory) : Alike oldest memory memory := ⟨rfl, rfl, rfl, rfl⟩

theorem symm (h : Alike oldest memory other) : Alike oldest other memory :=
  ⟨h.blocked.symm, h.started.symm, h.players.symm, h.identities.symm⟩

theorem trans (h : Alike oldest memory other) (h' : Alike oldest other third) : Alike oldest memory third :=
  ⟨h.blocked.trans h'.blocked, h.started.trans h'.started, h.players.trans h'.players, h.identities.trans h'.identities⟩

end Alike

/-- A way of forgetting that touches nothing of the week before. -/
def Invisible (forget : ℤ → Memory → Memory) : Prop :=
  ∀ now oldest memory, now - rememberedSeconds ≤ oldest → Alike oldest (forget now memory) memory

theorem neverForget_invisible : Invisible neverForget := fun _ oldest memory _ => Alike.refl oldest memory

theorem forget_invisible : Invisible Memory.forget := by
  intro now oldest memory hold
  rw [Memory.forget]
  by_cases hsoon : now - memory.forgotten < 3600
  · rw [if_pos hsoon]
    exact Alike.refl oldest memory
  · rw [if_neg hsoon]
    constructor
    · rfl
    · rfl
    · rw [Memory.since, mapVals_mapVals]
      congr 1
      funext player
      exact player.since_again hold
    · rw [Memory.since, mapVals_mapVals]
      congr 1
      funext identity
      exact identity.since_again hold

/-- A change that makes of alike ones alike ones. -/
def Follows {α : Type} (since : α → ℤ → α) (oldest : ℤ) (change : α → α) : Prop :=
  ∀ one other, since one oldest = since other oldest → since (change one) oldest = since (change other) oldest

theorem getD_since {α : Type} {since : α → ℤ → α} {oldest : ℤ} {one other : Option α} (absent : α)
    (h : one.map (fun value => since value oldest) = other.map fun value => since value oldest) :
    since (one.getD absent) oldest = since (other.getD absent) oldest := by
  cases one with
  | none =>
    cases other with
    | none => rfl
    | some other => cases h
  | some one =>
    cases other with
    | none => cases h
    | some other => simpa using h

/-- The same change under the same key of both. -/
theorem alter_since {α : Type} {since : α → ℤ → α} {oldest : ℤ} {one other : KeyMap Str α}
    (h : (one.mapVals fun value => since value oldest) = other.mapVals fun value => since value oldest)
    {change : α → α} (hchange : Follows since oldest change) (key : Str) (absent : α) :
    ((one.alter key fun found => change (found.getD absent)).mapVals fun value => since value oldest) =
      (other.alter key fun found => change (found.getD absent)).mapVals fun value => since value oldest := by
  have hfind : ∀ k, (one.find k).map (fun value => since value oldest) = (other.find k).map fun value => since value oldest := by
    intro k
    rw [← KeyMap.find_mapVals, ← KeyMap.find_mapVals, h]
  apply KeyMap.ext_find
  intro k
  rw [KeyMap.find_mapVals, KeyMap.find_mapVals, KeyMap.find_alter, KeyMap.find_alter]
  by_cases hk : k = key
  · rw [if_pos hk, if_pos hk, Option.map_some, Option.map_some, hchange _ _ (getD_since absent (hfind key))]
  · rw [if_neg hk, if_neg hk, hfind]

theorem seen_follows (oldest now : ℤ) : Follows Player.since oldest fun player => player.seen now := by
  intro one other h
  have hfirst : one.firstSeen = other.firstSeen := by
    simp only [Player.since, Player.mk.injEq] at h
    exact h.1
  simp only [Player.seen, hfirst]
  by_cases hnever : other.firstSeen = 0
  · rw [if_pos hnever, if_pos hnever]
    simp only [Player.since, Player.mk.injEq] at h ⊢
    exact ⟨trivial, h.2⟩
  · rw [if_neg hnever, if_neg hnever, h]

section
variable {forget forget' : ℤ → Memory → Memory} {oldest now : ℤ} {memory other : Memory}

theorem Alike.start (h : Alike oldest memory other) (now : ℤ) : Alike oldest (memory.start now) (other.start now) := by
  rw [Memory.start, Memory.start, h.started]
  by_cases hzero : other.started = 0
  · rw [if_pos hzero, if_pos hzero]
    exact ⟨h.blocked, rfl, h.players, h.identities⟩
  · rw [if_neg hzero, if_neg hzero]
    exact h

theorem Alike.forgotten (h : Alike oldest memory other) (hforget : Invisible forget) (hforget' : Invisible forget')
    (hold : now - rememberedSeconds ≤ oldest) :
    Alike oldest (forget now (memory.start now)) (forget' now (other.start now)) :=
  ((hforget now oldest _ hold).trans (h.start now)).trans (hforget' now oldest _ hold).symm

theorem Alike.player (h : Alike oldest memory other) (hforget : Invisible forget) (hforget' : Invisible forget')
    (hold : now - rememberedSeconds ≤ oldest) (key : Str) {change : Player → Player}
    (hchange : Follows Player.since oldest change) :
    Alike oldest (memory.player forget key now change) (other.player forget' key now change) := by
  have hboth := h.forgotten hforget hforget' hold
  have hall : Follows Player.since oldest fun player => change (player.seen now) :=
    fun one other h => hchange _ _ (seen_follows oldest now one other h)
  exact ⟨hboth.blocked, hboth.started, alter_since hboth.players hall key {}, hboth.identities⟩

theorem acts_follows (oldest : ℤ) (act : Act) :
    Follows Player.since oldest fun player => { player with acts := player.acts ++ [act] } := by
  intro one other h
  simp only [Player.since, Player.mk.injEq] at h ⊢
  rw [List.filter_append, List.filter_append, h.2.1]
  exact ⟨h.1, rfl, h.2.2⟩

theorem backs_follows (oldest now : ℤ) :
    Follows Player.since oldest fun player => { player with backs := player.backs ++ [now] } := by
  intro one other h
  simp only [Player.since, forgetBefore, Player.mk.injEq] at h ⊢
  rw [List.filter_append, List.filter_append, h.2.2.1]
  exact ⟨h.1, h.2.1, rfl, h.2.2.2⟩

theorem robbed_follows (oldest : ℤ) (robbery : ℤ × Str) :
    Follows Player.since oldest fun player => { player with robbedBy := player.robbedBy ++ [robbery] } := by
  intro one other h
  simp only [Player.since, Player.mk.injEq] at h ⊢
  rw [List.filter_append, List.filter_append, h.2.2.2]
  exact ⟨h.1, h.2.1, h.2.2.1, rfl⟩

theorem heard_follows (oldest now : ℤ) (host : Str) (command : Bool) :
    Follows Identity.since oldest fun heard =>
      let heard := if host = [] then heard else { heard with host := host }
      if command then { heard with commands := heard.commands ++ [now] }
      else { heard with chats := heard.chats ++ [now] } := by
  intro one other h
  simp only [Identity.since, forgetBefore, Identity.mk.injEq] at h
  by_cases hhost : host = []
  · cases command <;> simp [hhost, Identity.since, forgetBefore, h]
  · cases command <;> simp [hhost, Identity.since, forgetBefore, h]

theorem link_follows (oldest : ℤ) (player : Str) :
    Follows Identity.since oldest fun identity => { identity with player := player } := by
  intro one other h
  simp only [Identity.since, Identity.mk.injEq] at h ⊢
  exact ⟨trivial, h.2⟩

/-- Telling both the same leaves them alike. -/
theorem Alike.tell (h : Alike oldest memory other) (hforget : Invisible forget) (hforget' : Invisible forget')
    {told : Told} (htime : ∀ now ∈ told.time, now - rememberedSeconds ≤ oldest) :
    Alike oldest (memory.tell forget told) (other.tell forget' told) := by
  cases told with
  | ride player target gift now => exact h.player hforget hforget' (htime now rfl) player (acts_follows oldest _)
  | claim player now => exact h.player hforget hforget' (htime now rfl) player (acts_follows oldest _)
  | back player now => exact h.player hforget hforget' (htime now rfl) player (backs_follows oldest now)
  | robbed victim robber now => exact h.player hforget hforget' (htime now rfl) victim (robbed_follows oldest _)
  | heard identity host command now =>
    have hboth := h.forgotten hforget hforget' (htime now rfl)
    exact ⟨hboth.blocked, hboth.started, hboth.players,
      alter_since hboth.identities (heard_follows oldest now host command) identity {}⟩
  | link identity player =>
    exact ⟨h.blocked, h.started, h.players, alter_since h.identities (link_follows oldest player) identity {}⟩

theorem Alike.tellAll (h : Alike oldest memory other) (hforget : Invisible forget) (hforget' : Invisible forget')
    {told : List Told} (htimes : ∀ one ∈ told, ∀ now ∈ one.time, now - rememberedSeconds ≤ oldest) :
    Alike oldest (memory.tellAll forget told) (other.tellAll forget' told) := by
  induction told generalizing memory other with
  | nil => exact h
  | cons one told ih =>
    exact ih (h.tell hforget hforget' (htimes one List.mem_cons_self))
      fun later hlater => htimes later (List.mem_cons_of_mem one hlater)

end

section
variable (identities : KeyMap Str Identity) (oldest : ℤ)

theorem playedBy_since (key : Str) : playedBy (identities.mapVals fun identity => identity.since oldest) key =
    (playedBy identities key).map fun entry => (entry.1, entry.2.since oldest) := by
  rw [playedBy, playedBy, KeyMap.mapVals, List.filter_map]
  rfl

theorem hearsWords_since (telegram : Bool) :
    hearsWords (identities.mapVals fun identity => identity.since oldest) oldest telegram =
      hearsWords identities oldest telegram := by
  have hchats (times : List ℤ) : ((forgetBefore times oldest).any fun time => oldest ≤ time) = times.any fun time => oldest ≤ time := by
    rw [forgetBefore, List.any_filter]
    simp
  rw [hearsWords, hearsWords, KeyMap.mapVals, List.any_map]
  simp only [Function.comp_def, Identity.since, hchats]

theorem signsOf_since [Clock] (name : Str → Str) (key : Str) (recent : Player) :
    signsOf (identities.mapVals fun identity => identity.since oldest) oldest name key recent =
      signsOf identities oldest name key recent := by
  simp only [signsOf, playedBy_since, hearsWords_since, List.map_map, List.any_map, Function.comp_def]
  simp only [Identity.since, forgetBefore_again _ (le_refl oldest)]

theorem traitsOf_since (key : Str) (recent : Player) :
    traitsOf (identities.mapVals fun identity => identity.since oldest) key recent = traitsOf identities key recent := by
  simp only [traitsOf, playedBy_since, List.map_map, Function.comp_def]
  simp only [Identity.since]

theorem judgeEach_since [Clock] (name : Str → Str) (entries : List (Str × Player)) :
    judgeEach (identities.mapVals fun identity => identity.since oldest) oldest name
        (entries.map fun entry => (entry.1, entry.2.since oldest)) =
      judgeEach identities oldest name entries := by
  induction entries with
  | nil => rfl
  | cons entry entries ih =>
    obtain ⟨key, player⟩ := entry
    simp only [List.map_cons, judgeEach, ih, player.since_again (le_refl oldest), signsOf_since]

/-- Nothing older than a week is judged. -/
theorem judge_since [Clock] [Arranged] (players : KeyMap Str Player) (now : ℤ) (name : Str → Str) :
    judge (players.mapVals fun player => player.since (now - rememberedSeconds))
        (identities.mapVals fun identity => identity.since (now - rememberedSeconds)) now name =
      judge players identities now name := by
  have heach := judgeEach_since identities (now - rememberedSeconds) name players.entries
  have htraits : ((players.mapVals fun player => player.since (now - rememberedSeconds)).filterMap fun key player =>
        if (player.since (now - rememberedSeconds)).acts = [] then none
        else some (traitsOf (identities.mapVals fun identity => identity.since (now - rememberedSeconds)) key
          (player.since (now - rememberedSeconds)))) =
      players.filterMap fun key player =>
        if (player.since (now - rememberedSeconds)).acts = [] then none
        else some (traitsOf identities key (player.since (now - rememberedSeconds))) := by
    apply KeyMap.ext_find
    intro key
    rw [KeyMap.find_filterMap, KeyMap.find_filterMap, KeyMap.find_mapVals]
    cases players.find key with
    | none => rfl
    | some player =>
      simp only [Option.map_some, Option.bind_some, player.since_again (le_refl (now - rememberedSeconds)), traitsOf_since]
  simp only [judge, htraits]
  rw [← heach]
  rfl

end

section
variable [Clock] [Arranged] {memory other : Memory} {now : ℤ}

theorem Alike.judge (h : Alike (now - rememberedSeconds) memory other) (name : Str → Str) :
    judge memory.players memory.identities now name = judge other.players other.identities now name := by
  rw [← judge_since memory.identities memory.players, h.players, h.identities, judge_since]

theorem Alike.groups (h : Alike (now - rememberedSeconds) memory other) (name : Str → Str) :
    memory.groups now name = other.groups now name := by
  simp only [Memory.groups, Memory.scanned, h.judge, h.started]

theorem Alike.report (h : Alike (now - rememberedSeconds) memory other) (name : Str → Str) :
    memory.report now name = other.report now name := by
  have hgroups := h.groups name
  have hjudge := h.judge name
  simp only [Memory.report, Memory.wholeReport, hgroups, hjudge, h.started, h.blocked]

theorem Alike.samePerson (h : Alike (now - rememberedSeconds) memory other) (left right : Str) :
    memory.samePerson left right now = other.samePerson left right now := by
  simp only [Memory.samePerson, h.judge, h.started]

theorem Alike.scripts (h : Alike (now - rememberedSeconds) memory other) : memory.scripts now = other.scripts now := by
  simp only [Memory.scripts, h.judge, h.started]

end

theorem tell_blocked {forget : ℤ → Memory → Memory} (hforget : ∀ now memory, (forget now memory).blocked = memory.blocked)
    (memory : Memory) (told : Told) : (memory.tell forget told).blocked = memory.blocked := by
  have hstart (now : ℤ) : (forget now (memory.start now)).blocked = memory.blocked := by
    rw [hforget, Memory.start]
    by_cases hzero : memory.started = 0
    · rw [if_pos hzero]
    · rw [if_neg hzero]
  cases told with
  | link identity player => rfl
  | _ => exact hstart _

theorem forget_blocked (now : ℤ) (memory : Memory) : (memory.forget now).blocked = memory.blocked := by
  rw [Memory.forget]
  by_cases hsoon : now - memory.forgotten < 3600
  · rw [if_pos hsoon]
  · rw [if_neg hsoon]
    rfl

theorem tellAll_blocked (memory : Memory) (told : List Told) :
    (memory.tellAll Memory.forget told).blocked = memory.blocked := by
  induction told generalizing memory with
  | nil => rfl
  | cons one told ih =>
    exact (ih (memory.tell Memory.forget one)).trans (tell_blocked forget_blocked memory one)

/-- Read back, it remembers the same. -/
theorem Alike.restart (oldest : ℤ) {memory : Memory} (hblocked : memory.blocked = .empty) :
    Alike oldest (({} : Memory).load memory.save) memory := by
  rw [load_save hblocked]
  exact ⟨rfl, rfl, rfl, rfl⟩

section
variable [Clock] [Arranged]

def Memory.answers (memory : Memory) (now : ℤ) (name : Str → Str) (left right : Str) : Str × Bool × List Str :=
  (memory.report now name, memory.samePerson left right now, memory.scripts now)

theorem Alike.answers {memory other : Memory} {now : ℤ} (h : Alike (now - rememberedSeconds) memory other)
    (name : Str → Str) (left right : Str) : memory.answers now name left right = other.answers now name left right := by
  rw [Memory.answers, Memory.answers, h.report, h.samePerson, h.scripts]

/-- It answers as one that never forgets, and as one that was started again in between. -/
theorem forgetting_invisible (before after : List Told) (now : ℤ)
    (htimes : ∀ told ∈ before ++ after, ∀ time ∈ told.time, time ≤ now) (name : Str → Str) (left right : Str) :
    (({} : Memory).tellAll Memory.forget (before ++ after)).answers now name left right =
        (({} : Memory).tellAll neverForget (before ++ after)).answers now name left right ∧
      (({} : Memory).tellAll Memory.forget (before ++ after)).answers now name left right =
        ((({} : Memory).load (({} : Memory).tellAll Memory.forget before).save).tellAll Memory.forget after).answers now
          name left right := by
  have hold (some : List Told) (hsome : ∀ one ∈ some, one ∈ before ++ after) :
      ∀ one ∈ some, ∀ time ∈ one.time, time - rememberedSeconds ≤ now - rememberedSeconds := by
    intro one hone time htime
    have hle := htimes one (hsome one hone) time htime
    omega
  constructor
  · apply Alike.answers
    exact (Alike.refl _ _).tellAll forget_invisible neverForget_invisible (hold _ fun _ h => h)
  · have hstep : ({} : Memory).tellAll Memory.forget (before ++ after) =
        (({} : Memory).tellAll Memory.forget before).tellAll Memory.forget after :=
      List.foldl_append
    rw [hstep]
    apply Alike.answers
    apply Alike.tellAll (Alike.restart _ (tellAll_blocked {} before)).symm forget_invisible forget_invisible
    exact hold _ fun _ h => List.mem_append_right before h

end

def aGift : List Told := [.ride (utf8 "anna") (utf8 "bruno") true 1000, .heard (utf8 "anna") (utf8 "host") true 2000]

def aWeekLater : List Told := [.ride (utf8 "anna") (utf8 "carlo") false 700000]

/-- Two rides more than a week apart, the bot started again between them. -/
theorem forgetting_invisible_week :
    (@Memory.answers utc asTheyCome (({} : Memory).tellAll Memory.forget (aGift ++ aWeekLater)) 700100 id (utf8 "anna")
        (utf8 "bruno") =
      @Memory.answers utc asTheyCome (({} : Memory).tellAll neverForget (aGift ++ aWeekLater)) 700100 id (utf8 "anna")
        (utf8 "bruno")) ∧
      @Memory.answers utc asTheyCome (({} : Memory).tellAll Memory.forget (aGift ++ aWeekLater)) 700100 id (utf8 "anna")
          (utf8 "bruno") =
        @Memory.answers utc asTheyCome
          ((({} : Memory).load (({} : Memory).tellAll Memory.forget aGift).save).tellAll Memory.forget aWeekLater) 700100
          id (utf8 "anna") (utf8 "bruno") :=
  @forgetting_invisible utc asTheyCome aGift aWeekLater 700100 (by decide +kernel) id (utf8 "anna") (utf8 "bruno")

end NorelecBot.Watch
