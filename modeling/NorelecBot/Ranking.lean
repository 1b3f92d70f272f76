import NorelecBot.Lib.Ranking
import NorelecBot.Ride

/-! # The ranks agree

The leaderboard sorts the scores; a profile and what is told of a player count those
ahead of his. A score is found whatever the case of the name it is looked up by.
-/

namespace NorelecBot
open Lib

/-- Higher score first, then username in byte order. -/
def ranksBefore (first second : Str × ℤ) : Bool :=
  if first.2 ≠ second.2 then first.2 > second.2 else first.1 < second.1

structure LeaderboardEntry where
  username : Str
  playerKey : Str
  score : ℤ
  quotesAdded : ℤ
  deriving DecidableEq

structure Leaderboard where
  entries : List LeaderboardEntry
  current : Option Holder := none
  currentKey : Str := []
  deriving DecidableEq

def leaderboardEntry (state : ConquisterState) (entry : Str × ℤ) : LeaderboardEntry :=
  { username := displayName state entry.1, playerKey := entry.1, score := entry.2
    quotesAdded := counter state.quotesAdded entry.1 }

/-- No limit is none at all. -/
def conquisterLeaderboard (state : ConquisterState) (limit : ℕ) : Leaderboard :=
  let ranked := inOrder ranksBefore state.scores.entries
  let shown := (if limit ≠ 0 ∧ ranked.length > limit then ranked.take limit else ranked).map (leaderboardEntry state)
  match state.current with
  | none => { entries := shown }
  | some hold =>
    if hold.username = [] then { entries := shown }
    else
      { entries := shown, current := some { hold with username := displayName state hold.username }
        currentKey := hold.username }

structure Profile where
  name : Str
  furniture : Str
  house : Str
  smeared : Bool
  pugliese : Bool
  hens : ℤ
  frozenFor : ℤ
  onTelegram : Bool
  score : ℤ := 0
  /-- 0 when he has no palle on file yet. -/
  rank : ℕ := 0
  players : ℕ
  quotesAdded : ℤ := 0
  place : Whereabouts
  since : ℤ := 0
  lightningPercent : ℤ := 0
  heading : Str := []
  returning : Bool := false
  homeIn : ℤ := 0

def profileFrom (state : ConquisterState) (key : Str) (now : ℤ) : Profile :=
  let profile : Profile :=
    { name := displayName state key
      furniture := shownGear state key
      house := storedIn state.furniture key
      smeared := isSmeared state key now
      pugliese := isPugliese state key
      hens := houseCopies state key .hen
      frozenFor := frozenFor state key now
      onTelegram := counter state.telegramIds key ≠ 0
      players := state.scores.entries.length
      place := whereabouts state key }
  let ranked := match findIgnoreCase state.scores key with
    | some score => { profile with score := score.2, rank := countedRank ranksBefore state.scores.entries score }
    | none => profile
  let credited := { ranked with quotesAdded := counter state.quotesAdded key }
  match (if credited.place = .conquister then state.current else none), raidOf state key with
  | some hold, _ => { credited with since := hold.since, lightningPercent := hold.lightningPercent }
  | none, some trip =>
    { credited with
      heading := displayName state trip.target
      returning := trip.arrived
      homeIn := max (trip.back - now) 0 }
  | none, none => credited

structure ConquisterUser where
  username : Str := []
  score : ℤ := 0
  rank : ℕ := 0
  quotesAdded : ℤ := 0
  inConquister : Bool := false
  since : ℤ := 0
  deriving DecidableEq

/-- Nothing about a name nobody is known by, or who has neither the place nor a score nor a quote. -/
def conquisterUser (state : ConquisterState) (username : Str) (platform : RaidTargetKind) : Option ConquisterUser :=
  (playerByName state username platform).bind fun key =>
    let score := findIgnoreCase state.scores key
    let added := findIgnoreCase state.quotesAdded key
    let holding := state.current.filter fun hold => hold.username ≠ [] ∧ hold.username = key
    if holding.isNone ∧ score.isNone ∧ added.isNone then none
    else some
      { username := displayName state key
        inConquister := holding.isSome
        since := (holding.map Holder.since).getD 0
        score := (score.map Prod.snd).getD 0
        rank := (score.map (countedRank ranksBefore state.scores.entries)).getD 0
        quotesAdded := (added.map Prod.snd).getD 0 }

theorem ranksBefore_iff {first second : Str × ℤ} : ranksBefore first second = true ↔
    second.2 < first.2 ∨ first.2 = second.2 ∧ first.1 < second.1 := by
  rw [ranksBefore]
  split
  · rename_i hne
    simp only [decide_eq_true_eq]
    exact ⟨.inl, fun h => h.resolve_right fun heq => hne heq.1⟩
  · rename_i heq
    have hsame : first.2 = second.2 := not_not.mp heq
    simp only [decide_eq_true_eq]
    exact ⟨fun h => .inr ⟨hsame, h⟩, fun h => h.elim (fun hlt => absurd hsame hlt.ne') And.right⟩

theorem ranksBefore_strict : StrictlyRanks ranksBefore where
  irrefl one := by
    rw [Bool.eq_false_iff]
    intro h
    rcases ranksBefore_iff.mp h with hlt | ⟨-, hlt⟩
    · exact lt_irrefl _ hlt
    · exact List.lt_irrefl _ hlt
  trans one other third h hnext := by
    apply ranksBefore_iff.mpr
    rcases ranksBefore_iff.mp h with hone | ⟨hone, hname⟩
    · rcases ranksBefore_iff.mp hnext with hother | ⟨hother, -⟩
      · exact .inl (hother.trans hone)
      · exact .inl (hother ▸ hone)
    · rcases ranksBefore_iff.mp hnext with hother | ⟨hother, hnames⟩
      · exact .inl (hone ▸ hother)
      · exact .inr ⟨hone.trans hother, List.lt_trans hname hnames⟩
  total one other := by
    rw [ranksBefore_iff, ranksBefore_iff]
    rcases lt_trichotomy one.2 other.2 with hlt | heq | hgt
    · exact .inr (.inr (.inl hlt))
    · rcases Std.lt_trichotomy one.1 other.1 with hname | hname | hname
      · exact .inl (.inr ⟨heq, hname⟩)
      · exact .inr (.inl (Prod.ext hname heq))
      · exact .inr (.inr (.inr ⟨heq.symm, hname⟩))
    · exact .inl (.inl hgt)

theorem entries_nodup (counters : Counters) : counters.entries.Nodup := List.Nodup.of_map Prod.fst counters.nodup

/-- No two players are told apart by the case of their names only. -/
def DistinctNames (state : ConquisterState) : Prop :=
  ∀ one ∈ state.scores.keys, ∀ other ∈ state.scores.keys, Text.equalsIgnoreCase one other = true → one = other

theorem DistinctNames.find {s : ConquisterState} (h : DistinctNames s) {player : Str} {score : ℤ}
    (hscore : (player, score) ∈ s.scores.entries) : findIgnoreCase s.scores player = some (player, score) := by
  have hkey {entry : Str × ℤ} (hentry : entry ∈ s.scores.entries) : entry.1 ∈ s.scores.keys :=
    List.mem_map_of_mem hentry
  cases hfound : findIgnoreCase s.scores player with
  | none =>
    have hnone := List.find?_eq_none.mp hfound _ hscore
    exact absurd (Text.equalsIgnoreCase_refl player) hnone
  | some entry =>
    have hmem := List.mem_of_find?_eq_some hfound
    have hname : Text.equalsIgnoreCase entry.1 player = true :=
      List.find?_some (p := fun entry : Str × ℤ => Text.equalsIgnoreCase entry.1 player) hfound
    have hsame : entry.1 = player := h entry.1 (hkey hmem) player (hkey hscore) hname
    have hvalue := (OrderedMap.find_eq_some.mpr (hsame ▸ hmem : (player, entry.2) ∈ s.scores.entries)).symm.trans
      (OrderedMap.find_eq_some.mpr hscore)
    rw [← hsame, ← Option.some.inj hvalue]

theorem profileFrom_rank (s : ConquisterState) {player : Str} {entry : Str × ℤ} (now : ℤ)
    (h : findIgnoreCase s.scores player = some entry) :
    (profileFrom s player now).rank = countedRank ranksBefore s.scores.entries entry ∧
      (profileFrom s player now).score = entry.2 := by
  rw [profileFrom, h]
  dsimp only
  split
  · exact ⟨rfl, rfl⟩
  · exact ⟨rfl, rfl⟩
  · exact ⟨rfl, rfl⟩

theorem conquisterUser_rank {s : ConquisterState} {name player : Str} {platform : RaidTargetKind} {entry : Str × ℤ}
    (hname : playerByName s name platform = some player) (h : findIgnoreCase s.scores player = some entry) :
    ∃ user, conquisterUser s name platform = some user ∧
      user.rank = countedRank ranksBefore s.scores.entries entry ∧ user.score = entry.2 := by
  rw [conquisterUser, hname, Option.bind_some]
  dsimp only
  rw [h, if_neg (by simp)]
  exact ⟨_, rfl, rfl, rfl⟩

theorem leaderboard_entries (s : ConquisterState) (limit : ℕ) : (conquisterLeaderboard s limit).entries =
    (if limit ≠ 0 ∧ s.scores.entries.length > limit then (inOrder ranksBefore s.scores.entries).take limit
      else inOrder ranksBefore s.scores.entries).map (leaderboardEntry s) := by
  rw [conquisterLeaderboard, (inOrder_perm s.scores.entries).length_eq]
  split
  · rfl
  · split <;> rfl

theorem leaderboard_full (s : ConquisterState) :
    (conquisterLeaderboard s 0).entries = (inOrder ranksBefore s.scores.entries).map (leaderboardEntry s) := by
  rw [leaderboard_entries, if_neg (by simp)]

theorem leaderboard_take (s : ConquisterState) {limit : ℕ} (h : limit ≠ 0) :
    (conquisterLeaderboard s limit).entries = (conquisterLeaderboard s 0).entries.take limit := by
  rw [leaderboard_full, leaderboard_entries]
  split
  · rw [List.map_take]
  · rename_i hshort
    have hall : s.scores.entries.length ≤ limit := not_lt.mp fun hlong => hshort ⟨h, hlong⟩
    rw [List.take_of_length_le]
    rwa [List.length_map, (inOrder_perm s.scores.entries).length_eq]

/-- Whoever has a score is told one rank everywhere, his place in the leaderboard; the ranks run from the first
to the last, and a limit cuts the leaderboard short. -/
theorem ranks_agree {s : ConquisterState} (h : DistinctNames s) (now : ℤ) :
    (∀ player ∈ s.scores.keys, ∃ place entry, (conquisterLeaderboard s 0).entries[place]? = some entry ∧
      entry.playerKey = player ∧
      (∀ other, ((conquisterLeaderboard s 0).entries[other]?.map LeaderboardEntry.playerKey) = some player →
        other = place) ∧
      (profileFrom s player now).rank = place + 1 ∧ (profileFrom s player now).score = entry.score ∧
      ∀ name platform, playerByName s name platform = some player → ∃ user,
        conquisterUser s name platform = some user ∧ user.rank = place + 1 ∧ user.score = entry.score) ∧
    (s.scores.keys.map fun player => (profileFrom s player now).rank).Perm (List.range' 1 s.scores.entries.length) ∧
    ∀ limit, limit ≠ 0 → (conquisterLeaderboard s limit).entries = (conquisterLeaderboard s 0).entries.take limit := by
  have hnodup := entries_nodup s.scores
  have hperm := @inOrder_perm _ ranksBefore s.scores.entries
  have hfind {entry : Str × ℤ} (hentry : entry ∈ s.scores.entries) :
      findIgnoreCase s.scores entry.1 = some entry := h.find hentry
  refine ⟨fun player hplayer => ?_, ?_, fun limit hlimit => leaderboard_take s hlimit⟩
  · obtain ⟨scored, hscored, rfl⟩ := List.mem_map.mp hplayer
    obtain ⟨place, hplace⟩ := List.mem_iff_getElem?.mp (hperm.mem_iff.mpr hscored)
    have hrank := ranksBefore_strict.rank_of_place hnodup hplace
    obtain ⟨hcounted, hscore⟩ := profileFrom_rank s now (hfind hscored)
    rw [leaderboard_full]
    refine ⟨place, leaderboardEntry s scored, by rw [List.getElem?_map, hplace]; rfl, rfl, fun other hother => ?_,
      hcounted.trans hrank, hscore, fun name platform hname => ?_⟩
    · have hkeys : ((inOrder ranksBefore s.scores.entries).map Prod.fst).Nodup :=
        (hperm.map Prod.fst).nodup_iff.mpr s.scores.nodup
      have hhere : ((inOrder ranksBefore s.scores.entries).map Prod.fst)[place]? = some scored.1 := by
        rw [List.getElem?_map, hplace]
        rfl
      have hthere : ((inOrder ranksBefore s.scores.entries).map Prod.fst)[other]? = some scored.1 := by
        rw [List.getElem?_map, Option.map_map] at hother
        rw [List.getElem?_map]
        exact hother
      have hlt := (List.getElem?_eq_some_iff.mp hthere).1
      exact (List.getElem?_inj hlt hkeys).mp (hthere.trans hhere.symm)
    · obtain ⟨user, huser, hurank, huscore⟩ := conquisterUser_rank hname (hfind hscored)
      exact ⟨user, huser, hurank.trans hrank, huscore⟩
  · have hranks : (s.scores.keys.map fun player => (profileFrom s player now).rank) =
        s.scores.entries.map (countedRank ranksBefore s.scores.entries) := by
      rw [OrderedMap.keys, List.map_map]
      apply List.map_congr_left
      intro entry hentry
      exact (profileFrom_rank s now (hfind hentry)).1
    rw [hranks, ← ranksBefore_strict.ranks hnodup]
    exact (hperm.map _).symm

/-- Three players, two of them level. -/
def threeScores : ConquisterState :=
  { scores := ((OrderedMap.empty.set (utf8 "carol") 70).set (utf8 "ada") 900).set (utf8 "bob") 70 }

theorem ranks_agree_three :
    (∀ player ∈ threeScores.scores.keys, ∃ place entry,
      (conquisterLeaderboard threeScores 0).entries[place]? = some entry ∧ entry.playerKey = player ∧
      (∀ other, ((conquisterLeaderboard threeScores 0).entries[other]?.map LeaderboardEntry.playerKey) = some player →
        other = place) ∧
      (profileFrom threeScores player 100).rank = place + 1 ∧
      (profileFrom threeScores player 100).score = entry.score ∧
      ∀ name platform, playerByName threeScores name platform = some player → ∃ user,
        conquisterUser threeScores name platform = some user ∧ user.rank = place + 1 ∧ user.score = entry.score) ∧
    (threeScores.scores.keys.map fun player => (profileFrom threeScores player 100).rank).Perm (List.range' 1 3) ∧
    ∀ limit, limit ≠ 0 →
      (conquisterLeaderboard threeScores limit).entries = (conquisterLeaderboard threeScores 0).entries.take limit :=
  ranks_agree (by unfold DistinctNames; decide) 100

end NorelecBot
