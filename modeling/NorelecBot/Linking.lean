import NorelecBot.IdentityPassages
import NorelecBot.Runs

/-! # What linking two accounts leaves of the key it drops

The tables that linking clears, counts as assets or renames forget the dropped
key. The others are passed over: whoever is named there lingers, and the next
birth, salt or invite pays a player nobody is.
-/

namespace NorelecBot
open Lib

def knows {α : Type} (table : OrderedMap Str α) (key : Str) : Bool := (table.find key).isSome

def namesOwner (table : Authors) (key : Str) : Bool := table.entries.any fun entry => entry.2 = key

/-- The tables that linking passes over: children and their births, visits still to be salted, what is
kept of newcomers and invites, and the pugliesi. -/
def leftover (state : ConquisterState) (key : Str) : Bool :=
  state.pregnancies.any (fun pregnancy => pregnancy.mother = key || pregnancy.father = key) ||
    state.children.any (fun child => child.owner = key) ||
    state.knocks.any (fun knock => knock.raider = key || knock.target = key) ||
    [state.pugliesi, state.joined, state.guided, state.entered, state.inviteDays, state.inviteLastDay,
      state.invitePaid].any (knows · key) ||
    knows state.invitedBy key || namesOwner state.invitedBy key

/-- Whether any table or record names a player by that key. -/
def mentioned (state : ConquisterState) (key : Str) : Bool :=
  leftover state key ||
    [state.accounts, state.telegramNames, state.ircNicks, state.quoteAuthors].any (namesOwner · key) ||
    [state.scores, state.quotesAdded, state.balloons, state.cooldowns, state.ids, state.telegramIds,
      state.ircNames, state.debugging, state.smeared, state.welcomed, state.frozen].any (knows · key) ||
    [state.displayNames, state.furniture, state.equipped].any (knows · key) ||
    state.raids.any (fun raid => raid.raider = key || raid.target = key) ||
    state.current.any (fun hold => hold.username = key)

structure Undisturbed [SlotCodec] (before after : ConquisterState) (player : Str) : Prop where
  score : counter after.scores player = counter before.scores player
  quotesAdded : counter after.quotesAdded player = counter before.quotesAdded player
  house : slotsOf after player = slotsOf before player
  gear : gearOf after player = gearOf before player
  rides : after.raids = before.raids
  children : after.children = before.children
  quotes : after.quoteAuthors = before.quoteAuthors

section Tables
variable {key other : Str}

theorem knows_erase {α : Type} (table : OrderedMap Str α) : knows (table.erase key) key = false := by
  simp [knows]

theorem knows_erase_set {α : Type} (table : OrderedMap Str α) (value : α) (h : key ≠ other) :
    knows ((table.erase key).set other value) key = false := by
  simp [knows, OrderedMap.find_set_of_ne _ _ h]

theorem namesOwner_mapVals (table : Authors) (h : key ≠ other) :
    namesOwner (table.mapVals (replaceKey key other)) key = false := by
  simp only [namesOwner, OrderedMap.mapVals, List.any_map, List.any_eq_false]
  intro entry _
  by_cases hentry : entry.2 = key
  · simp [replaceKey, hentry, Ne.symm h]
  · simp [replaceKey, hentry]

theorem knows_mergeTelegram (ids : Counters) : knows (mergeTelegram ids key other) key = false := by
  rw [mergeTelegram]
  cases hid : ids.find key with
  | none => simp [knows, hid]
  | some id => exact knows_erase _

theorem knows_mergeIrc (names : Counters) (h : key ≠ other) : knows (mergeIrc names key other) key = false := by
  rw [mergeIrc]
  split
  · exact knows_erase_set names 1 h
  · rename_i hnone
    simpa [knows] using hnone

end Tables

section
variable [SlotCodec]

theorem noRides_of_noAssets {s : ConquisterState} {key : Str} (h : hasAssets s key = false) :
    s.raids.any (fun raid => raid.raider = key || raid.target = key) = false ∧
      s.current.any (fun hold => hold.username = key) = false ∧ namesOwner s.quoteAuthors key = false := by
  simp only [hasAssets, Bool.or_eq_false_iff] at h
  exact ⟨h.1.2, h.1.1.1.2, h.2⟩

/-- Of somebody with nothing worth keeping, only what linking passes over is left. -/
theorem mentioned_merge {s : ConquisterState} {dropped kept : Str} (hassets : hasAssets s dropped = false)
    (hne : dropped ≠ kept) (mine theirs : Str) :
    mentioned (merge s mine theirs dropped kept) dropped = leftover s dropped := by
  obtain ⟨hraids, hcurrent, hquotes⟩ := noRides_of_noAssets hassets
  have hleft : leftover (merge s mine theirs dropped kept) dropped = leftover s dropped := rfl
  have hshown : knows (merge s mine theirs dropped kept).displayNames dropped = false := by
    simp only [merge]
    split
    · exact knows_erase_set _ _ hne
    · exact knows_erase _
  rw [mentioned, hleft]
  simp only [List.any_cons, List.any_nil, hshown]
  simp only [merge, namesOwner_mapVals _ hne, knows_erase, knows_mergeTelegram, knows_mergeIrc _ hne, hraids,
    hcurrent, hquotes, Bool.or_false]

omit [SlotCodec] in
theorem counter_erase_of_ne (counters : Counters) {key player : Str} (h : player ≠ key) :
    counter (counters.erase key) player = counter counters player := by
  rw [counter_erase, if_neg h]

theorem merge_undisturbed (s : ConquisterState) {dropped kept : Str} (hne : kept ≠ dropped) (mine theirs : Str) :
    Undisturbed s (merge s mine theirs dropped kept) kept where
  score := counter_erase_of_ne _ hne
  quotesAdded := counter_erase_of_ne _ hne
  house := by simp only [slotsOf, storedIn, merge, OrderedMap.find_erase_of_ne _ hne]
  gear := by simp only [gearOf, storedIn, merge, OrderedMap.find_erase_of_ne _ hne]
  rides := rfl
  children := rfl
  quotes := rfl

/-- The keys the two accounts are bound to: the sender's, and the one his line names. -/
def linkKeys (state : ConquisterState) (userId : ℤ) (username otherName accountName : Str) : Option (Str × Str) :=
  (((if userId ≠ 0 then state.ircNicks else state.telegramNames).find (lowerName otherName)).bind
    (accountOf state userId)).bind fun theirs =>
      (state.accounts.find (platformKey userId username accountName)).bind fun mineKey =>
        (state.accounts.find theirs).map fun otherKey => (mineKey, otherKey)

/-- Whoever has something stays; of two with nothing, the sender. -/
def keptKey (state : ConquisterState) (keys : Str × Str) : Str := if hasAssets state keys.2 then keys.2 else keys.1
def droppedKey (state : ConquisterState) (keys : Str × Str) : Str := if hasAssets state keys.2 then keys.1 else keys.2

/-- What two accounts that asked for each other come to. -/
theorem playerLink_cases {s t : ConquisterState} {userId : ℤ} {username otherName accountName : Str}
    {status : LinkStatus} (h : playerLink s userId username otherName accountName = .ok (status, t)) :
    (status ≠ .linked ∧ (status ≠ .pending → t = s) ∧ ∃ requests, t = { s with linkRequests := requests }) ∨
      ∃ keys mine theirs, status = .linked ∧ linkKeys s userId username otherName accountName = some keys ∧
        keys.1 ≠ keys.2 ∧ ¬ (hasAssets s keys.1 = true ∧ hasAssets s keys.2 = true) ∧
        t = merge s mine theirs (droppedKey s keys) (keptKey s keys) := by
  simp only [playerLink] at h
  split at h
  · cases h
    exact Or.inl ⟨by simp, fun _ => rfl, _, rfl⟩
  · rename_i other hother
    split at h
    · cases h
      exact Or.inl ⟨by simp, fun _ => rfl, _, rfl⟩
    · rename_i theirs htheirs
      split at h
      · rename_i mineKey otherKey hmine hkey
        split at h
        · cases h
          exact Or.inl ⟨by simp, fun _ => rfl, _, rfl⟩
        · rename_i hne
          split at h
          · cases h
            exact Or.inl ⟨by simp, by simp, _, rfl⟩
          · have hboth := Except.ok.inj h
            rw [linkBoth] at hboth
            have hkeys : linkKeys s userId username otherName accountName = some (mineKey, otherKey) := by
              rw [linkKeys, hother, Option.bind_some, htheirs, Option.bind_some, hmine, Option.bind_some, hkey]
              rfl
            split at hboth
            · cases hboth
              exact Or.inl ⟨by simp, fun _ => rfl, _, rfl⟩
            · split at hboth
              · cases hboth
                exact Or.inl ⟨by simp, fun _ => rfl, _, rfl⟩
              · rename_i hassets
                rw [Bool.and_eq_true] at hassets
                split at hboth
                · rename_i hwealthy
                  cases hboth
                  refine Or.inr ⟨(mineKey, otherKey), platformKey userId username accountName, theirs, rfl, hkeys, hne, hassets, ?_⟩
                  rw [droppedKey, keptKey, if_pos hwealthy, if_pos hwealthy]
                · rename_i hwealthy
                  cases hboth
                  refine Or.inr ⟨(mineKey, otherKey), platformKey userId username accountName, theirs, rfl, hkeys, hne, hassets, ?_⟩
                  rw [droppedKey, keptKey, if_neg hwealthy, if_neg hwealthy]
      · cases h

theorem droppedKey_noAssets {s : ConquisterState} {keys : Str × Str}
    (h : ¬ (hasAssets s keys.1 = true ∧ hasAssets s keys.2 = true)) : hasAssets s (droppedKey s keys) = false := by
  rw [droppedKey]
  split
  · rename_i hsecond
    simpa [hsecond] using h
  · rename_i hsecond
    simpa using hsecond

theorem droppedKey_ne_keptKey {s : ConquisterState} {keys : Str × Str} (h : keys.1 ≠ keys.2) :
    droppedKey s keys ≠ keptKey s keys := by
  rw [droppedKey, keptKey]
  split
  · exact h
  · exact h.symm

/-- Once two accounts are one player, nothing names the key that was dropped exactly when none of the
tables passed over did; the other player is as he was, and two with something to lose stay two. -/
theorem linked_leaves_nothing_iff {s t : ConquisterState} {userId : ℤ} {username otherName accountName : Str}
    {status : LinkStatus} (h : playerLink s userId username otherName accountName = .ok (status, t)) :
    (status = .linked → ∃ keys, linkKeys s userId username otherName accountName = some keys ∧
      (mentioned t (droppedKey s keys) = false ↔ leftover s (droppedKey s keys) = false) ∧
      Undisturbed s t (keptKey s keys)) ∧
    (∀ keys, linkKeys s userId username otherName accountName = some keys → hasAssets s keys.1 = true →
      hasAssets s keys.2 = true → status ≠ .linked ∧ (status ≠ .pending → t = s)) := by
  rcases playerLink_cases h with hother | ⟨keys, mine, theirs, hlinked, hkeys, hne, hassets, rfl⟩
  · exact ⟨fun hlinked => absurd hlinked hother.1, fun _ _ _ _ => ⟨hother.1, hother.2.1⟩⟩
  · have hapart := droppedKey_ne_keptKey (s := s) hne
    constructor
    · intro _
      refine ⟨keys, hkeys, ?_, merge_undisturbed s hapart.symm mine theirs⟩
      rw [mentioned_merge (droppedKey_noAssets hassets) hapart]
    · intro others hothers hfirst hsecond
      rw [hkeys] at hothers
      cases hothers
      exact absurd ⟨hfirst, hsecond⟩ hassets

end

def day (number : ℤ) : ℤ := number * 86400 + 3600

/-- Ada plays on Telegram and on IRC, where she brings a newcomer; then she asks to be one player. -/
def adaInvites : List Op := [
  .seen 1 (utf8 "ada") [] 10 (day 1),
  .seen 0 (utf8 "adair") [] 10 (day 1),
  .seen 0 (utf8 "zoe") [] 10 (day 1),
  .invite (utf8 "irc:zoe") (utf8 "adair") .irc (day 1),
  .link 0 (utf8 "adair") (utf8 "ada") []]

def adaLinks : Op := .link 1 (utf8 "ada") (utf8 "adair") []

/-- The newcomer plays on, and her inviter is due a reward. -/
def zoeStays : List Op := [
  .seen 0 (utf8 "zoe") [] 10 (day 2),
  .seen 0 (utf8 "zoe") [] 10 (day 3),
  .reward (utf8 "irc:zoe") false]

/-- The key that was dropped is still the inviter, and is paid. -/
theorem dropped_key_is_paid :
    (∃ files', @step _ utc (@Files.run _ utc {} adaInvites) adaLinks = .ok (.link .linked, files') ∧
      linkKeys (@Files.run _ utc {} adaInvites).state 1 (utf8 "ada") (utf8 "adair") [] =
        some (utf8 "tg:1", utf8 "irc:adair") ∧
      droppedKey (@Files.run _ utc {} adaInvites).state (utf8 "tg:1", utf8 "irc:adair") = utf8 "irc:adair" ∧
      mentioned files'.state (utf8 "irc:adair") = true) ∧
    counter (@Files.run _ utc {} (adaInvites ++ adaLinks :: zoeStays)).state.scores (utf8 "irc:adair") = 1000 := by
  refine ⟨⟨@Files.after _ utc (@Files.run _ utc {} adaInvites) adaLinks, ?_, ?_, ?_, ?_⟩, ?_⟩
  · exact @Files.step_eq _ utc _ _ _ (by decide +kernel)
  · decide +kernel
  · decide +kernel
  · decide +kernel
  · decide +kernel

/-- Two accounts with nothing yet, one of which brought somebody. -/
theorem linked_leaves_nothing_inviter : ∃ keys,
    linkKeys (@Files.run _ utc {} adaInvites).state 1 (utf8 "ada") (utf8 "adair") [] = some keys ∧
    (mentioned (@Files.after _ utc (@Files.run _ utc {} adaInvites) adaLinks).state
        (droppedKey (@Files.run _ utc {} adaInvites).state keys) = false ↔
      leftover (@Files.run _ utc {} adaInvites).state
        (droppedKey (@Files.run _ utc {} adaInvites).state keys) = false) ∧
    Undisturbed (@Files.run _ utc {} adaInvites).state
      (@Files.after _ utc (@Files.run _ utc {} adaInvites) adaLinks).state
      (keptKey (@Files.run _ utc {} adaInvites).state keys) := by
  have hstep : (@Files.run _ utc {} adaInvites).only .link
      (playerLink (@Files.run _ utc {} adaInvites).state 1 (utf8 "ada") (utf8 "adair") []) =
      .ok (.link .linked, @Files.after _ utc (@Files.run _ utc {} adaInvites) adaLinks) :=
    @Files.step_eq _ utc (@Files.run _ utc {} adaInvites) adaLinks (.link .linked) (by decide +kernel)
  obtain ⟨status, hlink, hstatus, -⟩ := Files.only_eq_ok hstep
  cases hstatus
  exact (linked_leaves_nothing_iff hlink).1 rfl

end NorelecBot
