import NorelecBot.Lib.Bindings
import NorelecBot.Onward

/-! # Two strangers never share a purse

An account is bound once, to its own key or to a historical name nobody else is
bound to, and moves only by being merged in. Keys that look like an account are
on file as one, so no name from a save can be mistaken for one.
-/

namespace NorelecBot
open Lib

/-- What no public name and no name of an old save has in it. -/
def colon : UInt8 := 58

def onTelegram (account : Str) : Bool := telegramPrefix.isPrefixOf account
def onIrc (account : Str) : Bool := ircPrefix.isPrefixOf account

structure PreIdentity (state : ConquisterState) : Prop where
  accounts : state.accounts = .empty
  displayNames : state.displayNames = .empty
  telegramNames : state.telegramNames = .empty
  ircNicks : state.ircNicks = .empty
  linkRequests : state.linkRequests = .empty
  names : ∀ player ∈ knownPlayers state, colon ∉ player

/-- Being seen, linking, coming for the place and setting off, by any account under any public name. Who
comes for the place or sets off goes by a public name or by the key of an account. -/
def Admissible (state : ConquisterState) : Op → Prop
  | .seen _ username _ _ _ => colon ∉ username
  | .link _ username _ _ => colon ∉ username
  | .claim _ username .. => colon ∉ username ∨ ∃ account, state.accounts.find account = some username
  | .raidStart _ username .. => colon ∉ username ∨ ∃ account, state.accounts.find account = some username
  | _ => False

/-- The account a line asks to be linked to. -/
def linkedAccount (state : ConquisterState) (userId : ℤ) (otherName : Str) : Option Str :=
  ((if userId ≠ 0 then state.ircNicks else state.telegramNames).find (lowerName otherName)).bind
    (accountOf state userId)

/-- The two accounts that an operation has just made one player. -/
def linkedPair (state : ConquisterState) : Op → Reply → Option (Str × Str)
  | .link userId username otherName accountName, .link .linked =>
    (linkedAccount state userId otherName).map fun theirs => (platformKey userId username accountName, theirs)
  | _, _ => none

section
variable [SlotCodec] [Clock]

/-- Every pair of accounts that a run made one player. -/
def linksOf : Files → List Op → List (Str × Str)
  | _, [] => []
  | files, op :: ops =>
    match step files op with
    | .error _ => linksOf files ops
    | .ok (reply, files') => (linkedPair files.state op reply).toList ++ linksOf files' ops

/-- Every operation of a run is one of those four. -/
def AllAdmissible : Files → List Op → Prop
  | _, [] => True
  | files, op :: ops => Admissible files.state op ∧ AllAdmissible (files.after op) ops

end

/-- Whatever joins two accounts is a chain of links; no key has two accounts of one platform, or two names. -/
structure Isolated (state : ConquisterState) (links : Str → Str → Prop) : Prop where
  platform : ∀ account key, state.accounts.find account = some key → onTelegram account = true ∨ onIrc account = true
  filed : ∀ account key, state.accounts.find account = some key → colon ∈ key → (state.accounts.find key).isSome = true
  ids : ∀ key ∈ state.telegramIds.keys, colon ∈ key → (state.accounts.find key).isSome = true
  seat : ∀ hold, state.current = some hold → colon ∈ hold.username → (state.accounts.find hold.username).isSome = true
  chained : Chained state.accounts links
  one : OneEach onTelegram state.accounts
  telegramName : OneEach (fun _ => ()) state.telegramNames
  ircNick : OneEach (fun _ => ()) state.ircNicks
  telegramBacked : Backed state.telegramNames state.accounts (onTelegram · = true)
  ircBacked : Backed state.ircNicks state.accounts (onTelegram · = false)

theorem onTelegram_platformKey (userId : ℤ) (username accountName : Str) :
    onTelegram (platformKey userId username accountName) = decide (userId ≠ 0) := by
  rw [platformKey, onTelegram]
  split
  · rename_i hid
    rw [decide_eq_true hid, List.isPrefixOf_iff_prefix]
    exact List.prefix_append _ _
  · rename_i hid
    rw [decide_eq_false hid]
    rfl

theorem platform_platformKey (userId : ℤ) (username accountName : Str) :
    onTelegram (platformKey userId username accountName) = true ∨
      onIrc (platformKey userId username accountName) = true := by
  rw [platformKey, onTelegram, onIrc]
  split
  · left
    rw [List.isPrefixOf_iff_prefix]
    exact List.prefix_append _ _
  · right
    rw [List.isPrefixOf_iff_prefix]
    exact List.prefix_append _ _

theorem onTelegram_of_onIrc {account : Str} (h : onIrc account = true) : onTelegram account = false := by
  rw [onIrc, List.isPrefixOf_iff_prefix] at h
  obtain ⟨rest, rfl⟩ := h
  rfl

theorem colon_mem_platformKey (userId : ℤ) (username accountName : Str) :
    colon ∈ platformKey userId username accountName := by
  rw [platformKey]
  split
  · exact List.mem_append_left _ (by decide)
  · exact List.mem_append_left _ (by decide)

theorem toLower_eq_colon (character : UInt8) : Text.toLower character = colon ↔ character = colon := by
  rw [Text.toLower]
  split
  · rename_i hupper
    have hlow : 65 ≤ character.toNat := hupper.1
    have hhigh : character.toNat ≤ 90 := hupper.2
    constructor
    · intro heq
      have hnat := congrArg UInt8.toNat heq
      rw [UInt8.toNat_add] at hnat
      change (character.toNat + 32) % 256 = 58 at hnat
      omega
    · rintro rfl
      exact absurd hlow (by decide)
  · rfl

/-- A spelling does not change whether there is a colon. -/
theorem colon_of_equalsIgnoreCase {left right : Str} (h : Text.equalsIgnoreCase left right = true)
    (hcolon : colon ∈ left) : colon ∈ right := by
  rw [Text.equalsIgnoreCase_iff] at h
  have hmem : colon ∈ left.map Text.toLower := List.mem_map.mpr ⟨colon, hcolon, (toLower_eq_colon colon).mpr rfl⟩
  rw [h] at hmem
  obtain ⟨character, hcharacter, heq⟩ := List.mem_map.mp hmem
  rw [(toLower_eq_colon character).mp heq] at hcharacter
  exact hcharacter

theorem knownPlayer_spelling {s : ConquisterState} {name known : Str} (h : knownPlayer s name = some known) :
    Text.equalsIgnoreCase known name = true := by
  rw [knownPlayer] at h
  split at h
  · rename_i found hfound
    cases h
    obtain ⟨counters, -, hentry⟩ := List.exists_of_findSome?_eq_some hfound
    have hspelled := List.find?_some hentry
    exact hspelled
  · obtain ⟨hold, hhold, rfl⟩ := Option.map_eq_some_iff.mp h
    exact (Option.filter_eq_some_iff.mp hhold).2

section
variable {s : ConquisterState} {links : Str → Str → Prop} {userId : ℤ} {username accountName : Str}

/-- A historical name that looks like an account is one on file. -/
theorem legacyCandidate_filed (h : Isolated s links) (hname : colon ∉ username) {candidate : Str}
    (hcandidate : legacyCandidate s userId username = some candidate) (hcolon : colon ∈ candidate) :
    (s.accounts.find candidate).isSome = true := by
  rw [legacyCandidate] at hcandidate
  split at hcandidate
  · split at hcandidate
    · obtain ⟨hold, hhold, rfl⟩ := Option.map_eq_some_iff.mp hcandidate
      exact h.seat hold (Option.eq_some_of_filter_eq_some hhold) hcolon
    · rename_i name hkeys
      cases hcandidate
      have hmem : candidate ∈ (s.telegramIds.filter fun _ id => id = userId).keys := by simp [hkeys]
      obtain ⟨id, hid⟩ := OrderedMap.mem_keys.mp hmem
      rw [OrderedMap.find_filter] at hid
      exact h.ids candidate (OrderedMap.mem_keys.mpr ⟨id, Option.eq_some_of_filter_eq_some hid⟩) hcolon
    · cases hcandidate
  · have hknown := knownPlayer_spelling (Option.eq_some_of_filter_eq_some hcandidate)
    exact absurd (colon_of_equalsIgnoreCase hknown hcolon) hname

/-- An account that is not on file yet is bound to a key nobody is bound to. -/
theorem keyFor_new (h : Isolated s links) (hname : colon ∉ username)
    (hnew : s.accounts.find (platformKey userId username accountName) = none) :
    (∀ other, s.accounts.find other ≠ some (keyFor s userId username accountName)) ∧
      (colon ∈ keyFor s userId username accountName →
        keyFor s userId username accountName = platformKey userId username accountName ∨
          (s.accounts.find (keyFor s userId username accountName)).isSome = true) := by
  rw [keyFor, hnew]
  dsimp only
  cases hlegacy : legacyOwner s userId username accountName with
  | none =>
    refine ⟨fun other hother => ?_, fun _ => Or.inl rfl⟩
    have hfiled := h.filed other _ hother (colon_mem_platformKey userId username accountName)
    rw [Option.getD_none, hnew] at hfiled
    cases hfiled
  | some candidate =>
    rw [Option.getD_some]
    obtain ⟨hcandidate, hfree⟩ := Option.filter_eq_some_iff.mp hlegacy
    refine ⟨fun other hother => ?_, fun hcolon => Or.inr (legacyCandidate_filed h hname hcandidate hcolon)⟩
    rw [Bool.and_eq_true, List.all_eq_true] at hfree
    have hentry := hfree.2 (other, candidate) (OrderedMap.find_eq_some.mp hother)
    have hself : other = platformKey userId username accountName := by simpa using hentry
    rw [hself, hnew] at hother
    cases hother

theorem introduce_fields (s : ConquisterState) (userId : ℤ) (username accountName : Str) (now : ℤ) :
    (introduce s userId username accountName now).accounts = (bindAccount s userId username accountName).accounts ∧
    (introduce s userId username accountName now).telegramNames = (if userId ≠ 0 then
      rename s.telegramNames username (keyFor s userId username accountName) else s.telegramNames) ∧
    (introduce s userId username accountName now).ircNicks = (if userId ≠ 0 then s.ircNicks else
      rename s.ircNicks username (keyFor s userId username accountName)) ∧
    (introduce s userId username accountName now).current = s.current ∧
    ∀ key ∈ (introduce s userId username accountName now).telegramIds.keys,
      key ∈ s.telegramIds.keys ∨ key = keyFor s userId username accountName := by
  have hbound : (bindAccount s userId username accountName).telegramNames = s.telegramNames ∧
      (bindAccount s userId username accountName).ircNicks = s.ircNicks ∧
      (bindAccount s userId username accountName).current = s.current ∧
      (bindAccount s userId username accountName).telegramIds = s.telegramIds := by
    rw [bindAccount]
    split <;> exact ⟨rfl, rfl, rfl, rfl⟩
  obtain ⟨hnames, hnicks, hcurrent, hids⟩ := hbound
  have hset (key : Str) (hkey : key ∈ (s.telegramIds.set (keyFor s userId username accountName) userId).keys) :
      key ∈ s.telegramIds.keys ∨ key = keyFor s userId username accountName :=
    (OrderedMap.mem_keys_set.mp hkey).symm
  simp only [introduce, join, rememberPlatform, rememberIrc, rememberTelegram, showName, takeName]
  split_ifs <;> simp_all

end

/-- Only the fields that say who is who matter. -/
theorem Isolated.congr {s t : ConquisterState} {links : Str → Str → Prop} (h : Isolated s links)
    (haccounts : t.accounts = s.accounts) (hnames : t.telegramNames = s.telegramNames)
    (hnicks : t.ircNicks = s.ircNicks)
    (hids : ∀ key ∈ t.telegramIds.keys, colon ∈ key → (s.accounts.find key).isSome = true)
    (hseat : ∀ hold, t.current = some hold → colon ∈ hold.username → (s.accounts.find hold.username).isSome = true) :
    Isolated t links where
  platform := haccounts ▸ h.platform
  filed := haccounts ▸ h.filed
  ids := haccounts ▸ hids
  seat := haccounts ▸ hseat
  chained := haccounts ▸ h.chained
  one := haccounts ▸ h.one
  telegramName := hnames ▸ h.telegramName
  ircNick := hnicks ▸ h.ircNick
  telegramBacked := hnames ▸ haccounts ▸ h.telegramBacked
  ircBacked := hnicks ▸ haccounts ▸ h.ircBacked

theorem isSome_find_set {bindings : Authors} {key other owner : Str} (h : (bindings.find key).isSome = true) :
    ((bindings.set other owner).find key).isSome = true := by
  rw [OrderedMap.find_set]
  split
  · rfl
  · exact h

section
variable {s : ConquisterState} {links : Str → Str → Prop} {userId : ℤ} {username accountName : Str}

/-- Binding an account the first time it is seen. -/
theorem Isolated.bindAccount (h : Isolated s links) (hname : colon ∉ username) :
    Isolated (bindAccount s userId username accountName) links ∧
      (NorelecBot.bindAccount s userId username accountName).accounts.find
        (platformKey userId username accountName) = some (keyFor s userId username accountName) := by
  rw [NorelecBot.bindAccount]
  cases hbound : s.accounts.find (platformKey userId username accountName) with
  | some key =>
    rw [Option.isSome_some, if_pos rfl, keyFor, hbound]
    exact ⟨h, rfl⟩
  | none =>
    obtain ⟨hfree, hcolon⟩ := @keyFor_new s links userId username accountName h hname hbound
    rw [Option.isSome_none, if_neg Bool.false_ne_true]
    refine ⟨⟨?_, ?_, ?_, ?_, h.chained.set hfree, h.one.set hfree, h.telegramName, h.ircNick,
      h.telegramBacked.bind hbound _, h.ircBacked.bind hbound _⟩, OrderedMap.find_set_self _ _ _⟩
    · intro account key haccount
      rw [OrderedMap.find_set] at haccount
      split at haccount
      · rename_i hself
        rw [hself]
        exact platform_platformKey userId username accountName
      · exact h.platform account key haccount
    · intro account key haccount hkey
      rw [OrderedMap.find_set] at haccount
      split at haccount
      · cases haccount
        rcases hcolon hkey with hown | hfiled
        · rw [hown, OrderedMap.find_set_self]
          rfl
        · exact isSome_find_set hfiled
      · exact isSome_find_set (h.filed account key haccount hkey)
    · intro key hkey hcolon
      exact isSome_find_set (h.ids key hkey hcolon)
    · intro hold hhold hcolon
      exact isSome_find_set (h.seat hold hhold hcolon)

theorem oneEach_rename (names : Authors) (key : Str) (h : OneEach (fun _ => ()) names) :
    OneEach (fun _ => ()) (rename names username key) := by
  apply (h.filter _).set
  intro name hname
  rw [OrderedMap.find_filter] at hname
  have hother := (Option.filter_eq_some_iff.mp hname).2
  simp at hother

theorem Isolated.introduce (h : Isolated s links) (hname : colon ∉ username) (now : ℤ) :
    Isolated (introduce s userId username accountName now) links := by
  obtain ⟨haccounts, hnames, hnicks, hcurrent, hids⟩ := introduce_fields s userId username accountName now
  obtain ⟨hbound, hkey⟩ := @Isolated.bindAccount s links userId username accountName h hname
  have hkeeps : (NorelecBot.bindAccount s userId username accountName).telegramNames = s.telegramNames ∧
      (NorelecBot.bindAccount s userId username accountName).ircNicks = s.ircNicks ∧
      (NorelecBot.bindAccount s userId username accountName).current = s.current ∧
      (NorelecBot.bindAccount s userId username accountName).telegramIds = s.telegramIds := by
    rw [NorelecBot.bindAccount]
    split <;> exact ⟨rfl, rfl, rfl, rfl⟩
  have hplatform := onTelegram_platformKey userId username accountName
  refine ⟨haccounts ▸ hbound.platform, haccounts ▸ hbound.filed, ?_, ?_, haccounts ▸ hbound.chained,
    haccounts ▸ hbound.one, ?_, ?_, ?_, ?_⟩
  · intro key hmem hcolon
    rw [haccounts]
    rcases hids key hmem with hold | rfl
    · exact hbound.ids key (hkeeps.2.2.2 ▸ hold) hcolon
    · exact hbound.filed _ _ hkey hcolon
  · intro hold hhold hcolon
    rw [haccounts]
    rw [hcurrent] at hhold
    exact hbound.seat hold (hkeeps.2.2.1 ▸ hhold) hcolon
  · rw [hnames]
    split
    · exact oneEach_rename _ _ h.telegramName
    · exact h.telegramName
  · rw [hnicks]
    split
    · exact h.ircNick
    · exact oneEach_rename _ _ h.ircNick
  · have hbacked := hbound.telegramBacked
    rw [hkeeps.1] at hbacked
    rw [hnames, haccounts]
    split
    · rename_i hid
      exact (hbacked.filter _).set _ hkey (hplatform.trans (decide_eq_true hid))
    · exact hbacked
  · have hbacked := hbound.ircBacked
    rw [hkeeps.2.1] at hbacked
    rw [hnicks, haccounts]
    split
    · exact hbacked
    · rename_i hid
      exact (hbacked.filter _).set _ hkey (hplatform.trans (decide_eq_false hid))

end

section
variable [SlotCodec]

/-- Whoever holds the place held it, or has just come in. -/
def Seats (username : Str) (s t : ConquisterState) : Prop :=
  ∀ hold, t.current = some hold → hold.username = username ∨
    ∃ before, s.current = some before ∧ before.username = hold.username

omit [SlotCodec] in
theorem Seats.of_same {username : Str} {s t : ConquisterState} (h : t.current = s.current) : Seats username s t := by
  intro hold hhold
  rw [h] at hhold
  exact Or.inr ⟨hold, hhold, rfl⟩

theorem enter_seats (s s' : ConquisterState) (outcome : ClaimResult) (userId : ℤ) (username : Str) (now : ℤ)
    (rules : ClaimRules) : Seats username s (enter s' outcome userId username now rules).2 := by
  intro hold hhold
  simp only [enter] at hhold
  cases hhold
  exact Or.inl rfl

theorem kick_seats {s t : ConquisterState} {hold : Holder} {userId : ℤ} {username : Str} {now : ℤ}
    {rules : ClaimRules} {draws : ClaimDraws} {result : ClaimResult}
    (h : kick s hold userId username now rules draws = .ok (result, t)) : Seats username s t := by
  rw [kick] at h
  dsimp only at h
  generalize (!(newcomer s username now && _) && _ && _ && _ : Bool) = sneaked at h
  generalize (newcomer s username now && decide (counter s.entered username = 0) : Bool) = first at h
  generalize hattempt : (if (sneaked || first) = true then (BalloonRoll.none, s)
    else balloonAttempt s hold.username .conquister now draws.balloon) = attempt at h
  have hquiet : attempt.2.current = s.current := by
    rw [← hattempt]
    split
    · rfl
    · rw [balloonAttempt]
      split_ifs <;> rfl
  split at h
  · cases h
    apply Seats.of_same
    split
    · exact hquiet
    · exact hquiet
  · split at h
    · cases h
    · cases h
      exact enter_seats s _ _ userId username now rules

theorem claimFree_seats {s t : ConquisterState} {userId : ℤ} {username : Str} {now : ℤ} {rules : ClaimRules}
    {draws : ClaimDraws} {result : ClaimResult}
    (h : claimFree s userId username now rules draws = .ok (result, t)) : Seats username s t := by
  rw [claimFree] at h
  split at h
  · cases h
    exact .of_same rfl
  · split at h
    · cases h
      exact .of_same rfl
    · split at h
      · cases h
        exact enter_seats s s _ userId username now rules
      · exact kick_seats h

omit [SlotCodec] in
theorem rememberPlatform_current (s : ConquisterState) (username : Str) (userId : ℤ) :
    (rememberPlatform s username userId).current = s.current := by
  rw [rememberPlatform, rememberIrc, rememberTelegram]
  split_ifs <;> rfl

theorem conquisterClaim_seats {s t : ConquisterState} {userId : ℤ} {username : Str} {now : ℤ} {rules : ClaimRules}
    {draws : ClaimDraws} {result : ClaimResult}
    (h : conquisterClaim s userId username now rules draws = .ok (result, t)) : Seats username s t := by
  have hcurrent := rememberPlatform_current s username userId
  simp only [conquisterClaim] at h
  split at h
  · cases h
    exact .of_same hcurrent
  · split at h
    · cases h
      exact .of_same hcurrent
    · intro hold hhold
      have hseats := claimFree_seats h hold hhold
      rw [← hcurrent]
      exact hseats

omit [SlotCodec] in
theorem leavePlace_current {s t : ConquisterState} {now : ℤ} {settled : Settlement}
    (h : leavePlace s now = .ok (settled, t)) : t.current = none := by
  rw [leavePlace] at h
  split at h
  · rename_i hnone
    cases h
    exact hnone
  · simp only [settleHold] at h
    split at h
    · cases h
    · split at h
      · cases h
      · cases h
        rfl

theorem load_current {s t : ConquisterState} {username known : Str} {now : ℤ} {rules : RaidRules} {errand : Errand}
    {draws : StartDraws} {result : RaidResult}
    (h : load s username known now rules errand draws = .ok (result, t)) : t.current = s.current := by
  have hpalle := (takePalle_fields s username errand.gift).2
  rw [load] at h
  dsimp only at h
  split at h
  · cases h
    exact hpalle
  · obtain ⟨-, -, ids, rfl⟩ := depart_eq_ok h
    exact (takeAlong_fields _ username errand.giftEmoji).2.trans hpalle

theorem raidStart_seats {s t : ConquisterState} {userId : ℤ} {username : Str} {now : ℤ} {rules : RaidRules}
    {errand : Errand} {draws : StartDraws} {result : RaidResult}
    (h : raidStart s userId username now rules errand draws = .ok (result, t)) : Seats username s t := by
  have hcurrent := rememberPlatform_current s username userId
  simp only [raidStart] at h
  split at h
  · rw [rideHome] at h
    split at h
    · cases h
      exact .of_same hcurrent
    · split at h
      · split at h
        · cases h
        · rename_i hleave
          cases h
          intro hold hhold
          rw [leavePlace_current hleave] at hhold
          cases hhold
      · cases h
        exact .of_same hcurrent
  · split at h
    · cases h
      exact .of_same hcurrent
    · rw [setOff] at h
      split at h
      · cases h
        exact .of_same hcurrent
      · split at h
        · cases h
          exact .of_same hcurrent
        · split_ifs at h
          iterate 4
            · cases h
              exact .of_same hcurrent
          exact .of_same ((load_current h).trans hcurrent)

end

section
variable [SlotCodec] {s t : ConquisterState} {links : Str → Str → Prop} {userId : ℤ}
  {username otherName accountName : Str}

/-- Who is merged into whom when two accounts are linked. -/
theorem playerLink_linked (h : playerLink s userId username otherName accountName = .ok (.linked, t)) :
    ∃ theirs mineKey otherKey, linkedAccount s userId otherName = some theirs ∧
      s.accounts.find (platformKey userId username accountName) = some mineKey ∧
      s.accounts.find theirs = some otherKey ∧ mineKey ≠ otherKey ∧
      linkedElsewhere s userId (platformKey userId username accountName) theirs mineKey otherKey = false ∧
      t = merge s (platformKey userId username accountName) theirs
        (droppedKey s (mineKey, otherKey)) (keptKey s (mineKey, otherKey)) := by
  simp only [playerLink] at h
  split at h
  · cases h
  · rename_i other hother
    split at h
    · cases h
    · rename_i theirs htheirs
      split at h
      · rename_i mineKey otherKey hmine hkey
        split at h
        · cases h
        · rename_i hne
          split at h
          · cases h
          · have hboth := Except.ok.inj h
            rw [linkBoth] at hboth
            have haccount : linkedAccount s userId otherName = some theirs := by
              rw [linkedAccount, hother, Option.bind_some, htheirs]
            split at hboth
            · cases hboth
            · rename_i helsewhere
              refine ⟨theirs, mineKey, otherKey, haccount, hmine, hkey, hne, by simpa using helsewhere, ?_⟩
              split at hboth
              · cases hboth
              · rw [droppedKey, keptKey]
                split at hboth
                · rename_i hwealthy
                  cases hboth
                  rw [if_pos hwealthy, if_pos hwealthy]
                · rename_i hwealthy
                  cases hboth
                  rw [if_neg hwealthy, if_neg hwealthy]
      · cases h

/-- Nothing but a request is kept of a line that links nobody. -/
theorem playerLink_unlinked {status : LinkStatus}
    (h : playerLink s userId username otherName accountName = .ok (status, t)) (hstatus : status ≠ .linked) :
    ∃ requests, t = { s with linkRequests := requests } := by
  simp only [playerLink] at h
  split at h
  · cases h
    exact ⟨s.linkRequests, rfl⟩
  · split at h
    · cases h
      exact ⟨s.linkRequests, rfl⟩
    · split at h
      · split at h
        · cases h
          exact ⟨s.linkRequests, rfl⟩
        · split at h
          · cases h
            exact ⟨_, rfl⟩
          · have hboth := Except.ok.inj h
            rw [linkBoth] at hboth
            split_ifs at hboth <;> cases hboth
            · exact ⟨s.linkRequests, rfl⟩
            · exact ⟨s.linkRequests, rfl⟩
            · exact absurd rfl hstatus
            · exact absurd rfl hstatus
      · cases h

omit [SlotCodec] in
theorem accountOf_platform {key theirs : Str} (h : accountOf s userId key = some theirs) :
    onTelegram theirs = decide (userId = 0) := by
  rw [accountOf] at h
  obtain ⟨entry, hentry, rfl⟩ := Option.map_eq_some_iff.mp h
  have hprefix := List.find?_some hentry
  rw [Bool.and_eq_true, otherPrefix] at hprefix
  split at hprefix
  · rename_i hid
    rw [decide_eq_false hid]
    exact onTelegram_of_onIrc hprefix.2
  · rename_i hid
    rw [decide_eq_true (not_not.mp hid)]
    exact hprefix.2

omit [SlotCodec] in
/-- Two keys about to be merged have nothing on a common platform: the sender's is only on his own, the other
only on the other. -/
theorem apart_of_linkedElsewhere (h : Isolated s links) {theirs mineKey otherKey : Str}
    (htheirs : onTelegram theirs = decide (userId = 0))
    (helsewhere : linkedElsewhere s userId (platformKey userId username accountName) theirs mineKey otherKey = false) :
    (∀ account, s.accounts.find account = some mineKey → onTelegram account = decide (userId ≠ 0)) ∧
      ∀ account, s.accounts.find account = some otherKey → onTelegram account = decide (userId = 0) := by
  rw [linkedElsewhere, List.any_eq_false] at helsewhere
  constructor
  · intro account haccount
    have hentry := helsewhere (account, mineKey) (OrderedMap.find_eq_some.mp haccount)
    by_cases hself : account = platformKey userId username accountName
    · rw [hself]
      exact onTelegram_platformKey userId username accountName
    · have hother : (otherPrefix userId).isPrefixOf account = false := by
        apply Bool.eq_false_iff.mpr
        intro hprefix
        apply hentry
        simp [hself, hprefix]
      rw [otherPrefix] at hother
      rcases h.platform account mineKey haccount with htelegram | hirc
      · split at hother
        · rename_i hid
          rw [htelegram, decide_eq_true hid]
        · exact absurd htelegram (Bool.eq_false_iff.mp hother)
      · split at hother
        · exact absurd hirc (Bool.eq_false_iff.mp hother)
        · rename_i hid
          rw [onTelegram_of_onIrc hirc, decide_eq_false hid]
  · intro account haccount
    have hentry := helsewhere (account, otherKey) (OrderedMap.find_eq_some.mp haccount)
    by_cases hself : account = theirs
    · rw [hself]
      exact htheirs
    · have hown : (ownPrefix userId).isPrefixOf account = false := by
        apply Bool.eq_false_iff.mpr
        intro hprefix
        apply hentry
        simp [hself, hprefix]
      rw [ownPrefix] at hown
      rcases h.platform account otherKey haccount with htelegram | hirc
      · split at hown
        · exact absurd htelegram (Bool.eq_false_iff.mp hown)
        · rename_i hid
          rw [htelegram, decide_eq_true (not_not.mp hid)]
      · split at hown
        · rename_i hid
          rw [onTelegram_of_onIrc hirc, decide_eq_false hid]
        · exact absurd hirc (Bool.eq_false_iff.mp hown)

omit [SlotCodec] in
theorem mem_keys_mergeTelegram {ids : Counters} {secondary primary key : Str}
    (h : key ∈ (mergeTelegram ids secondary primary).keys) : key ∈ ids.keys ∨ key = primary := by
  rw [mergeTelegram] at h
  split at h
  · obtain ⟨-, hset⟩ := OrderedMap.mem_keys_erase.mp h
    exact (OrderedMap.mem_keys_set.mp hset).symm
  · exact Or.inl h

omit [SlotCodec] in
/-- Merging two keys that are apart, one of which is bound to each of two linked accounts. -/
theorem Isolated.merge {links' : Str → Str → Prop} (h : Isolated s links) {old new mine theirs : Str}
    (hmine : s.accounts.find mine = some old) (htheirs : s.accounts.find theirs = some new)
    (hapart : ∃ side : Bool, (∀ account, s.accounts.find account = some old → onTelegram account = side) ∧
      ∀ account, s.accounts.find account = some new → onTelegram account = !side)
    (hlinks : ∀ a b, links a b → links' a b) (hlink : Relation.EqvGen links' mine theirs) (first second : Str) :
    Isolated (NorelecBot.merge s first second old new) links' := by
  obtain ⟨side, hold, hnew⟩ := hapart
  have hkept {key : Str} (hkey : (s.accounts.find key).isSome = true) :
      ((s.accounts.mapVals (redirect old new)).find key).isSome = true := by
    rw [OrderedMap.find_mapVals, Option.isSome_map]
    exact hkey
  have hnamed {names : Authors} {platform : Bool} (hbacked : Backed names s.accounts (onTelegram · = platform)) :
      ∀ a b, names.find a = some old → names.find b = some new → (() : Unit) ≠ () := by
    intro a b ha hb
    obtain ⟨account, haccount, hthis⟩ := hbacked a old ha
    obtain ⟨other, hother, hthat⟩ := hbacked b new hb
    have hone := (hold account haccount).symm.trans hthis
    have htwo := (hnew other hother).symm.trans hthat
    have hsides : side = !side := hone.trans htwo.symm
    cases side <;> cases hsides
  refine ⟨?_, ?_, ?_, ?_, h.chained.redirect hmine htheirs hlinks hlink, h.one.redirect ?_,
    h.telegramName.redirect (hnamed h.telegramBacked), h.ircNick.redirect (hnamed h.ircBacked),
    h.telegramBacked.redirect old new, h.ircBacked.redirect old new⟩
  · intro account key haccount
    obtain ⟨before, hbefore, -⟩ := find_redirect haccount
    exact h.platform account before hbefore
  · intro account key haccount hcolon
    obtain ⟨before, hbefore, hkey⟩ := find_redirect haccount
    apply hkept
    rcases redirect_cases old new before with hsame | ⟨-, hmoved⟩
    · rw [hsame] at hkey
      subst hkey
      exact h.filed account before hbefore hcolon
    · rw [hmoved] at hkey
      subst hkey
      exact h.filed theirs new htheirs hcolon
  · intro key hkey hcolon
    apply hkept
    rcases mem_keys_mergeTelegram hkey with hids | rfl
    · exact h.ids key hids hcolon
    · exact h.filed theirs key htheirs hcolon
  · intro hold hhold hcolon
    exact hkept (h.seat hold hhold hcolon)
  · intro a b ha hb hsame
    rw [hold a ha, hnew b hb] at hsame
    cases side <;> cases hsame

end

section
variable [SlotCodec] [Clock]

omit [Clock] in
theorem welcome_current (s : ConquisterState) (player : Str) (limit : ℕ) :
    (welcome s player limit).current = s.current := by
  rw [welcome]
  split
  · rfl
  · split
    · rfl
    · cases hhung : hangBalloon (markWelcomed s player) player limit with
      | none => rfl
      | some hung =>
        rw [hangBalloon] at hhung
        split at hhung
        · cases hhung
        · split at hhung
          · rename_i worn hworn
            cases hhung
            obtain ⟨slots, -, rfl⟩ := Option.map_eq_some_iff.mp hworn
            rfl
          · obtain ⟨slots, -, rfl⟩ := Option.map_eq_some_iff.mp hhung
            rfl

theorem Isolated.playerSeen {s : ConquisterState} {links : Str → Str → Prop} {username : Str} (h : Isolated s links)
    (hname : colon ∉ username) (userId : ℤ) (accountName : Str) (limit : ℕ) (now : ℤ) :
    Isolated (playerSeen s userId username accountName limit now).2 links := by
  have hintroduced := @Isolated.introduce s links userId username accountName h hname now
  have hregister := playerSeen_register s userId username accountName limit now
  have hcurrent : (NorelecBot.playerSeen s userId username accountName limit now).2.current =
      (NorelecBot.introduce s userId username accountName now).current := by
    rw [← welcome_current (NorelecBot.introduce s userId username accountName now)
      (keyFor s userId username accountName) limit]
    simp only [NorelecBot.playerSeen, countDay]
    split_ifs <;> rfl
  apply hintroduced.congr (congrArg Register.accounts hregister) (congrArg Register.telegramNames hregister)
    (congrArg Register.ircNicks hregister)
  · intro key hkey hcolon
    rw [show (NorelecBot.playerSeen s userId username accountName limit now).2.telegramIds = _ from
      congrArg Register.telegramIds hregister] at hkey
    exact hintroduced.ids key hkey hcolon
  · intro hold hhold hcolon
    rw [hcurrent] at hhold
    exact hintroduced.seat hold hhold hcolon

omit [SlotCodec] [Clock] in
/-- Coming for the place and setting off note where the sender plays and who holds the place. -/
theorem Isolated.remembered {s t : ConquisterState} {links : Str → Str → Prop} {userId : ℤ} {username : Str}
    (h : Isolated s links) (hname : colon ∉ username ∨ ∃ account, s.accounts.find account = some username)
    (hregister : register t = register (rememberPlatform s username userId)) (hseats : Seats username s t) :
    Isolated t links := by
  have hfiled (hcolon : colon ∈ username) : (s.accounts.find username).isSome = true := by
    rcases hname with hnone | ⟨account, haccount⟩
    · exact absurd hcolon hnone
    · exact h.filed account username haccount hcolon
  have hknown : (rememberPlatform s username userId).accounts = s.accounts ∧
      (rememberPlatform s username userId).telegramNames = s.telegramNames ∧
      (rememberPlatform s username userId).ircNicks = s.ircNicks ∧
      ∀ key ∈ (rememberPlatform s username userId).telegramIds.keys, key = username ∨ key ∈ s.telegramIds.keys := by
    rw [rememberPlatform, rememberIrc, rememberTelegram]
    split_ifs
    · exact ⟨rfl, rfl, rfl, fun _ hkey => Or.inr hkey⟩
    · exact ⟨rfl, rfl, rfl, fun _ hkey => Or.inr hkey⟩
    · exact ⟨rfl, rfl, rfl, fun _ hkey => OrderedMap.mem_keys_set.mp hkey⟩
    · exact ⟨rfl, rfl, rfl, fun _ hkey => Or.inr hkey⟩
  obtain ⟨haccounts, hnames, hnicks, hids⟩ := hknown
  apply h.congr ((congrArg Register.accounts hregister).trans haccounts)
    ((congrArg Register.telegramNames hregister).trans hnames) ((congrArg Register.ircNicks hregister).trans hnicks)
  · intro key hkey hcolon
    rw [show t.telegramIds = _ from congrArg Register.telegramIds hregister] at hkey
    rcases hids key hkey with rfl | hold
    · exact hfiled hcolon
    · exact h.ids key hold hcolon
  · intro hold hhold hcolon
    rcases hseats hold hhold with hown | ⟨before, hbefore, hsame⟩
    · rw [hown] at hcolon ⊢
      exact hfiled hcolon
    · rw [← hsame] at hcolon ⊢
      exact h.seat before hbefore hcolon

omit [Clock] in
theorem Isolated.playerLink {s t : ConquisterState} {links : Str → Str → Prop} {userId : ℤ}
    {username otherName accountName : Str} {status : LinkStatus} (h : Isolated s links)
    (hlink : playerLink s userId username otherName accountName = .ok (status, t))
    (hlinks : ∀ theirs, status = .linked → linkedAccount s userId otherName = some theirs →
      links (platformKey userId username accountName) theirs) : Isolated t links := by
  by_cases hlinked : status = .linked
  · subst hlinked
    obtain ⟨theirs, mineKey, otherKey, haccount, hmine, htheirs, -, helsewhere, rfl⟩ := playerLink_linked hlink
    have hjoined : Relation.EqvGen links (platformKey userId username accountName) theirs :=
      .rel _ _ (hlinks theirs rfl haccount)
    have hplatform : onTelegram theirs = decide (userId = 0) := by
      obtain ⟨other, -, hother⟩ := Option.bind_eq_some_iff.mp haccount
      exact accountOf_platform hother
    obtain ⟨hmineSide, hotherSide⟩ := apart_of_linkedElsewhere h hplatform helsewhere
    rw [droppedKey, keptKey]
    split
    · refine h.merge hmine htheirs ⟨decide (userId ≠ 0), hmineSide, ?_⟩ (fun _ _ => id) hjoined _ _
      intro account haccount
      rw [hotherSide account haccount, decide_not, Bool.not_not]
    · refine h.merge htheirs hmine ⟨decide (userId = 0), hotherSide, ?_⟩ (fun _ _ => id) (hjoined.symm _ _) _ _
      intro account haccount
      rw [hmineSide account haccount, decide_not]
  · obtain ⟨requests, rfl⟩ := playerLink_unlinked hlink hlinked
    exact h.congr rfl rfl rfl h.ids h.seat

theorem step_isolated {links : Str → Str → Prop} {files files' : Files} {op : Op} {reply : Reply}
    (h : Isolated files.state links) (hop : Admissible files.state op) (hstep : step files op = .ok (reply, files'))
    (hlinks : ∀ pair, linkedPair files.state op reply = some pair → links pair.1 pair.2) :
    Isolated files'.state links := by
  cases op with
  | seen userId username accountName furnitureLimit now =>
    cases hstep
    exact h.playerSeen hop userId accountName furnitureLimit now
  | link userId username otherName accountName =>
    obtain ⟨status, hlink, rfl, -⟩ := Files.only_eq_ok hstep
    apply h.playerLink hlink
    rintro theirs rfl haccount
    apply hlinks (platformKey userId username accountName, theirs)
    rw [linkedPair, haccount]
    rfl
  | claim userId username now rules draws =>
    obtain ⟨result, hclaim, -, -⟩ := Files.only_eq_ok hstep
    exact h.remembered hop (conquisterClaim_aside hclaim).register (conquisterClaim_seats hclaim)
  | raidStart userId username now rules errand draws =>
    obtain ⟨result, hstart, -, -⟩ := Files.only_eq_ok hstep
    exact h.remembered hop (raidStart_setsOff hstart).1.register (raidStart_seats hstart)
  | _ => exact hop.elim

theorem run_isolated {links : Str → Str → Prop} {files : Files} {ops : List Op} (h : Isolated files.state links)
    (hops : AllAdmissible files ops) (hlinks : ∀ pair ∈ linksOf files ops, links pair.1 pair.2) :
    Isolated (files.run ops).state links := by
  induction ops generalizing files with
  | nil => exact h
  | cons op ops ih =>
    obtain ⟨hop, hrest⟩ := hops
    rw [linksOf] at hlinks
    change Isolated ((files.after op).run ops).state links
    cases hstep : step files op with
    | error failure =>
      rw [hstep] at hlinks
      have hsame : files.after op = files := by rw [Files.after, hstep]
      rw [hsame] at hrest ⊢
      exact ih h hrest hlinks
    | ok result =>
      obtain ⟨reply, files'⟩ := result
      rw [hstep] at hlinks
      rw [Files.after_eq hstep] at hrest ⊢
      refine ih (step_isolated h hop hstep fun pair hpair => ?_) hrest fun pair hpair => ?_
      · exact hlinks pair (List.mem_append_left _ (Option.mem_toList.mpr hpair))
      · exact hlinks pair (List.mem_append_right _ hpair)

omit [SlotCodec] [Clock] in
theorem mem_firstOf {players : List Str} {player : Str} (h : player ∈ players) : player ∈ firstOf players := by
  have hfold : ∀ known : List Str, player ∈ known ∨ player ∈ players → player ∈ players.foldl
      (fun known player => if player ∈ known then known else known ++ [player]) known := by
    clear h
    induction players with
    | nil => exact fun known hmem => hmem.resolve_right List.not_mem_nil
    | cons first players ih =>
      intro known hmem
      rw [List.foldl_cons]
      apply ih
      by_cases hfirst : first ∈ known
      · rw [if_pos hfirst]
        rcases hmem with hknown | hlist
        · exact Or.inl hknown
        · rcases List.mem_cons.mp hlist with rfl | hrest
          · exact Or.inl hfirst
          · exact Or.inr hrest
      · rw [if_neg hfirst]
        rcases hmem with hknown | hlist
        · exact Or.inl (List.mem_append_left _ hknown)
        · rcases List.mem_cons.mp hlist with rfl | hrest
          · exact Or.inl (List.mem_append_right _ (List.mem_singleton_self _))
          · exact Or.inr hrest
  exact hfold [] (Or.inr h)

omit [SlotCodec] [Clock] in
/-- Nobody is bound to anything yet. -/
theorem PreIdentity.isolated {s : ConquisterState} (h : PreIdentity s) (links : Str → Str → Prop) :
    Isolated s links := by
  have hnobody (account key : Str) : s.accounts.find account ≠ some key := by
    rw [h.accounts]
    intro hfind
    cases hfind
  refine ⟨fun account key haccount => absurd haccount (hnobody account key),
    fun account key haccount => absurd haccount (hnobody account key), fun key hkey hcolon => ?_,
    fun hold hhold hcolon => ?_, fun a b owner ha => absurd ha (hnobody a owner),
    fun a b owner ha => absurd ha (hnobody a owner), ?_, ?_, ?_, ?_⟩
  · refine absurd hcolon (h.names key (mem_firstOf (List.mem_append_right _ (List.mem_append_left _ ?_))))
    simp [hkey]
  · refine absurd hcolon (h.names hold.username (mem_firstOf (List.mem_append_left _ ?_)))
    have hnamed : hold.username ≠ [] := by
      intro hempty
      rw [hempty] at hcolon
      cases hcolon
    simp [hhold, hnamed]
  · rw [h.telegramNames]
    exact .empty
  · rw [h.ircNicks]
    exact .empty
  · rw [h.telegramNames]
    exact .empty
  · rw [h.ircNicks]
    exact .empty

/-- Who is who: two accounts share a key only through links; a key has at most one account on each platform
and at most one name on each; and an account moves only as the one merged in. -/
structure StrangersApart (files : Files) (links : Str → Str → Prop) : Prop where
  joined : ∀ a b key, files.state.accounts.find a = some key → files.state.accounts.find b = some key →
    Relation.EqvGen links a b
  platform : ∀ account key, files.state.accounts.find account = some key →
    onTelegram account = true ∨ onIrc account = true
  oneTelegram : ∀ a b key, files.state.accounts.find a = some key → files.state.accounts.find b = some key →
    onTelegram a = true → onTelegram b = true → a = b
  oneIrc : ∀ a b key, files.state.accounts.find a = some key → files.state.accounts.find b = some key →
    onIrc a = true → onIrc b = true → a = b
  telegramName : ∀ name other key, files.state.telegramNames.find name = some key →
    files.state.telegramNames.find other = some key → name = other
  ircNick : ∀ name other key, files.state.ircNicks.find name = some key →
    files.state.ircNicks.find other = some key → name = other
  moves : ∀ op reply files' account key, Admissible files.state op → step files op = .ok (reply, files') →
    files.state.accounts.find account = some key → files'.state.accounts.find account = some key ∨
      ∃ userId username otherName accountName keys, op = .link userId username otherName accountName ∧
        reply = .link .linked ∧ linkKeys files.state userId username otherName accountName = some keys ∧
        key = droppedKey files.state keys ∧
        files'.state.accounts.find account = some (keptKey files.state keys)

theorem playerSeen_accounts (s : ConquisterState) (userId : ℤ) (username accountName : Str) (limit : ℕ) (now : ℤ)
    {account key : Str} (h : s.accounts.find account = some key) :
    (playerSeen s userId username accountName limit now).2.accounts.find account = some key := by
  have hregister : (playerSeen s userId username accountName limit now).2.accounts =
      (introduce s userId username accountName now).accounts :=
    congrArg Register.accounts (playerSeen_register s userId username accountName limit now)
  rw [hregister, (introduce_fields s userId username accountName now).1, bindAccount]
  split
  · exact h
  · rename_i hnew
    change (s.accounts.set _ _).find account = some key
    rw [OrderedMap.find_set_of_ne]
    · exact h
    · rintro rfl
      rw [h] at hnew
      exact hnew rfl

/-- An account keeps its key, unless it is merged in. -/
theorem step_moves {files files' : Files} {op : Op} {reply : Reply} {account key : Str}
    (hop : Admissible files.state op) (hstep : step files op = .ok (reply, files'))
    (haccount : files.state.accounts.find account = some key) : files'.state.accounts.find account = some key ∨
      ∃ userId username otherName accountName keys, op = .link userId username otherName accountName ∧
        reply = .link .linked ∧ linkKeys files.state userId username otherName accountName = some keys ∧
        key = droppedKey files.state keys ∧
        files'.state.accounts.find account = some (keptKey files.state keys) := by
  have hknown (userId : ℤ) (username : Str) :
      (rememberPlatform files.state username userId).accounts = files.state.accounts := by
    rw [rememberPlatform, rememberIrc, rememberTelegram]
    split_ifs <;> rfl
  cases op with
  | seen userId username accountName furnitureLimit now =>
    have hsame := playerSeen_accounts files.state userId username accountName furnitureLimit now haccount
    cases hstep
    exact Or.inl hsame
  | claim userId username now rules draws =>
    obtain ⟨result, hclaim, -, -⟩ := Files.only_eq_ok hstep
    have hsame : files'.state.accounts = _ := congrArg Register.accounts (conquisterClaim_aside hclaim).register
    exact Or.inl ((hsame.trans (hknown userId username)) ▸ haccount)
  | raidStart userId username now rules errand draws =>
    obtain ⟨result, hstart, -, -⟩ := Files.only_eq_ok hstep
    have hsame : files'.state.accounts = _ := congrArg Register.accounts (raidStart_setsOff hstart).1.register
    exact Or.inl ((hsame.trans (hknown userId username)) ▸ haccount)
  | link userId username otherName accountName =>
    obtain ⟨status, hlink, rfl, -⟩ := Files.only_eq_ok hstep
    by_cases hlinked : status = .linked
    · subst hlinked
      obtain ⟨theirs, mineKey, otherKey, htheirs, hmine, hother, -, -, hmerged⟩ := playerLink_linked hlink
      have hkeys : linkKeys files.state userId username otherName accountName = some (mineKey, otherKey) := by
        change (linkedAccount files.state userId otherName).bind _ = _
        rw [htheirs, Option.bind_some, hmine, Option.bind_some, hother]
        rfl
      have hafter : files'.state.accounts.find account = some
          (redirect (droppedKey files.state (mineKey, otherKey)) (keptKey files.state (mineKey, otherKey)) key) := by
        rw [hmerged]
        change (files.state.accounts.mapVals (redirect _ _)).find account = _
        rw [OrderedMap.find_mapVals, haccount]
        rfl
      rcases redirect_cases (droppedKey files.state (mineKey, otherKey)) (keptKey files.state (mineKey, otherKey)) key with
        hsame | ⟨hdropped, hkept⟩
      · rw [hsame] at hafter
        exact Or.inl hafter
      · rw [hkept] at hafter
        exact Or.inr ⟨userId, username, otherName, accountName, _, rfl, rfl, hkeys, hdropped, hafter⟩
    · obtain ⟨requests, hsame⟩ := playerLink_unlinked hlink hlinked
      rw [hsame]
      exact Or.inl haccount
  | _ => exact hop.elim

/-- Identity isolation: from a save from before the accounts, however accounts are seen, linked, come for the
place and set off, under whatever public names. -/
theorem strangers_stay_apart {files : Files} {ops : List Op} (hsave : PreIdentity files.state)
    (hops : AllAdmissible files ops) :
    StrangersApart (files.run ops) fun a b => (a, b) ∈ linksOf files ops := by
  have h := run_isolated (hsave.isolated fun a b => (a, b) ∈ linksOf files ops) hops fun pair hpair => hpair
  refine ⟨h.chained, h.platform, fun a b key ha hb hfirst hsecond => ?_, fun a b key ha hb hfirst hsecond => ?_,
    fun name other key hname hother => h.telegramName name other key hname hother rfl,
    fun name other key hname hother => h.ircNick name other key hname hother rfl,
    fun op reply files' account key hop hstep haccount => step_moves hop hstep haccount⟩
  · exact h.one a b key ha hb (hfirst.trans hsecond.symm)
  · exact h.one a b key ha hb ((onTelegram_of_onIrc hfirst).trans (onTelegram_of_onIrc hsecond).symm)

end

/-- Ada is seen on both platforms and asks, on both, to be one player. -/
def adaAsks : List Op := [
  .seen 1 (utf8 "ada") [] 10 (day 1),
  .seen 0 (utf8 "adair") [] 10 (day 1),
  .link 0 (utf8 "adair") (utf8 "ada") [],
  .link 1 (utf8 "ada") (utf8 "adair") []]

/-- A save from before the accounts, with a player Telegram knows. -/
def adaOnFile : Files :=
  { state := { scores := OrderedMap.empty.set (utf8 "ada") 900, telegramIds := OrderedMap.empty.set (utf8 "ada") 1 } }

/-- Both accounts come to be the player of the old save, by the one link that was made. -/
theorem strangers_stay_apart_ada :
    @StrangersApart _ utc (@Files.run _ utc adaOnFile adaAsks) (fun a b => (a, b) ∈ @linksOf _ utc adaOnFile adaAsks) ∧
      @linksOf _ utc adaOnFile adaAsks = [(utf8 "tg:1", utf8 "irc:adair")] ∧
      (@Files.run _ utc adaOnFile adaAsks).state.accounts.entries =
        [(utf8 "tg:1", utf8 "ada"), (utf8 "irc:adair", utf8 "ada")] := by
  refine ⟨?_, by decide +kernel, by decide +kernel⟩
  · apply @strangers_stay_apart _ utc adaOnFile adaAsks
    · exact ⟨rfl, rfl, rfl, rfl, rfl, by decide +kernel⟩
    · have hada : colon ∉ utf8 "ada" := by decide
      have hadair : colon ∉ utf8 "adair" := by decide
      unfold adaAsks AllAdmissible
      exact ⟨hada, hadair, hadair, hada, trivial⟩

end NorelecBot
