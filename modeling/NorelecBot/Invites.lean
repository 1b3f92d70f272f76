import Mathlib
import NorelecBot.Books
import NorelecBot.Onward
import NorelecBot.Lib.History

/-! # An invite pays once

What is on file about a newcomer only goes forward: he joins, somebody is written
down as his inviter, the days he plays are counted, and then the invite is settled
for good.
-/

namespace NorelecBot
open Lib

structure Invite where
  joined : Option ℤ
  inviter : Option Str
  days : ℤ
  lastDay : ℤ
  paid : Option ℤ

def inviteOf (state : ConquisterState) (newcomer : Str) : Invite where
  joined := state.joined.find newcomer
  inviter := state.invitedBy.find newcomer
  days := counter state.inviteDays newcomer
  lastDay := counter state.inviteLastDay newcomer
  paid := state.invitePaid.find newcomer

/-- Only the ledgers are looked at, and when he joined. -/
theorem inviteOf_of_ledgers {s t : ConquisterState} (h : ledgers t = ledgers s) (newcomer : Str) :
    inviteOf t newcomer = { inviteOf s newcomer with joined := t.joined.find newcomer } := by
  have hinvited : t.invitedBy = s.invitedBy := congrArg Ledgers.invitedBy h
  have hdays : t.inviteDays = s.inviteDays := congrArg Ledgers.inviteDays h
  have hlast : t.inviteLastDay = s.inviteLastDay := congrArg Ledgers.inviteLastDay h
  have hpaid : t.invitePaid = s.invitePaid := congrArg Ledgers.invitePaid h
  simp only [inviteOf, hinvited, hdays, hlast, hpaid]

theorem inviteOf_congr {s t : ConquisterState} (hjoined : t.joined = s.joined) (hledgers : ledgers t = ledgers s)
    (newcomer : Str) : inviteOf t newcomer = inviteOf s newcomer := by
  rw [inviteOf_of_ledgers hledgers, hjoined]
  rfl

theorem rewardDue_eq_some {s : ConquisterState} {newcomer inviter : Str} :
    rewardDue s newcomer = some inviter ↔ (inviteOf s newcomer).paid = none ∧
      inviteDaysNeeded ≤ (inviteOf s newcomer).days ∧ (inviteOf s newcomer).inviter = some inviter := by
  rw [rewardDue, inviteOf]
  split
  · rename_i hsettled
    simp only [reduceCtorEq, false_iff, not_and]
    intro hpaid henough
    rw [hpaid] at hsettled
    simp only [Option.isSome_none, Bool.false_eq_true, false_or] at hsettled
    omega
  · rename_i hopen
    obtain ⟨hpaid, henough⟩ := not_or.mp hopen
    rw [Bool.not_eq_true, Option.isSome_eq_false_iff, Option.isNone_iff_eq_none] at hpaid
    simp [hpaid, not_lt.mp henough]

section
variable [Clock]

/-- How an operation moves the invite of a newcomer on. -/
inductive Invite.Moves (state : ConquisterState) (newcomer : Str) : Op → Invite → Prop
  | stays (op : Op) : Moves state newcomer op (inviteOf state newcomer)
  | seen {userId : ℤ} {username accountName : Str} {limit : ℕ} {now : ℤ} {joined : Option ℤ}
      (his : keyFor state userId username accountName = newcomer)
      (joins : joined = (inviteOf state newcomer).joined ∨ (inviteOf state newcomer).joined = none ∧ joined = some now) :
      Moves state newcomer (.seen userId username accountName limit now)
        { inviteOf state newcomer with joined := joined }
  | counted {userId : ℤ} {username accountName : Str} {limit : ℕ} {now : ℤ} {came : ℤ}
      (his : keyFor state userId username accountName = newcomer)
      (joins : (inviteOf state newcomer).joined = some came ∨ (inviteOf state newcomer).joined = none ∧ came = now)
      (another : (inviteOf state newcomer).lastDay ≠ Clock.localDay now) :
      Moves state newcomer (.seen userId username accountName limit now)
        { inviteOf state newcomer with
          joined := some came
          days := (inviteOf state newcomer).days + 1
          lastDay := Clock.localDay now }
  | named {inviter known : Str} {platform : RaidTargetKind} {now came : ℤ}
      (recorded : (inviteRecord state newcomer inviter platform now).1 = .recorded)
      (found : playerByName state inviter platform = some known) (another : known ≠ newcomer)
      (joined : (inviteOf state newcomer).joined = some came) (inTime : now - came < inviteWindowSeconds)
      (unnamed : (inviteOf state newcomer).inviter = none) :
      Moves state newcomer (.invite newcomer inviter platform now) { inviteOf state newcomer with inviter := some known }
  | settled {samePerson : Bool} (due : rewardDue state newcomer ≠ none) :
      Moves state newcomer (.reward newcomer samePerson)
        { inviteOf state newcomer with paid := some (if samePerson then -1 else 1) }

end

theorem inviteRecord_invites (s : ConquisterState) (newcomer inviter : Str) (platform : RaidTargetKind) (now : ℤ)
    [Clock] (other : Str) :
    Invite.Moves s other (.invite newcomer inviter platform now)
      (inviteOf (inviteRecord s newcomer inviter platform now).2.2 other) := by
  cases hrecord : inviteRecord s newcomer inviter platform now with
  | mk status rest =>
    obtain ⟨shown, t⟩ := rest
    have hstatus : (inviteRecord s newcomer inviter platform now).1 = status := by rw [hrecord]
    rw [inviteRecord] at hrecord
    split at hrecord
    · cases hrecord
      exact .stays _
    · rename_i came hcame
      split_ifs at hrecord with hlate
      · cases hrecord
        exact .stays _
      · split at hrecord
        · cases hrecord
          exact .stays _
        · rename_i hunnamed
          split at hrecord
          · cases hrecord
            exact .stays _
          · rename_i known hknown
            split_ifs at hrecord with hself
            · cases hrecord
              exact .stays _
            · cases hrecord
              by_cases hother : other = newcomer
              · subst hother
                have hmoves := Invite.Moves.named hstatus hknown hself hcame (not_le.mp hlate) hunnamed
                simpa [inviteOf] using hmoves
              · have hsame : inviteOf { s with invitedBy := s.invitedBy.set newcomer known } other = inviteOf s other := by
                  simp only [inviteOf, OrderedMap.find_set_of_ne _ _ hother]
                dsimp only
                rw [hsame]
                exact .stays _

theorem inviteDue_invites (s : ConquisterState) (newcomer : Str) (samePerson : Bool) [Clock] (other : Str) :
    Invite.Moves s other (.reward newcomer samePerson) (inviteOf (inviteDue s newcomer samePerson).2 other) := by
  cases hdue : inviteDue s newcomer samePerson with
  | mk reward t =>
    rw [inviteDue] at hdue
    split at hdue
    · cases hdue
      exact .stays _
    · rename_i inviter hinviter
      have hpaid : inviteOf t other = { inviteOf s other with
          paid := if other = newcomer then some (if samePerson then -1 else 1) else (inviteOf s other).paid } := by
        split at hdue <;> rename_i hperson <;> cases hdue <;> simp [inviteOf, OrderedMap.find_set, hperson]
      dsimp only
      rw [hpaid]
      by_cases hother : other = newcomer
      · subst hother
        rw [if_pos rfl]
        exact .settled (by simp [hinviter])
      · rw [if_neg hother]
        exact .stays _

theorem introduce_joins (s : ConquisterState) (userId : ℤ) (username accountName : Str) (now : ℤ) :
    (introduce s userId username accountName now).joined = s.joined ∨
      s.joined.find (keyFor s userId username accountName) = none ∧
        (introduce s userId username accountName now).joined =
          s.joined.set (keyFor s userId username accountName) now := by
  rw [introduce_joined]
  split
  · rename_i hnew
    exact Or.inr ⟨by simpa using hnew.2.2, rfl⟩
  · exact Or.inl rfl

section
variable [SlotCodec] [Clock]

theorem playerSeen_invites (s : ConquisterState) (userId : ℤ) (username accountName : Str) (limit : ℕ) (now : ℤ)
    (other : Str) :
    Invite.Moves s other (.seen userId username accountName limit now)
      (inviteOf (playerSeen s userId username accountName limit now).2 other) := by
  obtain ⟨welcomed, hledgers, hintroduced, hseen⟩ := playerSeen_ledgers s userId username accountName limit now
  have hwelcomed := inviteOf_of_ledgers hledgers other
  have hjoins := introduce_joins s userId username accountName now
  rw [← hintroduced] at hjoins
  rw [hseen]
  generalize hkey : keyFor s userId username accountName = key at hjoins ⊢
  by_cases hother : other = key
  · subst hother
    have hjoined : welcomed.joined.find other = s.joined.find other ∨
        s.joined.find other = none ∧ welcomed.joined.find other = some now := by
      rcases hjoins with hsame | ⟨hnew, hset⟩
      · exact Or.inl (by rw [hsame])
      · exact Or.inr ⟨hnew, by rw [hset, OrderedMap.find_set_self]⟩
    rw [countDay]
    split
    · rename_i hcounts
      obtain ⟨came, hcame⟩ := Option.isSome_iff_exists.mp hcounts.2.1
      have hlast : counter welcomed.inviteLastDay other = (inviteOf s other).lastDay := congrArg Invite.lastDay hwelcomed
      have hcounted : inviteOf { welcomed with
            inviteLastDay := welcomed.inviteLastDay.set other (Clock.localDay now)
            inviteDays := welcomed.inviteDays.set other (counter welcomed.inviteDays other + 1) } other =
          { inviteOf welcomed other with
            days := (inviteOf welcomed other).days + 1
            lastDay := Clock.localDay now } := by
        simp [inviteOf]
      rw [hcounted, hwelcomed, hcame]
      apply Invite.Moves.counted hkey
      · rw [hcame] at hjoined
        exact hjoined.imp Eq.symm fun hfresh => ⟨hfresh.1, Option.some.inj hfresh.2⟩
      · rw [← hlast]
        exact hcounts.2.2.2
    · rw [hwelcomed]
      exact .seen hkey hjoined
  · have hcounted : inviteOf (countDay welcomed key now) other = inviteOf welcomed other := by
      rw [countDay]
      split
      · simp [inviteOf, counter_set, hother]
      · rfl
    have hjoined : welcomed.joined.find other = s.joined.find other := by
      rcases hjoins with hsame | ⟨-, hset⟩
      · rw [hsame]
      · rw [hset, OrderedMap.find_set_of_ne _ _ hother]
    rw [hcounted, hwelcomed, hjoined]
    exact .stays _

omit [SlotCodec] [Clock] in
theorem rememberPlatform_joined (s : ConquisterState) (username : Str) (userId : ℤ) :
    (rememberPlatform s username userId).joined = s.joined := by
  rw [rememberPlatform, rememberIrc, rememberTelegram]
  split_ifs <;> rfl

omit [SlotCodec] [Clock] in
theorem quoteAdd_invites {s t : ConquisterState} {quotes quotes' : Quotes} {username quote : Str} {cost : ℤ}
    {result : QuoteAddResult} (h : quoteAdd s quotes username quote cost = .ok (result, t, quotes'))
    (newcomer : Str) : inviteOf t newcomer = inviteOf s newcomer := by
  simp only [quoteAdd] at h
  split_ifs at h <;> cases h <;> rfl

omit [SlotCodec] [Clock] in
theorem quoteDelete_invites (s : ConquisterState) (quotes : Quotes) (selector newcomer : Str) :
    inviteOf (quoteDelete s quotes selector).2.1 newcomer = inviteOf s newcomer := by
  rw [quoteDelete]
  split
  · rfl
  · simp only [forgetAuthor]
    split <;> rfl

omit [Clock] in
theorem playerLink_invites {s t : ConquisterState} {userId : ℤ} {username otherName accountName : Str}
    {status : LinkStatus} (h : playerLink s userId username otherName accountName = .ok (status, t))
    (newcomer : Str) : inviteOf t newcomer = inviteOf s newcomer := by
  rcases playerLink_cases h with ⟨-, -, requests, rfl⟩ | ⟨keys, mine, theirs, -, -, -, -, rfl⟩
  · rfl
  · rfl

theorem step_invites {files files' : Files} {op : Op} {reply : Reply} (h : step files op = .ok (reply, files'))
    (newcomer : Str) : Invite.Moves files.state newcomer op (inviteOf files'.state newcomer) := by
  have hstays (hsame : inviteOf files'.state newcomer = inviteOf files.state newcomer) :
      Invite.Moves files.state newcomer op (inviteOf files'.state newcomer) := by
    rw [hsame]
    exact .stays op
  by_cases hop : op.writesLedgers = false
  · apply hstays
    apply inviteOf_congr _ (step_ledgers h hop).1
    have hregisters : op.registers = false := by
      cases op <;> first | rfl | cases hop
    have hjoined := congrArg Register.joined ((step_goes h).register hregisters)
    have hremembered : (op.remembers files.state).joined = files.state.joined := by
      cases op <;> first | rfl | exact rememberPlatform_joined _ _ _
    exact hjoined.trans hremembered
  · cases op with
    | seen userId username accountName furnitureLimit now =>
      cases h
      exact playerSeen_invites files.state userId username accountName furnitureLimit now newcomer
    | link userId username otherName accountName =>
      obtain ⟨status, hlink, -, -⟩ := Files.only_eq_ok h
      exact hstays (playerLink_invites hlink newcomer)
    | quoteAdd username quote cost =>
      rw [step] at h
      split at h
      · cases h
      · rename_i result state quotes hadd
        cases h
        exact hstays (quoteAdd_invites hadd newcomer)
    | quoteDelete selector =>
      have hsame := quoteDelete_invites files.state files.quotes selector newcomer
      rw [step] at h
      split at h
      rename_i removed state quotes hdelete
      cases h
      rw [hdelete] at hsame
      exact hstays hsame
    | invite name inviter platform now =>
      have hmoves := inviteRecord_invites files.state name inviter platform now newcomer
      rw [step] at h
      split at h
      rename_i status shown state hrecord
      cases h
      rw [hrecord] at hmoves
      exact hmoves
    | reward name samePerson =>
      cases h
      exact inviteDue_invites files.state name samePerson newcomer
    | _ => exact absurd rfl hop

theorem after_invites (files : Files) (op : Op) (newcomer : Str) :
    Invite.Moves files.state newcomer op (inviteOf (files.after op).state newcomer) := by
  cases hop : step files op with
  | error failure =>
    rw [Files.after, hop]
    exact .stays op
  | ok result =>
    obtain ⟨reply, files'⟩ := result
    rw [Files.after_eq hop]
    exact step_invites hop newcomer

theorem paid_stays {newcomer : Str} {paid : ℤ} (files : Files) (op : Op)
    (h : (inviteOf files.state newcomer).paid = some paid) :
    (inviteOf (files.after op).state newcomer).paid = some paid := by
  have hmoves := after_invites files op newcomer
  generalize inviteOf (files.after op).state newcomer = invite at hmoves ⊢
  cases hmoves with
  | settled due =>
    obtain ⟨inviter, hinviter⟩ := Option.ne_none_iff_exists'.mp due
    rw [(rewardDue_eq_some.mp hinviter).1] at h
    cases h
  | _ => exact h

theorem inviter_stays {newcomer inviter : Str} (files : Files) (op : Op)
    (h : (inviteOf files.state newcomer).inviter = some inviter) :
    (inviteOf (files.after op).state newcomer).inviter = some inviter := by
  have hmoves := after_invites files op newcomer
  generalize inviteOf (files.after op).state newcomer = invite at hmoves ⊢
  cases hmoves with
  | named recorded found another joined inTime unnamed =>
    rw [unnamed] at h
    cases h
  | _ => exact h

/-- Once it was due and asked for, paid or refused, it is never due again. -/
theorem settled_for_good {files : Files} {newcomer : Str} {samePerson : Bool} {later : List Op}
    (h : rewardDue files.state newcomer ≠ none) :
    rewardDue ((files.after (.reward newcomer samePerson)).run later).state newcomer = none := by
  have hsettled : ∃ paid, (inviteOf (files.after (.reward newcomer samePerson)).state newcomer).paid = some paid := by
    obtain ⟨inviter, hinviter⟩ := Option.ne_none_iff_exists'.mp h
    refine ⟨if samePerson then -1 else 1, ?_⟩
    have hafter : files.after (.reward newcomer samePerson) =
        { files with state := (inviteDue files.state newcomer samePerson).2 } := rfl
    rw [hafter, inviteDue, hinviter]
    cases samePerson <;> simp [inviteOf]
  obtain ⟨paid, hpaid⟩ := hsettled
  have hstays : (inviteOf ((files.after (.reward newcomer samePerson)).run later).state newcomer).paid = some paid :=
    keeps_from paid_stays later hpaid
  by_contra hdue
  obtain ⟨inviter, hinviter⟩ := Option.ne_none_iff_exists'.mp hdue
  rw [(rewardDue_eq_some.mp hinviter).1] at hstays
  cases hstays

/-- When an operation takes place, as far as it looks at the clock. -/
def Op.now : Op → Option ℤ
  | .claim _ _ now _ _ => some now
  | .raidStart _ _ now _ _ _ => some now
  | .raidDue now _ _ => some now
  | .buy _ _ _ _ _ now _ => some now
  | .move _ _ _ _ now => some now
  | .burn _ _ now _ _ _ => some now
  | .take _ _ _ now => some now
  | .store _ _ _ now => some now
  | .seen _ _ _ _ now => some now
  | .invite _ _ _ now => some now
  | _ => none

/-- He was seen on a day of the calendar, no sooner than he came. -/
def SeenOn (newcomer : Str) (came day : ℤ) (files : Files) (op : Op) : Prop :=
  ∃ userId username accountName limit now, op = .seen userId username accountName limit now ∧
    keyFor files.state userId username accountName = newcomer ∧ came ≤ now ∧ Clock.localDay now = day

/-- Somebody else, whom the bot knew, was recorded as his inviter soon after he came. -/
def Recorded (newcomer inviter : Str) (came : ℤ) (files : Files) (op : Op) : Prop :=
  ∃ name platform now, op = .invite newcomer name platform now ∧
    (inviteRecord files.state newcomer name platform now).1 = .recorded ∧
    playerByName files.state name platform = some inviter ∧ inviter ≠ newcomer ∧
    files.state.joined.find newcomer = some came ∧ came ≤ now ∧ now - came < inviteWindowSeconds

structure NobodyYet (files : Files) : Prop where
  joined : ∀ player, files.state.joined.find player = none
  invitedBy : ∀ player, files.state.invitedBy.find player = none
  days : ∀ player, counter files.state.inviteDays player = 0

/-- What is on file about an invite comes from the run. -/
structure Invite.Earned (files : Files) (ops : List Op) (newcomer : Str) (invite : Invite) : Prop where
  joined : ∀ came, invite.joined = some came → came ∈ ops.filterMap Op.now
  inviter : ∀ inviter, invite.inviter = some inviter → ∃ came, invite.joined = some came ∧
    Happened Files.after files ops (Recorded newcomer inviter came)
  days : ∃ days : List ℤ, invite.days = days.length ∧ days.Pairwise (· > ·) ∧
    (∀ day ∈ days.head?, day = invite.lastDay) ∧
    ∀ day ∈ days, ∃ came, invite.joined = some came ∧ Happened Files.after files ops (SeenOn newcomer came day)

theorem Invite.Earned.start {files : Files} (h : NobodyYet files) (newcomer : Str) :
    (inviteOf files.state newcomer).Earned files [] newcomer where
  joined := by
    intro came hcame
    rw [inviteOf, h.joined] at hcame
    cases hcame
  inviter := by
    intro inviter hinviter
    rw [inviteOf, h.invitedBy] at hinviter
    cases hinviter
  days := ⟨[], h.days newcomer, List.Pairwise.nil, by simp, by simp⟩

/-- An operation that changes neither the day counted last nor who invited him. -/
theorem Invite.Earned.later {files : Files} {ops : List Op} {newcomer : Str} {invite invite' : Invite}
    (h : invite.Earned files ops newcomer) (op : Op) (hjoined : invite'.joined = invite.joined)
    (hinviter : invite'.inviter = invite.inviter) (hdays : invite'.days = invite.days)
    (hlast : invite'.lastDay = invite.lastDay) : invite'.Earned files (ops ++ [op]) newcomer where
  joined := by
    intro came hcame
    rw [hjoined] at hcame
    rw [List.filterMap_append]
    exact List.mem_append_left _ (h.joined came hcame)
  inviter := by
    intro inviter hnamed
    rw [hinviter] at hnamed
    obtain ⟨came, hcame, hrecorded⟩ := h.inviter inviter hnamed
    exact ⟨came, hjoined.trans hcame, hrecorded.before op⟩
  days := by
    obtain ⟨days, hcount, hapart, hhead, hseen⟩ := h.days
    refine ⟨days, hdays.trans hcount, hapart, ?_, ?_⟩
    · rwa [hlast]
    · intro day hday
      obtain ⟨came, hcame, hthere⟩ := hseen day hday
      exact ⟨came, hjoined.trans hcame, hthere.before op⟩

/-- He joins. -/
theorem Invite.Earned.comes {files : Files} {ops : List Op} {newcomer : Str} {invite : Invite} {op : Op} {now : ℤ}
    (h : invite.Earned files ops newcomer) (hnew : invite.joined = none) (hnow : op.now = some now) :
    { invite with joined := some now }.Earned files (ops ++ [op]) newcomer where
  joined := by
    intro came hcame
    cases hcame
    simp [List.filterMap_append, hnow]
  inviter := by
    intro inviter hnamed
    obtain ⟨came, hcame, -⟩ := h.inviter inviter hnamed
    rw [hnew] at hcame
    cases hcame
  days := by
    obtain ⟨days, hcount, hapart, hhead, hseen⟩ := h.days
    refine ⟨days, hcount, hapart, hhead, fun day hday => ?_⟩
    obtain ⟨came, hcame, -⟩ := hseen day hday
    rw [hnew] at hcame
    cases hcame

omit [SlotCodec] [Clock] in
theorem le_last {ops : List Op} {op : Op} {now : ℤ} (htimes : ((ops ++ [op]).filterMap Op.now).Pairwise (· ≤ ·))
    (hnow : op.now = some now) : ∀ before ∈ (ops ++ [op]).filterMap Op.now, before ≤ now := by
  have hlast : [op].filterMap Op.now = [now] := by simp [hnow]
  rw [List.filterMap_append, hlast] at htimes ⊢
  intro before hbefore
  rcases List.mem_append.mp hbefore with hearlier | hsame
  · exact (List.pairwise_append.mp htimes).2.2 before hearlier now List.mem_cons_self
  · exact le_of_eq (List.mem_singleton.mp hsame)

/-- The calendar does not go back, so a day he was seen on is none to come. -/
theorem day_le_of_seenOn {files : Files} {ops : List Op} {newcomer : Str} {came day now : ℤ}
    (hcalendar : Monotone (Clock.localDay : ℤ → ℤ)) (htimes : ∀ before ∈ ops.filterMap Op.now, before ≤ now)
    (h : Happened Files.after files ops (SeenOn newcomer came day)) : day ≤ Clock.localDay now := by
  obtain ⟨before, op, rest, hops, userId, username, accountName, limit, seen, rfl, -, -, rfl⟩ := h
  apply hcalendar
  apply htimes
  rw [hops]
  exact List.mem_filterMap.mpr ⟨_, List.mem_append_right _ List.mem_cons_self, rfl⟩

/-- Another day of his is counted, later than the ones before. -/
theorem Invite.Earned.plays {files : Files} {ops : List Op} {newcomer : Str} {invite : Invite} {came now : ℤ}
    {userId : ℤ} {username accountName : Str} {limit : ℕ} (hcalendar : Monotone (Clock.localDay : ℤ → ℤ))
    (htimes : ((ops ++ [Op.seen userId username accountName limit now]).filterMap Op.now).Pairwise (· ≤ ·))
    (h : invite.Earned files (ops ++ [Op.seen userId username accountName limit now]) newcomer)
    (his : keyFor (files.run ops).state userId username accountName = newcomer)
    (hcame : invite.joined = some came) (hanother : invite.lastDay ≠ Clock.localDay now) :
    { invite with days := invite.days + 1, lastDay := Clock.localDay now }.Earned files
      (ops ++ [Op.seen userId username accountName limit now]) newcomer where
  joined := h.joined
  inviter := h.inviter
  days := by
    have hpast := le_last htimes rfl
    obtain ⟨days, hcount, hapart, hhead, hseen⟩ := h.days
    have hbefore : ∀ day ∈ days, day < Clock.localDay now := by
      cases days with
      | nil => simp
      | cons last days =>
        have hlast : last < Clock.localDay now := by
          obtain ⟨since, -, hthere⟩ := hseen last List.mem_cons_self
          have hle := day_le_of_seenOn hcalendar hpast hthere
          have hne : last ≠ Clock.localDay now := by
            rw [hhead last rfl]
            exact hanother
          omega
        intro day hday
        rcases List.mem_cons.mp hday with rfl | hearlier
        · exact hlast
        · exact ((List.pairwise_cons.mp hapart).1 day hearlier).trans hlast
    refine ⟨Clock.localDay now :: days, ?_, ?_, ?_, ?_⟩
    · rw [hcount, List.length_cons]
      rfl
    · exact List.pairwise_cons.mpr ⟨hbefore, hapart⟩
    · simp
    · intro day hday
      rcases List.mem_cons.mp hday with rfl | hearlier
      · refine ⟨came, hcame, .now ⟨userId, username, accountName, limit, now, rfl, his, ?_, rfl⟩⟩
        exact hpast came (h.joined came hcame)
      · exact hseen day hearlier

/-- He is brought by somebody. -/
theorem Invite.Earned.brought {files : Files} {ops : List Op} {newcomer known : Str} {invite : Invite} {op : Op}
    {came : ℤ} (h : invite.Earned files (ops ++ [op]) newcomer) (hcame : invite.joined = some came)
    (hrecorded : Recorded newcomer known came (files.run ops) op) :
    { invite with inviter := some known }.Earned files (ops ++ [op]) newcomer where
  joined := h.joined
  inviter := by
    intro inviter hinviter
    cases hinviter
    exact ⟨came, hcame, .now hrecorded⟩
  days := h.days

theorem run_earned {files : Files} (hcalendar : Monotone (Clock.localDay : ℤ → ℤ)) (hnobody : NobodyYet files)
    (ops : List Op) (htimes : (ops.filterMap Op.now).Pairwise (· ≤ ·)) (newcomer : Str) :
    (inviteOf (files.run ops).state newcomer).Earned files ops newcomer := by
  induction ops using List.reverseRecOn with
  | nil => exact .start hnobody newcomer
  | append_singleton ops op ih =>
    have hbefore : (ops.filterMap Op.now).Pairwise (· ≤ ·) := by
      rw [List.filterMap_append] at htimes
      exact (List.pairwise_append.mp htimes).1
    have hearned := ih hbefore
    have hmoves := after_invites (files.run ops) op newcomer
    have hrun : files.run (ops ++ [op]) = (files.run ops).after op := by
      rw [Files.run, List.foldl_append]
      rfl
    rw [hrun]
    generalize inviteOf ((files.run ops).after op).state newcomer = invite at hmoves ⊢
    cases hmoves with
    | stays op => exact hearned.later _ rfl rfl rfl rfl
    | seen his joins =>
      rcases joins with rfl | ⟨hnew, rfl⟩
      · exact hearned.later _ rfl rfl rfl rfl
      · exact hearned.comes hnew rfl
    | counted his joins another =>
      rename_i userId username accountName limit now came
      have hcame : ({ inviteOf (files.run ops).state newcomer with joined := some came } : Invite).Earned files
          (ops ++ [Op.seen userId username accountName limit now]) newcomer := by
        rcases joins with hjoined | ⟨hnew, rfl⟩
        · exact hearned.later _ hjoined.symm rfl rfl rfl
        · exact hearned.comes hnew rfl
      exact hcame.plays hcalendar htimes his rfl another
    | named recorded found another joined inTime unnamed =>
      rename_i name known platform now came
      have hlater := hearned.later (.invite newcomer name platform now) rfl rfl rfl rfl
      apply hlater.brought joined
      refine ⟨name, platform, now, rfl, recorded, found, another, joined, ?_, inTime⟩
      exact le_last htimes rfl came (hlater.joined came joined)
    | settled due => exact hearned.later _ rfl rfl rfl rfl

/-- Whoever is recorded as the inviter stays so; an invite that was paid, or refused because the two are one
person, is never paid again; and it is paid only to two players, the other of whom the bot knew and was recorded
within the days after the newcomer came, when he was seen on three days since and the two are not one person. -/
theorem invite_pays_once {files : Files} (hcalendar : Monotone (Clock.localDay : ℤ → ℤ)) (hnobody : NobodyYet files)
    {ops : List Op} (htimes : (ops.filterMap Op.now).Pairwise (· ≤ ·)) (newcomer : Str) :
    (∀ before later inviter, ops = before ++ later → (files.run before).state.invitedBy.find newcomer = some inviter →
      (files.run ops).state.invitedBy.find newcomer = some inviter) ∧
    (∀ before later samePerson reward, ops = before ++ .reward newcomer samePerson :: later →
      (inviteDue (files.run before).state newcomer samePerson).1 = some reward →
      ∀ samePerson', (inviteDue (files.run ops).state newcomer samePerson').1 = none) ∧
    (∀ before later inviter, ops = before ++ .reward newcomer true :: later →
      rewardDue (files.run before).state newcomer = some inviter →
      ∀ samePerson, (inviteDue (files.run ops).state newcomer samePerson).1 = none) ∧
    ∀ samePerson reward, (inviteDue (files.run ops).state newcomer samePerson).1 = some reward →
      samePerson = false ∧ ∃ inviter came, ∃ days : List ℤ,
        (files.run ops).state.invitedBy.find newcomer = some inviter ∧
        Happened Files.after files ops (Recorded newcomer inviter came) ∧
        days.Nodup ∧ 3 ≤ days.length ∧
        ∀ day ∈ days, Happened Files.after files ops (SeenOn newcomer came day) := by
  have hsettled (before later : List Op) (samePerson : Bool) (hops : ops = before ++ .reward newcomer samePerson :: later)
      (hdue : rewardDue (files.run before).state newcomer ≠ none) (samePerson' : Bool) :
      (inviteDue (files.run ops).state newcomer samePerson').1 = none := by
    have hrun : files.run ops = ((files.run before).after (.reward newcomer samePerson)).run later := by
      rw [hops, Files.run, List.foldl_append]
      rfl
    rw [hrun, inviteDue, settled_for_good hdue]
  have hpays (s : ConquisterState) (samePerson : Bool) (reward : InviteReward)
      (hreward : (inviteDue s newcomer samePerson).1 = some reward) :
      samePerson = false ∧ ∃ inviter, rewardDue s newcomer = some inviter := by
    rw [inviteDue] at hreward
    split at hreward
    · cases hreward
    · rename_i inviter hinviter
      cases samePerson with
      | true => cases hreward
      | false => exact ⟨rfl, inviter, hinviter⟩
  refine ⟨?_, ?_, ?_, ?_⟩
  · intro before later inviter hops hinviter
    rw [hops, Files.run, List.foldl_append]
    exact keeps_from inviter_stays later hinviter
  · intro before later samePerson reward hops hreward
    obtain ⟨-, inviter, hinviter⟩ := hpays _ _ _ hreward
    exact hsettled before later samePerson hops (by simp [hinviter])
  · intro before later inviter hops hinviter
    exact hsettled before later true hops (by simp [hinviter])
  · intro samePerson reward hreward
    obtain ⟨hapart, inviter, hinviter⟩ := hpays _ _ _ hreward
    obtain ⟨-, henough, hnamed⟩ := rewardDue_eq_some.mp hinviter
    have hearned := run_earned hcalendar hnobody ops htimes newcomer
    obtain ⟨came, hcame, hrecorded⟩ := hearned.inviter inviter hnamed
    obtain ⟨days, hcount, hapartDays, -, hseen⟩ := hearned.days
    refine ⟨hapart, inviter, came, days, hnamed, hrecorded, ?_, ?_, ?_⟩
    · exact hapartDays.imp (fun hlater => (ne_of_gt hlater))
    · rw [hcount, inviteDaysNeeded] at henough
      exact_mod_cast henough
    · intro day hday
      obtain ⟨since, hsince, hthere⟩ := hseen day hday
      rw [hcame] at hsince
      cases hsince
      exact hthere

end

theorem utc_localDay_monotone : Monotone (@Clock.localDay utc) := fun _ _ h => Int.ediv_le_ediv (by decide) h

/-- Zoe is brought by Bob and plays on three days. -/
def bobBringsZoe : List Op := [
  .seen 2 (utf8 "bob") [] 10 (day 1),
  .seen 0 (utf8 "zoe") [] 10 (day 1),
  .invite (utf8 "irc:zoe") (utf8 "bob") .telegram (day 1),
  .seen 0 (utf8 "zoe") [] 10 (day 2),
  .seen 0 (utf8 "zoe") [] 10 (day 3),
  .reward (utf8 "irc:zoe") false]

theorem invite_pays_once_zoe :
    (inviteDue (@Files.run _ utc {} bobBringsZoe).state (utf8 "irc:zoe") false).1 = none ∧
    ∃ inviter came, ∃ days : List ℤ,
      (@Files.run _ utc {} bobBringsZoe.dropLast).state.invitedBy.find (utf8 "irc:zoe") = some inviter ∧
      Happened (@Files.after _ utc) {} bobBringsZoe.dropLast (Recorded (utf8 "irc:zoe") inviter came) ∧
      days.Nodup ∧ 3 ≤ days.length ∧
      ∀ day ∈ days, Happened (@Files.after _ utc) {} bobBringsZoe.dropLast (@SeenOn utc (utf8 "irc:zoe") came day) := by
  have hnobody : NobodyYet {} := ⟨fun _ => rfl, fun _ => rfl, fun _ => rfl⟩
  have hreward : (inviteDue (@Files.run _ utc {} bobBringsZoe.dropLast).state (utf8 "irc:zoe") false).1 =
      some ⟨utf8 "bob", utf8 "zoe", 1000, 500⟩ := by
    decide +kernel
  have hwhole := @invite_pays_once _ utc {} utc_localDay_monotone hnobody bobBringsZoe (by decide) (utf8 "irc:zoe")
  have hbefore := @invite_pays_once _ utc {} utc_localDay_monotone hnobody bobBringsZoe.dropLast (by decide)
    (utf8 "irc:zoe")
  exact ⟨hwhole.2.1 bobBringsZoe.dropLast [] false _ rfl hreward false, (hbefore.2.2.2 false _ hreward).2⟩

end NorelecBot
