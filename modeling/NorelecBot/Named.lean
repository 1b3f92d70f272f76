import NorelecBot.HoldPaid
import NorelecBot.Isolation
import NorelecBot.Onward
import NorelecBot.Routines

/-! # Nobody without a name

An empty key is how the code says that somebody was not seen. No account leads
to one, and nobody is filed under it, from one message to the next.
-/

namespace NorelecBot
open Lib

structure AllNamed (state : ConquisterState) : Prop where
  accounts : ∀ account key, state.accounts.find account = some key → key ≠ []
  ids : [] ∉ state.telegramIds.keys
  seat : ∀ hold, state.current = some hold → hold.username ≠ []

section
variable {s t : ConquisterState} {userId : ℤ} {username accountName : Str}

theorem platformKey_ne_nil (userId : ℤ) (username accountName : Str) : platformKey userId username accountName ≠ [] :=
  List.ne_nil_of_mem (colon_mem_platformKey userId username accountName)

/-- A historical name is not empty either. -/
theorem AllNamed.legacyCandidate (h : AllNamed s) (hname : username ≠ []) {candidate : Str}
    (hcandidate : legacyCandidate s userId username = some candidate) : candidate ≠ [] := by
  rw [NorelecBot.legacyCandidate] at hcandidate
  split at hcandidate
  · split at hcandidate
    · obtain ⟨hold, hhold, rfl⟩ := Option.map_eq_some_iff.mp hcandidate
      exact h.seat hold (Option.eq_some_of_filter_eq_some hhold)
    · rename_i name hkeys
      cases hcandidate
      have hmem : candidate ∈ (s.telegramIds.filter fun _ id => id = userId).keys := by simp [hkeys]
      obtain ⟨id, hid⟩ := OrderedMap.mem_keys.mp hmem
      rw [OrderedMap.find_filter] at hid
      rintro rfl
      exact h.ids (OrderedMap.mem_keys.mpr ⟨id, Option.eq_some_of_filter_eq_some hid⟩)
    · cases hcandidate
  · have hspelled := knownPlayer_spelling (Option.eq_some_of_filter_eq_some hcandidate)
    rw [Text.equalsIgnoreCase_iff] at hspelled
    rintro rfl
    exact hname (List.map_eq_nil_iff.mp hspelled.symm)

theorem AllNamed.keyFor (h : AllNamed s) (hname : username ≠ []) : keyFor s userId username accountName ≠ [] := by
  rw [NorelecBot.keyFor]
  split
  · rename_i key hkey
    exact h.accounts _ key hkey
  · cases hlegacy : legacyOwner s userId username accountName with
    | none => exact platformKey_ne_nil userId username accountName
    | some candidate => exact h.legacyCandidate hname (Option.eq_some_of_filter_eq_some hlegacy)

/-- Only the accounts, the ids and the place matter. -/
theorem AllNamed.congr (h : AllNamed s) (haccounts : t.accounts = s.accounts)
    (hids : ∀ key ∈ t.telegramIds.keys, key ∈ s.telegramIds.keys ∨ key ≠ [])
    (hseat : ∀ hold, t.current = some hold → hold.username ≠ [] ∨
      ∃ before, s.current = some before ∧ before.username = hold.username) : AllNamed t where
  accounts := haccounts ▸ h.accounts
  ids := fun hnil => (hids [] hnil).elim h.ids (absurd rfl)
  seat := by
    intro hold hhold
    rcases hseat hold hhold with hnamed | ⟨before, hbefore, hsame⟩
    · exact hnamed
    · rw [← hsame]
      exact h.seat before hbefore

section
variable [SlotCodec] [Clock]

theorem playerSeen_current (s : ConquisterState) (userId : ℤ) (username accountName : Str) (limit : ℕ) (now : ℤ) :
    (playerSeen s userId username accountName limit now).2.current =
      (introduce s userId username accountName now).current := by
  rw [← welcome_current (introduce s userId username accountName now) (keyFor s userId username accountName) limit]
  simp only [playerSeen, countDay]
  split_ifs <;> rfl

theorem AllNamed.playerSeen (h : AllNamed s) (hname : username ≠ []) (limit : ℕ) (now : ℤ) :
    AllNamed (playerSeen s userId username accountName limit now).2 := by
  have hkey : NorelecBot.keyFor s userId username accountName ≠ [] := h.keyFor hname
  have hregister := playerSeen_register s userId username accountName limit now
  obtain ⟨haccounts, -, -, hcurrent, hids⟩ := introduce_fields s userId username accountName now
  refine ⟨?_, ?_, ?_⟩
  · have hbound := (congrArg Register.accounts hregister).trans haccounts
    rw [show (NorelecBot.playerSeen s userId username accountName limit now).2.accounts = _ from hbound, bindAccount]
    split
    · exact h.accounts
    · intro account key haccount
      rw [OrderedMap.find_set] at haccount
      split at haccount
      · cases haccount
        exact hkey
      · exact h.accounts account key haccount
  · rw [show (NorelecBot.playerSeen s userId username accountName limit now).2.telegramIds = _ from
      congrArg Register.telegramIds hregister]
    intro hnil
    rcases hids [] hnil with hold | hnew
    · exact h.ids hold
    · exact hkey hnew.symm
  · rw [playerSeen_current, hcurrent]
    exact h.seat

omit [Clock] in
theorem AllNamed.playerLink {otherName : Str} {status : LinkStatus} (h : AllNamed s)
    (hlink : playerLink s userId username otherName accountName = .ok (status, t)) : AllNamed t := by
  by_cases hlinked : status = .linked
  · subst hlinked
    obtain ⟨theirs, mineKey, otherKey, -, hmine, htheirs, -, -, rfl⟩ := playerLink_linked hlink
    have hkept : keptKey s (mineKey, otherKey) ≠ [] := by
      rw [keptKey]
      split
      · exact h.accounts _ _ htheirs
      · exact h.accounts _ _ hmine
    refine ⟨?_, ?_, h.seat⟩
    · intro account key haccount
      obtain ⟨before, hbefore, hkey⟩ := find_redirect haccount
      rcases redirect_cases (droppedKey s (mineKey, otherKey)) (keptKey s (mineKey, otherKey)) before with hsame | ⟨-, hmoved⟩
      · rw [← hkey, hsame]
        exact h.accounts account before hbefore
      · rw [← hkey, hmoved]
        exact hkept
    · intro hnil
      rcases mem_keys_mergeTelegram hnil with hold | hnew
      · exact h.ids hold
      · exact hkept hnew.symm
  · obtain ⟨requests, rfl⟩ := playerLink_unlinked hlink hlinked
    exact h.congr rfl (fun _ hkey => .inl hkey) fun hold hhold => .inr ⟨hold, hhold, rfl⟩

end

end

/-- Whoever is seen, comes for the place or sets off has a name, by which he is filed. -/
def Op.named : Op → Prop
  | .seen _ username .. => username ≠ []
  | .claim _ username .. => username ≠ []
  | .raidStart _ username .. => username ≠ []
  | _ => True

section
variable [SlotCodec]

omit [SlotCodec] in
theorem Stands.seated {s t : ConquisterState} (h : Stands s t) {hold : Holder} (hhold : t.current = some hold) :
    ∃ before, s.current = some before ∧ before.username = hold.username := by
  rcases h with hnone | hsame
  · rw [hnone] at hhold
    cases hhold
  · rw [hhold, Option.map_some, eq_comm, Option.map_eq_some_iff] at hsame
    obtain ⟨before, hbefore, haccount⟩ := hsame
    have hname : before.account.username = hold.account.username := by rw [haccount]
    exact ⟨before, hbefore, hname⟩

/-- Whoever holds the place held it, or has just come for it. -/
theorem step_seated [Clock] {files files' : Files} {op : Op} {reply : Reply} (h : step files op = .ok (reply, files'))
    {hold : Holder} (hhold : files'.state.current = some hold) :
    (∃ before, files.state.current = some before ∧ before.username = hold.username) ∨
      ∃ userId now rules draws, op = .claim userId hold.username now rules draws := by
  have huntended (hop : op.Untended) :
      ∃ before, files.state.current = some before ∧ before.username = hold.username := by
    obtain ⟨receipt, hpassage, -, htended⟩ := step_passage h
    exact (hpassage.stands (htended hop)).seated hhold
  cases op with
  | claim userId username now rules draws =>
    obtain ⟨result, hclaim, -, -⟩ := Files.only_eq_ok h
    rcases conquisterClaim_seats hclaim hold hhold with hown | hstood
    · rw [← hown]
      exact .inr ⟨userId, now, rules, draws, rfl⟩
    · exact .inl hstood
  | burn player emoji now rules destroy draws =>
    obtain ⟨result, hburn, -, -⟩ := Files.only_eq_ok h
    left
    rcases furnitureBurn_hold hburn with ⟨-, hsame⟩ | ⟨-, hnone | ⟨landed, hstands, hbolts⟩⟩
    · rw [hsame] at hhold
      exact ⟨hold, hhold, rfl⟩
    · rw [hnone] at hhold
      cases hhold
    · obtain ⟨current, hafter, hseated⟩ := loseBolts_current hbolts
      rw [hafter] at hhold
      obtain ⟨there, hthere, hname⟩ := hseated hold hhold
      obtain ⟨before, hbefore, hsame⟩ := hstands.seated hthere
      exact ⟨before, hbefore, hsame.trans hname⟩
  | _ => exact .inl (huntended trivial)

omit [SlotCodec] in
theorem remembers_accounts (op : Op) (s : ConquisterState) : (op.remembers s).accounts = s.accounts := by
  have hknown (userId : ℤ) (username : Str) : (rememberPlatform s username userId).accounts = s.accounts := by
    rw [rememberPlatform, rememberIrc, rememberTelegram]
    split_ifs <;> rfl
  cases op with
  | claim userId username now rules draws => exact hknown userId username
  | raidStart userId username now rules errand draws => exact hknown userId username
  | _ => rfl

omit [SlotCodec] in
theorem mem_ids_remembers {op : Op} {s : ConquisterState} {key : Str} (hop : op.named)
    (h : key ∈ (op.remembers s).telegramIds.keys) : key ∈ s.telegramIds.keys ∨ key ≠ [] := by
  have hknown {userId : ℤ} {username : Str} (hname : username ≠ [])
      (hkey : key ∈ (rememberPlatform s username userId).telegramIds.keys) : key ∈ s.telegramIds.keys ∨ key ≠ [] := by
    rw [rememberPlatform, rememberIrc, rememberTelegram] at hkey
    split_ifs at hkey
    · exact .inl hkey
    · exact .inl hkey
    · rcases OrderedMap.mem_keys_set.mp hkey with rfl | hold
      · exact .inr hname
      · exact .inl hold
    · exact .inl hkey
  cases op with
  | claim userId username now rules draws => exact hknown hop h
  | raidStart userId username now rules errand draws => exact hknown hop h
  | _ => exact .inl h

theorem step_named [Clock] {files files' : Files} {op : Op} {reply : Reply} (hs : AllNamed files.state) (hop : op.named)
    (h : step files op = .ok (reply, files')) : AllNamed files'.state := by
  have hother (hregisters : op.registers = false) : AllNamed files'.state := by
    have hregister := (step_goes h).register hregisters
    apply hs.congr ((congrArg Register.accounts hregister).trans (remembers_accounts op files.state))
    · intro key hkey
      rw [show files'.state.telegramIds = _ from congrArg Register.telegramIds hregister] at hkey
      exact mem_ids_remembers hop hkey
    · intro hold hhold
      rcases step_seated h hhold with hstood | ⟨userId, now, rules, draws, rfl⟩
      · exact .inr hstood
      · exact .inl hop
  cases op with
  | seen userId username accountName furnitureLimit now =>
    cases h
    exact hs.playerSeen hop furnitureLimit now
  | link userId username otherName accountName =>
    obtain ⟨status, hlink, -, -⟩ := Files.only_eq_ok h
    exact hs.playerLink hlink
  | _ => exact hother rfl

end

section
variable [SlotCodec] [Clock]

def Naming (before after : Desk) : Prop := AllNamed before.files.state → AllNamed after.files.state

omit [SlotCodec] [Clock] in
theorem Naming.of_same {before after : Desk} (hfiles : after.files = before.files) : Naming before after := by
  rw [Naming, hfiles]
  exact id

omit [SlotCodec] [Clock] in
theorem naming_preorder : IsPreorder Desk Naming where
  refl := fun _ => id
  trans := by
    intro first second third h hnext hs
    exact hnext (h hs)

theorem ask_naming (moment : Moment) {op : Op} (hop : op.named) : (ask moment op).Within Naming := by
  intro desk hs
  rcases ask_cases moment op desk with hask | ⟨reply, files, hstep, hask⟩
  · rw [hask]
    exact hs
  · rw [hask]
    exact step_named hs hop hstep

theorem rememberSender_naming (context : CommandContext) (moment : Moment) :
    (rememberSender context moment).Within Naming := by
  have := naming_preorder
  by_cases hname : context.username = []
  · rw [rememberSender, if_pos hname]
    exact Act.within_pure ()
  · exact remember_of_ask (ask_naming moment hname) fun _ _ => .of_same rfl

theorem naming_routine (context : CommandContext) (moment : Moment) : Routine context moment Naming where
  preorder := naming_preorder
  consult _ _ := .of_same rfl
  remember := rememberSender_naming context moment
  tellBlocked _ _ _ := .of_same rfl
  ask op hop := by
    apply ask_naming moment
    cases op with
    | seen => cases hop
    | claim => cases hop
    | raidStart => cases hop
    | _ => trivial
  unblock _ _ := .of_same rfl

/-- Once somebody was seen, his account leads to his key. -/
theorem accounts_seenState (context : CommandContext) (moment : Moment) (state : ConquisterState) :
    (seenState context moment state).accounts.find (platformKey context.userId context.username context.accountName) =
      some (senderKey context state) := by
  have haccounts : (seenState context moment state).accounts =
      (bindAccount state context.userId context.username context.accountName).accounts := by
    have hregister := playerSeen_register state context.userId context.username context.accountName
      (if context.config.starterBalloon then context.config.furnitureLimit else 0)
      (if context.config.newcomers then moment.now else 0)
    exact (congrArg Register.accounts hregister).trans (introduce_fields state _ _ _ _).1
  rw [haccounts, bindAccount]
  cases hfiled : state.accounts.find (platformKey context.userId context.username context.accountName) with
  | some bound =>
    rw [Option.isSome_some, if_pos rfl, hfiled, senderKey, keyFor, hfiled]
  | none =>
    rw [Option.isSome_none, if_neg Bool.false_ne_true]
    exact OrderedMap.find_set_self _ _ _

theorem message_naming (context : CommandContext) (moment : Moment) (text : Str) :
    (commandDispatch context moment text).Within Naming := by
  have hway (desk : Desk) (op : Op) (hknown : context.username ≠ [] → AllNamed desk.files.state → desk.bound ≠ [])
      (hname : context.username ≠ []) (hop : op.onHisWay desk.bound) : Naming desk (ask moment op desk).2 := by
    intro hs
    apply ask_naming moment _ desk hs
    cases op with
    | claim userId username now rules draws =>
      cases hop
      exact hknown hname hs
    | raidStart userId username now rules errand draws =>
      cases hop
      exact hknown hname hs
    | _ => cases hop
  apply @Routine.message _ _ _ _ _ (naming_routine context moment)
    (fun files bound => context.username ≠ [] → AllNamed files.state → bound ≠ []) hway
  intro desk desk' hrun hname hs
  cases hopen : moment.fails desk.opened with
  | true =>
    rw [rememberSender_failed hname hopen] at hrun
    cases hrun
  | false =>
    rw [rememberSender_ok hname hopen] at hrun
    cases hrun
    exact hs.accounts _ _ (accounts_seenState context moment desk.files.state)

theorem after_named {bot : Bot} (h : AllNamed bot.files.state) (event : Event) : AllNamed (bot.after event).files.state := by
  have hop {op : Op} (hop : op.named) : AllNamed (bot.files.after op).state := by
    cases hstep : step bot.files op with
    | error failure =>
      rw [Files.after, hstep]
      exact h
    | ok result =>
      obtain ⟨reply, files'⟩ := result
      rw [Files.after_eq hstep]
      exact step_named h hop hstep
  cases event with
  | message message => exact message_naming message.context message.moment message.text bot.desk h
  | raidDue now rules draws => exact hop trivial
  | handOut furnitureLimit => exact hop trivial
  | sortOut => exact hop trivial
  | block player until' => exact h

/-- Whatever is heard, nobody is filed without a name. -/
theorem run_named {bot : Bot} (h : AllNamed bot.files.state) (events : List Event) :
    AllNamed (bot.run events).files.state := by
  induction events generalizing bot with
  | nil => exact h
  | cons event events ih => exact ih (after_named h event)

end

end NorelecBot
