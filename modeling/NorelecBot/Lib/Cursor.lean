import Mathlib.Data.List.Basic
import Mathlib.Algebra.Order.Ring.Int

/-! # A queue read by a cursor

A queue keeps what is put in it until whoever reads it says how far he has read.
He says so as he asks for more, so an answer may be lost, and he may die with an
answer half read; when he starts again he knows nothing, and passes over what he
is offered first. What he then does once, and what he never loses, is counted here.
-/

namespace NorelecBot.Lib.Cursor

variable {α : Type*}

/-- Whoever reads: he is not there, or he is, with or without a word of how far he has read. -/
inductive Reader where
  | down
  | reading (cursor : Option ℤ)
  deriving DecidableEq

/-- What comes of asking for more. -/
inductive Fate where
  /-- The queue does not hear of it. -/
  | unheard
  /-- The queue hears of it, the reader does not hear back. -/
  | unanswered
  | answered
  deriving DecidableEq

inductive Move (α : Type*) where
  | arrive (item : α)
  /-- He starts, and asks what is there. -/
  | start (fate : Fate)
  | ask (fate : Fate)
  /-- He is answered, and dies after that many. -/
  | die (after : ℕ)

structure World (α : Type*) where
  /-- Whatever was put in the queue, in its order. -/
  history : List α := []
  /-- What the queue still keeps. -/
  pending : List α := []
  reader : Reader := .down
  /-- What was done, in the order it was. -/
  done : List α := []
  /-- What was passed over at a start. -/
  passed : List α := []
  /-- How many times he started without being told what was there. -/
  blind : ℕ := 0

variable (id : α → ℤ) (limit : ℕ)

/-- What the queue keeps once it hears how far he has read. -/
def keptFrom (pending : List α) : Option ℤ → List α
  | none => pending
  | some cursor => pending.filter fun item => cursor ≤ id item

/-- How far he has read, once he was given these. -/
def readTo (cursor : Option ℤ) (items : List α) : Option ℤ :=
  match items.getLast? with
  | none => cursor
  | some item => some (id item + 1)

def World.step (world : World α) : Move α → World α
  | .arrive item => { world with history := world.history ++ [item], pending := world.pending ++ [item] }
  | .start .answered =>
    { world with
      reader := .reading (readTo id none (world.pending.take limit))
      passed := world.passed ++ world.pending.take limit }
  | .start _ => { world with reader := .reading none, blind := world.blind + 1 }
  | .ask fate =>
    match world.reader, fate with
    | .down, _ => world
    | .reading _, .unheard => world
    | .reading cursor, .unanswered => { world with pending := keptFrom id world.pending cursor }
    | .reading cursor, .answered =>
      { world with
        pending := keptFrom id world.pending cursor
        reader := .reading (readTo id cursor ((keptFrom id world.pending cursor).take limit))
        done := world.done ++ (keptFrom id world.pending cursor).take limit }
  | .die after =>
    match world.reader with
    | .down => world
    | .reading cursor =>
      { world with
        pending := keptFrom id world.pending cursor
        reader := .down
        done := world.done ++ ((keptFrom id world.pending cursor).take limit).take after }

def World.run (world : World α) (moves : List (Move α)) : World α := moves.foldl (World.step id limit) world

/-- The queue has forgotten the first ones, and the reader is further on, though no further than one answer:
what he is offered next is what he has not come to. -/
structure Sound (world : World α) (forgotten reached : ℕ) : Prop where
  sorted : world.history.Pairwise fun one other => id one < id other
  behind : forgotten ≤ reached
  ahead : reached ≤ world.history.length
  few : reached ≤ forgotten + limit
  kept : world.pending = world.history.drop forgotten
  cursor : ∀ cursor, world.reader = .reading cursor →
    keptFrom id world.pending cursor = world.history.drop reached ∧
      ∀ item, (∀ other ∈ world.history, id other < id item) → ∀ read, cursor = some read → read ≤ id item
  often : ∀ number, (world.done.map id).count number ≤
    world.blind + ((world.history.take reached).map id).count number
  ordered : world.blind = 0 → world.done.Sublist (world.history.take reached)
  dealt : ∀ item ∈ world.history.take reached, item ∈ world.done ∨ item ∈ world.passed

variable {id limit}

theorem sound_empty : Sound id limit ({} : World α) 0 0 := by
  constructor <;> simp

section
variable {items : List α} (hsorted : items.Pairwise fun one other => id one < id other)
include hsorted

/-- Whoever was given a stretch of the queue is offered what comes after it. -/
theorem filter_after {before after : List α} {item : α} (hitems : items = before ++ item :: after) :
    items.filter (fun other => id item + 1 ≤ id other) = after := by
  subst hitems
  obtain ⟨-, hrest, hbefore⟩ := List.pairwise_append.mp hsorted
  obtain ⟨hafter, -⟩ := List.pairwise_cons.mp hrest
  have hfirst : before.filter (fun other => decide (id item + 1 ≤ id other)) = [] := by
    apply List.filter_eq_nil_iff.mpr
    intro other hother
    have hless := hbefore other hother item List.mem_cons_self
    simp
    omega
  have hlast : after.filter (fun other => decide (id item + 1 ≤ id other)) = after := by
    apply List.filter_eq_self.mpr
    intro other hother
    have hless := hafter other hother
    simp
    omega
  have hitself : ¬ decide (id item + 1 ≤ id item) = true := by simp
  rw [List.filter_append, hfirst, List.filter_cons, if_neg hitself, hlast, List.nil_append]

theorem count_le_one (number : ℤ) : (items.map id).count number ≤ 1 := by
  apply List.nodup_iff_count.mp
  rw [List.nodup_iff_pairwise_ne, List.pairwise_map]
  exact hsorted.imp fun hless => hless.ne

end

/-- What he is offered after a stretch, and that he has not read past what is to come. -/
theorem readTo_spec {history : List α} (hsorted : history.Pairwise fun one other => id one < id other)
    {forgotten from' count : ℕ} (hfrom : forgotten ≤ from') {given : List α} (hgiven : given = (history.drop from').take count)
    {cursor : Option ℤ}
    (hcursor : keptFrom id (history.drop forgotten) cursor = history.drop from' ∧
      ∀ item, (∀ other ∈ history, id other < id item) → ∀ read, cursor = some read → read ≤ id item) :
    keptFrom id (history.drop forgotten) (readTo id cursor given) = history.drop (from' + given.length) ∧
      ∀ item, (∀ other ∈ history, id other < id item) → ∀ read, readTo id cursor given = some read → read ≤ id item := by
  rw [readTo]
  cases hlast : given.getLast? with
  | none =>
    rw [List.getLast?_eq_none_iff] at hlast
    simpa [hlast] using hcursor
  | some last =>
    have hthere : last ∈ history := by
      have hmem := List.mem_of_getLast? hlast
      rw [hgiven] at hmem
      exact List.mem_of_mem_drop (List.mem_of_mem_take hmem)
    obtain ⟨first, hfirst⟩ := List.getLast?_eq_some_iff.mp hlast
    constructor
    · have hlength : given.length = first.length + 1 := by simp [hfirst]
      have hprefix : given ++ (history.drop from').drop given.length = history.drop from' := by
        have hpre : given <+: history.drop from' := hgiven ▸ List.take_prefix _ _
        conv_rhs => rw [← List.take_append_drop given.length (history.drop from')]
        rw [← List.prefix_iff_eq_take.mp hpre]
      have hsplit : history.drop forgotten =
          ((history.drop forgotten).take (from' - forgotten) ++ first) ++ last :: (history.drop from').drop given.length := by
        conv_lhs => rw [← List.take_append_drop (from' - forgotten) (history.drop forgotten)]
        rw [List.drop_drop, Nat.add_sub_cancel' hfrom, List.append_assoc]
        congr 1
        rw [← hprefix]
        simp [hfirst]
      rw [keptFrom, filter_after (hsorted.sublist (List.drop_sublist _ _)) hsplit, List.drop_drop]
    · intro item hnew read hread
      obtain rfl := Option.some_inj.mp hread
      have hless := hnew last hthere
      omega

variable {world : World α} {forgotten reached : ℕ}

theorem Sound.arrive (h : Sound id limit world forgotten reached) {item : α}
    (hnew : ∀ other ∈ world.history, id other < id item) :
    Sound id limit (world.step id limit (.arrive item)) forgotten reached := by
  have hahead := h.ahead
  have htake : (world.history ++ [item]).take reached = world.history.take reached := List.take_append_of_le_length hahead
  constructor
  · exact List.pairwise_append.mpr ⟨h.sorted, List.pairwise_singleton _ _, by simpa using hnew⟩
  · exact h.behind
  · change reached ≤ (world.history ++ [item]).length
    simp
    omega
  · exact h.few
  · change world.pending ++ [item] = (world.history ++ [item]).drop forgotten
    rw [h.kept, List.drop_append_of_le_length (h.behind.trans hahead)]
  · intro cursor hreader
    obtain ⟨hkept, hread⟩ := h.cursor cursor hreader
    constructor
    · change keptFrom id (world.pending ++ [item]) cursor = (world.history ++ [item]).drop reached
      rw [List.drop_append_of_le_length hahead, ← hkept]
      cases cursor with
      | none => rfl
      | some read => simp [keptFrom, hread item hnew read rfl]
    · intro later hlater
      exact hread later fun other hother => hlater other (List.mem_append_left _ hother)
  · change ∀ number, (world.done.map id).count number ≤
      world.blind + (((world.history ++ [item]).take reached).map id).count number
    rw [htake]
    exact h.often
  · change world.blind = 0 → world.done.Sublist ((world.history ++ [item]).take reached)
    rw [htake]
    exact h.ordered
  · change ∀ old ∈ (world.history ++ [item]).take reached, old ∈ world.done ∨ old ∈ world.passed
    rw [htake]
    exact h.dealt

/-- Once the queue hears how far he has read, it keeps what he has not come to. -/
theorem Sound.heard (h : Sound id limit world forgotten reached) {cursor : Option ℤ}
    (hreader : world.reader = .reading cursor) :
    Sound id limit { world with pending := keptFrom id world.pending cursor } reached reached := by
  obtain ⟨hkept, hread⟩ := h.cursor cursor hreader
  have hagain : keptFrom id (keptFrom id world.pending cursor) cursor = keptFrom id world.pending cursor := by
    cases cursor <;> simp [keptFrom]
  constructor
  · exact h.sorted
  · exact le_rfl
  · exact h.ahead
  · exact Nat.le_add_right _ _
  · exact hkept
  · intro other hother
    obtain rfl : cursor = other := by simpa [hreader] using hother
    exact ⟨hagain.trans hkept, hread⟩
  · exact h.often
  · exact h.ordered
  · exact h.dealt

/-- He does the next ones, once each, and if he is still there he has read up to the last. -/
theorem Sound.does (h : Sound id limit world forgotten reached) {cursor : Option ℤ}
    (hreader : world.reader = .reading cursor) {count : ℕ} (hcount : count ≤ limit) {reader : Reader}
    (hnext : ∀ later, reader = .reading later → later = readTo id cursor ((world.history.drop reached).take count)) :
    Sound id limit
      { world with
        pending := keptFrom id world.pending cursor
        reader := reader
        done := world.done ++ (world.history.drop reached).take count }
      reached (reached + ((world.history.drop reached).take count).length) := by
  have hahead := h.ahead
  have hheard := h.heard hreader
  have htake : world.history.take (reached + ((world.history.drop reached).take count).length) =
      world.history.take reached ++ (world.history.drop reached).take count := by
    rw [List.take_add, ← List.prefix_iff_eq_take.mp (List.take_prefix _ _)]
  constructor
  · exact h.sorted
  · exact Nat.le_add_right _ _
  · simp
    omega
  · simp
    omega
  · exact hheard.kept
  · intro later hlater
    obtain rfl := hnext later hlater
    have hcursor := hheard.cursor cursor hreader
    rw [hheard.kept] at hcursor
    have hread := readTo_spec h.sorted (le_refl reached) (@rfl _ ((world.history.drop reached).take count)) hcursor
    change keptFrom id (keptFrom id world.pending cursor) _ = _ ∧ _
    rw [(h.cursor cursor hreader).1]
    exact hread
  · intro number
    have hbefore := h.often number
    change ((world.done ++ (world.history.drop reached).take count).map id).count number ≤ world.blind + _
    rw [htake, List.map_append, List.map_append, List.count_append, List.count_append]
    omega
  · intro hblind
    rw [htake]
    exact (h.ordered hblind).append (List.Sublist.refl _)
  · intro item hitem
    rw [htake, List.mem_append] at hitem
    rw [List.mem_append]
    rcases hitem with hold | hnew
    · exact (h.dealt item hold).imp_left .inl
    · exact .inl (.inr hnew)

theorem Sound.answered (h : Sound id limit world forgotten reached) {cursor : Option ℤ}
    (hreader : world.reader = .reading cursor) :
    ∃ further, Sound id limit (world.step id limit (.ask .answered)) reached further := by
  have hdoes := h.does hreader le_rfl fun later hlater => (Reader.reading.inj hlater).symm
  rw [← (h.cursor cursor hreader).1] at hdoes
  simp only [World.step, hreader]
  exact ⟨_, hdoes⟩

theorem Sound.dies (h : Sound id limit world forgotten reached) {cursor : Option ℤ}
    (hreader : world.reader = .reading cursor) (after : ℕ) :
    ∃ further, Sound id limit (world.step id limit (.die after)) reached further := by
  have hdoes := @Sound.does _ _ _ _ _ _ h _ hreader _ (min_le_right after limit) .down (by simp)
  rw [← List.take_take, ← (h.cursor cursor hreader).1] at hdoes
  simp only [World.step, hreader]
  exact ⟨_, hdoes⟩

/-- He passes over what he is offered as he starts, which is all he may have done already. -/
theorem Sound.starts (h : Sound id limit world forgotten reached) :
    ∃ further, Sound id limit (world.step id limit (.start .answered)) forgotten further := by
  have hahead := h.ahead
  have hfew := h.few
  have hoffered : world.pending.take limit = (world.history.drop forgotten).take limit := by rw [h.kept]
  have hlength : reached ≤ forgotten + (world.pending.take limit).length := by
    rw [hoffered]
    simp
    omega
  have htake : world.history.take (forgotten + (world.pending.take limit).length) =
      world.history.take forgotten ++ world.pending.take limit := by
    rw [List.take_add, hoffered, ← List.prefix_iff_eq_take.mp (List.take_prefix _ _)]
  have hnone : keptFrom id (world.history.drop forgotten) none = world.history.drop forgotten ∧
      ∀ item, (∀ other ∈ world.history, id other < id item) → ∀ read, (none : Option ℤ) = some read → read ≤ id item := by
    simp [keptFrom]
  refine ⟨forgotten + (world.pending.take limit).length, ?_⟩
  constructor
  · exact h.sorted
  · exact Nat.le_add_right _ _
  · have hbehind := h.behind
    change forgotten + (world.pending.take limit).length ≤ world.history.length
    rw [hoffered]
    simp
    omega
  · simp
  · exact h.kept
  · intro cursor hcursor
    obtain rfl := Reader.reading.inj hcursor
    have hnext := readTo_spec h.sorted (le_refl forgotten) hoffered hnone
    rw [← h.kept] at hnext
    exact hnext
  · intro number
    apply (h.often number).trans
    apply Nat.add_le_add_left
    exact ((List.take_sublist_take_left hlength).map id).count_le number
  · intro hblind
    exact (h.ordered hblind).trans (List.take_sublist_take_left hlength)
  · intro item hitem
    change item ∈ world.history.take (forgotten + (world.pending.take limit).length) at hitem
    change item ∈ world.done ∨ item ∈ world.passed ++ world.pending.take limit
    rw [htake, List.mem_append] at hitem
    rw [List.mem_append]
    rcases hitem with hold | hoffered
    · have hbefore := (List.take_sublist_take_left h.behind).subset hold
      exact (h.dealt item hbefore).imp_right .inl
    · exact .inr (.inr hoffered)

/-- Told nothing, he may do again whatever the queue still keeps. -/
theorem Sound.startsBlind (h : Sound id limit world forgotten reached) :
    Sound id limit { world with reader := .reading none, blind := world.blind + 1 } forgotten forgotten := by
  constructor
  · exact h.sorted
  · exact le_rfl
  · exact h.behind.trans h.ahead
  · exact Nat.le_add_right _ _
  · exact h.kept
  · intro cursor hcursor
    obtain rfl := Reader.reading.inj hcursor
    exact ⟨h.kept, by simp⟩
  · intro number
    have honce := count_le_one (h.sorted.sublist (List.take_sublist reached _)) number
    have hbefore := h.often number
    change (world.done.map id).count number ≤ world.blind + 1 + _
    omega
  · intro hblind
    exact absurd hblind (Nat.succ_ne_zero _)
  · intro item hitem
    exact h.dealt item ((List.take_sublist_take_left h.behind).subset hitem)

/-- What comes is numbered after all that came before. -/
def Arrives (id : α → ℤ) (world : World α) : Move α → Prop
  | .arrive item => ∀ other ∈ world.history, id other < id item
  | _ => True

theorem Sound.step (h : Sound id limit world forgotten reached) {move : Move α} (hmove : Arrives id world move) :
    ∃ further on, Sound id limit (world.step id limit move) further on := by
  cases move with
  | arrive item => exact ⟨_, _, h.arrive hmove⟩
  | start fate =>
    cases fate with
    | answered => exact ⟨_, h.starts⟩
    | unheard | unanswered => exact ⟨_, _, h.startsBlind⟩
  | ask fate =>
    cases hreader : world.reader with
    | down => exact ⟨_, _, by simpa only [World.step, hreader] using h⟩
    | reading cursor =>
      cases fate with
      | unheard => exact ⟨_, _, by simpa only [World.step, hreader] using h⟩
      | unanswered => exact ⟨_, _, by simpa only [World.step, hreader] using h.heard hreader⟩
      | answered => exact ⟨_, h.answered hreader⟩
  | die after =>
    cases hreader : world.reader with
    | down => exact ⟨_, _, by simpa only [World.step, hreader] using h⟩
    | reading cursor => exact ⟨_, h.dies hreader after⟩

/-- Whatever comes is numbered after all that came before. -/
def InOrder (id : α → ℤ) (limit : ℕ) : World α → List (Move α) → Prop
  | _, [] => True
  | world, move :: moves => Arrives id world move ∧ InOrder id limit (world.step id limit move) moves

theorem Sound.run (h : Sound id limit world forgotten reached) {moves : List (Move α)}
    (hmoves : InOrder id limit world moves) :
    ∃ further on, Sound id limit (world.run id limit moves) further on := by
  induction moves generalizing world forgotten reached with
  | nil => exact ⟨_, _, h⟩
  | cons move moves ih =>
    obtain ⟨further, on, hstep⟩ := h.step hmoves.1
    exact ih hstep hmoves.2

/-- What is put in the queue along the way. -/
def arrivals : List (Move α) → List α
  | [] => []
  | .arrive item :: moves => item :: arrivals moves
  | _ :: moves => arrivals moves

theorem history_step (world : World α) (move : Move α) :
    (world.step id limit move).history = world.history ++ arrivals [move] := by
  cases move with
  | arrive item => rfl
  | start fate => cases fate <;> simp [World.step, arrivals]
  | ask fate => cases hreader : world.reader <;> cases fate <;> simp [World.step, arrivals, hreader]
  | die after => cases hreader : world.reader <;> simp [World.step, arrivals, hreader]

theorem arrivals_cons (move : Move α) (moves : List (Move α)) : arrivals (move :: moves) = arrivals [move] ++ arrivals moves := by
  cases move <;> rfl

theorem history_run (world : World α) (moves : List (Move α)) :
    (world.run id limit moves).history = world.history ++ arrivals moves := by
  induction moves generalizing world with
  | nil => simp [World.run, arrivals]
  | cons move moves ih =>
    have hrest := ih (world.step id limit move)
    rw [history_step] at hrest
    rw [arrivals_cons, ← List.append_assoc, ← hrest]
    rfl

theorem inOrder_of_sorted {moves : List (Move α)}
    (h : (world.history ++ arrivals moves).Pairwise fun one other => id one < id other) : InOrder id limit world moves := by
  induction moves generalizing world with
  | nil => trivial
  | cons move moves ih =>
    rw [arrivals_cons, ← List.append_assoc] at h
    constructor
    · cases move with
      | arrive item =>
        intro other hother
        have hbefore := (List.pairwise_append.mp h).1
        exact (List.pairwise_append.mp hbefore).2.2 other hother item List.mem_cons_self
      | _ => trivial
    · apply ih
      rw [history_step]
      exact h

def offered (id : α → ℤ) (world : World α) : Option (List α) :=
  match world.reader with
  | .down => none
  | .reading cursor => some (keptFrom id world.pending cursor)

/-- Nothing is done more often than once, and once again for each time he started blind. -/
theorem Sound.count_le (h : Sound id limit world forgotten reached) (number : ℤ) :
    (world.done.map id).count number ≤ world.blind + 1 := by
  have honce := count_le_one (h.sorted.sublist (List.take_sublist reached _)) number
  have hoften := h.often number
  omega

theorem Sound.in_order (h : Sound id limit world forgotten reached) (hblind : world.blind = 0) :
    world.done.Sublist world.history :=
  (h.ordered hblind).trans (List.take_sublist _ _)

/-- Nothing is lost: it was done, it was passed over at a start, or it is still there for him. -/
theorem Sound.no_loss (h : Sound id limit world forgotten reached) {item : α} (hitem : item ∈ world.history) :
    item ∈ world.done ∨ item ∈ world.passed ∨
      (item ∈ world.pending ∧ ∀ items, offered id world = some items → item ∈ items) := by
  rw [← List.take_append_drop reached world.history, List.mem_append] at hitem
  rcases hitem with hdealt | hahead
  · exact (h.dealt item hdealt).imp_right .inl
  · refine .inr (.inr ⟨?_, ?_⟩)
    · rw [h.kept]
      exact (List.drop_sublist_drop_left _ h.behind).subset hahead
    · intro items hitems
      cases hreader : world.reader with
      | down => simp [offered, hreader] at hitems
      | reading cursor =>
        simp only [offered, hreader, Option.some_inj] at hitems
        rw [← hitems, (h.cursor cursor hreader).1]
        exact hahead

end NorelecBot.Lib.Cursor
