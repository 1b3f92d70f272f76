import NorelecBot.Telegram
import NorelecBot.Lib.Cursor

/-! # The poller, one update after another

The poller asks for what came after the last update it saw, and goes through what it
is given one by one. As it starts, it passes over what it is given first. Of Telegram
itself only what it promises is known: an update waits there until one after it is
asked for.
-/

namespace NorelecBot
open Lib

/-- The updates of an answer that says it is good. -/
def updatesArray (root : Option Json) : Option (List Json) :=
  match findMember root "ok", findMember root "result" with
  | some (.bool true), some (.arr updates) => some updates
  | _, _ => none

def advanceOffset (offset : ℤ) (update : Json) : ℤ :=
  match integerMember (some update) "update_id" with
  | some number => number + 1
  | none => offset

/-- The offset the poller starts with: what was there before is not answered. -/
def backlogOffset (root : Option Json) : ℤ :=
  match updatesArray root with
  | none => -1
  | some updates => (updates.getLast?).elim (-1) (advanceOffset (-1))

/-- One answer: the updates gone through, and the offset after them. -/
def pollRound (offset : ℤ) (root : Option Json) : List Json × ℤ :=
  match updatesArray root with
  | none => ([], offset)
  | some updates => (updates, updates.foldl advanceOffset offset)

structure Update where
  json : Json
  number : ℤ
  numbered : integerMember (some json) "update_id" = some number
  positive : 0 < number

/-- Telegram, as far as the poller sees it: what comes in, and what is answered to a request for updates, with
or without an offset. -/
structure Service (σ : Type*) where
  receive : σ → Update → σ
  updates : σ → Option ℤ → Json × σ

section
variable {σ : Type*} (service : Service σ)

/-- What the service promises: whatever comes in waits until an offset after it is asked for, and an answer is
good and holds the earliest of those that wait, no more than `limit`. -/
structure Service.Keeps (fresh : σ) (waiting : σ → List Update) (limit : ℕ) : Prop where
  fresh : waiting fresh = []
  receives : ∀ telegram update, waiting (service.receive telegram update) = waiting telegram ++ [update]
  forgets : ∀ telegram offset, waiting (service.updates telegram offset).2 =
    (waiting telegram).filter fun update => offset.all fun from' => from' ≤ update.number
  good : ∀ telegram offset, (service.updates telegram offset).1.find (utf8 "ok") = some (.bool true)
  answers : ∀ telegram offset, (service.updates telegram offset).1.find (utf8 "result") =
    some (.arr (((waiting (service.updates telegram offset).2).take limit).map Update.json))

def offsetField (offset : ℤ) : Option ℤ := if offset ≥ 0 then some offset else none

/-- A request and what comes back of it, if anything. -/
def getUpdates (fate : Cursor.Fate) (telegram : σ) (offset : ℤ) : Option Json × σ :=
  match fate with
  | .unheard => (none, telegram)
  | .unanswered => (none, (service.updates telegram (offsetField offset)).2)
  | .answered => (some (service.updates telegram (offsetField offset)).1, (service.updates telegram (offsetField offset)).2)

structure Polling (σ : Type*) where
  telegram : σ
  /-- None while the poller is down. -/
  offset : Option ℤ := none
  /-- The updates gone through, one after another. -/
  processed : List Json := []
  /-- The updates passed over as it started. -/
  passed : List Json := []
  /-- How many times it started without an answer. -/
  blind : ℕ := 0

def Polling.step (polling : Polling σ) : Cursor.Move Update → Polling σ
  | .arrive update => { polling with telegram := service.receive polling.telegram update }
  | .start fate =>
    match getUpdates service fate polling.telegram (-1) with
    | (root, telegram) =>
      { polling with
        telegram := telegram
        offset := some (backlogOffset root)
        passed := polling.passed ++ (updatesArray root).getD []
        blind := polling.blind + if root.isNone then 1 else 0 }
  | .ask fate =>
    match polling.offset with
    | none => polling
    | some offset =>
      match getUpdates service fate polling.telegram offset with
      | (root, telegram) =>
        { polling with
          telegram := telegram
          offset := some (pollRound offset root).2
          processed := polling.processed ++ (pollRound offset root).1 }
  | .die after =>
    match polling.offset with
    | none => polling
    | some offset =>
      match getUpdates service .answered polling.telegram offset with
      | (root, telegram) =>
        { polling with
          telegram := telegram
          offset := none
          processed := polling.processed ++ (pollRound offset root).1.take after }

def Polling.run (polling : Polling σ) (moves : List (Cursor.Move Update)) : Polling σ :=
  moves.foldl (Polling.step service) polling

end

theorem advanceOffset_json (offset : ℤ) (update : Update) : advanceOffset offset update.json = update.number + 1 := by
  rw [advanceOffset, update.numbered]

def offsetOf (cursor : Option ℤ) : ℤ := cursor.getD (-1)

theorem readTo_offset (cursor : Option ℤ) (updates : List Update) :
    (updates.map Update.json).foldl advanceOffset (offsetOf cursor) =
      offsetOf (Cursor.readTo Update.number cursor updates) := by
  rw [Cursor.readTo]
  cases hlast : updates.getLast? with
  | none => simp [List.getLast?_eq_none_iff.mp hlast]
  | some last =>
    obtain ⟨first, rfl⟩ := List.getLast?_eq_some_iff.mp hlast
    simp [advanceOffset_json, offsetOf]

/-- A cursor the poller can stand for: it holds no number below zero. -/
def Sent (cursor : Option ℤ) : Prop := ∀ read, cursor = some read → 0 ≤ read

theorem sent_none : Sent none := by simp [Sent]

theorem offsetField_offsetOf {cursor : Option ℤ} (h : Sent cursor) : offsetField (offsetOf cursor) = cursor := by
  cases cursor with
  | none => rfl
  | some read => exact if_pos (h read rfl)

theorem Sent.readTo {cursor : Option ℤ} (h : Sent cursor) (updates : List Update) :
    Sent (Cursor.readTo Update.number cursor updates) := by
  intro read hread
  rw [Cursor.readTo] at hread
  cases hlast : updates.getLast? with
  | none =>
    rw [hlast] at hread
    exact h read hread
  | some last =>
    rw [hlast] at hread
    have hpositive := last.positive
    obtain rfl := Option.some_inj.mp hread
    omega

section
variable {root : Option Json} {updates : List Update}

theorem backlogOffset_updates (h : updatesArray root = some (updates.map Update.json)) :
    backlogOffset root = offsetOf (Cursor.readTo Update.number none updates) := by
  rw [backlogOffset, h, Cursor.readTo]
  cases hlast : updates.getLast? <;> simp [hlast, advanceOffset_json, offsetOf]

theorem pollRound_updates (h : updatesArray root = some (updates.map Update.json)) (cursor : Option ℤ) :
    pollRound (offsetOf cursor) root = (updates.map Update.json, offsetOf (Cursor.readTo Update.number cursor updates)) := by
  rw [pollRound, h]
  simp [readTo_offset]

end

section
variable {σ : Type*} {service : Service σ} {fresh : σ} {waiting : σ → List Update} {limit : ℕ}
  (hkeeps : service.Keeps fresh waiting limit)
include hkeeps

theorem Service.Keeps.waiting_updates (telegram : σ) (cursor : Option ℤ) :
    waiting (service.updates telegram cursor).2 = Cursor.keptFrom Update.number (waiting telegram) cursor := by
  rw [hkeeps.forgets]
  cases cursor with
  | none => simp [Cursor.keptFrom]
  | some read => simp [Cursor.keptFrom]

/-- The request that goes through. -/
theorem Service.Keeps.getUpdates (telegram : σ) {cursor : Option ℤ} (h : Sent cursor) :
    let (root, later) := getUpdates service .answered telegram (offsetOf cursor)
    waiting later = Cursor.keptFrom Update.number (waiting telegram) cursor ∧
      updatesArray root =
        some (((Cursor.keptFrom Update.number (waiting telegram) cursor).take limit).map Update.json) := by
  have hanswer := hkeeps.answers telegram cursor
  rw [hkeeps.waiting_updates] at hanswer
  rw [NorelecBot.getUpdates, offsetField_offsetOf h]
  constructor
  · exact hkeeps.waiting_updates telegram cursor
  · simp only [updatesArray, findMember, Option.bind_some, hkeeps.good, hanswer]

omit hkeeps in
/-- The poller does what a reader of a queue does, and Telegram what the queue does. -/
structure Follows (waiting : σ → List Update) (polling : Polling σ) (world : Cursor.World Update) : Prop where
  pending : waiting polling.telegram = world.pending
  passed : polling.passed = world.passed.map Update.json
  blind : polling.blind = world.blind
  processed : polling.processed = world.done.map Update.json
  down : world.reader = .down → polling.offset = none
  reads : ∀ cursor, world.reader = .reading cursor → polling.offset = some (offsetOf cursor) ∧ Sent cursor

theorem Follows.starts {polling : Polling σ} {world : Cursor.World Update} (h : Follows waiting polling world)
    (fate : Cursor.Fate) :
    Follows waiting (polling.step service (.start fate)) (world.step Update.number limit (.start fate)) := by
  obtain ⟨hpending, hpassed, hblind, hprocessed, -, -⟩ := h
  cases fate with
  | unheard =>
    constructor <;> simp_all [Polling.step, Cursor.World.step, getUpdates, updatesArray, findMember, sent_none]
    rfl
  | unanswered =>
    have hkept := hkeeps.waiting_updates polling.telegram (offsetField (-1))
    constructor <;> simp_all [Polling.step, Cursor.World.step, getUpdates, updatesArray, findMember, sent_none,
      offsetField, Cursor.keptFrom]
    rfl
  | answered =>
    obtain ⟨hkept, hanswer⟩ := hkeeps.getUpdates polling.telegram sent_none
    have hbacklog := backlogOffset_updates hanswer
    have hsent := sent_none.readTo (world.pending.take limit)
    constructor <;> simp_all [Polling.step, Cursor.World.step, getUpdates, offsetOf, Cursor.keptFrom]

theorem Follows.asks {polling : Polling σ} {world : Cursor.World Update} (h : Follows waiting polling world)
    (fate : Cursor.Fate) :
    Follows waiting (polling.step service (.ask fate)) (world.step Update.number limit (.ask fate)) := by
  obtain ⟨hpending, hpassed, hblind, hprocessed, hdown, hreads⟩ := h
  cases hreader : world.reader with
  | down => constructor <;> simp_all [Polling.step, Cursor.World.step]
  | reading cursor =>
    obtain ⟨hoffset, hsent⟩ := hreads cursor hreader
    cases fate with
    | unheard => constructor <;> simp_all [Polling.step, Cursor.World.step, getUpdates, pollRound, updatesArray, findMember]
    | unanswered =>
      have hkept := hkeeps.waiting_updates polling.telegram cursor
      have hfield := offsetField_offsetOf hsent
      constructor <;> simp_all [Polling.step, Cursor.World.step, getUpdates, pollRound, updatesArray, findMember]
    | answered =>
      obtain ⟨hkept, hanswer⟩ := hkeeps.getUpdates polling.telegram hsent
      have hround := pollRound_updates hanswer cursor
      have hnext := hsent.readTo ((Cursor.keptFrom Update.number world.pending cursor).take limit)
      constructor <;> simp_all [Polling.step, Cursor.World.step, getUpdates]

theorem Follows.dies {polling : Polling σ} {world : Cursor.World Update} (h : Follows waiting polling world) (after : ℕ) :
    Follows waiting (polling.step service (.die after)) (world.step Update.number limit (.die after)) := by
  obtain ⟨hpending, hpassed, hblind, hprocessed, hdown, hreads⟩ := h
  cases hreader : world.reader with
  | down => constructor <;> simp_all [Polling.step, Cursor.World.step]
  | reading cursor =>
    obtain ⟨hoffset, hsent⟩ := hreads cursor hreader
    obtain ⟨hkept, hanswer⟩ := hkeeps.getUpdates polling.telegram hsent
    have hround := pollRound_updates hanswer cursor
    constructor <;> simp_all [Polling.step, Cursor.World.step, getUpdates]

theorem Follows.step {polling : Polling σ} {world : Cursor.World Update} (h : Follows waiting polling world)
    (move : Cursor.Move Update) :
    Follows waiting (polling.step service move) (world.step Update.number limit move) := by
  cases move with
  | arrive update =>
    have hreceives := hkeeps.receives polling.telegram update
    obtain ⟨hpending, hpassed, hblind, hprocessed, hdown, hreads⟩ := h
    constructor <;> simp_all [Polling.step, Cursor.World.step]
  | start fate => exact h.starts hkeeps fate
  | ask fate => exact h.asks hkeeps fate
  | die after => exact h.dies hkeeps after

theorem Follows.run {polling : Polling σ} {world : Cursor.World Update} (h : Follows waiting polling world)
    (moves : List (Cursor.Move Update)) :
    Follows waiting (polling.run service moves) (world.run Update.number limit moves) := by
  induction moves generalizing polling world with
  | nil => exact h
  | cons move moves ih => exact ih (h.step hkeeps move)

theorem follows_fresh : Follows waiting { telegram := fresh } {} := by
  constructor <;> simp [hkeeps.fresh]

/-- Against any Telegram that keeps its promise, whatever is lost on the way and wherever the bot dies and
starts again: an update is gone through once, in the order they came, unless it starts without being told what
is there: then once again for each such start. None is lost: those not gone through were passed over at a
start, or wait with Telegram, and the next request leaves them there. -/
theorem updates_once {moves : List (Cursor.Move Update)}
    (hmoves : (Cursor.arrivals moves).Pairwise fun one other => one.number < other.number) :
    let polling := Polling.run service { telegram := fresh } moves
    (polling.blind = 0 → polling.processed.Sublist ((Cursor.arrivals moves).map Update.json)) ∧
      (∀ number, (polling.processed.map fun json => integerMember (some json) "update_id").count (some number) ≤
        polling.blind + 1) ∧
      ∀ update ∈ Cursor.arrivals moves,
        update.json ∈ polling.processed ∨ update.json ∈ polling.passed ∨
          (update ∈ waiting polling.telegram ∧ ∀ offset, polling.offset = some offset →
            update ∈ waiting (service.updates polling.telegram (offsetField offset)).2) := by
  intro polling
  have hfollows : Follows waiting polling (Cursor.World.run Update.number limit {} moves) :=
    (follows_fresh hkeeps).run hkeeps moves
  obtain ⟨forgotten, reached, hsound⟩ := Cursor.sound_empty.run (Cursor.inOrder_of_sorted (by simpa using hmoves))
  have hhistory : (Cursor.World.run Update.number limit {} moves).history = Cursor.arrivals moves := by
    simp [Cursor.history_run]
  refine ⟨?_, ?_, ?_⟩
  · intro hblind
    rw [hfollows.processed, ← hhistory]
    exact (hsound.in_order (hfollows.blind ▸ hblind)).map _
  · intro number
    have hsame : (polling.processed.map fun json => integerMember (some json) "update_id") =
        ((Cursor.World.run Update.number limit {} moves).done.map Update.number).map some := by
      rw [hfollows.processed, List.map_map, List.map_map]
      exact List.map_congr_left fun update _ => update.numbered
    rw [hsame, hfollows.blind, List.count_map_of_injective _ _ (Option.some_injective _)]
    exact hsound.count_le number
  · intro update hupdate
    rw [← hhistory] at hupdate
    rw [hfollows.processed, hfollows.passed, hfollows.pending]
    rcases hsound.no_loss hupdate with hdone | hpassed | ⟨hpending, hoffered⟩
    · exact .inl (List.mem_map_of_mem hdone)
    · exact .inr (.inl (List.mem_map_of_mem hpassed))
    · refine .inr (.inr ⟨hpending, fun offset hoffset => ?_⟩)
      cases hreader : (Cursor.World.run Update.number limit {} moves).reader with
      | down =>
        rw [hfollows.down hreader] at hoffset
        cases hoffset
      | reading cursor =>
        obtain ⟨hsame, hsent⟩ := hfollows.reads cursor hreader
        obtain rfl : offsetOf cursor = offset := Option.some_inj.mp (hsame.symm.trans hoffset)
        rw [hkeeps.waiting_updates, offsetField_offsetOf hsent, hfollows.pending]
        exact hoffered _ (by simp [Cursor.offered, hreader])

end

/-- A list of updates, of which a hundred are given at a time. -/
def queue : Service (List Update) where
  receive updates update := updates ++ [update]
  updates updates offset :=
    let kept := updates.filter fun update => offset.all fun from' => from' ≤ update.number
    (.obj [(utf8 "ok", .bool true), (utf8 "result", .arr ((kept.take 100).map Update.json))], kept)

theorem queue_keeps : queue.Keeps [] id 100 where
  fresh := rfl
  receives _ _ := rfl
  forgets _ _ := rfl
  good _ _ := by simp [queue, Json.find, assoc]
  answers _ _ := by
    rw [queue, Json.find, assoc, if_neg (by decide +kernel), assoc, if_pos rfl]
    rfl

def bareUpdate (number : ℕ) : Update where
  json := .obj [(utf8 "update_id", .int (number + 1))]
  number := number + 1
  numbered := by simp [integerMember, findMember, Json.find, assoc]
  positive := by omega

/-- Two updates: the bot dies after the first, and passes over both as it starts again. -/
def dyingMoves : List (Cursor.Move Update) :=
  [.start .answered, .arrive (bareUpdate 0), .arrive (bareUpdate 1), .die 1, .start .answered, .ask .answered]

theorem updates_once_dies :
    (Polling.run queue { telegram := [] } dyingMoves).processed.Sublist [(bareUpdate 0).json, (bareUpdate 1).json] ∧
      (Polling.run queue { telegram := [] } dyingMoves).processed.length = 1 ∧
      (Polling.run queue { telegram := [] } dyingMoves).passed.length = 2 :=
  ⟨(updates_once queue_keeps (by simp [dyingMoves, Cursor.arrivals, bareUpdate])).1 (by decide +kernel),
    by decide +kernel, by decide +kernel⟩

end NorelecBot
