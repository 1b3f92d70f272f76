import NorelecBot.Commands
import NorelecBot.OnFile
import NorelecBot.Ranking

/-! # The REST service

Four routes, each a question to the game. Nothing that is asked here changes a file,
and what is told of one player is what is told of him among all.
-/

namespace NorelecBot
open Lib

/-- A text as it is, or a value written out with a line break. -/
inductive RestBody where
  | text (text : Str)
  | json (root : Json)

structure RestResponse where
  statusCode : ℕ := 500
  body : RestBody

def textResponse (statusCode : ℕ) (body : Str) : RestResponse := ⟨statusCode, .text body⟩
def jsonResponse (root : Json) : RestResponse := ⟨200, .json root⟩

def userJson (user : ConquisterUser) : Json := .obj ([
  (utf8 "username", .str user.username),
  (utf8 "score", .int user.score),
  (utf8 "rank", if user.rank > 0 then .int user.rank else .null),
  (utf8 "quotes_added", .int user.quotesAdded),
  (utf8 "in_conquister", .bool user.inConquister)] ++
    if user.inConquister then [(utf8 "since", .int user.since)] else [])

def userResponse (user : ConquisterUser) : RestResponse := jsonResponse (userJson user)

/-- What is told of one player among all. -/
def entryJson (rank : ℕ) (username : Str) (score quotesAdded : ℤ) : Json := .obj [
  (utf8 "rank", .int rank),
  (utf8 "username", .str username),
  (utf8 "score", .int score),
  (utf8 "quotes_added", .int quotesAdded)]

def leaderboardEntries (leaderboard : Leaderboard) : List Json :=
  leaderboard.entries.mapIdx fun place entry => entryJson (place + 1) entry.username entry.score entry.quotesAdded

def currentJson : Option Holder → Json
  | some hold => .obj [(utf8 "username", .str hold.username), (utf8 "since", .int hold.since)]
  | none => .null

def leaderboardJson (leaderboard : Leaderboard) : Json := .obj [
  (utf8 "entries", .arr (leaderboardEntries leaderboard)),
  (utf8 "current", currentJson leaderboard.current)]

def leaderboardResponse (leaderboard : Leaderboard) : RestResponse := jsonResponse (leaderboardJson leaderboard)

def notFound : RestResponse := textResponse 404 (utf8 "\x7b\"error\":\"not found\"\x7d\n")

/-- `quote_random` as a transaction. -/
def quoteRandomTransaction : Transaction (Option Str) :=
  .quotes id (fun quotes =>
    if quotes = [] then .finish none else .randomIndex quotes.length fun index => .finish quotes[index]?) .raise

def Transaction.asking {Result : Type} (question : ConquisterState → Result) : Transaction Result :=
  .state id (fun state => .finish (question state)) .raise

def handleHealth (_ : Str) : Transaction RestResponse := .finish (textResponse 200 (utf8 "\x7b\"status\":\"ok\"\x7d\n"))

def quoteResponse : Option Str → RestResponse
  | none => textResponse 404 (utf8 "\x7b\"error\":\"no quotes available\"\x7d\n")
  | some quote => jsonResponse (.obj [(utf8 "quote", .str quote)])

def handleQuote (_ : Str) : Transaction RestResponse := quoteRandomTransaction.map quoteResponse

def handleRestLeaderboard (_ : Str) : Transaction RestResponse :=
  .asking fun state => leaderboardResponse (conquisterLeaderboard state 0)

def solidus : UInt8 := 47

def handleUser (argument : Str) : Transaction RestResponse :=
  let username := withoutMention argument
  if username = [] ∨ solidus ∈ username then .finish notFound
  else .asking fun state =>
    match conquisterUser state username (if argument.head? = some mention then .telegram else .any) with
    | none => textResponse 404 (utf8 "\x7b\"error\":\"user not found\"\x7d\n")
    | some user => userResponse user

/-- A path ending in '/' matches as a prefix and passes the rest of the URL as argument. -/
structure RestRoute where
  method : Str
  path : Str
  handler : Str → Transaction RestResponse

def routes : List RestRoute := [
  ⟨utf8 "GET", utf8 "/health", handleHealth⟩,
  ⟨utf8 "GET", utf8 "/quote", handleQuote⟩,
  ⟨utf8 "GET", utf8 "/leaderboard", handleRestLeaderboard⟩,
  ⟨utf8 "GET", utf8 "/user/", handleUser⟩]

def RestRoute.take (route : RestRoute) (method path : Str) : Option (Transaction RestResponse) :=
  if method ≠ route.method then none
  else if route.path.getLast? = some solidus then
    if route.path <+: path then some (route.handler (path.drop route.path.length)) else none
  else if path = route.path then some (route.handler []) else none

def restRouteDispatch (method path : Str) : Transaction RestResponse :=
  (routes.findSome? fun route => route.take method path).getD (.finish notFound)

def storageError : RestResponse := textResponse 500 (utf8 "\x7b\"error\":\"storage error\"\x7d\n")

/-- What is sent. A value that cannot be written out is an error of the storage, as anything that throws. -/
def sent (dumps : Json → Bool) : Option RestResponse → RestResponse
  | none => storageError
  | some response =>
    match response.body with
    | .text _ => response
    | .json root => if dumps root then response else storageError

/-- What is answered, and what became of the files. -/
def dispatchOrError (dumps : Json → Bool) (world : Surroundings) (pattern : SavePattern) (disk : Disk) (method path : Str) :
    RestResponse × Disk × List Write :=
  let ended := transaction world pattern (restRouteDispatch method path) disk
  (sent dumps ended.result, ended.disk, ended.writes)

/-- A function that writes through no reference. -/
def Transaction.ReadsOnly {Result : Type} : Transaction Result → Prop
  | finish _ => True
  | raise => True
  | state change next caught => change = id ∧ (∀ seen, (next seen).ReadsOnly) ∧ caught.ReadsOnly
  | quotes change next caught => change = id ∧ (∀ seen, (next seen).ReadsOnly) ∧ caught.ReadsOnly
  | randomIndex _ next => ∀ drawn, (next drawn).ReadsOnly
  | backup next caught => next.ReadsOnly ∧ caught.ReadsOnly

def Transaction.Finishes {Result : Type} (P : Result → Prop) : Transaction Result → Prop
  | finish result => P result
  | raise => True
  | state _ next caught => (∀ seen, (next seen).Finishes P) ∧ caught.Finishes P
  | quotes _ next caught => (∀ seen, (next seen).Finishes P) ∧ caught.Finishes P
  | randomIndex _ next => ∀ drawn, (next drawn).Finishes P
  | backup next caught => next.Finishes P ∧ caught.Finishes P

structure StorageSession.Untouched (session : StorageSession) : Prop where
  state : ∀ loaded, session.state = some loaded → loaded.current = loaded.original
  quotes : ∀ loaded, session.quotes = some loaded → loaded.current = loaded.original

variable {Result Other : Type}

theorem StorageSession.Loaded.use_untouched {Document : Type} {loaded : Option (StorageSession.Loaded Document)}
    {load : Option Document} {seen : Document} {used : StorageSession.Loaded Document}
    (hloaded : ∀ document, loaded = some document → document.current = document.original)
    (h : StorageSession.Loaded.use loaded load id = some (seen, used)) : used.current = used.original := by
  cases loaded with
  | some document =>
    cases h
    exact hloaded document rfl
  | none =>
    cases load with
    | none => cases h
    | some document =>
      cases h
      rfl

theorem Transaction.run_untouched {world : Surroundings} {disk : Disk} {function : Transaction Result}
    (hreads : function.ReadsOnly) {session : StorageSession} (h : session.Untouched) :
    (function.run world disk session).2.Untouched := by
  induction function generalizing session with
  | finish | raise => exact h
  | state change next caught ihnext ihcaught =>
    obtain ⟨rfl, hnext, hcaught⟩ := hreads
    rw [run]
    split
    · rename_i seen used huse
      apply ihnext seen (hnext seen)
      constructor
      · intro loaded hloaded
        cases hloaded
        exact StorageSession.Loaded.use_untouched h.state huse
      · exact h.quotes
    · exact ihcaught hcaught h
  | quotes change next caught ihnext ihcaught =>
    obtain ⟨rfl, hnext, hcaught⟩ := hreads
    rw [run]
    split
    · rename_i seen used huse
      apply ihnext seen (hnext seen)
      constructor
      · exact h.state
      · intro loaded hloaded
        cases hloaded
        exact StorageSession.Loaded.use_untouched h.quotes huse
    · exact ihcaught hcaught h
  | randomIndex count next ihnext =>
    rw [run]
    exact ihnext _ (hreads _) ⟨h.state, h.quotes⟩
  | backup next caught ihnext ihcaught =>
    rw [run]
    split
    · exact ihnext hreads.1 ⟨h.state, h.quotes⟩
    · exact ihcaught hreads.2 ⟨h.state, h.quotes⟩

theorem changed_eq_none {Document : Type} [DecidableEq Document] {loaded : Option (StorageSession.Loaded Document)}
    (h : ∀ document, loaded = some document → document.current = document.original) : changed loaded = none := by
  cases loaded with
  | none => rfl
  | some document => simp [changed, h document rfl]

/-- A transaction that only reads writes nothing. -/
theorem transaction_readsOnly {function : Transaction Result} (hreads : function.ReadsOnly) (world : Surroundings)
    (pattern : SavePattern) (disk : Disk) :
    transaction world pattern function disk = ⟨(function.run world disk {}).1, disk, []⟩ := by
  have huntouched := @Transaction.run_untouched _ world disk function hreads {} ⟨by simp, by simp⟩
  cases hrun : function.run world disk {} with
  | mk result session =>
    rw [hrun] at huntouched
    have hstate := changed_eq_none huntouched.state
    have hquotes := changed_eq_none huntouched.quotes
    cases result with
    | none => simp only [transaction, hrun]
    | some result => simp only [transaction, hrun, save, hquotes, saveState, hstate]

theorem Transaction.run_finishes {P : Result → Prop} {world : Surroundings} {disk : Disk} {function : Transaction Result}
    (h : function.Finishes P) (session : StorageSession) {result : Result}
    (hresult : (function.run world disk session).1 = some result) : P result := by
  induction function generalizing session with
  | finish ended =>
    cases hresult
    exact h
  | raise => cases hresult
  | state change next caught ihnext ihcaught =>
    rw [run] at hresult
    split at hresult
    · exact ihnext _ (h.1 _) _ hresult
    · exact ihcaught h.2 _ hresult
  | quotes change next caught ihnext ihcaught =>
    rw [run] at hresult
    split at hresult
    · exact ihnext _ (h.1 _) _ hresult
    · exact ihcaught h.2 _ hresult
  | randomIndex count next ihnext =>
    rw [run] at hresult
    exact ihnext _ (h _) _ hresult
  | backup next caught ihnext ihcaught =>
    rw [run] at hresult
    split at hresult
    · exact ihnext h.1 _ hresult
    · exact ihcaught h.2 _ hresult

structure Asks (function : Transaction RestResponse) : Prop where
  reads : function.ReadsOnly
  status : function.Finishes fun response => response.statusCode = 200 ∨ response.statusCode = 404
  answers : ∀ world files, (function.meaning world files 0).1.isSome

theorem asks_finish {response : RestResponse} (h : response.statusCode = 200 ∨ response.statusCode = 404) :
    Asks (.finish response) :=
  ⟨trivial, h, fun _ _ => rfl⟩

theorem asks_asking {question : ConquisterState → RestResponse}
    (h : ∀ state, (question state).statusCode = 200 ∨ (question state).statusCode = 404) : Asks (.asking question) :=
  ⟨⟨rfl, fun _ => trivial, trivial⟩, ⟨h, trivial⟩, fun _ _ => rfl⟩

theorem Transaction.ReadsOnly.map {function : Transaction Result} (h : function.ReadsOnly) (f : Result → Other) :
    (function.map f).ReadsOnly := by
  induction function with
  | finish | raise => trivial
  | state change next caught ihnext ihcaught | quotes change next caught ihnext ihcaught =>
    exact ⟨h.1, fun seen => ihnext seen (h.2.1 seen), ihcaught h.2.2⟩
  | randomIndex count next ihnext => exact fun drawn => ihnext drawn (h drawn)
  | backup next caught ihnext ihcaught => exact ⟨ihnext h.1, ihcaught h.2⟩

theorem Transaction.finishes_map (function : Transaction Result) {P : Other → Prop} {f : Result → Other}
    (h : ∀ result, P (f result)) : (function.map f).Finishes P := by
  induction function with
  | finish result => exact h result
  | raise => trivial
  | state change next caught ihnext ihcaught | quotes change next caught ihnext ihcaught => exact ⟨ihnext, ihcaught⟩
  | randomIndex count next ihnext => exact ihnext
  | backup next caught ihnext ihcaught => exact ⟨ihnext, ihcaught⟩

theorem quoteRandom_readsOnly : quoteRandomTransaction.ReadsOnly := by
  refine ⟨rfl, fun quotes => ?_, trivial⟩
  beta_reduce
  split
  · trivial
  · exact fun _ => trivial

theorem quoteRandom_meaning (world : Surroundings) (files : Files) (asked : ℕ) :
    (quoteRandomTransaction.meaning world files asked).1 = some (quoteRandom files.quotes (world.draw asked)) := by
  rw [quoteRandomTransaction, Transaction.meaning, quoteRandom, id_eq]
  split
  · rfl
  · rfl

theorem handleQuote_asks (argument : Str) : Asks (handleQuote argument) where
  reads := quoteRandom_readsOnly.map quoteResponse
  status := by
    apply Transaction.finishes_map
    intro quote
    cases quote with
    | none => exact .inr rfl
    | some quote => exact .inl rfl
  answers world files := by
    rw [handleQuote, Transaction.meaning_map, quoteRandom_meaning]
    rfl

theorem handleUser_asks (argument : Str) : Asks (handleUser argument) := by
  rw [handleUser]
  split
  · exact asks_finish (.inr rfl)
  · apply asks_asking
    intro state
    split
    · exact .inr rfl
    · exact .inl rfl

theorem routes_ask : ∀ route ∈ routes, ∀ argument, Asks (route.handler argument) := by
  intro route hroute argument
  simp only [routes, List.mem_cons, List.not_mem_nil, or_false] at hroute
  rcases hroute with rfl | rfl | rfl | rfl
  · exact asks_finish (.inl rfl)
  · exact handleQuote_asks argument
  · exact asks_asking fun _ => .inl rfl
  · exact handleUser_asks argument

theorem restRouteDispatch_asks (method path : Str) : Asks (restRouteDispatch method path) := by
  rw [restRouteDispatch]
  cases hfound : routes.findSome? fun route => route.take method path with
  | none => exact asks_finish (.inr rfl)
  | some function =>
    obtain ⟨route, hroute, htaken⟩ := List.exists_of_findSome?_eq_some hfound
    rw [Option.getD_some]
    rw [RestRoute.take] at htaken
    split_ifs at htaken
    · cases htaken
      exact routes_ask route hroute _
    · cases htaken
      exact routes_ask route hroute []

variable {dumps : Json → Bool} {world : Surroundings} {pattern : SavePattern} {disk : Disk} {archive : Archive}

theorem sent_cases (dumps : Json → Bool) (response : RestResponse) :
    sent dumps (some response) = response ∨ sent dumps (some response) = storageError := by
  rw [sent]
  split
  · exact .inl rfl
  · split
    · exact .inl rfl
    · exact .inr rfl

/-- A value that cannot be written out is the only reason not to send an answer. -/
theorem sent_storageError {response : RestResponse} (hcode : response.statusCode = 200 ∨ response.statusCode = 404)
    (h : sent dumps (some response) = storageError) : ∃ root, response.body = .json root ∧ dumps root = false := by
  rw [sent] at h
  cases hbody : response.body with
  | text body =>
    rw [hbody] at h
    have : response.statusCode = 500 := congrArg RestResponse.statusCode h
    omega
  | json root =>
    cases hdumps : dumps root with
    | false => exact ⟨root, rfl, hdumps⟩
    | true =>
      simp only [hbody, hdumps, if_true] at h
      have : response.statusCode = 500 := congrArg RestResponse.statusCode h
      omega

theorem dispatchOrError_reads (dumps : Json → Bool) (world : Surroundings) (pattern : SavePattern) (disk : Disk)
    (method path : Str) :
    dispatchOrError dumps world pattern disk method path =
      (sent dumps ((restRouteDispatch method path).run world disk {}).1, disk, []) := by
  rw [dispatchOrError, transaction_readsOnly (restRouteDispatch_asks method path).reads world pattern disk]

/-- Where the files can be read, what is sent is the answer to the question. -/
theorem run_holds (h : Holds disk archive) (world : Surroundings) (method path : Str) :
    ((restRouteDispatch method path).run world disk {}).1 =
      ((restRouteDispatch method path).meaning (archive.world world) archive.files 0).1 := by
  have hmeaning : (restRouteDispatch method path).meaning (archive.world world) archive.files 0 = _ :=
    Transaction.run_meaning world h (restRouteDispatch method path) {}
  rw [hmeaning]

/-- Whatever is asked of the service, by whatever method, nothing is written. It answers what there is, that there is
no such thing, or that there is an error; and where the files can be read, the last is answered only for a value that
cannot be written out. -/
theorem rest_reads_only (dumps : Json → Bool) (world : Surroundings) (pattern : SavePattern) (disk : Disk) (method path : Str) :
    let answered := dispatchOrError dumps world pattern disk method path
    answered.2 = (disk, []) ∧
      (answered.1.statusCode = 200 ∨ answered.1.statusCode = 404 ∨ answered.1 = storageError) ∧
      ∀ archive, Holds disk archive → answered.1 = storageError →
        ∃ response root, ((restRouteDispatch method path).meaning (archive.world world) archive.files 0).1 = some response ∧
          response.body = .json root ∧ dumps root = false := by
  have hasks := restRouteDispatch_asks method path
  intro answered
  have hanswered : answered = (sent dumps ((restRouteDispatch method path).run world disk {}).1, disk, []) :=
    dispatchOrError_reads dumps world pattern disk method path
  rw [hanswered]
  refine ⟨rfl, ?_, ?_⟩
  · cases hrun : ((restRouteDispatch method path).run world disk {}).1 with
    | none => exact .inr (.inr rfl)
    | some response =>
      rcases sent_cases dumps response with hsent | hsent
      · rw [hsent]
        exact (Transaction.run_finishes hasks.status {} hrun).imp_right .inl
      · exact .inr (.inr hsent)
  · intro archive hholds hfailed
    obtain ⟨response, hresponse⟩ := Option.isSome_iff_exists.mp (hasks.answers (archive.world world) archive.files)
    have hrun := (run_holds hholds world method path).trans hresponse
    dsimp only at hfailed
    rw [hrun] at hfailed
    obtain ⟨root, hroot⟩ := sent_storageError (Transaction.run_finishes hasks.status {} hrun) hfailed
    exact ⟨response, root, hresponse, hroot⟩

/-- No player is told apart by the case of his name only from one who is credited with quotes. -/
def DistinctCredits (state : ConquisterState) : Prop :=
  ∀ credited ∈ state.quotesAdded.keys, ∀ player ∈ state.scores.keys, Text.equalsIgnoreCase credited player = true →
    credited = player

theorem DistinctCredits.find {state : ConquisterState} (h : DistinctCredits state) {player : Str}
    (hplayer : player ∈ state.scores.keys) :
    ((findIgnoreCase state.quotesAdded player).map Prod.snd).getD 0 = counter state.quotesAdded player := by
  cases hfound : findIgnoreCase state.quotesAdded player with
  | none =>
    have hnone : state.quotesAdded.find player = none := by
      by_contra hsome
      obtain ⟨value, hvalue⟩ := Option.ne_none_iff_exists'.mp hsome
      have hmem := OrderedMap.find_eq_some.mp hvalue
      exact absurd (Text.equalsIgnoreCase_refl player) (List.find?_eq_none.mp hfound _ hmem)
    rw [counter, hnone]
    rfl
  | some entry =>
    have hmem := List.mem_of_find?_eq_some hfound
    have hname : Text.equalsIgnoreCase entry.1 player = true :=
      List.find?_some (p := fun entry : Str × ℤ => Text.equalsIgnoreCase entry.1 player) hfound
    have hsame : entry.1 = player := h entry.1 (List.mem_map_of_mem hmem) player hplayer hname
    have hvalue : state.quotesAdded.find player = some entry.2 := OrderedMap.find_eq_some.mpr (hsame ▸ hmem)
    rw [counter, hvalue]
    rfl

end NorelecBot
