import UnixSystems.HttpModel
import UnixSystems.LoggedRuns
import UnixSystems.StrTok

/-! One pass of the loop of http-server.c from the request line on, with all that it does in
order: the tokens it takes for strings, the copies into its buffers, what it sends, and what it
logs. What the clients see is what `handle` says. -/
namespace UnixSystems.HttpServer
open CStrings StrTok LoggedRuns LoggedRuns.Logged HttpModel

/-- `uses` is a token that is taken for a string, and `write` fills a buffer of this size up to
the number of characters. A write past the end goes to a place of its own. The rest are calls:
`sendHttpHeader`, `sendErr`, `sendHtml`, a part of a file, a query to the mdb-lookup server, and
a line of the log. -/
inductive Event where
  | uses (token : Option Str)
  | write (size needed : ℕ)
  | header (s : Str)
  | err (s : Str)
  | html (s : Str)
  | bytes (s : Str)
  | query (s : Str)
  | log (s : Str)

/-- `crashed` is a function of the string library on NULL, and `waits` a read from the mdb-lookup
server that never returns. -/
inductive Stop where
  | crashed
  | waits

abbrev Pass := Logged Event Stop

/-! ## Tokens -/

def separator (c : Char) : Bool := c = '\t' || c = ' ' || c = '\r' || c = '\n'

structure Tokens where
  method : Option Str
  requestURI : Option Str
  httpVersion : Option Str

def tokens (reqBuff : Str) : Tokens :=
  let (method, c) := strtok separator (.start reqBuff)
  let (requestURI, c) := strtok separator c
  let (httpVersion, _) := strtok separator c
  ⟨method, requestURI, httpVersion⟩

/-- The string library on a token. -/
def string (token : Option Str) : Pass Str := do
  notes [.uses token]
  match token with
  | none => halt .crashed
  | some s => pure s

/-- `fprintf` on a token; a NULL is printed as a text. -/
def printed (token : Option Str) : Pass Str := do
  notes [.uses token]
  pure (token.getD "(null)".toList)

/-! ## Branches -/

section Branches

variable (webRoot : Str) (world : World) (stale unread method uri : Str) (httpVersion : Option Str)

def writeLog (s : Str) : Pass PUnit := do
  let httpV ← printed httpVersion
  notes [.log (logToStdOut world.clientAddr ⟨method, uri, httpV⟩ s)]

def report (s : Str) : Pass PUnit := do
  notes [.header s, .err s]
  writeLog world method uri httpVersion s

def sendRows : ℕ → Str → Pass Str
  | 0, _ => halt .waits
  | rounds + 1, response =>
    match fgets 1000 response with
    | none => halt .waits
    | some (temp, response) =>
      if temp = ['\n'] then pure response
      else do
        notes [.html "<tr><td>".toList, .html temp]
        sendRows rounds response

/-- The lookup. The array `uri` holds the URI, its null, and what was there before; the null is
overwritten while the query is sent. -/
def lookup : Pass Str := do
  let memory := uri ++ nul :: stale
  let query := (text memory).length - ((strrchr (text memory) '=').getD []).length + 1
  let len := (text (memory.drop query)).length
  notes [.write 300 (query + len + 1)]
  let memory := memory.set (query + len) '\n'
  let len := len + 1
  notes [.query ((memory.drop query).take len), .header "200 OK".toList, .html "<html><body>".toList, .html form,
    .html "<p><table border>\n".toList, .write 300 (query + len)]
  let memory := memory.set (query + len - 1) nul
  let httpV ← printed httpVersion
  notes [.log (lookupLog world.clientAddr ⟨method, text memory, httpV⟩ (text (memory.drop query)))]
  let response := unread ++ world.answer
  let rest ← sendRows response.length response
  notes [.html "</table></body></html>".toList]
  pure rest

/-- A file. A `stat` that fails leaves `st` as it was, so that `isDir` may say anything then. -/
def sendPath : Pass PUnit := do
  notes [.write 100 (webRoot.length + 1), .write 100 ((webRoot ++ uri).length + 1)]
  let path := filePath webRoot uri world.isDir
  notes (if world.isDir (webRoot ++ uri) then [.write 100 (path.length + 1)] else [])
  match world.contents path with
  | some bytes => do
    writeLog world method uri httpVersion "200 OK".toList
    notes (.header "200 OK".toList :: (bytes.toChunks 4096).map .bytes)
  | none => report world method uri httpVersion "404 Not Found".toList

def answer : Pass Str :=
  match route method uri with
  | .notImplemented => do
    report world method uri httpVersion "501 Not Implemented".toList
    pure unread
  | .badRequest => do
    report world method uri httpVersion "400 Bad Request".toList
    pure unread
  | .forbidden => do
    report world method uri httpVersion "403 Forbidden".toList
    pure unread
  | .form => do
    writeLog world method uri httpVersion " 200 OK".toList
    notes [.header "200 OK".toList, .html form]
    pure unread
  | .lookup _ => lookup world stale unread method uri httpVersion
  | .ignored => pure unread
  | .file => do
    sendPath webRoot world method uri httpVersion
    pure unread

end Branches

/-- From the request line on. `stale` is what the array `uri` holds behind the URI. -/
def pass (webRoot : Str) (world : World) (stale unread reqBuff : Str) : Pass Str := do
  let requestURI ← string (tokens reqBuff).requestURI
  notes [.write 300 (requestURI.length + 1)]
  let method ← string (tokens reqBuff).method
  answer webRoot world stale unread method requestURI (tokens reqBuff).httpVersion

/-! ## The fields of the request line -/

theorem tokens_eq (reqBuff : Str) :
    tokens reqBuff =
      ⟨(fields separator (text reqBuff))[0]?, (fields separator (text reqBuff))[1]?,
        (fields separator (text reqBuff))[2]?⟩ := by
  have safe : separator nul = false := by decide
  obtain ⟨first, rest⟩ := strtok_fields safe (.start reqBuff)
  obtain ⟨second, later⟩ := strtok_fields safe (strtok separator (.start reqBuff)).2
  obtain ⟨third, _⟩ := strtok_fields safe (strtok separator (strtok separator (.start reqBuff)).2).2
  rw [later, rest] at third
  rw [rest] at second
  show Tokens.mk (strtok separator (.start reqBuff)).1 (strtok separator (strtok separator (.start reqBuff)).2).1
    (strtok separator (strtok separator (strtok separator (.start reqBuff)).2).2).1 = _
  rw [first, second, third]
  simp [Cursor.start, List.head?_eq_getElem?]

section Pass

variable {webRoot : Str} {world : World} {stale unread reqBuff method uri : Str} {more : List Str}

theorem pass_missing (missing : (fields separator (text reqBuff)).length < 2) :
    pass webRoot world stale unread reqBuff = ⟨[.uses none], .error .crashed⟩ := by
  have absent : (fields separator (text reqBuff))[1]? = none := List.getElem?_eq_none (by omega)
  rw [pass, tokens_eq, absent]
  rfl

theorem pass_eq (split : fields separator (text reqBuff) = method :: uri :: more) :
    pass webRoot world stale unread reqBuff = (do
      notes [.uses (some uri), .write 300 (uri.length + 1), .uses (some method)]
      answer webRoot world stale unread method uri more.head?) := by
  have third : (method :: uri :: more)[2]? = more.head? := by rw [List.head?_eq_getElem?]; rfl
  rw [pass, tokens_eq, split, third]
  rfl

theorem pass_ignored (split : fields separator (text reqBuff) = method :: uri :: more)
    (taken : route method uri = .ignored) :
    pass webRoot world stale unread reqBuff =
      ⟨[.uses (some uri), .write 300 (uri.length + 1), .uses (some method)], .ok unread⟩ := by
  rw [pass_eq split, answer, taken]
  rfl

end Pass

/-! ## The lookup without its array -/

theorem exists_last {c : Char} {s : Str} (member : c ∈ s) :
    ∃ front rest, s = front ++ c :: rest ∧ c ∉ rest := by
  obtain ⟨back, front, split, absent⟩ := List.eq_append_cons_of_mem (List.mem_reverse.mpr member)
  refine ⟨front.reverse, back.reverse, ?_, by simpa using absent⟩
  rw [← List.reverse_reverse s, split]
  simp

theorem lookup_eq (world : World) (stale unread method : Str) {uri : Str} (httpVersion : Option Str)
    (plain : nul ∉ uri) (delimited : '=' ∈ uri) :
    lookup world stale unread method uri httpVersion = (do
      notes [.write 300 (uri.length + 1)]
      notes [.query (queryOf uri ++ ['\n']), .header "200 OK".toList, .html "<html><body>".toList, .html form,
        .html "<p><table border>\n".toList, .write 300 (uri.length + 1)]
      let httpV ← printed httpVersion
      notes [.log (lookupLog world.clientAddr ⟨method, uri, httpV⟩ (queryOf uri))]
      let rest ← sendRows (unread ++ world.answer).length (unread ++ world.answer)
      notes [.html "</table></body></html>".toList]
      pure rest) := by
  obtain ⟨front, query, split, last⟩ := exists_last delimited
  have found : strrchr uri '=' = some ('=' :: query) := split ▸ strrchr_append front query '=' last
  have asked : queryOf uri = query := by rw [queryOf, found]; rfl
  have seen : text (uri ++ nul :: stale) = uri := text_terminated plain stale
  have start : uri.length - ('=' :: query).length + 1 = front.length + 1 := by
    rw [split, List.length_append, Nat.add_sub_cancel]
  have behind : ∀ x, (uri ++ x :: stale).drop (front.length + 1) = query ++ x :: stale := by
    intro x
    simp [split]
  have short : text (query ++ nul :: stale) = query := by
    have inside : nul ∉ query := fun member => plain (by simp [split, member])
    exact text_terminated inside stale
  have place : front.length + 1 + query.length = uri.length := by
    rw [split, List.length_append, List.length_cons]
    omega
  have next : front.length + 1 + (query.length + 1) = uri.length + 1 := by omega
  have taken : (query ++ '\n' :: stale).take (query.length + 1) = query ++ ['\n'] := by
    rw [← List.singleton_append, ← List.append_assoc]
    exact List.take_left' (by simp)
  rw [lookup, asked]
  simp only [seen, found, Option.getD_some, start, behind, short, place, next, Nat.add_sub_cancel,
    set_end, taken]

theorem delimited_of_lookup {method uri query : Str} (taken : route method uri = .lookup query) : '=' ∈ uri := by
  unfold route at taken
  split_ifs at taken with _ _ _ _ _ key
  obtain ⟨rest, rfl⟩ := List.isPrefixOf_iff_prefix.mp key
  exact List.mem_append_left _ (by decide)

theorem query_of_lookup {method uri query : Str} (taken : route method uri = .lookup query) :
    query = queryOf uri := by
  unfold route at taken
  split_ifs at taken
  exact (Route.lookup.inj taken).symm

/-! ## Logs of the branches -/

section Logs

variable {webRoot : Str} {world : World} {stale unread method uri : Str} {httpVersion : Option Str}

def requestOf (method uri : Str) (httpVersion : Option Str) : Request :=
  ⟨method, uri, httpVersion.getD "(null)".toList⟩

theorem report_eq (s : Str) :
    report world method uri httpVersion s =
      ⟨[.header s, .err s, .uses httpVersion,
        .log (logToStdOut world.clientAddr (requestOf method uri httpVersion) s)], .ok ⟨⟩⟩ :=
  rfl

def Event.IsHtml : Event → Prop
  | .html _ => True
  | _ => False

theorem Event.IsHtml.eq_html {e : Event} (html : e.IsHtml) : ∃ s, e = .html s := by
  cases e with
  | html s => exact ⟨s, rfl⟩
  | _ => exact html.elim

theorem sendRows_html (rounds : ℕ) (response : Str) : Within Event.IsHtml (sendRows rounds response) := by
  induction rounds generalizing response with
  | zero => simp [sendRows, halt, Within]
  | succ rounds ih =>
    rw [sendRows]
    split
    · simp [halt, Within]
    · split_ifs
      · exact within_pure _
      · rw [within_notes_bind]
        exact ⟨by simp [Event.IsHtml], ih _⟩

theorem sendRows_eq {rounds : ℕ} {response : Str} {chunks : List Str} {rest : Str}
    (read : readReply rounds response = some (chunks, rest)) :
    sendRows rounds response = ⟨chunks.flatMap fun temp => [.html "<tr><td>".toList, .html temp], .ok rest⟩ := by
  induction rounds generalizing response chunks with
  | zero => exact nomatch read
  | succ rounds ih =>
    rw [readReply] at read
    rw [sendRows]
    cases line : fgets 1000 response with
    | none =>
      rw [line] at read
      exact absurd read (by simp)
    | some result =>
      obtain ⟨temp, response⟩ := result
      rw [line] at read
      dsimp only at read ⊢
      split_ifs at read ⊢
      · obtain ⟨rfl, rfl⟩ := Prod.mk.inj (Option.some.inj read)
        rfl
      · obtain ⟨⟨later, last⟩, more, whole⟩ := Option.map_eq_some_iff.mp read
        obtain ⟨rfl, rfl⟩ := Prod.mk.inj whole
        rw [ih more]
        rfl

theorem sendForm_eq (s : Str) :
    (do writeLog world method uri httpVersion s; notes [.header "200 OK".toList, .html form]; pure unread) =
      (⟨[.uses httpVersion, .log (logToStdOut world.clientAddr (requestOf method uri httpVersion) s),
        .header "200 OK".toList, .html form], .ok unread⟩ : Pass Str) :=
  rfl

def lookupStart (world : World) (method uri : Str) (httpVersion : Option Str) : List Event :=
  [.write 300 (uri.length + 1), .query (queryOf uri ++ ['\n']), .header "200 OK".toList,
    .html "<html><body>".toList, .html form, .html "<p><table border>\n".toList, .write 300 (uri.length + 1),
    .uses httpVersion, .log (lookupLog world.clientAddr (requestOf method uri httpVersion) (queryOf uri))]

theorem lookup_start (plain : nul ∉ uri) (delimited : '=' ∈ uri) :
    lookup world stale unread method uri httpVersion = (do
      notes (lookupStart world method uri httpVersion)
      let rest ← sendRows (unread ++ world.answer).length (unread ++ world.answer)
      notes [.html "</table></body></html>".toList]
      pure rest) := by
  rw [lookup_eq world stale unread method httpVersion plain delimited]
  rfl

theorem lookup_log (plain : nul ∉ uri) (delimited : '=' ∈ uri) :
    ∃ page : List Event, (∀ e ∈ page, e.IsHtml) ∧
      (lookup world stale unread method uri httpVersion).log =
        lookupStart world method uri httpVersion ++ page := by
  rw [lookup_start plain delimited, notes_bind_log]
  refine ⟨_, ?_, rfl⟩
  refine within_bind.mpr ⟨sendRows_html _ _, fun rest _ => ?_⟩
  rw [within_notes_bind]
  exact ⟨by simp [Event.IsHtml], within_pure _⟩

def pathStart (webRoot : Str) (world : World) (uri : Str) : List Event :=
  [.write 100 (webRoot.length + 1), .write 100 ((webRoot ++ uri).length + 1)] ++
    if world.isDir (webRoot ++ uri) then [.write 100 ((filePath webRoot uri world.isDir).length + 1)] else []

theorem pathStart_filterMap {β : Type*} {f : Event → Option β}
    (skips : ∀ size needed, f (.write size needed) = none) (later : List Event) :
    (pathStart webRoot world uri ++ later).filterMap f = later.filterMap f := by
  have start : (pathStart webRoot world uri).filterMap f = [] := by
    rw [List.filterMap_eq_nil_iff, pathStart]
    split_ifs <;> simp [skips]
  rw [List.filterMap_append, start, List.nil_append]

theorem bytes_filterMap {β : Type*} {f : Event → Option β} (l : List Str) (skips : ∀ s, f (.bytes s) = none) :
    (l.map Event.bytes).filterMap f = [] := by
  rw [List.filterMap_eq_nil_iff]
  simp [skips]

theorem sendPath_found {bytes : Str} (found : world.contents (filePath webRoot uri world.isDir) = some bytes) :
    sendPath webRoot world method uri httpVersion =
      ⟨pathStart webRoot world uri ++
        (.uses httpVersion ::
          .log (logToStdOut world.clientAddr (requestOf method uri httpVersion) "200 OK".toList) ::
          .header "200 OK".toList :: (bytes.toChunks 4096).map .bytes), .ok ⟨⟩⟩ := by
  rw [sendPath, pathStart, List.append_assoc]
  simp only [found]
  rfl

theorem sendPath_missing (missing : world.contents (filePath webRoot uri world.isDir) = none) :
    sendPath webRoot world method uri httpVersion =
      ⟨pathStart webRoot world uri ++ (report world method uri httpVersion "404 Not Found".toList).log,
        .ok ⟨⟩⟩ := by
  rw [sendPath, pathStart, List.append_assoc]
  simp only [missing]
  rfl

end Logs

/-! ## What the client sees -/

def Event.sent : Event → Option Str
  | .header s => some (sendHttpHeader s)
  | .err s => some (sendErr s)
  | .html s => some (sendHtml s)
  | .bytes s => some s
  | _ => none

def Event.asked : Event → Option Str
  | .query s => some s
  | _ => none

def Event.logged : Event → Option Str
  | .log s => some s
  | _ => none

structure Shows (x : Pass Str) (reply : Reply) (rest : Str) : Prop where
  ends : x.outcome = .ok rest
  sent : x.log.filterMap Event.sent = reply.sent
  query : x.log.filterMap Event.asked = reply.query.toList
  log : (x.log.filterMap Event.logged).flatten = reply.log

section Client

variable {webRoot : Str} {world : World} {stale unread method uri httpVersion : Str}

theorem report_shows (s : Str) :
    Shows (do report world method uri (some httpVersion) s; pure unread)
      (refuse world.clientAddr ⟨method, uri, httpVersion⟩ s) unread := by
  refine ⟨rfl, rfl, rfl, ?_⟩
  exact List.append_nil _

theorem sendPath_shows :
    Shows (do sendPath webRoot world method uri (some httpVersion); pure unread)
      (sendFile webRoot world ⟨method, uri, httpVersion⟩) unread := by
  rw [sendFile]
  cases opened : world.contents (filePath webRoot uri world.isDir) with
  | some bytes =>
    rw [sendPath_found opened, mk_ok_bind_pure]
    refine ⟨rfl, ?_, ?_, ?_⟩
    · rw [pathStart_filterMap fun _ _ => rfl]
      show sendHttpHeader "200 OK".toList :: List.filterMap Event.sent (List.map Event.bytes _) = _
      rw [List.filterMap_map]
      exact congrArg _ List.filterMap_some
    · rw [pathStart_filterMap fun _ _ => rfl]
      exact bytes_filterMap _ fun _ => rfl
    · rw [pathStart_filterMap fun _ _ => rfl]
      show (_ :: List.filterMap Event.logged (List.map Event.bytes _)).flatten = _
      rw [bytes_filterMap _ fun _ => rfl]
      exact List.append_nil _
  | none =>
    have shown := @report_shows world unread method uri httpVersion "404 Not Found".toList
    rw [report_eq, mk_ok_bind_pure] at shown
    rw [sendPath_missing opened, mk_ok_bind_pure]
    refine ⟨rfl, ?_, ?_, ?_⟩
    · rw [pathStart_filterMap fun _ _ => rfl]
      exact shown.sent
    · rw [pathStart_filterMap fun _ _ => rfl]
      exact shown.query
    · rw [pathStart_filterMap fun _ _ => rfl]
      exact shown.log

theorem lookup_shows (plain : nul ∉ uri) (delimited : '=' ∈ uri) {chunks : List Str} {rest : Str}
    (read : relay (unread ++ world.answer) = some (chunks, rest)) :
    Shows (lookup world stale unread method uri (some httpVersion))
      ⟨lookupPage chunks, some (queryOf uri ++ ['\n']), chunks,
        lookupLog world.clientAddr ⟨method, uri, httpVersion⟩ (queryOf uri)⟩ rest := by
  rw [lookup_start plain delimited, sendRows_eq read, mk_ok_bind]
  refine ⟨rfl, ?_, ?_, ?_⟩
  · simp only [notes_bind_log, log_pure, List.filterMap_append, List.filterMap_flatMap, lookupPage,
      List.append_assoc]
    rfl
  · simp only [notes_bind_log, log_pure, List.filterMap_append, List.filterMap_flatMap]
    have rows : chunks.flatMap (fun temp =>
        List.filterMap Event.asked [.html "<tr><td>".toList, .html temp]) = [] :=
      List.flatMap_eq_nil_iff.mpr fun _ _ => rfl
    rw [rows]
    rfl
  · simp only [notes_bind_log, log_pure, List.filterMap_append, List.filterMap_flatMap]
    have rows : chunks.flatMap (fun temp =>
        List.filterMap Event.logged [.html "<tr><td>".toList, .html temp]) = [] :=
      List.flatMap_eq_nil_iff.mpr fun _ _ => rfl
    rw [rows]
    exact List.append_nil _

theorem answer_shows (plain : nul ∉ uri) {reply : Reply} {rest : Str}
    (handled : handle webRoot world unread ⟨method, uri, httpVersion⟩ = some (reply, rest)) :
    Shows (answer webRoot world stale unread method uri (some httpVersion)) reply rest := by
  unfold handle at handled
  unfold answer
  cases taken : route method uri with
  | notImplemented =>
    simp only [taken] at handled
    cases handled
    exact report_shows _
  | badRequest =>
    simp only [taken] at handled
    cases handled
    exact report_shows _
  | forbidden =>
    simp only [taken] at handled
    cases handled
    exact report_shows _
  | form =>
    simp only [taken] at handled
    cases handled
    exact ⟨rfl, rfl, rfl, List.append_nil _⟩
  | lookup query =>
    simp only [taken] at handled
    obtain ⟨⟨chunks, last⟩, read, whole⟩ := Option.map_eq_some_iff.mp handled
    obtain ⟨rfl, rfl⟩ := Prod.mk.inj whole
    rw [query_of_lookup taken]
    exact lookup_shows plain (delimited_of_lookup taken) read
  | ignored =>
    simp only [taken] at handled
    cases handled
    exact ⟨rfl, rfl, rfl, rfl⟩
  | file =>
    simp only [taken] at handled
    cases handled
    exact sendPath_shows

end Client

end UnixSystems.HttpServer
