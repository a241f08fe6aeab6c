import UnixSystems.HttpServer

/-! What holds of each pass of the http server: which requests get a status line, which request
lines it survives, and which keys it hands on. -/
namespace UnixSystems.HttpAnswers
open CStrings StrTok LoggedRuns LoggedRuns.Logged HttpModel HttpServer

theorem nul_not_mem_uri {reqBuff method uri : Str} {more : List Str}
    (split : fields separator (text reqBuff) = method :: uri :: more) : nul ∉ uri := by
  have part : uri ∈ fields separator (text reqBuff) := by simp [split]
  exact fun member => nul_not_mem_text reqBuff ((mem_fields part).2 nul member)

/-! ## Status lines -/

section Status

variable {webRoot : Str} {world : World} {stale unread method uri : Str} {httpVersion : Option Str}

def Event.status : Event → Option Str
  | .header s => some s
  | _ => none

def statuses : List Str :=
  ["501 Not Implemented".toList, "400 Bad Request".toList, "403 Forbidden".toList, "200 OK".toList,
    "404 Not Found".toList]

def OneStatusLine (x : Pass Str) : Prop := ∃ s ∈ statuses, x.log.filterMap Event.status = [s]

theorem html_filterMap {β : Type*} {f : Event → Option β} {page : List Event} (only : ∀ e ∈ page, e.IsHtml)
    (skips : ∀ s, f (.html s) = none) : page.filterMap f = [] := by
  rw [List.filterMap_eq_nil_iff]
  intro e member
  obtain ⟨s, rfl⟩ := (only e member).eq_html
  exact skips s

theorem report_status (s : Str) (known : s ∈ statuses) :
    OneStatusLine (do report world method uri httpVersion s; pure unread) := ⟨s, known, rfl⟩

theorem sendPath_status :
    OneStatusLine (do sendPath webRoot world method uri httpVersion; pure unread) := by
  cases opened : world.contents (filePath webRoot uri world.isDir) with
  | some bytes =>
    refine ⟨"200 OK".toList, by decide, ?_⟩
    rw [sendPath_found opened, mk_ok_bind_pure, pathStart_filterMap fun _ _ => rfl]
    show "200 OK".toList :: List.filterMap Event.status (List.map Event.bytes _) = _
    rw [bytes_filterMap _ fun _ => rfl]
  | none =>
    refine ⟨"404 Not Found".toList, by decide, ?_⟩
    rw [sendPath_missing opened, mk_ok_bind_pure, pathStart_filterMap fun _ _ => rfl]
    rfl

theorem lookup_status (plain : nul ∉ uri) (delimited : '=' ∈ uri) :
    OneStatusLine (lookup world stale unread method uri httpVersion) := by
  obtain ⟨page, only, log⟩ := @lookup_log world stale unread method uri httpVersion plain delimited
  refine ⟨"200 OK".toList, by decide, ?_⟩
  rw [log, List.filterMap_append, html_filterMap only fun _ => rfl]
  rfl

theorem answer_status (plain : nul ∉ uri) :
    OneStatusLine (answer webRoot world stale unread method uri httpVersion) ↔ route method uri ≠ .ignored := by
  unfold answer
  cases taken : route method uri with
  | notImplemented => exact iff_of_true (report_status _ (by decide)) (by simp)
  | badRequest => exact iff_of_true (report_status _ (by decide)) (by simp)
  | forbidden => exact iff_of_true (report_status _ (by decide)) (by simp)
  | form => exact iff_of_true ⟨"200 OK".toList, by decide, rfl⟩ (by simp)
  | lookup query => exact iff_of_true (lookup_status plain (delimited_of_lookup taken)) (by simp)
  | ignored => exact iff_of_false (fun one => by simp [OneStatusLine] at one) (by simp)
  | file => exact iff_of_true sendPath_status (by simp)

theorem route_ignored_iff (method uri : Str) :
    route method uri = .ignored ↔
      method = "GET".toList ∧ uri.head? = some '/' ∧ climbs uri = false ∧ lookupKey <:+: uri ∧
        ¬ lookupKey <+: uri := by
  have other : lookupKey <:+: uri → uri ≠ lookupUri := by
    rintro inside rfl
    exact absurd inside.length_le (by decide)
  constructor
  · intro taken
    unfold route at taken
    split_ifs at taken with get slash up _ inside begins
    exact ⟨not_not.mp get, not_not.mp slash, Bool.eq_false_iff.mpr up, (strstr_isSome_iff uri lookupKey).mp inside,
      fun front => begins (List.isPrefixOf_iff_prefix.mpr front)⟩
  · rintro ⟨get, slash, quiet, inside, late⟩
    have begins : ¬ lookupKey.isPrefixOf uri = true := fun front => late (List.isPrefixOf_iff_prefix.mp front)
    rw [route, if_neg (not_not.mpr get), if_neg (not_not.mpr slash), if_neg (Bool.eq_false_iff.mp quiet),
      if_neg (other inside), if_pos ((strstr_isSome_iff uri lookupKey).mpr inside), if_neg begins]

theorem oneStatusLine_iff (webRoot : Str) (world : World) (stale unread : Str)
    {reqBuff method uri httpVersion : Str} {more : List Str}
    (split : fields separator (text reqBuff) = method :: uri :: httpVersion :: more) :
    OneStatusLine (pass webRoot world stale unread reqBuff) ↔
      ¬ (method = "GET".toList ∧ uri.head? = some '/' ∧ climbs uri = false ∧ lookupKey <:+: uri ∧
        ¬ lookupKey <+: uri) := by
  have later := @answer_status webRoot world stale unread method uri (some httpVersion) (nul_not_mem_uri split)
  rw [← route_ignored_iff, ← Ne, ← later, pass_eq split]
  rfl

def noWorld : World := ⟨[], fun _ => false, fun _ => none, []⟩

theorem oneStatusLine_iff_missing : OneStatusLine (pass [] noWorld [] [] "GET /a HTTP/1.0\r\n".toList) := by
  have split : fields separator (text "GET /a HTTP/1.0\r\n".toList) =
      ["GET".toList, "/a".toList, "HTTP/1.0".toList] := by decide
  have taken : route "GET".toList "/a".toList ≠ .ignored := by decide
  exact (oneStatusLine_iff [] noWorld [] [] split).mpr fun ignored => taken ((route_ignored_iff _ _).mpr ignored)

theorem misplaced_key_ignored :
    (pass [] noWorld [] [] "GET /a/mdb-lookup?key=b HTTP/1.0\r\n".toList).log.filterMap Event.sent = [] ∧
      ¬ OneStatusLine (pass [] noWorld [] [] "GET /a/mdb-lookup?key=b HTTP/1.0\r\n".toList) := by
  have split : fields separator (text "GET /a/mdb-lookup?key=b HTTP/1.0\r\n".toList) =
      ["GET".toList, "/a/mdb-lookup?key=b".toList, "HTTP/1.0".toList] := by decide
  have taken : route "GET".toList "/a/mdb-lookup?key=b".toList = .ignored := by decide
  rw [pass_ignored split taken]
  refine ⟨rfl, fun one => ?_⟩
  obtain ⟨s, _, sent⟩ := one
  exact List.cons_ne_nil s [] sent.symm

end Status

/-! ## Missing tokens and full buffers -/

section Buffers

variable {webRoot : Str} {world : World} {stale unread method uri : Str} {httpVersion : Option Str}

/-- No token is missing, and nothing is written past the end of its buffer. -/
def Safe : Event → Prop
  | .uses token => token.isSome
  | .write size needed => needed ≤ size
  | _ => True

theorem report_safe (s : Str) :
    Within Safe (do report world method uri httpVersion s; pure unread) ↔ httpVersion.isSome := by
  rw [report_eq, mk_ok_bind_pure]
  simp [Within, Safe]

theorem lookup_safe (plain : nul ∉ uri) (delimited : '=' ∈ uri) (short : uri.length < 300) :
    Within Safe (lookup world stale unread method uri httpVersion) ↔ httpVersion.isSome := by
  obtain ⟨page, only, log⟩ := @lookup_log world stale unread method uri httpVersion plain delimited
  have rest : ∀ e ∈ page, Safe e := by
    intro e member
    obtain ⟨s, rfl⟩ := (only e member).eq_html
    trivial
  rw [Within, log, List.forall_mem_append, and_iff_left rest]
  simp [lookupStart, Safe, Nat.succ_le_iff.mpr short]

theorem length_filePath_ge (webRoot uri : Str) (isDir : Str → Bool) :
    (webRoot ++ uri).length ≤ (filePath webRoot uri isDir).length := by
  unfold filePath
  dsimp only
  split_ifs <;> simp

theorem pathStart_safe :
    (∀ e ∈ pathStart webRoot world uri, Safe e) ↔ (filePath webRoot uri world.isDir).length < 100 := by
  have longer := length_filePath_ge webRoot uri world.isDir
  rw [List.length_append] at longer
  rw [pathStart]
  split_ifs with dir
  · simp only [List.cons_append, List.nil_append, List.forall_mem_cons, List.not_mem_nil, false_imp_iff,
      implies_true, and_true, Safe, List.length_append]
    omega
  · have same : filePath webRoot uri world.isDir = webRoot ++ uri := if_neg dir
    simp only [List.append_nil, List.forall_mem_cons, List.not_mem_nil, false_imp_iff, implies_true, and_true, Safe,
      same, List.length_append]
    omega

theorem sendPath_safe :
    Within Safe (do sendPath webRoot world method uri httpVersion; pure unread) ↔
      httpVersion.isSome ∧ (filePath webRoot uri world.isDir).length < 100 := by
  cases opened : world.contents (filePath webRoot uri world.isDir) with
  | some bytes =>
    rw [sendPath_found opened, mk_ok_bind_pure, Within, List.forall_mem_append, pathStart_safe, and_comm]
    simp [Safe]
  | none =>
    rw [sendPath_missing opened, mk_ok_bind_pure, Within, List.forall_mem_append, pathStart_safe, and_comm,
      report_eq]
    simp [Safe]

theorem answer_safe (plain : nul ∉ uri) (short : uri.length < 300) :
    Within Safe (answer webRoot world stale unread method uri httpVersion) ↔
      (route method uri ≠ .ignored → httpVersion.isSome) ∧
        (route method uri = .file → (filePath webRoot uri world.isDir).length < 100) := by
  unfold answer
  cases taken : route method uri with
  | notImplemented => simpa using report_safe _
  | badRequest => simpa using report_safe _
  | forbidden => simpa using report_safe _
  | form =>
    dsimp only
    rw [sendForm_eq]
    simp [Within, Safe]
  | lookup query => simpa using lookup_safe plain (delimited_of_lookup taken) short
  | ignored => simp
  | file => simpa using sendPath_safe

theorem safe_iff (webRoot : Str) (world : World) (stale unread reqBuff : Str) :
    Within Safe (pass webRoot world stale unread reqBuff) ↔
      ∃ method uri more, fields separator (text reqBuff) = method :: uri :: more ∧ uri.length < 300 ∧
        (route method uri ≠ .ignored → more ≠ []) ∧
        (route method uri = .file → (filePath webRoot uri world.isDir).length < 100) := by
  rcases split : fields separator (text reqBuff) with _ | ⟨method, _ | ⟨uri, more⟩⟩
  · rw [pass_missing (by simp [split])]
    simp [Within, Safe]
  · rw [pass_missing (by simp [split])]
    simp [Within, Safe]
  · have later := @answer_safe webRoot world stale unread method uri more.head? (nul_not_mem_uri split)
    rw [pass_eq split, within_notes_bind]
    simp only [List.forall_mem_cons, List.not_mem_nil, false_imp_iff, implies_true, Safe, Option.isSome_some,
      and_true, true_and, Nat.succ_le_iff, List.cons.injEq]
    constructor
    · rintro ⟨short, safe⟩
      obtain ⟨version, path⟩ := (later short).mp safe
      exact ⟨method, uri, more, ⟨rfl, rfl, rfl⟩, short, fun taken => by simpa using version taken, path⟩
    · rintro ⟨_, _, _, ⟨rfl, rfl, rfl⟩, short, version, path⟩
      exact ⟨short, (later short).mpr ⟨fun taken => by simpa using version taken, path⟩⟩

theorem blank_line_crashes :
    (pass [] noWorld [] [] ['\n']).outcome = .error .crashed ∧ ¬ Within Safe (pass [] noWorld [] [] ['\n']) := by
  rw [pass_missing (by decide)]
  exact ⟨rfl, fun safe => absurd (safe (.uses none) (by simp)) (by simp [Safe])⟩

end Buffers

/-! ## Keys -/

section Keys

variable {webRoot : Str} {world : World} {stale unread : Str}

/-- The key is sent to the mdb-lookup server with a newline, and logged with the request. -/
structure Forwards (x : Pass Str) (world : World) (req : Request) (key : Str) : Prop where
  query : x.log.filterMap Event.asked = [key ++ ['\n']]
  log : x.log.filterMap Event.logged = [lookupLog world.clientAddr req key]

theorem route_lookup {key : Str} (quiet : climbs (lookupKey ++ key) = false) :
    route "GET".toList (lookupKey ++ key) = .lookup (queryOf (lookupKey ++ key)) := by
  have front : lookupKey <+: lookupKey ++ key := List.prefix_append _ _
  have other : lookupKey ++ key ≠ lookupUri := by
    intro same
    have shorter : lookupUri.length < lookupKey.length := by decide
    have lengths := congrArg List.length same
    rw [List.length_append] at lengths
    omega
  have slash : (lookupKey ++ key).head? = some '/' := rfl
  rw [route, if_neg (not_not.mpr rfl), if_neg (not_not.mpr slash), if_neg (Bool.eq_false_iff.mp quiet),
    if_neg other, if_pos ((strstr_isSome_iff _ _).mpr front.isInfix),
    if_pos (List.isPrefixOf_iff_prefix.mpr front)]

theorem queryOf_append (front query : Str) (last : '=' ∉ query) : queryOf (front ++ '=' :: query) = query := by
  rw [queryOf, strrchr_append front query '=' last]
  rfl

theorem queryOf_lookupKey (key : Str) : queryOf (lookupKey ++ key) = key ↔ '=' ∉ key := by
  have delimiter : lookupKey = "/mdb-lookup?key".toList ++ ['='] := by decide
  constructor
  · intro whole member
    obtain ⟨front, query, rfl, last⟩ := exists_last member
    rw [← List.append_assoc, queryOf_append _ query last] at whole
    have lengths := congrArg List.length whole
    rw [List.length_append, List.length_cons] at lengths
    omega
  · intro absent
    rw [delimiter, List.append_assoc, List.singleton_append, queryOf_append _ key absent]

theorem lookup_filterMap {β : Type*} {f : Event → Option β} {reqBuff key : Str} {more : List Str}
    (split : fields separator (text reqBuff) = "GET".toList :: (lookupKey ++ key) :: more)
    (quiet : climbs (lookupKey ++ key) = false) (skips : ∀ s, f (.html s) = none) :
    (pass webRoot world stale unread reqBuff).log.filterMap f =
      (.uses (some (lookupKey ++ key)) :: .write 300 ((lookupKey ++ key).length + 1) ::
        .uses (some "GET".toList) :: lookupStart world "GET".toList (lookupKey ++ key) more.head?).filterMap f := by
  have delimited : '=' ∈ lookupKey ++ key := List.mem_append_left key (by decide)
  have plain := nul_not_mem_uri split
  obtain ⟨page, only, log⟩ := @lookup_log world stale unread "GET".toList _ more.head? plain delimited
  rw [pass_eq split, answer, route_lookup quiet, notes_bind_log, log, ← List.append_assoc, List.filterMap_append,
    html_filterMap only skips, List.append_nil]
  rfl

theorem forwards_iff (webRoot : Str) (world : World) (stale unread : Str) {reqBuff key : Str} {more : List Str}
    (split : fields separator (text reqBuff) = "GET".toList :: (lookupKey ++ key) :: more)
    (quiet : climbs (lookupKey ++ key) = false) :
    Forwards (pass webRoot world stale unread reqBuff) world
        (requestOf "GET".toList (lookupKey ++ key) more.head?) key ↔ '=' ∉ key := by
  have query : (pass webRoot world stale unread reqBuff).log.filterMap Event.asked =
      [queryOf (lookupKey ++ key) ++ ['\n']] := lookup_filterMap split quiet fun _ => rfl
  have line : (pass webRoot world stale unread reqBuff).log.filterMap Event.logged =
      [lookupLog world.clientAddr (requestOf "GET".toList (lookupKey ++ key) more.head?)
        (queryOf (lookupKey ++ key))] := lookup_filterMap split quiet fun _ => rfl
  rw [← queryOf_lookupKey]
  constructor
  · intro forwards
    have same := query.symm.trans forwards.query
    simpa using same
  · intro whole
    rw [whole] at query line
    exact ⟨query, line⟩

theorem forwards_iff_plain :
    Forwards (pass [] noWorld [] [] "GET /mdb-lookup?key=a HTTP/1.0\r\n".toList) noWorld
      (requestOf "GET".toList (lookupKey ++ ['a']) (some "HTTP/1.0".toList)) ['a'] := by
  have split : fields separator (text "GET /mdb-lookup?key=a HTTP/1.0\r\n".toList) =
      "GET".toList :: (lookupKey ++ ['a']) :: ["HTTP/1.0".toList] := by decide
  exact (forwards_iff [] noWorld [] [] split (by decide)).mpr (by decide)

/-- Of the key `a=b`, only `b` is looked up. -/
theorem key_cut :
    (pass [] noWorld [] [] "GET /mdb-lookup?key=a=b HTTP/1.0\r\n".toList).log.filterMap Event.asked = [['b', '\n']] ∧
      ¬ Forwards (pass [] noWorld [] [] "GET /mdb-lookup?key=a=b HTTP/1.0\r\n".toList) noWorld
        ⟨"GET".toList, "/mdb-lookup?key=a=b".toList, "HTTP/1.0".toList⟩ ['a', '=', 'b'] := by
  have split : fields separator (text "GET /mdb-lookup?key=a=b HTTP/1.0\r\n".toList) =
      ["GET".toList, "/mdb-lookup?key=a=b".toList, "HTTP/1.0".toList] := by decide
  have asked : (pass [] noWorld [] [] "GET /mdb-lookup?key=a=b HTTP/1.0\r\n".toList).log.filterMap Event.asked =
      [['b', '\n']] := by
    rw [pass_eq split]
    decide
  exact ⟨asked, fun forwards => absurd (asked.symm.trans forwards.query) (by decide)⟩

end Keys

end UnixSystems.HttpAnswers
