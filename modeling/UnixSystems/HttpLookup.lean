import UnixSystems.HttpModel

/-! Framing of the answers of the mdb-lookup server. An answer ends with an empty line; the
server looks for a chunk that is a newline, and a chunk ends at a newline or after 999
characters. -/
namespace UnixSystems.HttpLookup
open CStrings HttpModel

/-! ## Answers -/

structure Line where
  chars : Str
  nonempty : chars ≠ []
  plain : '\n' ∉ chars

/-- The lines of an answer that are meant for the client. -/
def shown (lines : List Line) : Str := lines.flatMap fun line => line.chars ++ ['\n']

def answerText (lines : List Line) : Str := shown lines ++ ['\n']

theorem answerText_cons (line : Line) (lines : List Line) (rest : Str) :
    answerText (line :: lines) ++ rest = line.chars ++ '\n' :: (answerText lines ++ rest) := by
  simp [answerText, shown]

/-! ## The reading loop -/

theorem readReply_congr (m n : ℕ) (response : Str) (enough : response.length ≤ m)
    (enough' : response.length ≤ n) : readReply m response = readReply n response := by
  have empty : ∀ k, readReply k [] = none := by
    intro k
    cases k <;> rfl
  induction m generalizing n response with
  | zero =>
    have none : response = [] := List.length_eq_zero_iff.mp (by omega)
    rw [none, empty, empty]
  | succ m ih =>
    cases n with
    | zero =>
      have none : response = [] := List.length_eq_zero_iff.mp (by omega)
      rw [none, empty, empty]
    | succ n =>
      rw [readReply, readReply]
      cases read : fgets 1000 response with
      | none => rfl
      | some result =>
        obtain ⟨temp, rest⟩ := result
        have shorter := fgets_shorter (by norm_num) read
        dsimp only
        rw [ih n rest (by omega) (by omega)]

theorem relay_eq (response : Str) :
    relay response = match fgets 1000 response with
      | none => none
      | some (temp, rest) =>
        if temp = ['\n'] then some ([], rest)
        else (relay rest).map fun (chunks, rest) => (temp :: chunks, rest) := by
  have more : relay response = readReply (response.length + 1) response :=
    readReply_congr _ _ response le_rfl (Nat.le_succ _)
  rw [more, readReply]
  cases read : fgets 1000 response with
  | none => rfl
  | some result =>
    obtain ⟨temp, rest⟩ := result
    have shorter := fgets_shorter (by norm_num) read
    dsimp only
    rw [relay, readReply_congr response.length rest.length rest (by omega) le_rfl]

theorem fgets_line (line stream : Str) (plain : '\n' ∉ line) :
    fgets 1000 (line ++ '\n' :: stream) =
      some (if 999 ≤ line.length then (line.take 999, line.drop 999 ++ '\n' :: stream)
        else (line ++ ['\n'], stream)) :=
  fgets_newline 1000 line stream plain

theorem relay_long {line : Str} (stream : Str) (plain : '\n' ∉ line) (long : 999 ≤ line.length) :
    relay (line ++ '\n' :: stream) =
      (relay (line.drop 999 ++ '\n' :: stream)).map fun (chunks, rest) =>
        (line.take 999 :: chunks, rest) := by
  have inside : line.take 999 ≠ ['\n'] := by
    intro same
    have member : '\n' ∈ line.take 999 := by simp [same]
    exact plain (List.mem_of_mem_take member)
  rw [relay_eq, fgets_line line stream plain, if_pos long]
  exact if_neg inside

theorem relay_short {line : Str} (stream : Str) (plain : '\n' ∉ line) (nonempty : line ≠ [])
    (short : line.length < 999) :
    relay (line ++ '\n' :: stream) =
      (relay stream).map fun (chunks, rest) => ((line ++ ['\n']) :: chunks, rest) := by
  have visible : line ++ ['\n'] ≠ ['\n'] := by simpa using nonempty
  rw [relay_eq, fgets_line line stream plain, if_neg (by omega)]
  exact if_neg visible

theorem relay_newline (stream : Str) : relay ('\n' :: stream) = some ([], stream) := by
  rw [relay_eq, ← List.nil_append ('\n' :: stream), fgets_line [] stream (by simp)]
  rfl

theorem relay_tail (line : Str) (plain : '\n' ∉ line) :
    ∃ (cut : List Str) (tail : Str), cut.flatten ++ tail = line ∧ tail.length = line.length % 999 ∧
      ∀ stream, relay (line ++ '\n' :: stream) =
        (relay (tail ++ '\n' :: stream)).map fun (chunks, rest) => (cut ++ chunks, rest) := by
  induction h : line.length using Nat.strong_induction_on generalizing line with
  | _ n ih =>
    by_cases long : 999 ≤ line.length
    · have rest : (line.drop 999).length = n - 999 := by rw [List.length_drop, h]
      obtain ⟨cut, tail, whole, left, relayed⟩ := ih (n - 999) (by omega) (line.drop 999)
        (fun member => plain (List.mem_of_mem_drop member)) rest
      refine ⟨line.take 999 :: cut, tail, ?_, by omega, fun stream => ?_⟩
      · rw [List.flatten_cons, List.append_assoc, whole, List.take_append_drop]
      · rw [relay_long stream plain long, relayed, Option.map_map]
        rfl
    · refine ⟨[], line, rfl, by rw [h, Nat.mod_eq_of_lt (by omega)], fun stream => ?_⟩
      simp

theorem relay_fitting (line : Str) (plain : '\n' ∉ line) (fits : ¬ 999 ∣ line.length) :
    ∃ cut : List Str, cut.flatten = line ++ ['\n'] ∧ ∀ stream, relay (line ++ '\n' :: stream) =
      (relay stream).map fun (chunks, rest) => (cut ++ chunks, rest) := by
  obtain ⟨cut, tail, whole, left, relayed⟩ := relay_tail line plain
  have inside : '\n' ∉ tail := fun member => plain (whole ▸ List.mem_append_right _ member)
  have nonempty : tail ≠ [] := by
    rintro rfl
    exact fits (Nat.dvd_of_mod_eq_zero left.symm)
  have short : tail.length < 999 := by
    rw [left]
    exact Nat.mod_lt _ (by norm_num)
  refine ⟨cut ++ [tail ++ ['\n']], ?_, fun stream => ?_⟩
  · rw [List.flatten_append, List.flatten_singleton, ← List.append_assoc, whole]
  · rw [relayed, relay_short stream inside nonempty short, Option.map_map]
    simp [Function.comp_def]

/-- Otherwise the newline is a chunk of its own and ends the answer early. -/
theorem relay_misfit (line : Str) (plain : '\n' ∉ line) (misfit : 999 ∣ line.length) :
    ∃ cut : List Str, cut.flatten = line ∧ ∀ stream,
      relay (line ++ '\n' :: stream) = some (cut, stream) := by
  obtain ⟨cut, tail, whole, left, relayed⟩ := relay_tail line plain
  obtain rfl : tail = [] := List.length_eq_zero_iff.mp (left.trans (Nat.mod_eq_zero_of_dvd misfit))
  refine ⟨cut, by simpa using whole, fun stream => ?_⟩
  rw [relayed, List.nil_append, relay_newline]
  simp

/-! ## Whole answers -/

theorem relay_answer (lines : List Line) (fits : ∀ line ∈ lines, ¬ 999 ∣ line.chars.length) :
    ∃ chunks : List Str, chunks.flatten = shown lines ∧
      ∀ stream, relay (answerText lines ++ stream) = some (chunks, stream) := by
  induction lines with
  | nil => exact ⟨[], rfl, relay_newline⟩
  | cons line lines ih =>
    obtain ⟨chunks, whole, rest⟩ := ih fun other member => fits other (by simp [member])
    obtain ⟨cut, start, relayed⟩ := relay_fitting line.chars line.plain (fits line (by simp))
    refine ⟨cut ++ chunks, ?_, fun stream => ?_⟩
    · rw [List.flatten_append, start, whole]
      rfl
    · rw [answerText_cons, relayed, rest]
      rfl

theorem relay_cut_off (lines : List Line) (misfit : ∃ line ∈ lines, 999 ∣ line.chars.length) :
    ∃ chunks unread, relay (answerText lines) = some (chunks, unread) ∧ unread ≠ [] := by
  induction lines with
  | nil => simp at misfit
  | cons line lines ih =>
    have text : answerText (line :: lines) = line.chars ++ '\n' :: answerText lines := by
      simpa using answerText_cons line lines []
    rw [text]
    by_cases here : 999 ∣ line.chars.length
    · obtain ⟨cut, _, relayed⟩ := relay_misfit line.chars line.plain here
      exact ⟨cut, answerText lines, relayed _, by simp [answerText]⟩
    · obtain ⟨other, member, there⟩ := misfit
      have later : other ∈ lines := by
        rcases List.mem_cons.mp member with rfl | later
        · exact absurd there here
        · exact later
      obtain ⟨chunks, unread, rest, left⟩ := ih ⟨other, later, there⟩
      obtain ⟨cut, _, relayed⟩ := relay_fitting line.chars line.plain here
      exact ⟨cut ++ chunks, unread, by rw [relayed, rest]; rfl, left⟩

/-! ## Sessions -/

structure Exchange where
  req : Request
  world : World
  lines : List Line
  asked : ∃ query, route req.method req.uri = .lookup query
  answered : world.answer = answerText lines

def requests (session : List Exchange) : List (Request × World) :=
  session.map fun e => (e.req, e.world)

/-- Each client gets the lines of its own answer, and each answer is read to its end. -/
def InStep (webRoot : Str) (session : List Exchange) : Prop :=
  ∀ (k : ℕ) (e : Exchange), session[k]? = some e →
    ∃ reply : Reply, (serve webRoot [] (requests session))[k]? = some (some (reply, [])) ∧
      reply.relayed.flatten = shown e.lines

theorem handle_exchange (webRoot : Str) (e : Exchange) :
    ∃ reply : List Str → Reply, (∀ chunks, (reply chunks).relayed = chunks) ∧
      handle webRoot e.world [] e.req =
        (relay (answerText e.lines)).map fun (chunks, rest) => (reply chunks, rest) := by
  obtain ⟨query, taken⟩ := e.asked
  refine ⟨fun chunks => ⟨lookupPage chunks, some (query ++ ['\n']), chunks,
    lookupLog e.world.clientAddr e.req query⟩, fun _ => rfl, ?_⟩
  simp only [handle, taken, List.nil_append, e.answered]

theorem serve_fitting (webRoot : Str) (e : Exchange) (session : List Exchange)
    (fits : ∀ line ∈ e.lines, ¬ 999 ∣ line.chars.length) :
    ∃ reply : Reply, reply.relayed.flatten = shown e.lines ∧
      serve webRoot [] (requests (e :: session)) =
        some (reply, []) :: serve webRoot [] (requests session) := by
  obtain ⟨reply, relayed, handled⟩ := handle_exchange webRoot e
  obtain ⟨chunks, whole, read⟩ := relay_answer e.lines fits
  have all : relay (answerText e.lines) = some (chunks, []) := by simpa using read []
  rw [all] at handled
  refine ⟨reply chunks, by rw [relayed, whole], ?_⟩
  rw [requests, List.map_cons, serve, handled]
  rfl

theorem serve_misfit (webRoot : Str) (e : Exchange) (session : List Exchange)
    (misfit : ∃ line ∈ e.lines, 999 ∣ line.chars.length) :
    ∃ reply unread, unread ≠ [] ∧
      (serve webRoot [] (requests (e :: session)))[0]? = some (some (reply, unread)) := by
  obtain ⟨reply, _, handled⟩ := handle_exchange webRoot e
  obtain ⟨chunks, unread, read, left⟩ := relay_cut_off e.lines misfit
  rw [read] at handled
  refine ⟨reply chunks, unread, left, ?_⟩
  rw [requests, List.map_cons, serve, handled]
  rfl

theorem inStep_cons (webRoot : Str) (e : Exchange) (session : List Exchange)
    (fits : ∀ line ∈ e.lines, ¬ 999 ∣ line.chars.length) :
    InStep webRoot (e :: session) ↔ InStep webRoot session := by
  obtain ⟨reply, whole, served⟩ := serve_fitting webRoot e session fits
  constructor
  · intro all k other found
    obtain ⟨answer, here, text⟩ := all (k + 1) other (by simpa using found)
    rw [served, List.getElem?_cons_succ] at here
    exact ⟨answer, here, text⟩
  · intro all k other found
    rw [served]
    cases k with
    | zero =>
      obtain rfl : e = other := by simpa using found
      exact ⟨reply, rfl, whole⟩
    | succ k => exact all k other (by simpa using found)

theorem inStep_iff (webRoot : Str) (session : List Exchange) :
    InStep webRoot session ↔
      ∀ e ∈ session, ∀ line ∈ e.lines, ¬ 999 ∣ line.chars.length := by
  induction session with
  | nil => simp [InStep]
  | cons e session ih =>
    by_cases fits : ∀ line ∈ e.lines, ¬ 999 ∣ line.chars.length
    · rw [inStep_cons webRoot e session fits, ih, List.forall_mem_cons]
      exact (and_iff_right fits).symm
    · refine iff_of_false (fun all => ?_) fun all => fits (all e (by simp))
      push Not at fits
      obtain ⟨reply, unread, left, served⟩ := serve_misfit webRoot e session fits
      obtain ⟨answer, here, _⟩ := all 0 e rfl
      rw [served] at here
      exact left (congrArg Prod.snd (Option.some.inj (Option.some.inj here)))

theorem newline_not_mem_replicate (n : ℕ) : '\n' ∉ List.replicate n 'a' := fun member =>
  absurd (List.eq_of_mem_replicate member) (by decide)

def letters (n : ℕ) : Line where
  chars := List.replicate (n + 1) 'a'
  nonempty := List.cons_ne_nil 'a' (List.replicate n 'a')
  plain := newline_not_mem_replicate (n + 1)

theorem route_lookup : route "GET".toList "/mdb-lookup?key=a".toList = .lookup ['a'] := by decide

def longExchange : Exchange where
  req := ⟨"GET".toList, "/mdb-lookup?key=a".toList, "HTTP/1.0".toList⟩
  world := ⟨answerText [letters 998], fun _ => false, fun _ => none, []⟩
  lines := [letters 998]
  asked := ⟨['a'], route_lookup⟩
  answered := rfl

theorem relay_letters : relay (answerText [letters 998]) = some ([List.replicate 999 'a'], ['\n']) := by
  have long : 999 ≤ (List.replicate 999 'a').length := by rw [List.length_replicate]
  have text : answerText [letters 998] = List.replicate 999 'a' ++ '\n' :: ['\n'] :=
    (List.append_nil _).symm.trans (answerText_cons (letters 998) [] [])
  rw [text, relay_long ['\n'] (newline_not_mem_replicate 999) long, List.drop_replicate,
    List.take_replicate]
  exact congrArg _ (relay_newline ['\n'])

/-- The first client misses its newline, and the end of its answer is left to the second. -/
theorem longExchange_drifts :
    (∃ reply : Reply, (serve [] [] (requests [longExchange, longExchange]))[0]? =
        some (some (reply, ['\n'])) ∧ reply.relayed = [List.replicate 999 'a']) ∧
      ¬ InStep [] [longExchange, longExchange] := by
  obtain ⟨reply, relayed, handled⟩ := handle_exchange [] longExchange
  have read : handle [] longExchange.world [] longExchange.req =
      some (reply [List.replicate 999 'a'], ['\n']) := handled.trans (congrArg _ relay_letters)
  have first : (serve [] [] (requests [longExchange, longExchange]))[0]? =
      some (some (reply [List.replicate 999 'a'], ['\n'])) := by
    rw [requests, List.map_cons, serve, read]
    rfl
  refine ⟨⟨_, first, relayed _⟩, fun all => ?_⟩
  obtain ⟨answer, here, _⟩ := all 0 longExchange rfl
  rw [first] at here
  exact List.cons_ne_nil _ _ (congrArg Prod.snd (Option.some.inj (Option.some.inj here)))

end UnixSystems.HttpLookup
