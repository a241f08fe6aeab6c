import UnixSystems.RingLog
import UnixSystems.ShellModel

/-! What `parse` does to a line, without the memory of the line: the first loop finds the parts
between pipes, the second one the words of each part. Both cut up the same memory, the second
one at the pointers that the first one has stored. -/
namespace UnixSystems.ShellParse
open CStrings StrTok LoggedRuns LoggedRuns.Logged RingLog ShellModel

def parts (line : CString) : List Str := fields pipe line.chars

/-- The segments that are still in the array after the counter has wrapped around. -/
def lastParts (line : CString) : List Str :=
  (parts line).drop ((parts line).length - (parts line).length % 2 ^ 16)

/-- `parseSegment` on a string of its own. -/
def parseText (heap : Heap) (bound i : ℕ) (input : Input) (segment : Str) : Shell Input := do
  notes [.segments i]
  require (heap.segment i = true) .refused
  notes [.segment i bound]
  let input ← (fields blank segment).foldlM (fun input temp => copyWord heap i input 0 temp)
    { input with segments := Function.update input.segments i (some fun _ => .unset) }
  notes [.segments i, .argsCtr i, .argument (input.argsCtr i)]
  pure (input.setArgument i (input.argsCtr i) .null)

def parseTexts (heap : Heap) (bound : ℕ) : ℕ → List Str → Input → Shell Input
  | _, [], input => pure input
  | i, segment :: segments, input => do
    let input ← parseText heap bound i input segment
    parseTexts heap bound (i + 1) segments input

/-! ## The second loop -/

section Second

variable {heap : Heap} {bound : ℕ}

/-- A segment is parsed as if it were alone in memory, and the memory behind it stays. -/
theorem parseSegment_eq (heap : Heap) (bound i : ℕ) (input : Input) (front : Str) {segment after : Str}
    (plain : nul ∉ segment) (stop : text after = []) :
    ∃ left, left.length = segment.length ∧
      parseSegment heap bound i front.length (front ++ (segment ++ after)) input =
        (·, front ++ (left ++ after)) <$> parseText heap bound i input segment := by
  have scanned := tokenize_scanned (by decide : blank nul = false) front plain stop
  obtain ⟨left, length_eq, memory_eq, _⟩ := scanned.memory
  have cursor : Cursor.at (front ++ (segment ++ after)) front.length = ⟨front, segment ++ after⟩ := by
    simp [Cursor.at]
  have words : ∀ start : Input,
      (tokenize blank ⟨front, segment ++ after⟩).1.foldlM (fun s t => copyWord heap i s t.1 t.2) start =
        (fields blank segment).foldlM (fun input temp => copyWord heap i input 0 temp) start := by
    intro start
    rw [← scanned.fields, List.foldlM_map]
    rfl
  refine ⟨left, length_eq, ?_⟩
  rw [parseSegment, parseText, cursor]
  simp only [forTokens_eq, words, map_bind, bind_map_left, memory_eq, map_pure]

theorem parseSegments_eq (segment : ℕ → Option ℕ) {ts : List (ℕ × Str)} {front rest : Str}
    (cuts : Cuts front.length rest ts) (i : ℕ) (input : Input)
    (stored : ∀ k t, ts[k]? = some t → segment (i + k) = some t.1) :
    parseSegments heap bound segment ts.length i (front ++ rest) input =
      parseTexts heap bound i (ts.map Prod.snd) input := by
  induction ts generalizing front rest i input with
  | nil => rfl
  | cons t ts ih =>
    cases cuts with
    | @cons _ skipped token after _ plain stop later =>
      have pointer : segment i = some (front ++ skipped).length := by
        rw [List.length_append]
        exact stored 0 _ rfl
      have memory : front ++ (skipped ++ token ++ after) = front ++ skipped ++ (token ++ after) := by simp
      obtain ⟨left, length_eq, call⟩ := parseSegment_eq heap bound i input (front ++ skipped) plain stop
      rw [List.length_cons, parseSegments, pointer, memory]
      simp only [call, bind_map_left]
      rw [List.map_cons, parseTexts]
      refine bind_congr fun input => ?_
      rw [← List.append_assoc]
      refine ih ?_ (i + 1) input fun k t here => ?_
      · simpa [length_eq, Nat.add_assoc] using later
      · rw [Nat.add_right_comm, Nat.add_assoc]
        exact stored (k + 1) t (by simpa using here)

end Second

/-! ## The first loop -/

section First

def pointed (bound k n : ℕ) : List Access := (List.range' k n).map fun k => .segment (k % 2 ^ 16) bound

theorem storeSegments_eq (bound : ℕ) (ts : List (ℕ × Str)) {split : Split} {size : ℕ} {pointers : List ℕ}
    (logs : Logs (2 ^ 16) split.segment split.segCtr size pointers) :
    ∃ split' size', Logs (2 ^ 16) split'.segment split'.segCtr size' (pointers ++ ts.map Prod.fst) ∧
      ts.foldlM (fun split t => storeSegment bound split t.1 t.2) split =
        ⟨pointed bound pointers.length ts.length, .ok split'⟩ := by
  induction ts generalizing split size pointers with
  | nil => exact ⟨split, size, by simpa using logs, rfl⟩
  | cons t ts ih =>
    have here : pointed bound pointers.length (t :: ts).length =
        [.segment split.segCtr bound] ++ pointed bound (pointers ++ [t.1]).length ts.length := by
      rw [logs.index_eq, List.length_append]
      rfl
    obtain ⟨split', size', logs', call⟩ :=
      @ih ⟨Function.update split.segment split.segCtr (some t.1), (split.segCtr + 1) % 2 ^ 16⟩ _ _
        (logs.push t.1)
    refine ⟨split', size', by simpa using logs', ?_⟩
    rw [List.foldlM_cons, storeSegment, bind_assoc, here]
    simp only [pure_bind, call]
    rfl

theorem splitLine_eq (bound : ℕ) (line : CString) :
    ∃ (ts : List (ℕ × Str)) (split : Split) (size : ℕ) (c : Cursor),
      ts.map Prod.snd = parts line ∧
      Logs (2 ^ 16) split.segment split.segCtr size (ts.map Prod.fst) ∧ Cuts 0 c.memory ts ∧
      forTokens pipe (storeSegment bound) ⟨fun _ => none, 0⟩ (.start line.chars) =
        ⟨pointed bound 0 ts.length, .ok (split, c)⟩ := by
  have scanned := @tokenize_scanned pipe (by decide) [] line.chars [] line.plain rfl
  rw [List.append_nil] at scanned
  obtain ⟨left, _, memory_eq, cuts⟩ := scanned.memory
  obtain ⟨split, size, logs, stored⟩ := @storeSegments_eq bound (tokenize pipe ⟨[], line.chars⟩).1
    ⟨fun _ => none, 0⟩ 0 [] (logs_nil _ _)
  refine ⟨_, split, size, (tokenize pipe ⟨[], line.chars⟩).2, scanned.fields, logs, ?_, ?_⟩
  · rw [memory_eq]
    exact cuts
  · rw [forTokens_eq, Cursor.start, stored, map_mk_ok]
    rfl

theorem stored_last {segment : ℕ → Option ℕ} {segCtr size : ℕ} {ts : List (ℕ × Str)}
    (logs : Logs (2 ^ 16) segment segCtr size (ts.map Prod.fst)) (k : ℕ) (t : ℕ × Str)
    (here : (ts.drop (ts.length - ts.length % 2 ^ 16))[k]? = some t) : segment k = some t.1 := by
  rw [List.getElem?_drop] at here
  generalize turns : ts.length / 2 ^ 16 = q
  have start : ts.length - ts.length % 2 ^ 16 = 2 ^ 16 * q := by omega
  have inside : ts.length - ts.length % 2 ^ 16 + k < ts.length := (List.getElem?_eq_some_iff.mp here).1
  have kept := logs.kept (ts.length - ts.length % 2 ^ 16 + k) (by simpa using inside)
    (by rw [List.length_map]; omega)
  rw [List.getElem?_map, here, start, Nat.mul_add_mod, Nat.mod_eq_of_lt (by omega)] at kept
  exact kept

end First

/-! ## The whole run -/

def cleared (n : ℕ) : List Access := (List.range n).map .segments ++ (List.range n).map .argsCtr

theorem readInput_eq (heap : Heap) (line : CString) :
    readInput heap line = (do
      notes (cleared (getSegCtr line))
      notes (pointed (getSegCtr line) 0 (parts line).length)
      require (getSegCtr line = (parts line).length % 2 ^ 16) .aborted
      parseTexts heap (getSegCtr line) 0 (lastParts line)
        ⟨fun _ => none, fun _ => 0, (parts line).length % 2 ^ 16⟩) := by
  obtain ⟨ts, split, size, c, texts, logs, cuts, first⟩ := splitLine_eq (getSegCtr line) line
  have count : ts.length = (parts line).length := by rw [← texts, List.length_map]
  have counter : split.segCtr = (parts line).length % 2 ^ 16 := by
    rw [logs.index_eq, List.length_map, count]
  have later : (ts.drop (ts.length - ts.length % 2 ^ 16)).length = ts.length % 2 ^ 16 := by
    rw [List.length_drop]
    omega
  have second := fun input => @parseSegments_eq heap (getSegCtr line) split.segment
    (ts.drop (ts.length - ts.length % 2 ^ 16)) [] c.memory (cuts.drop _) 0 input fun k t here =>
      (Nat.zero_add k).symm ▸ stored_last logs k t here
  rw [later, count, List.map_drop, texts] at second
  rw [readInput, parse, first, count]
  refine bind_congr fun _ => ?_
  rw [mk_ok_bind]
  refine bind_congr fun _ => ?_
  dsimp only
  rw [counter]
  exact bind_congr fun _ => second _

/-! ## Failing memory -/

section Stop

variable (heap : Heap)

theorem stops_copyWord (i : ℕ) (input : Input) (temp : Str) :
    Stops (· ≠ .aborted) (copyWord heap i input 0 temp) (copyWord .plenty i input 0 temp) := by
  refine (Stops.refl _).bind fun _ => (Stops.refl _).bind fun _ => (Stops.refl _).bind fun _ => ?_
  refine (stops_require _ rfl ?_).bind fun _ => .refl _
  decide

theorem stops_parseText (bound i : ℕ) (input : Input) (segment : Str) :
    Stops (· ≠ .aborted) (parseText heap bound i input segment)
      (parseText .plenty bound i input segment) := by
  refine (Stops.refl _).bind fun _ => (stops_require _ rfl ?_).bind fun _ => (Stops.refl _).bind fun _ => ?_
  · decide
  · exact (Stops.foldlM (stops_copyWord heap i) _ _).bind fun _ => .refl _

theorem stops_parseTexts (bound i : ℕ) (segments : List Str) (input : Input) :
    Stops (· ≠ .aborted) (parseTexts heap bound i segments input)
      (parseTexts .plenty bound i segments input) := by
  induction segments generalizing i input with
  | nil => exact .refl _
  | cons segment segments ih => exact (stops_parseText heap bound i input segment).bind fun _ => ih _ _

/-- When `malloc` fails, the run breaks off early and is otherwise the same. -/
theorem stops_readInput (line : CString) :
    Stops (· ≠ .aborted) (readInput heap line) (readInput .plenty line) := by
  rw [readInput_eq, readInput_eq]
  exact (Stops.refl _).bind fun _ => (Stops.refl _).bind fun _ => (Stops.refl _).bind fun _ =>
    stops_parseTexts heap _ _ _ _

end Stop

end UnixSystems.ShellParse
