import UnixSystems.ShellArguments

/-! What becomes of a line that is typed: which accesses stay in range, when the two counts of its
segments agree and the shell survives, and when every segment has a command. -/
namespace UnixSystems.ShellLines
open CStrings StrTok LoggedRuns LoggedRuns.Logged ShellModel ShellParse ShellArguments

/-! ## Counting segments -/

theorem countPipes_eq (s : Str) {res : ℕ} (small : res < 2 ^ 16) :
    countPipes s res = (res + s.countP pipe) % 2 ^ 16 := by
  induction s generalizing res with
  | nil => rw [countPipes, List.countP_nil, Nat.add_zero, Nat.mod_eq_of_lt small]
  | cons c s ih =>
    rw [countPipes, List.countP_cons]
    by_cases separates : c = '|'
    · rw [if_pos separates, ih (Nat.mod_lt _ (by decide)), if_pos (by simpa [pipe] using separates)]
      omega
    · rw [if_neg separates, ih small, if_neg (by simpa [pipe] using separates), Nat.add_zero]

theorem getSegCtr_eq (line : CString) : getSegCtr line = (line.chars.splitOnP pipe).length % 2 ^ 16 := by
  rw [getSegCtr, countPipes_eq _ (by decide), length_splitOnP]
  omega

theorem getSegCtr_lt (line : CString) : getSegCtr line < 2 ^ 16 := Nat.mod_lt _ (by decide)

theorem length_tokens (line : CString) :
    (tokenize pipe (.start line.chars)).1.length = (parts line).length := by
  have scanned := @tokenize_scanned pipe (by decide) [] line.chars [] line.plain rfl
  rw [List.append_nil] at scanned
  rw [parts, ← scanned.fields, List.length_map]
  rfl

theorem lastParts_eq {line : CString} (few : (parts line).length < 2 ^ 16) : lastParts line = parts line := by
  rw [lastParts, Nat.mod_eq_of_lt few, Nat.sub_self, List.drop_zero]

theorem readInput_outcome (line : CString) :
    (readInput .plenty line).outcome =
      if getSegCtr line = (parts line).length % 2 ^ 16 ∧ ∀ s ∈ lastParts line, (words s).length ≤ argsMax + 1 then
        .ok (inputOf ((lastParts line).map words))
      else .error .aborted := by
  have run := @parseTexts_outcome [] ((parts line).length % 2 ^ 16) (getSegCtr line) (lastParts line)
  have count : (parts line).length % 2 ^ 16 = ((lastParts line).map words).length := by
    rw [List.length_map, lastParts, List.length_drop]
    omega
  rw [readInput_eq, notes_bind_outcome, notes_bind_outcome, require_bind]
  by_cases agree : getSegCtr line = (parts line).length % 2 ^ 16
  · simp only [agree, true_and, if_true]
    rw [agree] at run
    rw [inputOf, ← count]
    exact run
  · simp only [agree, false_and, if_false]
    rfl

/-! ## Staying in range -/

section Range

theorem cleared_inRange (n : ℕ) : (∀ a ∈ cleared n, InRange a) ↔ n ≤ argsMax := by
  simp only [cleared, List.forall_mem_append, List.forall_mem_map, List.mem_range, InRange, and_self]
  constructor
  · intro all
    by_contra many
    exact absurd (all argsMax (by omega)) (lt_irrefl _)
  · exact fun few i inside => inside.trans_le few

theorem pointed_inRange {bound : ℕ} (small : bound < 2 ^ 16) (n : ℕ) :
    (∀ a ∈ pointed bound 0 n, InRange a) ↔ n ≤ bound := by
  simp only [pointed, List.forall_mem_map, List.mem_range'_1, InRange]
  constructor
  · intro all
    by_contra many
    have last := all bound (by omega)
    rw [Nat.mod_eq_of_lt small] at last
    exact absurd last (lt_irrefl _)
  · intro few k inside
    exact (Nat.mod_le _ _).trans_lt (by omega)

def Fits (line : CString) : Prop :=
  (parts line).length ≤ argsMax ∧
    ∀ s ∈ parts line, (words s).length < argsMax ∧ ∀ temp ∈ fields blank s, temp.length < 65535

theorem readInput_within {heap : Heap} (granting : Granting heap) {line : CString}
    (agree : getSegCtr line = (parts line).length % 2 ^ 16) :
    Within InRange (readInput heap line) ↔ Fits line := by
  rw [readInput_eq, within_notes_bind, within_notes_bind, require_bind, if_pos agree, cleared_inRange,
    pointed_inRange (getSegCtr_lt line), Fits]
  by_cases few : (parts line).length ≤ argsMax
  · have low : (parts line).length < 2 ^ 16 := few.trans_lt (by decide)
    rw [Nat.mod_eq_of_lt low] at agree
    rw [agree, Nat.mod_eq_of_lt low, lastParts_eq low]
    have range := @parseTexts_within heap [] (parts line).length (parts line).length granting (parts line)
      (by simpa using few) (by simp)
    simp only [few, le_refl, true_and]
    exact range
  · have many : ¬ (getSegCtr line ≤ argsMax ∧ (parts line).length ≤ getSegCtr line) := by omega
    tauto

theorem plenty_granting : Granting .plenty := ⟨fun _ => rfl, fun _ _ _ => rfl⟩

/-- The two counts agree, and whichever calls of `malloc` succeed, no assertion fails and no access
leaves its array. -/
def SegmentsAgree (line : CString) : Prop :=
  (tokenize pipe (.start line.chars)).1.length = getSegCtr line ∧
    ∀ heap, (readInput heap line).outcome ≠ .error .aborted ∧ Within InRange (readInput heap line)

/-- With at most 32 parts between pipes, the first condition says that none of them is empty. -/
theorem segmentsAgree_iff (line : CString) :
    SegmentsAgree line ↔
      (line.chars.splitOnP pipe).count [] + (line.chars.splitOnP pipe).length % 2 ^ 16 =
          (line.chars.splitOnP pipe).length ∧ Fits line := by
  have total : (parts line).length + (line.chars.splitOnP pipe).count [] = _ := length_fields_add_count line.chars
  have counts : (line.chars.splitOnP pipe).count [] + (line.chars.splitOnP pipe).length % 2 ^ 16 =
      (line.chars.splitOnP pipe).length ↔ (parts line).length = getSegCtr line := by
    rw [getSegCtr_eq]
    omega
  rw [SegmentsAgree, length_tokens, counts]
  refine and_congr_right fun agree => ?_
  have few : (parts line).length < 2 ^ 16 := agree ▸ getSegCtr_lt line
  have modulo : getSegCtr line = (parts line).length % 2 ^ 16 := by rw [Nat.mod_eq_of_lt few, agree]
  constructor
  · intro passes
    exact (readInput_within plenty_granting modulo).mp (passes .plenty).2
  · intro fits heap
    have stops := stops_readInput heap line
    refine ⟨fun aborted => ?_, stops.within ((readInput_within plenty_granting modulo).mpr fits)⟩
    have short : ∀ s ∈ lastParts line, (words s).length ≤ argsMax + 1 := by
      rw [lastParts_eq few]
      exact fun s member => ((fits.2 s member).1.trans (Nat.lt_succ_self _)).le
    rw [stops.outcome_error (by simp) aborted, readInput_outcome, if_pos ⟨modulo, short⟩] at aborted
    cases aborted

theorem empty_line_aborts :
    (readInput .plenty ⟨[], by decide⟩).outcome = .error .aborted ∧ ¬ SegmentsAgree ⟨[], by decide⟩ := by
  have aborted : (readInput .plenty ⟨[], by decide⟩).outcome = .error .aborted := by
    rw [readInput_outcome]
    exact if_neg fun both => absurd both.1 (by decide)
  exact ⟨aborted, fun agree => (agree.2 .plenty).1 aborted⟩

def tight : Heap := ⟨fun _ => true, fun _ j => decide (j < argsMax)⟩

theorem tight_granting : Granting tight := ⟨fun _ => rfl, fun _ _ inside => decide_eq_true inside⟩

def Counted (input : Input) : Prop := ∀ i, input.argsCtr i ≤ argsMax

theorem copyWord_tight {input : Input} (counted : Counted input) (i : ℕ) (temp : Str) :
    Ends Counted (· ≠ .aborted) (copyWord tight i input 0 temp) := by
  refine (ends_notes _).bind fun _ _ => (ends_require _ fun fails => absurd (counted i) fails).bind fun _ _ => ?_
  refine (ends_notes _).bind fun _ _ => (ends_require _ fun _ => by decide).bind fun _ granted => ?_
  refine (ends_notes _).bind fun _ _ => ends_of_ok rfl fun k => ?_
  have room : input.argsCtr i < argsMax := of_decide_eq_true granted
  show Function.update input.argsCtr i ((input.argsCtr i + 1) % 2 ^ 16) k ≤ argsMax
  by_cases here : k = i
  · rw [here, Function.update_self]
    exact (Nat.mod_le _ _).trans room
  · rw [Function.update_of_ne here]
    exact counted k

theorem parseText_tight {input : Input} (counted : Counted input) (bound i : ℕ) (segment : Str) :
    Ends Counted (· ≠ .aborted) (parseText tight bound i input segment) := by
  refine (ends_notes _).bind fun _ _ => (ends_require _ fun _ => by decide).bind fun _ _ => ?_
  refine (ends_notes _).bind fun _ _ => ?_
  refine (Ends.foldlM (fun _ temp kept => copyWord_tight kept i temp) _ ?_).bind fun _ kept => ?_
  · exact counted
  · exact (ends_notes _).bind fun _ _ => ends_of_ok rfl kept

theorem parseTexts_tight {input : Input} (counted : Counted input) (bound i : ℕ) (segments : List Str) :
    Ends Counted (· ≠ .aborted) (parseTexts tight bound i segments input) := by
  induction segments generalizing i input with
  | nil => exact ends_of_ok rfl counted
  | cons segment segments ih => exact (parseText_tight counted bound i segment).bind fun _ kept => ih kept _

theorem readInput_tight {line : CString} (agree : getSegCtr line = (parts line).length % 2 ^ 16) :
    (readInput tight line).outcome ≠ .error .aborted := by
  rw [readInput_eq, notes_bind_outcome, notes_bind_outcome, require_bind, if_pos agree]
  intro aborted
  exact (parseTexts_tight (fun _ => Nat.zero_le _) _ _ _).reason _ aborted rfl

/-- Whichever calls of `malloc` succeed, a run that passes the assertions stays in range. -/
def StaysWithin (line : CString) : Prop :=
  ∀ heap, (readInput heap line).outcome ≠ .error .aborted → Within InRange (readInput heap line)

theorem staysWithin_iff (line : CString) :
    StaysWithin line ↔ (getSegCtr line = (parts line).length % 2 ^ 16 → Fits line) := by
  constructor
  · intro within agree
    exact (readInput_within tight_granting agree).mp (within tight (readInput_tight agree))
  · intro fits heap passes
    by_cases agree : getSegCtr line = (parts line).length % 2 ^ 16
    · refine (stops_readInput heap line).within ?_
      exact (readInput_within plenty_granting agree).mpr (fits agree)
    · refine absurd ?_ passes
      rw [readInput_eq, notes_bind_outcome, notes_bind_outcome, require_bind, if_neg agree]
      rfl

/-- Its words fill the argument array, so that the null at their end comes after it. -/
def thirtyTwoWords : CString := ⟨(List.replicate 32 ['a', ' ']).flatten, by decide⟩

theorem thirtyTwoWords_overrun :
    (readInput .plenty thirtyTwoWords).outcome = .ok (inputOf [List.replicate 32 ⟨['a'], by decide⟩]) ∧
      ¬ StaysWithin thirtyTwoWords := by
  have run := readInput_outcome thirtyTwoWords
  have stored : (lastParts thirtyTwoWords).map words = [List.replicate 32 ⟨['a'], by decide⟩] := by decide
  have agree : getSegCtr thirtyTwoWords = (parts thirtyTwoWords).length % 2 ^ 16 := by decide
  have passes : ∀ s ∈ lastParts thirtyTwoWords, (words s).length ≤ argsMax + 1 := by decide
  rw [if_pos ⟨agree, passes⟩, stored] at run
  refine ⟨run, fun within => ?_⟩
  have fits := (readInput_within plenty_granting agree).mp (within .plenty (by simp [run]))
  have many : ¬ ∀ s ∈ parts thirtyTwoWords, (words s).length < argsMax := by decide
  exact many fun s member => (fits.2 s member).1

end Range

/-! ## Command words -/

def CommandWords (input : Input) : Prop :=
  ∀ i < input.segCtr, 1 ≤ input.argsCtr i ∧ ∃ w, input.command i = some w ∧ w.chars ≠ []

theorem read_chars_ne_nil {s temp : Str} (plain : nul ∉ s) (part : temp ∈ fields blank s) :
    (CString.read temp).chars ≠ [] := by
  have inside := mem_fields part
  have seen : text temp = temp := text_of_plain fun member => plain (inside.2 nul member)
  show text temp ≠ []
  exact seen.symm ▸ inside.1

theorem words_head {s : Str} (plain : nul ∉ s) :
    (1 ≤ (words s).length ∧ ∃ w, (words s).head? = some w ∧ w.chars ≠ []) ↔ ∃ c ∈ s, c ≠ ' ' := by
  have blanks := @fields_eq_nil_iff blank s
  have nonempty := @read_chars_ne_nil s
  rw [words]
  cases split : fields blank s with
  | nil =>
    have all : ∀ c ∈ s, c = ' ' := by simpa [blank] using blanks.mp split
    simpa using all
  | cons temp temps =>
    have first := nonempty plain (split ▸ List.mem_cons_self)
    have other : ∃ c ∈ s, c ≠ ' ' := by
      by_contra none_other
      push Not at none_other
      rw [blanks.mpr (by simpa [blank] using none_other)] at split
      exact absurd split.symm (List.cons_ne_nil temp temps)
    simp [first, other]

theorem commandWords_inputOf {segments : List Str} (plain : ∀ s ∈ segments, nul ∉ s) :
    CommandWords (inputOf (segments.map words)) ↔ ∀ s ∈ segments, ∃ c ∈ s, c ≠ ' ' := by
  have segment : ∀ i (inside : i < segments.length),
      (1 ≤ (inputOf (segments.map words)).argsCtr i ∧
          ∃ w, (inputOf (segments.map words)).command i = some w ∧ w.chars ≠ []) ↔
        ∃ c ∈ segments[i], c ≠ ' ' := by
    intro i inside
    rw [← words_head (plain _ (List.getElem_mem inside)), inputOf, command_holding]
    simp [holding, inside]
  rw [List.forall_mem_iff_forall_getElem]
  simp only [CommandWords, inputOf, holding, List.length_map] at segment ⊢
  exact forall₂_congr segment

theorem plain_of_mem_lastParts {line : CString} {s : Str} (member : s ∈ lastParts line) : nul ∉ s :=
  fun inside => line.plain ((mem_fields (List.mem_of_mem_drop member)).2 nul inside)

theorem commandWords_iff {heap : Heap} {line : CString} {input : Input}
    (parsed : (readInput heap line).outcome = .ok input) :
    CommandWords input ↔ ∀ s ∈ lastParts line, ∃ c ∈ s, c ≠ ' ' := by
  have run := readInput_outcome line
  rw [← (stops_readInput heap line).outcome_ok parsed, parsed] at run
  split_ifs at run
  rw [Except.ok.inj run]
  exact commandWords_inputOf fun s => plain_of_mem_lastParts

/-- `ps|wc`. -/
theorem commandWords_iff_plain :
    (readInput .plenty ⟨['p', 's', '|', 'w', 'c'], by decide⟩).outcome =
        .ok (inputOf [[⟨['p', 's'], by decide⟩], [⟨['w', 'c'], by decide⟩]]) ∧
      CommandWords (inputOf [[⟨['p', 's'], by decide⟩], [⟨['w', 'c'], by decide⟩]]) := by
  have parsed : (readInput .plenty ⟨['p', 's', '|', 'w', 'c'], by decide⟩).outcome =
      .ok (inputOf [[⟨['p', 's'], by decide⟩], [⟨['w', 'c'], by decide⟩]]) := by
    rw [readInput_outcome, if_pos (by decide)]
    rfl
  have cut : lastParts ⟨['p', 's', '|', 'w', 'c'], by decide⟩ = [['p', 's'], ['w', 'c']] := by decide
  exact ⟨parsed, (commandWords_iff parsed).mpr (by rw [cut]; simp)⟩

/-- `ps| `. -/
theorem blanks_lack_command :
    (readInput .plenty ⟨['p', 's', '|', ' '], by decide⟩).outcome =
        .ok (inputOf [[⟨['p', 's'], by decide⟩], []]) ∧
      ¬ CommandWords (inputOf [[⟨['p', 's'], by decide⟩], []]) := by
  constructor
  · rw [readInput_outcome, if_pos (by decide)]
    rfl
  · intro all
    exact absurd (all 1 (by decide)).1 (by decide)

end UnixSystems.ShellLines
