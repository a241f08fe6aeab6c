import UnixSystems.ShellLines

/-! A pipeline printed with any number of blanks is read back by `parse`. -/
namespace UnixSystems.ShellRoundTrip
open CStrings StrTok LoggedRuns LoggedRuns.Logged ShellModel ShellParse ShellArguments ShellLines

structure Word extends CString where
  nonempty : chars ≠ []
  apart : ∀ c ∈ chars, blank c = false ∧ pipe c = false
  short : chars.length < 65535

/-- The words of a segment, each after the first with the number of blanks before it but one, and
the numbers of blanks at both ends. -/
structure Segment where
  lead : ℕ
  first : Word
  others : List (ℕ × Word)
  trail : ℕ
  few : others.length < 31

structure Pipeline where
  segments : List Segment
  nonempty : segments ≠ []
  few : segments.length ≤ 32

def blanks (n : ℕ) : Str := List.replicate n ' '

def printOthers (trail : ℕ) : List (ℕ × Word) → Str
  | [] => blanks trail
  | (gap, w) :: others => blanks (gap + 1) ++ (w.chars ++ printOthers trail others)

def Segment.print (s : Segment) : Str := blanks s.lead ++ (s.first.chars ++ printOthers s.trail s.others)

def Pipeline.text (p : Pipeline) : Str := List.intercalate ['|'] (p.segments.map Segment.print)

def Segment.words (s : Segment) : List CString := s.first.toCString :: s.others.map fun other => other.2.toCString

def Pipeline.words (p : Pipeline) : List (List CString) := p.segments.map Segment.words

/-! ## Printing -/

section Print

theorem blanks_forall {P : Char → Prop} (at_blank : P ' ') (n : ℕ) : ∀ c ∈ blanks n, P c := by
  intro c member
  rwa [List.eq_of_mem_replicate member]

theorem printOthers_forall {P : Char → Prop} (at_blank : P ' ') (trail : ℕ) {others : List (ℕ × Word)}
    (inside : ∀ other ∈ others, ∀ c ∈ other.2.chars, P c) : ∀ c ∈ printOthers trail others, P c := by
  induction others with
  | nil => exact blanks_forall at_blank trail
  | cons other others ih =>
    have later := ih fun other member => inside other (List.mem_cons_of_mem _ member)
    have here := inside other List.mem_cons_self
    simp only [printOthers, List.forall_mem_append]
    exact ⟨blanks_forall at_blank _, here, later⟩

theorem Segment.print_forall {P : Char → Prop} (at_blank : P ' ') (at_word : ∀ w : Word, ∀ c ∈ w.chars, P c)
    (s : Segment) : ∀ c ∈ s.print, P c := by
  simp only [Segment.print, List.forall_mem_append]
  exact ⟨blanks_forall at_blank _, at_word _, printOthers_forall at_blank _ fun other _ => at_word other.2⟩

theorem Word.nul_not_mem (w : Word) : ∀ c ∈ w.chars, c ≠ nul :=
  fun _ member null => w.plain (null ▸ member)

theorem Segment.print_plain (s : Segment) : nul ∉ s.print :=
  fun member => s.print_forall (by decide) Word.nul_not_mem nul member rfl

theorem Segment.print_unpiped (s : Segment) : ∀ c ∈ s.print, pipe c = false :=
  s.print_forall (by decide) fun w c member => (w.apart c member).2

theorem Segment.print_ne_nil (s : Segment) : s.print ≠ [] := by
  intro none_left
  have first : s.first.chars = [] := by
    rw [Segment.print, List.append_eq_nil_iff, List.append_eq_nil_iff] at none_left
    exact none_left.2.1
  exact s.first.nonempty first

theorem intercalate_plain {segments : List Str} (plain : ∀ s ∈ segments, nul ∉ s) :
    nul ∉ List.intercalate ['|'] segments := by
  induction segments with
  | nil => simp
  | cons s segments ih =>
    have here := plain s List.mem_cons_self
    have later := ih fun s member => plain s (List.mem_cons_of_mem _ member)
    cases segments with
    | nil => simpa using here
    | cons next segments =>
      rw [List.intercalate_cons_cons]
      simp only [List.mem_append, not_or]
      exact ⟨⟨here, by decide⟩, later⟩

theorem Pipeline.text_plain (p : Pipeline) : nul ∉ p.text := by
  refine intercalate_plain fun s member => ?_
  obtain ⟨segment, _, rfl⟩ := List.mem_map.mp member
  exact segment.print_plain

end Print

def Pipeline.print (p : Pipeline) : CString := ⟨p.text, p.text_plain⟩

/-! ## Reading back -/

section Read

theorem blanks_blank (n : ℕ) : ∀ c ∈ blanks n, blank c = true := blanks_forall (by decide) n

theorem fields_blanks (n : ℕ) : fields blank (blanks n) = [] := (fields_eq_nil_iff _).mpr (blanks_blank n)

theorem fields_skip_blanks (n : ℕ) (s : Str) : fields blank (blanks n ++ s) = fields blank s :=
  fields_skip (blanks_blank n) s

theorem printOthers_head (trail : ℕ) (others : List (ℕ × Word)) :
    ∀ d ∈ (printOthers trail others).head?, blank d = true := by
  cases others with
  | nil => exact fun d first => blanks_blank trail d (List.mem_of_mem_head? first)
  | cons other others =>
    intro d first
    cases first
    rfl

theorem fields_printOthers (w : Word) (trail : ℕ) (others : List (ℕ × Word)) :
    fields blank (w.chars ++ printOthers trail others) = w.chars :: others.map fun other => other.2.chars := by
  induction others generalizing w with
  | nil =>
    rw [fields_append w.nonempty (fun c member => (w.apart c member).1) (printOthers_head trail []), printOthers,
      fields_blanks]
    rfl
  | cons other others ih =>
    rw [fields_append w.nonempty (fun c member => (w.apart c member).1) (printOthers_head trail _), printOthers,
      fields_skip_blanks, ih other.2]
    rfl

theorem Segment.fields_print (s : Segment) :
    fields blank s.print = s.first.chars :: s.others.map fun other => other.2.chars := by
  rw [Segment.print, fields_skip_blanks, fields_printOthers]

theorem Word.read_chars (w : Word) : CString.read w.chars = w.toCString := by
  rw [CString.read]
  congr
  exact text_of_plain w.plain

theorem Segment.words_print (s : Segment) : ShellArguments.words s.print = s.words := by
  rw [ShellArguments.words, s.fields_print, List.map_cons, List.map_map, Word.read_chars, Segment.words]
  simp only [Function.comp_def, Word.read_chars]

theorem Pipeline.splitOnP_text (p : Pipeline) : p.text.splitOnP pipe = p.segments.map Segment.print := by
  have unpiped : ∀ s ∈ p.segments.map Segment.print, '|' ∉ s := by
    intro s member inside
    obtain ⟨segment, _, rfl⟩ := List.mem_map.mp member
    exact absurd (segment.print_unpiped '|' inside) (by decide)
  have whole := List.splitOn_intercalate '|' unpiped (by simpa using p.nonempty)
  rwa [List.splitOn_eq_splitOnP] at whole

theorem Pipeline.parts_print (p : Pipeline) : parts p.print = p.segments.map Segment.print := by
  show (p.text.splitOnP pipe).filter (· ≠ []) = _
  rw [p.splitOnP_text, List.filter_eq_self]
  intro s member
  obtain ⟨segment, _, rfl⟩ := List.mem_map.mp member
  exact decide_eq_true segment.print_ne_nil

theorem Pipeline.fits_print (p : Pipeline) : Fits p.print := by
  rw [Fits, p.parts_print, List.length_map, List.forall_mem_map]
  refine ⟨p.few, fun s _ => ⟨?_, ?_⟩⟩
  · rw [s.words_print, Segment.words, List.length_cons, List.length_map]
    exact Nat.succ_lt_succ s.few
  · rw [s.fields_print, List.forall_mem_cons, List.forall_mem_map]
    exact ⟨s.first.short, fun other _ => other.2.short⟩

theorem Pipeline.segments_agree (p : Pipeline) : getSegCtr p.print = (parts p.print).length % 2 ^ 16 := by
  rw [getSegCtr_eq, p.parts_print]
  exact congrArg (·.length % 2 ^ 16) p.splitOnP_text

theorem Pipeline.lastParts_print (p : Pipeline) : (lastParts p.print).map ShellArguments.words = p.words := by
  rw [lastParts_eq (p.fits_print.1.trans_lt (by decide)), p.parts_print, List.map_map, Pipeline.words]
  exact List.map_congr_left fun s _ => s.words_print

end Read

structure Holds (pipeline : List (List CString)) (input : Input) : Prop where
  segCtr : input.segCtr = pipeline.length
  argsCtr : ∀ i (inside : i < pipeline.length), input.argsCtr i = pipeline[i].length
  arguments : ∀ i (inside : i < pipeline.length), ∃ array, input.segments i = some array ∧
    (∀ j (low : j < pipeline[i].length), array j = .word pipeline[i][j]) ∧ array pipeline[i].length = .null

theorem holds_inputOf (pipeline : List (List CString)) : Holds pipeline (inputOf pipeline) := by
  refine ⟨rfl, fun i inside => ?_, fun i inside => ⟨argv pipeline[i], ?_, fun j low => ?_, ?_⟩⟩
  · simp [inputOf, holding, inside]
  · simp [inputOf, holding, inside]
  · simp [argv, low]
  · simp [argv]

theorem readInput_print (p : Pipeline) :
    ∃ input, (readInput .plenty p.print).outcome = .ok input ∧ Holds p.words input ∧
      Within InRange (readInput .plenty p.print) := by
  have fits := p.fits_print
  have passes : ∀ s ∈ lastParts p.print, (ShellArguments.words s).length ≤ argsMax + 1 := by
    intro s member
    exact ((fits.2 s (List.mem_of_mem_drop member)).1.le).trans (Nat.le_succ _)
  refine ⟨inputOf p.words, ?_, holds_inputOf _, ?_⟩
  · rw [readInput_outcome, if_pos ⟨p.segments_agree, passes⟩, p.lastParts_print]
  · exact (readInput_within plenty_granting p.segments_agree).mpr fits

def ps : Word := ⟨⟨['p', 's'], by decide⟩, by decide, by simp [blank, pipe], by decide⟩

def wc : Word := ⟨⟨['w', 'c'], by decide⟩, by decide, by simp [blank, pipe], by decide⟩

example : (Pipeline.mk [⟨1, ps, [(1, ps)], 0, by decide⟩, ⟨0, wc, [], 2, by decide⟩] (by decide)
    (by decide)).print.chars = [' ', 'p', 's', ' ', ' ', 'p', 's', '|', 'w', 'c', ' ', ' '] := by decide

end UnixSystems.ShellRoundTrip
