import UnixSystems.ShellArguments
import UnixSystems.ShellHistory

/-! The segments of a pipeline run one after the other, and their commands are remembered when
none of them has failed as far as the shell can tell. -/
namespace UnixSystems.ShellPipeline
open StrTok ShellModel ShellArguments ShellHistory

def Succeeds (system : System) (i : ℕ) (ws : List CString) : Prop :=
  if ws.head? = some cdName then ws.length = 2 ∧ system.chdir i = true
  else ws ≠ [] ∧ system.child i = some 0

/-- The shell takes it that the segment succeeds. -/
def Passes (system : System) (i : ℕ) (ws : List CString) : Prop :=
  if ws.head? = some cdName then ws.length = 2 else system.child i = some 0

instance (system : System) (i : ℕ) (ws : List CString) : Decidable (Passes system i ws) := by
  unfold Passes
  infer_instance

theorem succeeds_iff {system : System} {i : ℕ} {ws : List CString} (some_word : ws ≠ []) :
    Succeeds system i ws ↔ Passes system i ws ∧ (ws.head? = some cdName → system.chdir i = true) := by
  unfold Succeeds Passes
  split_ifs with cd <;> simp [cd, some_word]

def commands (pipeline : List (List CString)) : List CString := pipeline.filterMap List.head?

/-! ## The loops -/

section Loops

variable {pipeline : List (List CString)} {i : ℕ} {ws : List CString} {todo : List (List CString)}

theorem segment_here (there : pipeline.drop i = ws :: todo) : pipeline[i]? = some ws := by
  rw [← List.head?_drop, there, List.head?_cons]

theorem command_here (there : pipeline.drop i = ws :: todo) : (inputOf pipeline).command i = ws.head? := by
  rw [inputOf, command_holding, segment_here there, Option.bind_some]

theorem argsCtr_here (there : pipeline.drop i = ws :: todo) : (inputOf pipeline).argsCtr i = ws.length := by
  simp [inputOf, holding, segment_here there]

theorem drop_next (there : pipeline.drop i = ws :: todo) : pipeline.drop (i + 1) = todo := by
  rw [← List.tail_drop, there, List.tail_cons]

theorem runSegment_eq (system : System) (there : pipeline.drop i = ws :: todo) (some_word : ws ≠ [])
    (stays : ws.head? ≠ some exitName) (success : Bool) :
    runSegment (inputOf pipeline) system i success = .goes (success && decide (Passes system i ws)) := by
  obtain ⟨name, arguments, rfl⟩ := List.exists_cons_of_ne_nil some_word
  have other : name ≠ exitName := fun same => stays (same ▸ rfl)
  rw [runSegment, command_here there, argsCtr_here there]
  simp only [List.head?_cons, if_neg other, Passes, Option.some.injEq]
  split_ifs with cd two
  · rw [decide_eq_true two, Bool.and_true]
  · rw [decide_eq_false two, Bool.and_false]
  · cases system.child i with
    | none => simp
    | some status => simp [beq_eq_decide]

theorem runSegment_crashes (system : System) (there : pipeline.drop i = [] :: todo) (success : Bool) :
    runSegment (inputOf pipeline) system i success = .crashes := by
  rw [runSegment, command_here there]
  rfl

theorem runSegments_eq (system : System) (there : pipeline.drop i = todo) (some_word : ∀ ws ∈ todo, ws ≠ [])
    (stays : ∀ ws ∈ todo, ws.head? ≠ some exitName) (success : Bool) :
    runSegments (inputOf pipeline) system todo.length i success =
      .goes (success && (todo.zipIdx i).all fun s => decide (Passes system s.2 s.1)) := by
  induction todo generalizing i success with
  | nil => simp [runSegments]
  | cons ws todo ih =>
    rw [List.forall_mem_cons] at some_word stays
    rw [List.length_cons, runSegments, runSegment_eq system there some_word.1 stays.1]
    dsimp only
    rw [ih (drop_next there) some_word.2 stays.2, List.zipIdx_cons, List.all_cons, Bool.and_assoc]

theorem runSegments_crashes (system : System) (there : pipeline.drop i = todo) (empty : [] ∈ todo)
    (stays : ∀ ws ∈ todo, ws.head? ≠ some exitName) (success : Bool) :
    runSegments (inputOf pipeline) system todo.length i success = .crashes := by
  induction todo generalizing i success with
  | nil => exact absurd empty List.not_mem_nil
  | cons ws todo ih =>
    rw [List.forall_mem_cons] at stays
    rw [List.length_cons, runSegments]
    by_cases here : ws = []
    · rw [here] at there
      rw [runSegment_crashes system there]
    · have later : [] ∈ todo := (List.mem_cons.mp empty).resolve_left (Ne.symm here)
      rw [runSegment_eq system there here stays.1]
      exact ih (drop_next there) later stays.2 _

theorem rememberSegments_eq (there : pipeline.drop i = todo) (some_word : ∀ ws ∈ todo, ws ≠ []) (ht : History) :
    rememberSegments (inputOf pipeline) todo.length i ht = rememberAll (commands todo) ht := by
  induction todo generalizing i ht with
  | nil => rfl
  | cons ws todo ih =>
    rw [List.forall_mem_cons] at some_word
    obtain ⟨name, arguments, rfl⟩ := List.exists_cons_of_ne_nil some_word.1
    have later := ih (drop_next there) some_word.2
    have names : commands ((name :: arguments) :: todo) = name :: commands todo := rfl
    rw [List.length_cons, rememberSegments, command_here there, names, rememberAll, List.head?_cons]
    dsimp only
    cases remember ht name true with
    | stored next => exact later next
    | refused next => rfl
    | overrun => rfl

end Loops

/-! ## The history afterwards -/

section Afterwards

variable {pipeline : List (List CString)} {system : System} {ht : History} {items : List CString}

theorem segCtr_inputOf (pipeline : List (List CString)) : (inputOf pipeline).segCtr = pipeline.length := rfl

theorem runPipeline_eq (some_word : ∀ ws ∈ pipeline, ws ≠ [])
    (stays : ∀ ws ∈ pipeline, ws.head? ≠ some exitName) :
    runPipeline (inputOf pipeline) system ht =
      if ∀ s ∈ pipeline.zipIdx, Passes system s.2 s.1 then rememberAll (commands pipeline) ht else some ht := by
  have run := @runSegments_eq pipeline 0 pipeline system rfl some_word stays true
  have stored := @rememberSegments_eq pipeline 0 pipeline rfl some_word ht
  rw [runPipeline, segCtr_inputOf, run]
  dsimp only
  rw [stored]
  simp only [Bool.true_and, List.all_eq_true, decide_eq_true_eq]

theorem runPipeline_crashes (empty : [] ∈ pipeline) (stays : ∀ ws ∈ pipeline, ws.head? ≠ some exitName) :
    runPipeline (inputOf pipeline) system ht = none := by
  have run := @runSegments_crashes pipeline 0 pipeline system rfl empty stays true
  rw [runPipeline, segCtr_inputOf, run]

/-- The commands are added when all segments succeed, and otherwise nothing changes. -/
structure KeepsHistory (pipeline : List (List CString)) (system : System) (ht : History)
    (items : List CString) : Prop where
  success : (∀ s ∈ pipeline.zipIdx, Succeeds system s.2 s.1) →
    ∃ ht', runPipeline (inputOf pipeline) system ht = some ht' ∧ Records ht' (items ++ commands pipeline)
  failure : (¬ ∀ s ∈ pipeline.zipIdx, Succeeds system s.2 s.1) →
    runPipeline (inputOf pipeline) system ht = some ht

theorem rememberAll_ne (records : Records ht items) {more : List CString} (some_more : more ≠ [])
    (few : more.length ≤ argsMax) : rememberAll more ht ≠ some ht := by
  intro same
  by_cases short : ∀ c ∈ more, c.chars.length < 65535
  · obtain ⟨ht', ends, all⟩ := rememberAll_records more records short
    obtain rfl := Option.some.inj (ends.symm.trans same)
    have first := records.index_eq
    have second := all.index_eq
    have pos := List.length_pos_iff.mpr some_more
    rw [List.length_append] at second
    have limit : argsMax < memorySize := by decide
    exact RingLog.mod_ne_mod (by omega) (by omega) (first.symm.trans second)
  · rw [rememberAll_long more ht short] at same
    exact nomatch same

theorem length_commands (some_word : ∀ ws ∈ pipeline, ws ≠ []) : (commands pipeline).length = pipeline.length := by
  induction pipeline with
  | nil => rfl
  | cons ws pipeline ih =>
    rw [List.forall_mem_cons] at some_word
    obtain ⟨name, arguments, rfl⟩ := List.exists_cons_of_ne_nil some_word.1
    exact congrArg (· + 1) (ih some_word.2)

theorem all_succeed_iff (some_word : ∀ ws ∈ pipeline, ws ≠ []) :
    (∀ s ∈ pipeline.zipIdx, Succeeds system s.2 s.1) ↔
      (∀ s ∈ pipeline.zipIdx, Passes system s.2 s.1) ∧
        ∀ s ∈ pipeline.zipIdx, s.1.head? = some cdName → system.chdir s.2 = true := by
  rw [← forall₂_and]
  exact forall₂_congr fun s member => succeeds_iff (some_word _ (List.fst_mem_of_mem_zipIdx member))

theorem KeepsHistory.goes_on (keeps : KeepsHistory pipeline system ht items) :
    ∃ ht', runPipeline (inputOf pipeline) system ht = some ht' := by
  by_cases all : ∀ s ∈ pipeline.zipIdx, Succeeds system s.2 s.1
  · obtain ⟨ht', ends, _⟩ := keeps.success all
    exact ⟨ht', ends⟩
  · exact ⟨ht, keeps.failure all⟩

theorem keepsHistory_of_success (records : Records ht items)
    (all : ∀ s ∈ pipeline.zipIdx, Succeeds system s.2 s.1)
    (run : runPipeline (inputOf pipeline) system ht = rememberAll (commands pipeline) ht) :
    KeepsHistory pipeline system ht items ↔ ∀ c ∈ commands pipeline, c.chars.length < 65535 := by
  constructor
  · intro keeps
    obtain ⟨ht', ends⟩ := keeps.goes_on
    by_contra long
    rw [run, rememberAll_long _ ht long] at ends
    exact nomatch ends
  · intro short
    obtain ⟨ht', ends, recorded⟩ := rememberAll_records _ records short
    exact ⟨fun _ => ⟨ht', run.trans ends, recorded⟩, fun some_fails => absurd all some_fails⟩

theorem not_keepsHistory_of_failure (few : pipeline.length ≤ argsMax) (some_word : ∀ ws ∈ pipeline, ws ≠ [])
    (records : Records ht items) (some_fails : ¬ ∀ s ∈ pipeline.zipIdx, Succeeds system s.2 s.1)
    (run : runPipeline (inputOf pipeline) system ht = rememberAll (commands pipeline) ht) :
    ¬ KeepsHistory pipeline system ht items := by
  have length_eq := length_commands some_word
  have some_command : commands pipeline ≠ [] := by
    intro none_left
    rw [none_left, List.length_nil, eq_comm, List.length_eq_zero_iff] at length_eq
    rw [length_eq] at some_fails
    exact some_fails fun s member => absurd member List.not_mem_nil
  intro keeps
  exact rememberAll_ne records some_command (length_eq ▸ few) (run.symm.trans (keeps.failure some_fails))

/-- A `chdir` that fails is taken for a success. Besides, a segment without a word crashes the
shell, and a command that is too long for its block is lost. The arrays of `struct input` have
room for `argsMax` segments. -/
theorem keepsHistory_iff (few : pipeline.length ≤ argsMax)
    (stays : ∀ ws ∈ pipeline, ws.head? ≠ some exitName) (records : Records ht items) :
    KeepsHistory pipeline system ht items ↔
      (∀ ws ∈ pipeline, ws ≠ []) ∧
        ((∀ s ∈ pipeline.zipIdx, Passes system s.2 s.1) →
          (∀ s ∈ pipeline.zipIdx, s.1.head? = some cdName → system.chdir s.2 = true) ∧
            ∀ c ∈ commands pipeline, c.chars.length < 65535) := by
  by_cases some_word : ∀ ws ∈ pipeline, ws ≠ []
  · have run := @runPipeline_eq pipeline system ht some_word stays
    have all_iff := @all_succeed_iff pipeline system some_word
    rw [and_iff_right some_word]
    by_cases passes : ∀ s ∈ pipeline.zipIdx, Passes system s.2 s.1
    · rw [if_pos passes] at run
      rw [forall_prop_of_true passes]
      by_cases moves : ∀ s ∈ pipeline.zipIdx, s.1.head? = some cdName → system.chdir s.2 = true
      · rw [and_iff_right moves]
        exact keepsHistory_of_success records (all_iff.mpr ⟨passes, moves⟩) run
      · have some_fails : ¬ ∀ s ∈ pipeline.zipIdx, Succeeds system s.2 s.1 := fun all => moves (all_iff.mp all).2
        exact iff_of_false (not_keepsHistory_of_failure few some_word records some_fails run)
          fun both => moves both.1
    · rw [if_neg passes] at run
      exact iff_of_true ⟨fun all => absurd (all_iff.mp all).1 passes, fun _ => run⟩ fun all => absurd all passes
  · have empty : [] ∈ pipeline := by
      by_contra absent
      exact some_word fun ws member none_left => absent (none_left ▸ member)
    refine iff_of_false (fun keeps => ?_) fun both => some_word both.1
    obtain ⟨ht', ends⟩ := keeps.goes_on
    exact nomatch (runPipeline_crashes empty stays).symm.trans ends

/-- `ps|wc`, with both children successful. -/
theorem keepsHistory_iff_plain :
    KeepsHistory [[⟨['p', 's'], by decide⟩], [⟨['w', 'c'], by decide⟩]] ⟨fun _ => false, fun _ => some 0⟩
      .empty [] := by
  refine (keepsHistory_iff (by decide) (by decide) records_empty).mpr ⟨by decide, fun _ => ⟨by decide, by decide⟩⟩

/-- `cd x`, where there is no directory of this name. -/
theorem failed_cd_remembered :
    (runPipeline (inputOf [[cdName, ⟨['x'], by decide⟩]]) ⟨fun _ => false, fun _ => none⟩ .empty).map
        (fun ht => ht.commands 0) = some (some cdName) ∧
      ¬ KeepsHistory [[cdName, ⟨['x'], by decide⟩]] ⟨fun _ => false, fun _ => none⟩ .empty [] := by
  have run : (runPipeline (inputOf [[cdName, ⟨['x'], by decide⟩]]) ⟨fun _ => false, fun _ => none⟩ .empty).map
      (fun ht => ht.commands 0) = some (some cdName) := by decide
  refine ⟨run, fun keeps => ?_⟩
  have fails : ¬ Succeeds ⟨fun _ => false, fun _ => none⟩ 0 [cdName, ⟨['x'], by decide⟩] := by simp [Succeeds]
  rw [keeps.failure fun all => fails (all ([cdName, ⟨['x'], by decide⟩], 0) (by simp))] at run
  exact absurd run (by decide)

end Afterwards

end UnixSystems.ShellPipeline
