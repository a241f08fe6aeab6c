import UnixSystems.ShellParse

/-! What `parse` stores and what it touches on the way. -/
namespace UnixSystems.ShellArguments
open CStrings StrTok LoggedRuns LoggedRuns.Logged ShellModel ShellParse

def argv (words : List CString) (j : ℕ) : Slot :=
  match words[j]? with
  | some w => .word w
  | none => if j = words.length then .null else .unset

def holding (pipeline : List (List CString)) (segCtr : ℕ) : Input where
  segments := fun i => (pipeline[i]?).map argv
  argsCtr := fun i => ((pipeline[i]?).map List.length).getD 0
  segCtr := segCtr

def inputOf (pipeline : List (List CString)) : Input := holding pipeline pipeline.length

def words (segment : Str) : List CString := (fields blank segment).map .read

def InRange : Access → Prop
  | .segments i => i < argsMax
  | .argsCtr i => i < argsMax
  | .segment i bound => i < bound
  | .argument j => j < argsMax
  | .block size needed => needed ≤ size

theorem update_getElem? {α β : Type*} (g : Option α → β) (l : List α) (x : α) :
    Function.update (fun i => g l[i]?) l.length (g (some x)) = fun i => g (l ++ [x])[i]? := by
  funext i
  by_cases last : i = l.length
  · simp [last]
  · rw [Function.update_of_ne last]
    by_cases inside : i < l.length
    · rw [List.getElem?_append_left inside]
    · rw [List.getElem?_eq_none (by omega), List.getElem?_eq_none (by simp; omega)]

theorem command_holding (pipeline : List (List CString)) (segCtr i : ℕ) :
    (holding pipeline segCtr).command i = pipeline[i]?.bind List.head? := by
  have array : (holding pipeline segCtr).segments i = (pipeline[i]?).map argv := rfl
  rw [Input.command, array]
  cases pipeline[i]? with
  | none => rfl
  | some words => cases words <;> rfl

/-! ## The words of a segment -/

section Words

def slotOf : Option CString → Slot
  | some w => .word w
  | none => .unset

/-- Words have been stored in the argument array of a segment, without its end yet. -/
def withWords (input : Input) (i : ℕ) (stored : List CString) : Input :=
  { input with
    segments := Function.update input.segments i (some fun j => slotOf stored[j]?)
    argsCtr := Function.update input.argsCtr i stored.length }

variable {heap : Heap} {input : Input} {i : ℕ} {stored : List CString}

theorem withWords_snoc (few : stored.length ≤ argsMax) (w : CString) :
    { (withWords input i stored).setArgument i stored.length (.word w) with
      argsCtr := Function.update (withWords input i stored).argsCtr i ((stored.length + 1) % 2 ^ 16) } =
      withWords input i (stored ++ [w]) := by
  have small : stored.length ≤ 32 := few
  have count : (stored.length + 1) % 2 ^ 16 = (stored ++ [w]).length := by
    rw [List.length_append, List.length_singleton]
    omega
  have array : Function.update (fun j => slotOf stored[j]?) stored.length (.word w) =
      fun j => slotOf (stored ++ [w])[j]? := update_getElem? slotOf stored w
  simp only [withWords, Input.setArgument, Function.update_self, Function.update_idem, Option.map_some, array,
    count]

theorem length_snoc_add (stored : List CString) (w : CString) (temp : Str) (temps : List Str) :
    (stored ++ [w]).length + temps.length = stored.length + (temp :: temps).length := by
  rw [List.length_append, List.length_singleton, List.length_cons]
  omega

theorem withWords_argsCtr (input : Input) (i : ℕ) (stored : List CString) :
    (withWords input i stored).argsCtr i = stored.length :=
  Function.update_self ..

theorem copyWord_granted (few : stored.length ≤ argsMax) (granted : heap.word i stored.length = true)
    (temp : Str) :
    copyWord heap i (withWords input i stored) 0 temp =
      ⟨[.argsCtr i, .segments i, .argument stored.length, .block ((temp.length + 1) % 2 ^ 16) (temp.length + 1)],
        .ok (withWords input i (stored ++ [.read temp]))⟩ := by
  simp only [copyWord, withWords_argsCtr, require_bind, if_pos few, if_pos granted, withWords_snoc few]
  rfl

theorem copyWord_aborts (many : argsMax < stored.length) (temp : Str) :
    copyWord heap i (withWords input i stored) 0 temp = ⟨[.argsCtr i], .error .aborted⟩ := by
  simp only [copyWord, withWords_argsCtr, require_bind, if_neg (not_le.mpr many)]
  rfl

/-- One more word than the array has room for passes the assertion. -/
theorem copyWords_outcome (temps : List Str) (few : stored.length ≤ argsMax + 1)
    (granted : ∀ j < stored.length + temps.length, heap.word i j = true) :
    (temps.foldlM (fun input temp => copyWord heap i input 0 temp) (withWords input i stored)).outcome =
      if stored.length + temps.length ≤ argsMax + 1 then
        .ok (withWords input i (stored ++ temps.map .read))
      else .error .aborted := by
  induction temps generalizing stored with
  | nil => simp [few]
  | cons temp temps ih =>
    rw [List.foldlM_cons]
    by_cases room : stored.length ≤ argsMax
    · have here := granted stored.length (by simp)
      rw [copyWord_granted room here, mk_ok_bind, notes_bind_outcome,
        ih (by simpa using room) (by rwa [length_snoc_add stored _ temp]), length_snoc_add stored _ temp]
      simp
    · rw [copyWord_aborts (by omega), bind_error rfl, if_neg (by rw [List.length_cons]; omega)]

theorem copyWords_within (temps : List Str) (inside : i < argsMax) (few : stored.length ≤ argsMax)
    (granted : ∀ j < argsMax, heap.word i j = true) :
    Within InRange (temps.foldlM (fun input temp => copyWord heap i input 0 temp) (withWords input i stored)) ↔
      stored.length + temps.length ≤ argsMax ∧ ∀ temp ∈ temps, temp.length < 65535 := by
  induction temps generalizing stored with
  | nil => simp [few]
  | cons temp temps ih =>
    rw [List.foldlM_cons]
    by_cases room : stored.length < argsMax
    · have wraps : temp.length + 1 ≤ (temp.length + 1) % 2 ^ 16 ↔ temp.length < 65535 := by omega
      rw [copyWord_granted few (granted _ room), mk_ok_bind, within_notes_bind,
        ih (by rw [List.length_append, List.length_singleton]; omega), length_snoc_add stored _ temp]
      simp only [List.forall_mem_cons, List.not_mem_nil, false_imp_iff, implies_true, InRange, wraps, inside,
        room, true_and, and_true]
      tauto
    · -- the word is stored after the end before anything else can happen
      have last : ¬ stored.length + (temp :: temps).length ≤ argsMax := by rw [List.length_cons]; omega
      refine iff_of_false (fun all => room ?_) fun both => last both.1
      refine (within_bind.mp all).1 (.argument stored.length) ?_
      simp only [copyWord, withWords_argsCtr, require_bind, if_pos few, notes_bind_log]
      simp

end Words

/-! ## The segments -/

section Segments

variable {heap : Heap} {pipeline : List (List CString)} {segCtr bound : ℕ}

theorem holding_start :
    { holding pipeline segCtr with
      segments := Function.update (holding pipeline segCtr).segments pipeline.length (some fun _ => .unset) } =
      withWords (holding pipeline segCtr) pipeline.length [] := by
  have counter : (holding pipeline segCtr).argsCtr pipeline.length = 0 := by simp [holding]
  rw [withWords, List.length_nil, ← counter, Function.update_eq_self]
  rfl

theorem holding_snoc (stored : List CString) :
    (withWords (holding pipeline segCtr) pipeline.length stored).setArgument pipeline.length stored.length .null =
      holding (pipeline ++ [stored]) segCtr := by
  have array : Function.update (fun j => slotOf stored[j]?) stored.length .null = argv stored := by
    funext j
    by_cases last : j = stored.length
    · simp [argv, last]
    · rw [Function.update_of_ne last, argv]
      cases stored[j]? with
      | some w => rfl
      | none => rw [slotOf, if_neg last]
  have arrays : Function.update (fun i => (pipeline[i]?).map argv) pipeline.length (some (argv stored)) =
      fun i => ((pipeline ++ [stored])[i]?).map argv := update_getElem? (Option.map argv) pipeline stored
  have counters : Function.update (fun i => ((pipeline[i]?).map List.length).getD 0) pipeline.length stored.length =
      fun i => (((pipeline ++ [stored])[i]?).map List.length).getD 0 :=
    update_getElem? (fun o => (o.map List.length).getD 0) pipeline stored
  simp only [withWords, Input.setArgument, holding, Function.update_self, Function.update_idem, Option.map_some,
    array, arrays, counters]

theorem length_words (segment : Str) : (words segment).length = (fields blank segment).length := by
  rw [words, List.length_map]

theorem parseText_eq (segment : Str) (granted : heap.segment pipeline.length = true) :
    parseText heap bound pipeline.length (holding pipeline segCtr) segment = (do
      notes [.segments pipeline.length]
      notes [.segment pipeline.length bound]
      let _ ← (fields blank segment).foldlM (fun input temp => copyWord heap pipeline.length input 0 temp)
        (withWords (holding pipeline segCtr) pipeline.length [])
      notes [.segments pipeline.length, .argsCtr pipeline.length, .argument (words segment).length]
      pure (holding (pipeline ++ [words segment]) segCtr)) := by
  have run := @copyWords_outcome .plenty (holding pipeline segCtr) pipeline.length [] (fields blank segment)
    (by simp) fun _ _ => rfl
  simp only [parseText, require_bind, if_pos granted, holding_start]
  refine bind_congr fun _ => bind_congr fun _ => bind_congr_ok fun input ok => ?_
  rw [← (Stops.foldlM (stops_copyWord heap pipeline.length) _ _).outcome_ok ok, ok] at run
  split_ifs at run
  have stored : input = withWords (holding pipeline segCtr) pipeline.length (words segment) := Except.ok.inj run
  rw [stored, withWords_argsCtr, holding_snoc]

theorem parseText_outcome (segment : Str) (granted : heap.segment pipeline.length = true)
    (words_granted : ∀ j < (words segment).length, heap.word pipeline.length j = true) :
    (parseText heap bound pipeline.length (holding pipeline segCtr) segment).outcome =
      if (words segment).length ≤ argsMax + 1 then .ok (holding (pipeline ++ [words segment]) segCtr)
      else .error .aborted := by
  have run := @copyWords_outcome heap (holding pipeline segCtr) pipeline.length [] (fields blank segment)
    (by simp) (by simpa [← length_words] using words_granted)
  rw [List.nil_append, List.length_nil, Nat.zero_add, ← length_words] at run
  rw [parseText_eq segment granted, notes_bind_outcome, notes_bind_outcome]
  split_ifs at run ⊢ with few
  · rw [bind_ok run]
    rfl
  · rw [bind_error run]

structure Granting (heap : Heap) : Prop where
  segment : ∀ i, heap.segment i = true
  word : ∀ i, ∀ j < argsMax, heap.word i j = true

theorem parseText_within (granting : Granting heap) (segment : Str) (inside : pipeline.length < argsMax) :
    Within InRange (parseText heap bound pipeline.length (holding pipeline segCtr) segment) ↔
      pipeline.length < bound ∧ (words segment).length < argsMax ∧
        ∀ temp ∈ fields blank segment, temp.length < 65535 := by
  have run := @copyWords_outcome heap (holding pipeline segCtr) pipeline.length [] (fields blank segment) (by simp)
  have range := @copyWords_within heap (holding pipeline segCtr) pipeline.length [] (fields blank segment) inside
    (Nat.zero_le _) (granting.word _)
  rw [List.length_nil, Nat.zero_add, ← length_words] at run range
  rw [parseText_eq segment (granting.segment _), within_notes_bind, within_notes_bind, within_bind, range]
  by_cases few : (words segment).length ≤ argsMax
  · rw [run fun j low => granting.word _ j (by omega), if_pos (by omega)]
    simp only [Except.ok.injEq, forall_eq', within_notes_bind, within_pure, List.forall_mem_cons,
      List.not_mem_nil, false_imp_iff, implies_true, InRange, inside, few, and_true, true_and]
    tauto
  · have many : ¬ (words segment).length < argsMax := by omega
    simp only [few, many, false_and, and_false]

theorem parseTexts_outcome (segments : List Str) :
    (parseTexts .plenty bound pipeline.length segments (holding pipeline segCtr)).outcome =
      if ∀ s ∈ segments, (words s).length ≤ argsMax + 1 then
        .ok (holding (pipeline ++ segments.map words) segCtr)
      else .error .aborted := by
  induction segments generalizing pipeline with
  | nil => simp [parseTexts]
  | cons segment segments ih =>
    have first := @parseText_outcome .plenty pipeline segCtr bound segment rfl fun _ _ => rfl
    have length_eq : pipeline.length + 1 = (pipeline ++ [words segment]).length := by simp
    rw [parseTexts]
    by_cases few : (words segment).length ≤ argsMax + 1
    · rw [if_pos few] at first
      rw [bind_ok first, length_eq, ih]
      simp [few]
    · rw [if_neg few] at first
      rw [bind_error first, if_neg fun all => few (all segment List.mem_cons_self)]

theorem parseTexts_within (granting : Granting heap) (segments : List Str)
    (inside : pipeline.length + segments.length ≤ argsMax)
    (bounded : pipeline.length + segments.length ≤ bound) :
    Within InRange (parseTexts heap bound pipeline.length segments (holding pipeline segCtr)) ↔
      ∀ s ∈ segments, (words s).length < argsMax ∧ ∀ temp ∈ fields blank s, temp.length < 65535 := by
  induction segments generalizing pipeline with
  | nil => simp [parseTexts]
  | cons segment segments ih =>
    rw [List.length_cons] at inside bounded
    have room : pipeline.length < bound := by omega
    have length_eq : pipeline.length + 1 = (pipeline ++ [words segment]).length := by simp
    rw [parseTexts, within_bind, parseText_within granting segment (by omega), List.forall_mem_cons]
    by_cases few : (words segment).length < argsMax
    · have first := @parseText_outcome heap pipeline segCtr bound segment (granting.segment _)
        fun j low => granting.word _ j (by omega)
      rw [if_pos (by omega)] at first
      simp only [first, Except.ok.injEq, forall_eq']
      rw [length_eq, ih (by rw [← length_eq]; omega) (by rw [← length_eq]; omega)]
      simp only [room, true_and]
    · simp only [few, false_and, and_false]

end Segments

end UnixSystems.ShellArguments
