import Mathlib

/-! Paths by their components, without a file system: how a path is split at the slashes and
what `.` and `..` do to the directory reached so far. -/
namespace UnixSystems.LexicalPaths

abbrev Component := List Char

def dot : Component := ['.']

def dotDot : Component := ['.', '.']

def components (path : List Char) : List Component := path.splitOn '/'

/-- One component further. Above the root there is only the root; above the start of a
relative path there is its parent. -/
def enter (rooted : Bool) (dir : List Component) (c : Component) : List Component :=
  if c = [] ∨ c = dot then dir
  else if c = dotDot then
    match dir.getLast? with
    | none => if rooted then [] else [c]
    | some last => if last = dotDot then dir ++ [c] else dir.dropLast
  else dir ++ [c]

def normalise (rooted : Bool) (cs : List Component) : List Component := cs.foldl (enter rooted) []

theorem components_append (front back : List Char) :
    components (front ++ '/' :: back) = components front ++ components back :=
  List.splitOn_append_cons_self front back

theorem mem_components {path : List Char} {c : Component} (member : c ∈ components path) :
    '/' ∉ c ∧ ∃ before after, path = before ++ c ++ after ∧
      (before = [] ∨ ∃ b, before = b ++ ['/']) ∧ (after = [] ∨ ∃ a, after = '/' :: a) := by
  -- along the path, one slash after the other
  induction h : path.length using Nat.strong_induction_on generalizing path with
  | _ n ih =>
    by_cases slash : '/' ∈ path
    · obtain ⟨first, rest, rfl, absent⟩ := List.eq_append_cons_of_mem slash
      rw [components, List.splitOn_append_cons_self_of_not_mem absent, List.mem_cons] at member
      rcases member with rfl | member
      · exact ⟨absent, [], '/' :: rest, by simp, .inl rfl, .inr ⟨rest, rfl⟩⟩
      · have shorter : rest.length < n := by
          rw [← h, List.length_append, List.length_cons]
          omega
        obtain ⟨plain, before, after, rfl, left, right⟩ := ih _ shorter member rfl
        refine ⟨plain, first ++ '/' :: before, after, by simp, .inr ?_, right⟩
        rcases left with rfl | ⟨b, rfl⟩
        · exact ⟨first, rfl⟩
        · exact ⟨first ++ '/' :: b, by simp⟩
    · rw [components, List.splitOn_eq_singleton slash, List.mem_singleton] at member
      subst member
      exact ⟨slash, [], [], by simp, .inl rfl, .inl rfl⟩

theorem components_append_plain (path suffix : List Char) (plain : '/' ∉ suffix) :
    ∃ front last, components path = front ++ [last] ∧
      components (path ++ suffix) = front ++ [last ++ suffix] := by
  induction h : path.length using Nat.strong_induction_on generalizing path with
  | _ n ih =>
    by_cases slash : '/' ∈ path
    · obtain ⟨first, rest, rfl, absent⟩ := List.eq_append_cons_of_mem slash
      have shorter : rest.length < n := by
        rw [← h, List.length_append, List.length_cons]
        omega
      obtain ⟨front, last, before, after⟩ := ih _ shorter rest rfl
      refine ⟨first :: front, last, ?_, ?_⟩
      · rw [components, List.splitOn_append_cons_self_of_not_mem absent]
        exact congrArg (first :: ·) before
      · rw [List.append_assoc, List.cons_append, components,
          List.splitOn_append_cons_self_of_not_mem absent]
        exact congrArg (first :: ·) after
    · refine ⟨[], path, List.splitOn_eq_singleton slash, List.splitOn_eq_singleton ?_⟩
      rw [List.mem_append, not_or]
      exact ⟨slash, plain⟩

theorem le_enter (rooted : Bool) (dir : List Component) {c : Component} (below : c ≠ dotDot) :
    dir <+: enter rooted dir c := by
  unfold enter
  split
  · exact List.prefix_rfl
  · exact List.prefix_append dir [c]

theorem le_normalise (rooted : Bool) (start way : List Component) (below : dotDot ∉ way) :
    normalise rooted start <+: normalise rooted (start ++ way) := by
  rw [normalise, normalise, List.foldl_append]
  generalize start.foldl (enter rooted) [] = dir
  induction way generalizing dir with
  | nil => exact List.prefix_rfl
  | cons c way ih =>
    rw [List.mem_cons, not_or] at below
    exact (le_enter rooted dir (Ne.symm below.1)).trans (ih below.2 _)

end UnixSystems.LexicalPaths
