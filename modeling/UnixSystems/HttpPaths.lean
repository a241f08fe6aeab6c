import UnixSystems.HttpModel
import UnixSystems.LexicalPaths

/-! The files that the server can be asked for. The test for 403 looks for two substrings;
for a path only its components matter. -/
namespace UnixSystems.HttpPaths
open CStrings LexicalPaths HttpModel

/-- What the tests before the file branch let through. -/
def Admitted (uri : Str) : Prop := uri.head? = some '/' ∧ climbs uri = false

instance (uri : Str) : Decidable (Admitted uri) := inferInstanceAs (Decidable (_ ∧ _))

theorem admitted_of_route_file {method uri : Str} (taken : route method uri = .file) :
    Admitted uri := by
  unfold route at taken
  split_ifs at taken with _ first up
  all_goals exact ⟨not_not.mp first, Bool.not_eq_true _ ▸ up⟩

theorem not_climbs_iff (uri : Str) :
    climbs uri = false ↔ ¬ upDir <:+: uri ∧ strrchr uri '/' ≠ some upDirEnd := by
  rw [climbs, Bool.or_eq_false_iff, Bool.eq_false_iff, Ne, strstr_isSome_iff, decide_eq_false_iff_not]

/-- A `..` between two slashes is found by the first test, one at the end by the second. -/
theorem dotDot_not_mem {uri : Str} (admitted : Admitted uri) : dotDot ∉ components uri := by
  obtain ⟨first, quiet⟩ := admitted
  obtain ⟨inside, last⟩ := (not_climbs_iff uri).mp quiet
  intro member
  obtain ⟨_, before, after, rfl, left, right⟩ := mem_components member
  rcases left with rfl | ⟨b, rfl⟩
  · simp [dotDot] at first
  · rcases right with rfl | ⟨a, rfl⟩
    · refine last ?_
      have tail : b ++ ['/'] ++ dotDot ++ [] = b ++ '/' :: dotDot := by simp
      rw [tail, strrchr_append b dotDot '/' (by decide)]
      rfl
    · exact inside ⟨b, a, by simp [dotDot, upDir]⟩

/-- What is appended for a directory. -/
def indexNames : List Str := [[], "index.html".toList, "/index.html".toList]

theorem filePath_eq (webRoot uri : Str) (isDir : Str → Bool) :
    ∃ suffix ∈ indexNames, filePath webRoot uri isDir = webRoot ++ uri ++ suffix := by
  unfold filePath
  dsimp only
  split_ifs
  · exact ⟨_, by simp [indexNames], rfl⟩
  · exact ⟨_, by simp [indexNames], rfl⟩
  · exact ⟨[], by simp [indexNames], by simp⟩

theorem dotDot_not_mem_append {path suffix : Str} (below : dotDot ∉ components path)
    (index : suffix ∈ indexNames) : dotDot ∉ components (path ++ suffix) := by
  simp only [indexNames, List.mem_cons, List.not_mem_nil, or_false] at index
  rcases index with rfl | rfl | rfl
  · simpa using below
  · -- the last component gets longer than two characters
    obtain ⟨front, last, before, after⟩ :=
      components_append_plain path "index.html".toList (by decide)
    rw [before, List.mem_append, not_or] at below
    rw [after, List.mem_append, List.mem_singleton, not_or]
    refine ⟨below.1, fun same => ?_⟩
    have long := congrArg List.length same
    simp [dotDot] at long
  · have slash : components (path ++ "/index.html".toList) =
        components path ++ components "index.html".toList := components_append path _
    rw [slash, List.mem_append, not_or]
    exact ⟨below, by decide⟩

theorem components_webRoot (webRoot uri suffix : Str) (first : uri.head? = some '/') :
    ∃ way, components (webRoot ++ uri ++ suffix) = components webRoot ++ way ∧
      components (uri ++ suffix) = [] :: way := by
  obtain ⟨rest, rfl⟩ := List.head?_eq_some_iff.mp first
  refine ⟨components (rest ++ suffix), ?_, ?_⟩
  · rw [List.append_assoc, List.cons_append, components_append]
  · exact components_append [] (rest ++ suffix)

theorem admitted_below_webRoot (webRoot uri : Str) (admitted : Admitted uri) :
    dotDot ∉ components uri ∧
      (∀ isDir, ∃ suffix ∈ indexNames, filePath webRoot uri isDir = webRoot ++ uri ++ suffix) ∧
      ∀ suffix ∈ indexNames, ∀ rooted,
        components webRoot <+: components (webRoot ++ uri ++ suffix) ∧
          ∀ n, (components webRoot).length ≤ n →
            normalise rooted (components webRoot) <+:
              normalise rooted ((components (webRoot ++ uri ++ suffix)).take n) := by
  have below := dotDot_not_mem admitted
  refine ⟨below, filePath_eq webRoot uri, fun suffix index rooted => ?_⟩
  obtain ⟨way, whole, rest⟩ := components_webRoot webRoot uri suffix admitted.1
  have down : dotDot ∉ way := by
    have longer := dotDot_not_mem_append below index
    rw [rest, List.mem_cons, not_or] at longer
    exact longer.2
  rw [whole]
  refine ⟨List.prefix_append _ _, fun n beyond => ?_⟩
  rw [List.take_append, List.take_of_length_le beyond]
  exact le_normalise rooted _ _ fun member => down (List.mem_of_mem_take member)

theorem admitted_below_webRoot_dots :
    Admitted "//.../..a//".toList ∧ dotDot ∉ components "//.../..a//".toList :=
  ⟨by decide, (admitted_below_webRoot "www".toList "//.../..a//".toList (by decide)).1⟩

end UnixSystems.HttpPaths
