import UnixSystems.ShellHistory

/-! Whether `suggest` finds the most recent command with a part of the target in it. It cuts the
target up anew for each command; but the first round has left null characters behind, so that
from the second command on only the first part of the target is tried. -/
namespace UnixSystems.ShellSuggest
open CStrings StrTok RingLog ShellModel ShellHistory

def tokens (target : CString) : List Str := fields slash target.chars

def Hit (parts : List Str) (command : CString) : Prop := ∃ t ∈ parts, t <:+: command.chars

instance (parts : List Str) (command : CString) : Decidable (Hit parts command) :=
  inferInstanceAs (Decidable (∃ t ∈ parts, t <:+: command.chars))

def retained (commands : List CString) : List CString := commands.reverse.take memorySize

def newestHit (commands : List CString) (target : CString) : Option CString :=
  (retained commands).find? fun command => Hit (tokens target) command

def Suggestion.ofOption : Option CString → Suggestion
  | none => .null
  | some command => .found command

def SuggestsNewest (commands : List CString) (target : CString) : Prop :=
  ∃ ht, rememberAll commands .empty = some ht ∧
    (suggest ht target).1 = Suggestion.ofOption (newestHit commands target)

/-! ## The search -/

/-- What the loop looks for: all parts in the newest command, then the first part only. -/
def scan (parts : List Str) : List CString → Option CString
  | [] => none
  | command :: older => if Hit parts command then some command else scan (parts.take 1) older

section Search

variable {ht : History}

theorem find?_isSome_iff_hit (parts : List Str) (command : CString) :
    (parts.find? fun temp => (strstr command.chars temp).isSome).isSome ↔ Hit parts command := by
  rw [List.find?_isSome]
  simp only [strstr_isSome_iff]
  rfl

def visited (ht : History) : List ℕ :=
  (List.range ht.size).map fun i => (ht.index + memorySize - i - 1) % memorySize

/-- The outer loop over a list of entries. -/
def search : List (Option CString) → Str → Suggestion × Str
  | [], target => (.null, target)
  | none :: rest, target =>
    match strtok slash (.start target) with
    | (none, c) => search rest c.memory
    | (some _, c) => (.oops, c.memory)
  | some command :: rest, target =>
    match untilToken slash (fun temp => (strstr command.chars temp).isSome) (.start target) with
    | (none, c) => search rest c.memory
    | (some _, c) => (.found command, c.memory)

theorem suggestFrom_eq_search (n i : ℕ) (target : Str) :
    suggestFrom ht n i target =
      search ((List.range' i n).map fun i => ht.commands ((ht.index + memorySize - i - 1) % memorySize)) target := by
  induction n generalizing i target with
  | zero => rfl
  | succ n ih =>
    rw [suggestFrom, List.range'_succ, List.map_cons]
    cases ht.commands ((ht.index + memorySize - i - 1) % memorySize) with
    | none =>
      rw [search]
      dsimp only
      cases strtok slash (.start target) with
      | mk token c =>
        cases token with
        | none => exact ih (i + 1) c.memory
        | some token => rfl
    | some command =>
      rw [search]
      dsimp only
      cases untilToken slash (fun temp => (strstr command.chars temp).isSome) (.start target) with
      | mk token c =>
        cases token with
        | none => exact ih (i + 1) c.memory
        | some token => rfl

theorem suggest_eq_search (target : CString) :
    suggest ht target = search ((visited ht).map ht.commands) target.chars := by
  rw [suggest, suggestFrom_eq_search, visited, List.map_map, List.range_eq_range']
  rfl

theorem search_eq (older : List CString) (target : Str) :
    (search (older.map some) target).1 = Suggestion.ofOption (scan (fields slash (text target)) older) := by
  induction older generalizing target with
  | nil => rfl
  | cons command older ih =>
    have safe : slash nul = false := by decide
    have first := @untilToken_fst slash (fun temp => (strstr command.chars temp).isSome) safe
      (.start target)
    have hit := find?_isSome_iff_hit (fields slash (text target)) command
    change _ = (fields slash (text target)).find? _ at first
    rw [← first] at hit
    rw [List.map_cons, search, scan]
    cases found : untilToken slash (fun temp => (strstr command.chars temp).isSome) (.start target) with
    | mk result c =>
      rw [found] at hit
      cases result with
      | some token =>
        have hits : Hit (fields slash (text target)) command := hit.mp rfl
        simp [hits, Suggestion.ofOption]
      | none =>
        have misses : ¬ Hit (fields slash (text target)) command := fun hits =>
          Bool.false_ne_true (hit.mpr hits)
        have left := fields_after_scan safe target (congrArg Prod.fst found)
        rw [found] at left
        rw [if_neg misses, ← left]
        exact ih c.memory

theorem scan_first (parts : List Str) (older : List CString) :
    scan (parts.take 1) older = older.find? fun command => Hit (parts.take 1) command := by
  induction older with
  | nil => rfl
  | cons command older ih =>
    rw [scan, List.take_take, Nat.min_self, ih, List.find?_cons]
    split_ifs with hits <;> simp [hits]

end Search

/-! ## The newest hit -/

theorem find?_eq_find?_iff {α : Type*} {p q : α → Bool} (narrower : ∀ a, p a = true → q a = true)
    (l : List α) : l.find? p = l.find? q ↔ ∀ a, l.find? q = some a → p a = true := by
  constructor
  · intro same a found
    rw [← same] at found
    exact List.find?_some found
  · intro accepted
    induction l with
    | nil => rfl
    | cons a l ih =>
      rw [List.find?_cons, List.find?_cons] at *
      cases wide : q a with
      | true =>
        have narrow : p a = true := accepted a (by simp [wide])
        rw [narrow]
      | false =>
        have narrow : p a = false := by
          by_contra taken
          exact absurd (narrower a (by simpa using taken)) (by simp [wide])
        rw [narrow]
        exact ih fun b found => accepted b (by simpa [wide] using found)

theorem hit_of_first {parts : List Str} {command : CString} (first : Hit (parts.take 1) command) :
    Hit parts command := by
  obtain ⟨t, member, inside⟩ := first
  exact ⟨t, List.mem_of_mem_take member, inside⟩

theorem hit_first_iff {parts : List Str} {command : CString} (hits : Hit parts command) :
    Hit (parts.take 1) command ↔ ∀ t ∈ parts.head?, t <:+: command.chars := by
  cases parts with
  | nil =>
    obtain ⟨t, member, _⟩ := hits
    exact absurd member List.not_mem_nil
  | cons t parts => simp [Hit]

theorem scan_eq_find?_iff (parts : List Str) (newest : List CString) :
    scan parts newest = newest.find? (fun command => Hit parts command) ↔
      ∀ command, newest.find? (fun command => Hit parts command) = some command →
        newest.head? = some command ∨ ∀ t ∈ parts.head?, t <:+: command.chars := by
  cases newest with
  | nil => simp [scan]
  | cons first older =>
    rw [scan, List.find?_cons]
    by_cases hits : Hit parts first
    · simp [hits]
    · rw [if_neg hits, scan_first]
      simp only [hits, decide_false]
      rw [find?_eq_find?_iff (by simpa using fun a => hit_of_first)]
      refine forall₂_congr fun command found => ?_
      have hit : Hit parts command := by simpa using List.find?_some found
      have other : first ≠ command := fun same => hits (same ▸ hit)
      rw [decide_eq_true_iff, hit_first_iff hit, List.head?_cons]
      simp [other]

theorem length_retained {ht : History} {commands : List CString} (records : Records ht commands) :
    (retained commands).length = ht.size := by
  rw [records.size_eq, retained, List.length_take, List.length_reverse, Nat.min_comm]

theorem slot_retained {ht : History} {commands : List CString} (records : Records ht commands) {i : ℕ}
    (inside : i < ht.size) :
    ht.commands ((ht.index + memorySize - i - 1) % memorySize) = (retained commands)[i]? := by
  have bound : i < memorySize := inside.trans_le ht.size_le
  rw [records.newest inside, retained, List.getElem?_take_of_lt bound]

theorem visited_eq {ht : History} {commands : List CString} (records : Records ht commands) :
    (visited ht).map ht.commands = (retained commands).map some := by
  have size := length_retained records
  refine List.ext_getElem (by simp [visited, size]) fun i first second => ?_
  have inside : i < ht.size := by simpa [visited] using first
  have slot := slot_retained records inside
  rw [List.getElem?_eq_getElem (size ▸ inside)] at slot
  simpa [visited] using slot

theorem suggest_eq {ht : History} {commands : List CString} (records : Records ht commands)
    (target : CString) :
    (suggest ht target).1 = Suggestion.ofOption (scan (tokens target) (retained commands)) := by
  rw [suggest_eq_search, visited_eq records, search_eq, text_of_plain target.plain]
  rfl

theorem ofOption_injective : Function.Injective Suggestion.ofOption := by
  intro a b same
  cases a <;> cases b <;> simp_all [Suggestion.ofOption]

theorem suggestsNewest_iff (commands : List CString) (target : CString) :
    SuggestsNewest commands target ↔ (∀ c ∈ commands, c.chars.length < 65535) ∧
      ∀ command, newestHit commands target = some command →
        commands.getLast? = some command ∨ ∀ t ∈ (tokens target).head?, t <:+: command.chars := by
  have latest : (retained commands).head? = commands.getLast? := by
    rw [retained, List.head?_take, if_neg (by decide), List.head?_reverse]
  by_cases short : ∀ c ∈ commands, c.chars.length < 65535
  · obtain ⟨ht, call, records⟩ := rememberAll_records commands records_empty short
    have found : (suggest ht target).1 = Suggestion.ofOption (scan (tokens target) (retained commands)) :=
      suggest_eq records target
    rw [SuggestsNewest, call]
    simp only [Option.some.injEq, exists_eq_left', found, ofOption_injective.eq_iff, newestHit]
    rw [scan_eq_find?_iff, latest]
    exact (and_iff_right short).symm
  · rw [SuggestsNewest, rememberAll_long commands .empty short]
    simp [short]

def foo : CString := ⟨['f', 'o', 'o'], by decide⟩

def ls : CString := ⟨['l', 's'], by decide⟩

def binFoo : CString := ⟨['b', 'i', 'n', '/', 'f', 'o', 'o'], by decide⟩

/-- After `foo` and `ls`, there is no suggestion for `bin/foo`. -/
theorem later_part_missed :
    newestHit [foo, ls] binFoo = some foo ∧
      (∃ ht, rememberAll [foo, ls] .empty = some ht ∧ (suggest ht binFoo).1 = .null) ∧
      ¬ SuggestsNewest [foo, ls] binFoo := by
  obtain ⟨ht, call, records⟩ := rememberAll_records [foo, ls] records_empty (by decide)
  have reply := suggest_eq records binFoo
  have newest : newestHit [foo, ls] binFoo = some foo := by decide
  have missed : scan (tokens binFoo) (retained [foo, ls]) = none := by decide
  rw [List.nil_append, missed] at reply
  refine ⟨newest, ⟨ht, call, reply⟩, fun suggests => ?_⟩
  obtain ⟨ht', call', found⟩ := suggests
  obtain rfl := Option.some.inj (call.symm.trans call')
  rw [reply, newest] at found
  exact nomatch found

/-! ## The ring -/

/-- The writer, the reader and the release of the ring agree. -/
structure RingLaw (commands : List CString) (ht : History) : Prop where
  index_eq : ht.index = commands.length % memorySize
  size_eq : ht.size = min commands.length memorySize
  occupied : ∀ slot, (ht.commands slot).isSome ↔ slot ∈ deallocateHist ht
  walked : ∀ target, suggest ht target = search ((visited ht).map ht.commands) target.chars
  newest_first : (visited ht).map ht.commands = (retained commands).map some
  once : (visited ht).Nodup
  no_null : ∀ target, (suggest ht target).1 ≠ .oops

theorem ringLaw_of_short (commands : List CString) (short : ∀ c ∈ commands, c.chars.length < 65535) :
    ∃ ht, rememberAll commands .empty = some ht ∧ RingLaw commands ht := by
  obtain ⟨ht, call, records⟩ := rememberAll_records commands records_empty short
  rw [List.nil_append] at records
  refine ⟨ht, call, records.index_eq, records.size_eq, fun slot => ?_, suggest_eq_search,
    visited_eq records, records.nodup_newest, fun target => ?_⟩
  · rw [records.occupied, deallocateHist, List.mem_range]
  · rw [suggest_eq records]
    cases scan (tokens target) (retained commands) <;> simp [Suggestion.ofOption]

theorem ringLaw_of_short_two : ∃ ht, rememberAll [foo, ls] .empty = some ht ∧ RingLaw [foo, ls] ht :=
  ringLaw_of_short [foo, ls] (by decide)

end UnixSystems.ShellSuggest
