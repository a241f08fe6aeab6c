import Mathlib

/-! The functions of the C library on strings and streams, on lists of characters. A string
is given without its terminating null character, a pointer into a string by the part of the
string from there on, and a stream by the characters that have not been read yet. -/
namespace UnixSystems.CStrings

abbrev Str := List Char

def strstr : Str → Str → Option Str
  | [], needle => if needle = [] then some [] else none
  | c :: cs, needle => if needle <+: c :: cs then some (c :: cs) else strstr cs needle

def strrchr : Str → Char → Option Str
  | [], _ => none
  | x :: xs, c =>
    match strrchr xs c with
    | some rest => some rest
    | none => if x = c then some (x :: xs) else none

/-- At most `n` characters, up to and including a newline, and what is left of the stream. -/
def takeLine : ℕ → Str → Str × Str
  | 0, stream => ([], stream)
  | _ + 1, [] => ([], [])
  | n + 1, c :: stream =>
    if c = '\n' then ([c], stream) else (c :: (takeLine n stream).1, (takeLine n stream).2)

/-- `fgets` into a buffer of the given size; `none` when there is nothing to read. -/
def fgets (size : ℕ) (stream : Str) : Option (Str × Str) :=
  if stream = [] then none else some (takeLine (size - 1) stream)

theorem strstr_isSome_iff (s needle : Str) : (strstr s needle).isSome ↔ needle <:+: s := by
  induction s with
  | nil =>
    rw [strstr, List.infix_nil]
    split <;> simp_all
  | cons c cs ih =>
    rw [strstr, List.infix_cons_iff]
    split
    next here => simp [here]
    next away => simp [away, ih]

theorem strrchr_of_not_mem {s : Str} {c : Char} (absent : c ∉ s) : strrchr s c = none := by
  induction s with
  | nil => rfl
  | cons x xs ih =>
    rw [List.mem_cons, not_or] at absent
    rw [strrchr, ih absent.2]
    exact if_neg (Ne.symm absent.1)

theorem strrchr_append (front rest : Str) (c : Char) (absent : c ∉ rest) :
    strrchr (front ++ c :: rest) c = some (c :: rest) := by
  induction front with
  | nil =>
    rw [List.nil_append, strrchr, strrchr_of_not_mem absent]
    exact if_pos rfl
  | cons x front ih => rw [List.cons_append, strrchr, ih]

theorem takeLine_append (n : ℕ) (stream : Str) :
    (takeLine n stream).1 ++ (takeLine n stream).2 = stream := by
  induction n generalizing stream with
  | zero => rfl
  | succ n ih =>
    cases stream with
    | nil => rfl
    | cons c stream =>
      rw [takeLine]
      split
      · rfl
      · rw [List.cons_append, ih]

theorem fgets_shorter {size : ℕ} (two : 2 ≤ size) {stream line rest : Str}
    (read : fgets size stream = some (line, rest)) : rest.length < stream.length := by
  obtain ⟨n, rfl⟩ : ∃ n, size = n + 2 := ⟨size - 2, by omega⟩
  cases stream with
  | nil => simp [fgets] at read
  | cons c stream =>
    have whole := congrArg List.length (takeLine_append n stream)
    rw [List.length_append] at whole
    simp only [fgets, reduceCtorEq, if_false, Nat.add_one_sub_one, takeLine, Option.some.injEq] at read
    split at read
    · cases read
      simp
    · cases read
      rw [List.length_cons]
      omega

theorem takeLine_line (n : ℕ) (line stream : Str) (plain : '\n' ∉ line) :
    takeLine n (line ++ '\n' :: stream) =
      if n ≤ line.length then (line.take n, line.drop n ++ '\n' :: stream)
      else (line ++ ['\n'], stream) := by
  induction line generalizing n with
  | nil => cases n <;> simp [takeLine]
  | cons c line ih =>
    rw [List.mem_cons, not_or] at plain
    cases n with
    | zero => simp [takeLine]
    | succ n =>
      rw [List.cons_append, takeLine, if_neg (Ne.symm plain.1), ih n plain.2]
      by_cases short : n ≤ line.length
      · simp [short]
      · simp [short]

theorem fgets_newline (size : ℕ) (line stream : Str) (plain : '\n' ∉ line) :
    fgets size (line ++ '\n' :: stream) =
      some (if size - 1 ≤ line.length then (line.take (size - 1), line.drop (size - 1) ++ '\n' :: stream)
        else (line ++ ['\n'], stream)) := by
  rw [fgets, if_neg (by simp), takeLine_line _ _ _ plain]

theorem set_end (s : Str) (x y : Char) (rest : Str) : (s ++ x :: rest).set s.length y = s ++ y :: rest := by
  rw [List.set_append_right _ _ le_rfl, Nat.sub_self, List.set_cons_zero]

end UnixSystems.CStrings
