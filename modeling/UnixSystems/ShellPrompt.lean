import UnixSystems.ShellModel

/-! Reading lines with `prompt`. A line that does not fit into the first block is read in several
rounds; each round but the first starts on the last character of the round before it, so that
this character is lost, and may write past the end of the block. -/
namespace UnixSystems.ShellPrompt
open CStrings StrTok ShellModel

def unlines (lines : List Str) : Str := lines.flatMap (· ++ ['\n'])

def Prompted.text : Prompted → Option Str
  | .line s => some s.chars
  | _ => none

/-- One call for each line returns it, and no read goes past the end of its block. -/
def ReadsLines (bufsiz : ℕ) (lines : List Str) : Prop :=
  (prompts bufsiz (fun _ => true) lines.length (unlines lines)).map Prompted.text = lines.map some

/-! ## One round -/

section Round

variable {bufsiz buffSize rounds : ℕ} {kept after rem rest : Str}

theorem store_append (kept after chunk : Str) :
    store (kept ++ after) kept.length chunk = kept ++ chunk ++ nul :: after.drop (chunk.length + 1) := by
  simp [store, List.drop_append, Nat.add_assoc]

theorem nul_not_mem_line {s : Str} (nulFree : nul ∉ s) : nul ∉ s ++ ['\n'] := by
  rw [List.mem_append, not_or, List.mem_singleton]
  exact ⟨nulFree, by decide⟩

theorem endLine_newline {s : Str} (nulFree : nul ∉ s) (after : Str) :
    endLine (s ++ ['\n'] ++ nul :: after) = .line ⟨s, nulFree⟩ := by
  have seen : text (s ++ ['\n'] ++ nul :: after) = s ++ ['\n'] :=
    text_terminated (nul_not_mem_line nulFree) after
  have newline : (s ++ ['\n'] ++ nul :: after)[s.length]? = some '\n' := by simp
  have cut : text ((s ++ ['\n'] ++ nul :: after).set s.length nul) = s := by
    rw [List.append_assoc, List.singleton_append, set_end, text_terminated nulFree]
  unfold endLine
  simp only [seen, List.length_append, List.length_singleton, Nat.add_sub_cancel, newline, Nat.add_eq_zero_iff,
    one_ne_zero, and_false, if_false, if_true, CString.read, cut]

theorem promptLoop_whole (nulFree : nul ∉ kept ++ rem) (plain : '\n' ∉ rem)
    (fits : rem.length + 1 < buffSize + bufsiz) :
    promptLoop bufsiz (fun _ => true) (rounds + 1) (kept ++ after) buffSize kept.length
        (rem ++ '\n' :: rest) =
      (if buffSize + bufsiz < kept.length + rem.length + 2 then .overrun
        else .line ⟨kept ++ rem, nulFree⟩, rest) := by
  have read : fgets (buffSize + bufsiz) (rem ++ '\n' :: rest) = some (rem ++ ['\n'], rest) := by
    rw [fgets_newline _ _ _ plain, if_neg (by omega)]
  have stored : store (kept ++ after) kept.length (rem ++ ['\n']) =
      kept ++ rem ++ ['\n'] ++ nul :: after.drop (rem.length + 2) := by
    rw [store_append, List.length_append, List.length_singleton, ← List.append_assoc]
  have seen : text (kept ++ rem ++ ['\n'] ++ nul :: after.drop (rem.length + 2)) = kept ++ rem ++ ['\n'] :=
    text_terminated (nul_not_mem_line nulFree) _
  have newline : (kept ++ rem ++ ['\n'] ++ nul :: after.drop (rem.length + 2))[(kept ++ rem).length]? =
      some '\n' := by simp
  rw [promptLoop]
  simp only [Bool.true_eq_false, if_false, read, stored, seen, List.length_append, List.length_singleton,
    Nat.add_sub_cancel, ← Nat.add_assoc]
  split_ifs with beyond more
  · rfl
  · rw [List.length_append] at newline
    exact absurd newline more.2.2
  · rw [endLine_newline nulFree]

/-- A round that does not. Unless the shell breaks off, the last character read is lost. -/
theorem promptLoop_part (nulFree : nul ∉ kept ++ rem) (plain : '\n' ∉ kept ++ rem)
    (long : buffSize + bufsiz - 1 ≤ rem.length) {result : Prompted × Str}
    (call : promptLoop bufsiz (fun _ => true) (rounds + 1) (kept ++ after) buffSize kept.length
      (rem ++ '\n' :: rest) = result) :
    result.1 = .overrun ∨ result.1 = .wild ∨
      ∃ front c more after', kept ++ rem = front ++ c :: more ∧
        result = promptLoop bufsiz (fun _ => true) rounds (front ++ after') (buffSize + bufsiz) front.length
          (more ++ '\n' :: rest) := by
  generalize size_eq : buffSize + bufsiz - 1 = size at long
  have whole : kept ++ rem = kept ++ rem.take size ++ rem.drop size := by simp
  have chunk_length : (rem.take size).length = size := List.length_take_of_le long
  have read := fgets_newline (buffSize + bufsiz) rem rest fun member => plain (by simp [member])
  rw [size_eq, if_pos long] at read
  generalize rem.take size = chunk at whole chunk_length read
  rw [whole, List.mem_append, not_or] at nulFree plain
  have seen := text_terminated nulFree.1 (after.drop (size + 1))
  rw [promptLoop] at call
  simp only [Bool.true_eq_false, if_false, read, store_append, size_eq, chunk_length, seen, lt_irrefl,
    false_and, not_false_eq_true, true_and] at call
  rcases List.eq_nil_or_concat (kept ++ chunk) with empty | ⟨front, c, split⟩
  · have broken : endLine (kept ++ chunk ++ nul :: after.drop (size + 1)) = .wild := by
      simp [endLine, empty, text]
    rw [empty, List.length_nil] at call
    split_ifs at call with beyond more
    · exact .inl (call ▸ rfl)
    · exact absurd rfl more.1
    · exact .inr (.inl (by rw [← call, ← empty, broken]))
  · rw [List.concat_eq_append] at split
    have kept_char : (kept ++ chunk ++ nul :: after.drop (size + 1))[front.length]? = some c := by
      simp [split]
    have other : c ≠ '\n' := fun newline => plain.1 (by simp [split, newline])
    have length_eq : (kept ++ chunk).length = front.length + 1 := by simp [split]
    rw [length_eq, Nat.add_sub_cancel, kept_char] at call
    split_ifs at call with beyond more
    · exact .inl (call ▸ rfl)
    · refine .inr (.inr ⟨front, c, rem.drop size, c :: nul :: after.drop (size + 1), ?_, ?_⟩)
      · rw [whole, split, List.append_assoc, List.singleton_append]
      · rw [← call, split, List.append_assoc, List.singleton_append]
    · exact absurd ⟨Nat.succ_ne_zero _, by simpa using other⟩ more

end Round

/-! ## A call -/

section Call

variable {bufsiz : ℕ} {line rest : Str}

theorem length_le_of_promptLoop {rounds buffSize : ℕ} {kept after rem : Str} (nulFree : nul ∉ kept ++ rem)
    (plain : '\n' ∉ kept ++ rem) {s : CString}
    (result : (promptLoop bufsiz (fun _ => true) rounds (kept ++ after) buffSize kept.length
      (rem ++ '\n' :: rest)).1 = .line s) : s.chars.length ≤ kept.length + rem.length := by
  induction rounds generalizing kept after rem buffSize with
  | zero => exact nomatch result
  | succ rounds ih =>
    by_cases fits : rem.length + 1 < buffSize + bufsiz
    · rw [promptLoop_whole nulFree (fun member => plain (by simp [member])) fits] at result
      split_ifs at result
      cases result
      simp
    · have long : buffSize + bufsiz - 1 ≤ rem.length := by omega
      rcases promptLoop_part nulFree plain long rfl with broken | broken | ⟨front, c, more, after', split, next⟩
      · rw [broken] at result
        exact nomatch result
      · rw [broken] at result
        exact nomatch result
      · rw [next] at result
        have sub : (front ++ more).Sublist (kept ++ rem) :=
          split ▸ (List.sublist_cons_self c more).append_left front
        have less := ih (fun member => nulFree (sub.subset member)) (fun member => plain (sub.subset member))
          result
        have total := congrArg List.length split
        simp only [List.length_append, List.length_cons] at total
        omega

theorem prompt_short (nulFree : nul ∉ line) (plain : '\n' ∉ line) (short : line.length + 1 < bufsiz) :
    prompt bufsiz (fun _ => true) (line ++ '\n' :: rest) = (.line ⟨line, nulFree⟩, rest) := by
  have fits : line.length + 1 < 0 + bufsiz := by omega
  have call := @promptLoop_whole bufsiz 0 (line ++ '\n' :: rest).length [] [] line rest nulFree plain fits
  rw [if_neg (by rw [List.length_nil]; omega)] at call
  exact call

-- blocks of four characters: a character is lost, or the second read goes too far
example : prompt 4 (fun _ => true) "abc\n".toList = (.line ⟨['a', 'b'], by decide⟩, []) := by decide

example : (prompt 4 (fun _ => true) "abcdefghijkl\n".toList).1 = .overrun := by decide

theorem prompt_long (nulFree : nul ∉ line) (plain : '\n' ∉ line) (long : ¬ line.length + 1 < bufsiz)
    {s : CString} (result : (prompt bufsiz (fun _ => true) (line ++ '\n' :: rest)).1 = .line s) :
    s.chars.length < line.length := by
  have over_first : 0 + bufsiz - 1 ≤ line.length := by omega
  rcases @promptLoop_part bufsiz 0 (line ++ '\n' :: rest).length [] [] line rest nulFree plain over_first _ rfl
    with broken | broken | ⟨front, c, more, after', split, next⟩
  · exact nomatch broken.symm.trans result
  · exact nomatch broken.symm.trans result
  · have split' : line = front ++ c :: more := split
    have sub : (front ++ more).Sublist line := split' ▸ (List.sublist_cons_self c more).append_left front
    have less := length_le_of_promptLoop (fun member => nulFree (sub.subset member))
      (fun member => plain (sub.subset member)) ((congrArg Prod.fst next).symm.trans result)
    rw [split', List.length_append, List.length_cons]
    omega

theorem endLine_finishes (buffer : Str) : endLine buffer ≠ .unfinished := by
  unfold endLine
  dsimp only
  split_ifs <;> exact Prompted.noConfusion

theorem promptLoop_finishes (two : 2 ≤ bufsiz) (granted : ℕ → Bool) {rounds : ℕ} (buffer : Str)
    (buffSize last : ℕ) {stdin : Str} (enough : stdin.length < rounds) :
    (promptLoop bufsiz granted rounds buffer buffSize last stdin).1 ≠ .unfinished := by
  induction rounds generalizing buffer buffSize last stdin with
  | zero => exact absurd enough (Nat.not_lt_zero _)
  | succ rounds ih =>
    rw [promptLoop]
    dsimp only
    split_ifs
    · exact Prompted.noConfusion
    · split
      next => exact endLine_finishes buffer
      next chunk rest read =>
        have shorter := fgets_shorter (by omega) read
        split_ifs
        · exact Prompted.noConfusion
        · exact ih _ _ _ (by omega)
        · exact endLine_finishes _

theorem prompt_finishes (two : 2 ≤ bufsiz) (granted : ℕ → Bool) (stdin : Str) :
    (prompt bufsiz granted stdin).1 ≠ .unfinished :=
  promptLoop_finishes two granted [] 0 0 (Nat.lt_succ_self _)

theorem prompt_iff (plain : '\n' ∉ line) :
    Prompted.text (prompt bufsiz (fun _ => true) (line ++ '\n' :: rest)).1 = some line ↔
      nul ∉ line ∧ line.length + 1 < bufsiz := by
  constructor
  · intro returned
    cases result : (prompt bufsiz (fun _ => true) (line ++ '\n' :: rest)).1 with
    | line s =>
      rw [result] at returned
      obtain rfl : s.chars = line := Option.some.inj returned
      refine ⟨s.plain, ?_⟩
      by_contra long
      exact absurd (prompt_long s.plain plain long result) (lt_irrefl _)
    | null | overrun | wild | unfinished =>
      rw [result] at returned
      exact nomatch returned
  · intro fits
    rw [prompt_short fits.1 plain fits.2]
    rfl

end Call

theorem readsLines_iff (bufsiz : ℕ) (lines : List Str) (plain : ∀ line ∈ lines, '\n' ∉ line) :
    ReadsLines bufsiz lines ↔ ∀ line ∈ lines, nul ∉ line ∧ line.length + 1 < bufsiz := by
  induction lines with
  | nil => simp [ReadsLines, prompts]
  | cons line lines ih =>
    have first : '\n' ∉ line := plain line List.mem_cons_self
    have others := ih fun l member => plain l (List.mem_cons_of_mem line member)
    have input : unlines (line :: lines) = line ++ '\n' :: unlines lines := by simp [unlines]
    have call := @prompt_iff bufsiz line (unlines lines) first
    rw [ReadsLines, List.length_cons, prompts, input, List.map_cons, List.map_cons, List.cons.injEq, call,
      List.forall_mem_cons]
    refine and_congr_right fun fits => ?_
    rw [prompt_short fits.1 first fits.2, ← others, ReadsLines]

theorem readsLines_iff_short : ReadsLines 8192 ["ls".toList, []] :=
  (readsLines_iff 8192 ["ls".toList, []] (by decide)).mpr (by decide)

theorem long_line_cut :
    (∀ s, (prompt 8192 (fun _ => true) (List.replicate 8191 'a' ++ ['\n'])).1 = .line s →
      s.chars.length < 8191) ∧
      ¬ ReadsLines 8192 [List.replicate 8191 'a'] := by
  have nulFree : nul ∉ List.replicate 8191 'a' := fun member =>
    absurd (List.eq_of_mem_replicate member) (by decide)
  have plain : '\n' ∉ List.replicate 8191 'a' := fun member =>
    absurd (List.eq_of_mem_replicate member) (by decide)
  have long : ¬ (List.replicate 8191 'a').length + 1 < 8192 := by
    rw [List.length_replicate]
    decide
  constructor
  · intro s result
    have cut := prompt_long nulFree plain long result
    rwa [List.length_replicate] at cut
  · intro reads
    have first : Prompted.text (prompt 8192 (fun _ => true) (List.replicate 8191 'a' ++ ['\n'])).1 =
        some (List.replicate 8191 'a') := by
      have whole : unlines [List.replicate 8191 'a'] = List.replicate 8191 'a' ++ ['\n'] :=
        List.append_nil _
      rw [ReadsLines, List.length_singleton, prompts, whole] at reads
      exact (List.cons.inj reads).1
    exact long ((prompt_iff plain).mp first).2

end UnixSystems.ShellPrompt
