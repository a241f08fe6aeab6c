import UnixSystems.CStrings

/-! `strtok` of the C library. It keeps a pointer into the string that it is cutting up, and
overwrites the delimiter after each token with a null character; the string before the pointer
and the one from there on are kept apart. The tokens of a fresh string are its fields, but a
string that has been scanned to the end has only its first field left. -/
namespace UnixSystems.StrTok
open CStrings

def nul : Char := Char.ofNat 0

structure CString where
  chars : Str
  plain : nul ∉ chars
deriving DecidableEq

/-- What a reader of the memory sees: the characters before the first null. -/
def text (memory : Str) : Str := memory.takeWhile (· ≠ nul)

structure Cursor where
  front : Str
  rest : Str

def Cursor.memory (c : Cursor) : Str := c.front ++ c.rest

/-- A call with a string starts at its beginning; a call with NULL goes on from the cursor. -/
def Cursor.start (memory : Str) : Cursor := ⟨[], memory⟩

/-- A call with a pointer into the memory. -/
def Cursor.at (memory : Str) (p : ℕ) : Cursor := ⟨memory.take p, memory.drop p⟩

/-- The next token, if any, and where to go on. -/
def strtok (delim : Char → Bool) (c : Cursor) : Option Str × Cursor :=
  let skipped := c.rest.takeWhile delim
  let rest := c.rest.dropWhile delim
  let token := rest.takeWhile fun x => !delim x && x != nul
  if token = [] then (none, ⟨c.front ++ skipped, rest⟩)
  else
    match rest.dropWhile fun x => !delim x && x != nul with
    | [] => (some token, ⟨c.front ++ skipped ++ token, []⟩)
    | x :: after =>
      if x = nul then (some token, ⟨c.front ++ skipped ++ token, x :: after⟩)
      else (some token, ⟨c.front ++ skipped ++ token ++ [nul], after⟩)

def fields (delim : Char → Bool) (s : Str) : List Str := (s.splitOnP delim).filter (· ≠ [])

section Fields

variable {delim : Char → Bool}

@[simp] theorem fields_nil : fields delim [] = [] := by simp [fields]

theorem fields_skip {skipped : Str} (all : ∀ x ∈ skipped, delim x = true) (s : Str) :
    fields delim (skipped ++ s) = fields delim s := by
  induction skipped with
  | nil => rfl
  | cons x skipped ih =>
    have here := all x List.mem_cons_self
    have later := ih fun y member => all y (List.mem_cons_of_mem x member)
    rw [List.cons_append, fields, List.splitOnP_cons_eq_if_modifyHead, if_pos here]
    simpa [fields] using later

theorem fields_token {token : Str} (some_char : token ≠ []) (plain : ∀ x ∈ token, delim x = false) :
    fields delim token = [token] := by
  rw [fields, List.splitOnP_eq_singleton plain]
  simp [some_char]

theorem fields_cons {token : Str} (some_char : token ≠ []) (plain : ∀ x ∈ token, delim x = false)
    {d : Char} (separates : delim d = true) (s : Str) :
    fields delim (token ++ d :: s) = token :: fields delim s := by
  rw [fields, List.splitOnP_append_cons_of_forall_mem plain d separates]
  simp [fields, some_char]

theorem fields_append {token : Str} (some_char : token ≠ []) (plain : ∀ x ∈ token, delim x = false)
    {s : Str} (separates : ∀ d ∈ s.head?, delim d = true) :
    fields delim (token ++ s) = token :: fields delim s := by
  cases s with
  | nil => rw [List.append_nil, fields_token some_char plain, fields_nil]
  | cons d s =>
    have here := separates d rfl
    have skip : fields delim (d :: s) = fields delim s := @fields_skip delim [d] (by simpa using here) s
    rw [fields_cons some_char plain here, skip]

theorem mem_of_mem_splitOnP {s t : Str} (part : t ∈ s.splitOnP delim) {x : Char} (inside : x ∈ t) : x ∈ s := by
  induction s generalizing t with
  | nil =>
    rw [List.splitOnP_nil, List.mem_singleton] at part
    exact part ▸ inside
  | cons y s ih =>
    rw [List.splitOnP_cons_eq_if_modifyHead] at part
    split_ifs at part
    · rcases List.mem_cons.mp part with rfl | later
      · exact absurd inside List.not_mem_nil
      · exact List.mem_cons_of_mem y (ih later inside)
    · obtain ⟨first, later, split⟩ := List.exists_cons_of_ne_nil (List.splitOnP_ne_nil delim s)
      rw [split, List.modifyHead_cons] at part
      rcases List.mem_cons.mp part with rfl | other
      · rcases List.mem_cons.mp inside with rfl | back
        · exact List.mem_cons_self
        · exact List.mem_cons_of_mem y (ih (split ▸ List.mem_cons_self) back)
      · exact List.mem_cons_of_mem y (ih (split ▸ List.mem_cons_of_mem first other) inside)

theorem mem_fields {s t : Str} (part : t ∈ fields delim s) : t ≠ [] ∧ ∀ x ∈ t, x ∈ s := by
  have kept := List.mem_filter.mp part
  exact ⟨by simpa using kept.2, fun x => mem_of_mem_splitOnP kept.1⟩

theorem fields_eq_nil_iff (s : Str) : fields delim s = [] ↔ ∀ x ∈ s, delim x = true := by
  constructor
  · intro none_left
    induction s with
    | nil => simp
    | cons x s ih =>
      rw [fields, List.splitOnP_cons_eq_if_modifyHead] at none_left
      split_ifs at none_left with separates
      · exact List.forall_mem_cons.mpr ⟨separates, ih (by simpa [fields] using none_left)⟩
      · obtain ⟨first, later, split⟩ := List.exists_cons_of_ne_nil (List.splitOnP_ne_nil delim s)
        simp [split] at none_left
  · intro all
    rw [← List.append_nil s, fields_skip all, fields_nil]

theorem length_splitOnP (s : Str) : (s.splitOnP delim).length = s.countP delim + 1 := by
  induction s with
  | nil => simp
  | cons x s ih =>
    rw [List.splitOnP_cons_eq_if_modifyHead, List.countP_cons]
    split_ifs with separates
    · rw [List.length_cons, ih]
    · rw [List.length_modifyHead, ih, Nat.add_zero]

theorem length_fields_add_count (s : Str) :
    (fields delim s).length + (s.splitOnP delim).count [] = (s.splitOnP delim).length := by
  rw [fields, List.length_eq_countP_add_countP (· ≠ []) (l := s.splitOnP delim), List.countP_eq_length_filter]
  simp [List.count, beq_eq_decide]

end Fields

section Text

theorem text_append {s : Str} (plain : nul ∉ s) (t : Str) : text (s ++ t) = s ++ text t := by
  refine List.takeWhile_append_of_pos fun x member => ?_
  have apart : x ≠ nul := fun same => plain (same ▸ member)
  simpa using apart

@[simp] theorem text_nul (rest : Str) : text (nul :: rest) = [] := by simp [text]

theorem text_terminated {s : Str} (plain : nul ∉ s) (rest : Str) : text (s ++ nul :: rest) = s := by
  rw [text_append plain, text_nul, List.append_nil]

theorem nul_not_mem_text (memory : Str) : nul ∉ text memory := fun member => by
  simpa using List.mem_takeWhile_imp member

def CString.read (memory : Str) : CString := ⟨text memory, nul_not_mem_text memory⟩

theorem text_of_plain {s : Str} (plain : nul ∉ s) : text s = s := by
  simpa [text] using text_append plain []

end Text

/-! ## One call -/

section Call

variable {delim : Char → Bool}

theorem not_of_dropWhile_cons {p : Char → Bool} {l : Str} {x : Char} {s : Str}
    (rest : l.dropWhile p = x :: s) : p x = false := by
  induction l with
  | nil => exact nomatch rest
  | cons y l ih =>
    rw [List.dropWhile_cons] at rest
    split at rest
    next => exact ih rest
    next fails =>
      cases rest
      simpa using fails

/-- What is skipped has delimiters only, and a token none. -/
structure Piece (delim : Char → Bool) (skipped token : Str) : Prop where
  skips : ∀ x ∈ skipped, delim x = true
  plain : ∀ x ∈ token, delim x = false
  unbroken : nul ∉ token

theorem Piece.nul_not_mem {skipped token : Str} (safe : delim nul = false)
    (piece : Piece delim skipped token) : nul ∉ skipped ++ token := by
  intro member
  rcases List.mem_append.mp member with first | second
  · exact absurd (piece.skips nul first) (by simp [safe])
  · exact piece.unbroken second

theorem Piece.takeWhile_eq {skipped token : Str} (piece : Piece delim skipped token)
    (some_char : token ≠ []) (rest : Str) : (skipped ++ token ++ rest).takeWhile delim = skipped := by
  obtain ⟨x, token, rfl⟩ := List.exists_cons_of_ne_nil some_char
  rw [List.append_assoc, List.takeWhile_append_of_pos piece.skips]
  simp [piece.plain x List.mem_cons_self]

/-! The fields that are left, in the three ways a call can go. -/

theorem Piece.fields_none {skipped : Str} (safe : delim nul = false) (piece : Piece delim skipped [])
    {rest : Str} (stop : text rest = []) : fields delim (text (skipped ++ rest)) = [] := by
  have plain := piece.nul_not_mem safe
  rw [List.append_nil] at plain
  rw [text_append plain, stop, fields_skip piece.skips, fields_nil]

theorem Piece.fields_last {skipped token : Str} (safe : delim nul = false)
    (piece : Piece delim skipped token) (some_char : token ≠ []) {rest : Str} (stop : text rest = []) :
    fields delim (text (skipped ++ token ++ rest)) = [token] := by
  rw [text_append (piece.nul_not_mem safe), stop, List.append_nil, fields_skip piece.skips,
    fields_token some_char piece.plain]

theorem Piece.fields_more {skipped token : Str} (safe : delim nul = false)
    (piece : Piece delim skipped token) (some_char : token ≠ []) {d : Char}
    (separates : delim d = true) (rest : Str) :
    fields delim (text (skipped ++ token ++ d :: rest)) = token :: fields delim (text rest) := by
  have next : d ≠ nul := fun null => by simp [null, safe] at separates
  have seen : text (d :: rest) = d :: text rest := by simp [text, next]
  rw [text_append (piece.nul_not_mem safe), seen, List.append_assoc, fields_skip piece.skips,
    fields_cons some_char piece.plain separates]

theorem text_eq_nil_of_no_token {rest : Str} (start : ∀ x s, rest = x :: s → delim x = false)
    (stop : ∀ x s, rest = x :: s → (!delim x && x != nul) = false) : text rest = [] := by
  cases rest with
  | nil => rfl
  | cons x s =>
    have null : x = nul := by simpa [start x s rfl] using stop x s rfl
    simp [text, null]

/-- The three ways a call can go: nothing is left, the token is the last, or a delimiter after
it is overwritten. -/
theorem strtok_cases (delim : Char → Bool) (c : Cursor) :
    (∃ skipped rest, c.rest = skipped ++ rest ∧ Piece delim skipped [] ∧ text rest = [] ∧
        strtok delim c = (none, ⟨c.front ++ skipped, rest⟩)) ∨
      (∃ skipped token rest, c.rest = skipped ++ token ++ rest ∧ Piece delim skipped token ∧
        token ≠ [] ∧ text rest = [] ∧
        strtok delim c = (some token, ⟨c.front ++ skipped ++ token, rest⟩)) ∨
      ∃ skipped token d rest, c.rest = skipped ++ token ++ d :: rest ∧ Piece delim skipped token ∧
        token ≠ [] ∧ delim d = true ∧
        strtok delim c = (some token, ⟨c.front ++ skipped ++ token ++ [nul], rest⟩) := by
  have skips : ∀ x ∈ c.rest.takeWhile delim, delim x = true := fun x => List.mem_takeWhile_imp
  have whole : c.rest = c.rest.takeWhile delim ++ c.rest.dropWhile delim :=
    List.takeWhile_append_dropWhile.symm
  have start : ∀ x s, c.rest.dropWhile delim = x :: s → delim x = false :=
    fun x s => not_of_dropWhile_cons
  unfold strtok
  generalize c.rest.takeWhile delim = skipped at skips whole ⊢
  generalize c.rest.dropWhile delim = rest at whole start ⊢
  have inside : ∀ x ∈ rest.takeWhile (fun x => !delim x && x != nul), delim x = false ∧ x ≠ nul := by
    intro x member
    simpa using List.mem_takeWhile_imp member
  have split : rest = rest.takeWhile (fun x => !delim x && x != nul) ++
      rest.dropWhile (fun x => !delim x && x != nul) := List.takeWhile_append_dropWhile.symm
  have stop : ∀ x s, rest.dropWhile (fun x => !delim x && x != nul) = x :: s →
      (!delim x && x != nul) = false := fun x s => not_of_dropWhile_cons
  dsimp only
  generalize rest.takeWhile (fun x => !delim x && x != nul) = token at inside split ⊢
  generalize rest.dropWhile (fun x => !delim x && x != nul) = after at split stop ⊢
  have piece : Piece delim skipped token :=
    ⟨skips, fun x member => (inside x member).1, fun member => (inside nul member).2 rfl⟩
  by_cases none : token = []
  · subst none
    rw [List.nil_append] at split
    subst split
    exact .inl ⟨skipped, rest, whole, piece, text_eq_nil_of_no_token start stop, if_pos rfl⟩
  · rw [if_neg none]
    rw [split, ← List.append_assoc] at whole
    cases after with
    | nil => exact .inr (.inl ⟨skipped, token, [], whole, piece, none, rfl, rfl⟩)
    | cons x s =>
      by_cases null : x = nul
      · refine .inr (.inl ⟨skipped, token, x :: s, whole, piece, none, ?_, if_pos null⟩)
        simp [text, null]
      · have separates : delim x = true := by simpa [null] using stop x s rfl
        exact .inr (.inr ⟨skipped, token, x, s, whole, piece, none, separates, if_neg null⟩)

theorem strtok_fields (safe : delim nul = false) (c : Cursor) :
    (strtok delim c).1 = (fields delim (text c.rest)).head? ∧
      fields delim (text (strtok delim c).2.rest) = (fields delim (text c.rest)).tail := by
  rcases strtok_cases delim c with ⟨skipped, rest, whole, piece, stop, call⟩ |
    ⟨skipped, token, rest, whole, piece, some_char, stop, call⟩ |
    ⟨skipped, token, d, rest, whole, piece, some_char, separates, call⟩
  · rw [call, whole, piece.fields_none safe stop, stop, fields_nil]
    exact ⟨rfl, rfl⟩
  · rw [call, whole, piece.fields_last safe some_char stop, stop, fields_nil]
    exact ⟨rfl, rfl⟩
  · rw [call, whole, piece.fields_more safe some_char separates]
    exact ⟨rfl, rfl⟩

theorem strtok_begins (delim : Char → Bool) (c : Cursor) : c.front <+: (strtok delim c).2.front := by
  rcases strtok_cases delim c with ⟨_, _, _, _, _, call⟩ | ⟨_, _, _, _, _, _, _, call⟩ |
    ⟨_, _, _, _, _, _, _, _, call⟩ <;> rw [call]
  · exact List.prefix_append _ _
  · rw [List.append_assoc]
    exact List.prefix_append _ _
  · rw [List.append_assoc, List.append_assoc]
    exact List.prefix_append _ _

theorem strtok_shorter (c : Cursor) {token : Str}
    (found : (strtok delim c).1 = some token) : (strtok delim c).2.rest.length < c.rest.length := by
  rcases strtok_cases delim c with ⟨_, _, _, _, _, call⟩ |
    ⟨skipped, token, rest, whole, _, some_char, _, call⟩ | ⟨skipped, token, d, rest, whole, _, _, _, call⟩
  · rw [call] at found
    exact nomatch found
  · have char := List.length_pos_iff.mpr some_char
    rw [call, whole]
    simp only [List.length_append]
    omega
  · rw [call, whole]
    simp only [List.length_append, List.length_cons]
    omega

theorem strtok_of_text_nil (safe : delim nul = false) {c : Cursor} (stop : text c.rest = []) :
    strtok delim c = (none, c) := by
  obtain ⟨front, rest⟩ := c
  cases rest with
  | nil => simp [strtok]
  | cons x rest =>
    have null : x = nul := by
      by_contra other
      simp [text, other] at stop
    simp [strtok, null, safe]

end Call

/-! ## The loop -/

def untilToken (delim : Char → Bool) (hit : Str → Bool) (c : Cursor) : Option Str × Cursor :=
  match _found : (strtok delim c).1 with
  | none => (none, (strtok delim c).2)
  | some token =>
    if hit token then (some token, (strtok delim c).2)
    else untilToken delim hit (strtok delim c).2
termination_by c.rest.length
decreasing_by exact strtok_shorter c _found

section Loop

variable {delim : Char → Bool} {hit : Str → Bool}

theorem untilToken_none {c d : Cursor} (call : strtok delim c = (none, d)) :
    untilToken delim hit c = (none, d) := by
  rw [untilToken]
  split
  next => rw [call]
  next token found =>
    rw [call] at found
    exact nomatch found

theorem untilToken_some {c d : Cursor} {token : Str} (call : strtok delim c = (some token, d)) :
    untilToken delim hit c = if hit token then (some token, d) else untilToken delim hit d := by
  rw [untilToken]
  split
  next found =>
    rw [call] at found
    exact nomatch found
  next other found =>
    rw [call] at found
    obtain rfl := Option.some.inj found
    rw [call]

theorem untilToken_of_text_nil (safe : delim nul = false) {c : Cursor} (stop : text c.rest = []) :
    untilToken delim hit c = (none, c) :=
  untilToken_none (strtok_of_text_nil safe stop)

theorem untilToken_fst (safe : delim nul = false) (c : Cursor) :
    (untilToken delim hit c).1 = (fields delim (text c.rest)).find? hit := by
  induction size : c.rest.length using Nat.strong_induction_on generalizing c with
  | h n ih =>
    rcases strtok_cases delim c with ⟨skipped, rest, whole, piece, stop, call⟩ |
      ⟨skipped, token, rest, whole, piece, some_char, stop, call⟩ |
      ⟨skipped, token, d, rest, whole, piece, some_char, separates, call⟩
    · rw [untilToken_none call, whole, piece.fields_none safe stop]
      rfl
    · rw [untilToken_some call, whole, piece.fields_last safe some_char stop, List.find?_cons]
      split_ifs with first
      · simp [first]
      · rw [untilToken_of_text_nil safe stop]
        simp [first]
    · have shorter : rest.length < n := by
        rw [← size, whole]
        simp only [List.length_append, List.length_cons]
        omega
      rw [untilToken_some call, whole, piece.fields_more safe some_char separates, List.find?_cons]
      split_ifs with first
      · simp [first]
      · simpa [first] using ih rest.length shorter ⟨_, rest⟩ rfl

theorem untilToken_begins (c : Cursor) : c.front <+: (untilToken delim hit c).2.memory := by
  induction size : c.rest.length using Nat.strong_induction_on generalizing c with
  | h n ih =>
    have further := strtok_begins delim c
    have shorter := fun token => @strtok_shorter delim c token
    rcases call : strtok delim c with ⟨none | token, d⟩
    · rw [call] at further
      rw [untilToken_none call]
      exact further.trans (List.prefix_append _ _)
    · rw [call] at further shorter
      rw [untilToken_some call]
      split_ifs
      · exact further.trans (List.prefix_append _ _)
      · exact further.trans (ih d.rest.length (size ▸ shorter token rfl) d rfl)

/-- After a scan without a hit, the first field is all that a reader still sees. -/
theorem fields_after_scan (safe : delim nul = false) (memory : Str)
    (miss : (untilToken delim hit (.start memory)).1 = none) :
    fields delim (text (untilToken delim hit (.start memory)).2.memory) =
      (fields delim (text memory)).take 1 := by
  rcases strtok_cases delim (.start memory) with ⟨skipped, rest, whole, piece, stop, call⟩ |
    ⟨skipped, token, rest, whole, piece, some_char, stop, call⟩ |
    ⟨skipped, token, d, rest, whole, piece, some_char, separates, call⟩
  all_goals
    change memory = _ at whole
    simp only [Cursor.start, List.nil_append] at call
  · have none_left := piece.fields_none safe stop
    rw [Cursor.start, untilToken_none call, Cursor.memory, whole, none_left]
    rfl
  · have last := piece.fields_last safe some_char stop
    rw [Cursor.start, untilToken_some call] at miss ⊢
    split_ifs at miss ⊢
    rw [untilToken_of_text_nil safe stop, Cursor.memory, whole, last]
    rfl
  · have more := piece.fields_more safe some_char separates rest
    rw [Cursor.start, untilToken_some call] at miss ⊢
    split_ifs at miss ⊢
    -- the delimiter after the first token is null now, and stays so
    obtain ⟨later, kept⟩ := @untilToken_begins delim hit ⟨skipped ++ token ++ [nul], rest⟩
    have cut := piece.fields_last safe some_char (text_nul later)
    rw [whole, more, ← kept, List.append_assoc _ [nul], List.singleton_append, cut]
    rfl

end Loop

/-! ## All tokens -/

def tokenStart (delim : Char → Bool) (c : Cursor) : ℕ :=
  c.front.length + (c.rest.takeWhile delim).length

/-- The loop `while (temp != NULL) { ...; temp = strtok(NULL, delim); }`. The body is given the
pointer to the token and the string there. -/
def forTokens {m : Type → Type} [Monad m] {σ : Type} (delim : Char → Bool)
    (body : σ → ℕ → Str → m σ) (s : σ) (c : Cursor) : m (σ × Cursor) :=
  match _found : (strtok delim c).1 with
  | none => pure (s, (strtok delim c).2)
  | some token => do
    let s ← body s (tokenStart delim c) token
    forTokens delim body s (strtok delim c).2
termination_by c.rest.length
decreasing_by exact strtok_shorter c _found

def tokenize (delim : Char → Bool) (c : Cursor) : List (ℕ × Str) × Cursor :=
  match _found : (strtok delim c).1 with
  | none => ([], (strtok delim c).2)
  | some token =>
    let later := tokenize delim (strtok delim c).2
    ((tokenStart delim c, token) :: later.1, later.2)
termination_by c.rest.length
decreasing_by exact strtok_shorter c _found

section Tokens

variable {delim : Char → Bool}

theorem tokenize_none {c d : Cursor} (call : strtok delim c = (none, d)) :
    tokenize delim c = ([], d) := by
  rw [tokenize]
  split
  next => rw [call]
  next token found =>
    rw [call] at found
    exact nomatch found

theorem tokenize_some {c d : Cursor} {token : Str} (call : strtok delim c = (some token, d)) :
    tokenize delim c =
      ((tokenStart delim c, token) :: (tokenize delim d).1, (tokenize delim d).2) := by
  rw [tokenize]
  split
  next found =>
    rw [call] at found
    exact nomatch found
  next other found =>
    rw [call] at found
    obtain rfl := Option.some.inj found
    rw [call]

theorem forTokens_eq {m : Type → Type} [Monad m] [LawfulMonad m] {σ : Type}
    (body : σ → ℕ → Str → m σ) (s : σ) (c : Cursor) :
    forTokens delim body s c =
      (·, (tokenize delim c).2) <$> (tokenize delim c).1.foldlM (fun s t => body s t.1 t.2) s := by
  induction size : c.rest.length using Nat.strong_induction_on generalizing c s with
  | h n ih =>
    have shorter := fun token => @strtok_shorter delim c token
    rw [forTokens]
    split
    next found =>
      rw [tokenize_none (Prod.ext found rfl)]
      simp
    next token found =>
      rw [tokenize_some (Prod.ext found rfl), List.foldlM_cons, map_bind]
      exact bind_congr fun s => ih _ (size ▸ shorter token found) s _ rfl

theorem tokenize_of_text_nil (safe : delim nul = false) {c : Cursor} (stop : text c.rest = []) :
    tokenize delim c = ([], c) :=
  tokenize_none (strtok_of_text_nil safe stop)

/-- The memory from `offset` on holds these strings, each ended by a null, at these places. -/
inductive Cuts : ℕ → Str → List (ℕ × Str) → Prop
  | nil (offset : ℕ) (rest : Str) : Cuts offset rest []
  | cons {offset : ℕ} (skipped : Str) {token after : Str} {more : List (ℕ × Str)} :
      nul ∉ token → text after = [] → Cuts (offset + skipped.length + token.length) after more →
      Cuts offset (skipped ++ token ++ after) ((offset + skipped.length, token) :: more)

theorem Cuts.skip (s : Str) {offset : ℕ} {rest : Str} {more : List (ℕ × Str)}
    (cuts : Cuts (offset + s.length) rest more) : Cuts offset (s ++ rest) more := by
  cases cuts with
  | nil => exact .nil _ _
  | cons skipped plain stop later =>
    have place : offset + s.length + skipped.length = offset + (s ++ skipped).length := by
      rw [List.length_append, Nat.add_assoc]
    rw [place] at later ⊢
    rw [← List.append_assoc, ← List.append_assoc]
    exact .cons (s ++ skipped) plain stop later

theorem Cuts.tail {offset : ℕ} {rest : Str} {t : ℕ × Str} {more : List (ℕ × Str)}
    (cuts : Cuts offset rest (t :: more)) : Cuts offset rest more := by
  cases cuts with
  | cons skipped plain stop later =>
    refine Cuts.skip _ ?_
    rwa [List.length_append, ← Nat.add_assoc]

theorem Cuts.drop {offset : ℕ} {rest : Str} {l : List (ℕ × Str)} (cuts : Cuts offset rest l) (n : ℕ) :
    Cuts offset rest (l.drop n) := by
  induction n generalizing l with
  | zero => exact cuts
  | succ n ih =>
    cases l with
    | nil => exact .nil _ _
    | cons t l => exact ih cuts.tail

/-- What a scan to the end leaves of the string at the cursor: the tokens it has found stand
there, and nothing behind the string has changed. -/
structure Scanned (delim : Char → Bool) (front s after : Str) (result : List (ℕ × Str) × Cursor) :
    Prop where
  fields : result.1.map Prod.snd = StrTok.fields delim s
  memory : ∃ s', s'.length = s.length ∧ result.2.memory = front ++ (s' ++ after) ∧
    Cuts front.length (s' ++ after) result.1

theorem Piece.string_split {skipped token rest s after : Str} {d : Char} (safe : delim nul = false)
    (piece : Piece delim skipped token) (separates : delim d = true) (seen : text (s ++ after) = s)
    (whole : s ++ after = skipped ++ token ++ d :: rest) :
    s = skipped ++ token ++ d :: text rest ∧ rest = text rest ++ after := by
  have apart : d ≠ nul := fun null => by simp [null, safe] at separates
  have front_part : s = skipped ++ token ++ d :: text rest := by
    rw [← seen, whole, text_append (piece.nul_not_mem safe)]
    simp [text, apart]
  refine ⟨front_part, ?_⟩
  rw [front_part, List.append_assoc, List.append_cancel_left_eq] at whole
  exact (List.cons.inj whole).2.symm

theorem tokenize_scanned (safe : delim nul = false) (front : Str) {s after : Str} (plain : nul ∉ s)
    (stop : text after = []) : Scanned delim front s after (tokenize delim ⟨front, s ++ after⟩) := by
  induction size : s.length using Nat.strong_induction_on generalizing s front with
  | h n ih =>
    have seen : text (s ++ after) = s := by rw [text_append plain, stop, List.append_nil]
    rcases strtok_cases delim ⟨front, s ++ after⟩ with ⟨skipped, rest, whole, piece, none_left, call⟩ |
      ⟨skipped, token, rest, whole, piece, some_char, last, call⟩ |
      ⟨skipped, token, d, rest, whole, piece, some_char, separates, call⟩
    all_goals change s ++ after = _ at whole
    · have none_found := piece.fields_none safe none_left
      rw [← whole, seen] at none_found
      rw [tokenize_none call]
      refine ⟨none_found.symm, s, rfl, ?_, .nil _ _⟩
      rw [whole, ← List.append_assoc]
      rfl
    · have one := piece.fields_last safe some_char last
      rw [← whole, seen] at one
      rw [tokenize_some call, tokenize_of_text_nil safe last]
      refine ⟨one.symm, s, rfl, ?_, ?_⟩
      · rw [whole, ← List.append_assoc, ← List.append_assoc]
        rfl
      · rw [tokenStart, whole, piece.takeWhile_eq some_char]
        exact .cons skipped piece.unbroken last (.nil _ _)
    · have more := piece.fields_more safe some_char separates rest
      obtain ⟨front_part, back_part⟩ := piece.string_split safe separates seen whole
      have shorter : (text rest).length < n := by
        rw [← size, front_part]
        simp only [List.length_append, List.length_cons]
        omega
      have later := ih _ shorter (front ++ skipped ++ token ++ [nul]) (nul_not_mem_text rest) rfl
      rw [← back_part] at later
      obtain ⟨s', length_eq, memory_eq, cuts⟩ := later.memory
      rw [tokenize_some call]
      refine ⟨?_, skipped ++ token ++ nul :: s', ?_, ?_, ?_⟩
      · rw [← whole, seen] at more
        rw [more, List.map_cons, later.fields]
      · rw [front_part]
        simp [length_eq]
      · rw [memory_eq]
        simp
      · rw [tokenStart, whole, piece.takeWhile_eq some_char, List.append_assoc _ (nul :: s')]
        refine .cons skipped piece.unbroken (text_nul s') ?_
        refine Cuts.skip [nul] ?_
        simpa [Nat.add_assoc] using cuts

end Tokens

end UnixSystems.StrTok
