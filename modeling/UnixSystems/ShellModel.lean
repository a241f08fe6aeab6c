import UnixSystems.LoggedRuns
import UnixSystems.StrTok

/-! mybash: the ring of the last commands that succeeded and the suggestion made from it when a
command is not found, reading a line, cutting it up into the segments of a pipeline and their
words (funcs.c), and running the segments (shell.c). -/
namespace UnixSystems.ShellModel
open CStrings StrTok LoggedRuns LoggedRuns.Logged

def memorySize : ℕ := 100

/-- A NULL in the array is `none`. -/
structure History where
  commands : ℕ → Option CString
  index : ℕ
  size : ℕ
  index_lt : index < memorySize
  size_le : size ≤ memorySize

def History.empty : History where
  commands := fun _ => none
  index := 0
  size := 0
  index_lt := Nat.zero_lt_succ 99
  size_le := Nat.zero_le memorySize

/-- `refused` is the return value -1. The block has `len` bytes, and `overrun` is a copy that
does not fit into it. -/
inductive Remembered where
  | stored (ht : History)
  | refused (ht : History)
  | overrun

/-- `granted` is what `malloc` does. The length is an `unsigned short`. -/
def remember (ht : History) (command : CString) (granted : Bool) : Remembered :=
  let len := (command.chars.length + 1) % 2 ^ 16
  if granted = false then .refused { ht with commands := Function.update ht.commands ht.index none }
  else if len < command.chars.length + 1 then .overrun
  else .stored
    { commands := Function.update ht.commands ht.index (some command)
      index := (ht.index + 1) % memorySize
      size := if ht.size = memorySize then ht.size else ht.size + 1
      index_lt := Nat.mod_lt _ (Nat.zero_lt_succ 99)
      size_le := by
        have bound := ht.size_le
        split_ifs <;> omega }

/-- The slots whose commands are freed. -/
def deallocateHist (ht : History) : List ℕ := List.range ht.size

/-- The shell exits when a command cannot be stored. -/
def rememberAll : List CString → History → Option History
  | [], ht => some ht
  | command :: commands, ht =>
    match remember ht command true with
    | .stored ht => rememberAll commands ht
    | _ => none

inductive Suggestion where
  | found (command : CString)
  | null
  | oops
deriving DecidableEq

def slash (c : Char) : Bool := c = '/'

/-- The outer loop, with `n` commands to go, and what `target` points to afterwards. -/
def suggestFrom (ht : History) : ℕ → ℕ → Str → Suggestion × Str
  | 0, _, target => (.null, target)
  | n + 1, i, target =>
    let idx := (ht.index + memorySize - i - 1) % memorySize
    match ht.commands idx with
    | none =>
      match strtok slash (.start target) with
      | (none, c) => suggestFrom ht n (i + 1) c.memory
      | (some _, c) => (.oops, c.memory)
    | some command =>
      match untilToken slash (fun temp => (strstr command.chars temp).isSome) (.start target) with
      | (none, c) => suggestFrom ht n (i + 1) c.memory
      | (some _, c) => (.found command, c.memory)

def suggest (ht : History) (target : CString) : Suggestion × Str :=
  suggestFrom ht ht.size 0 target.chars

/-! ## Reading a line -/

/-- `null` is the return value when `realloc` fails. `overrun` is a read that goes past the end
of the block, and `wild` an access to the character before an empty string. -/
inductive Prompted where
  | line (s : CString)
  | null
  | overrun
  | wild
  | unfinished
deriving DecidableEq

def store (buffer : Str) (last : ℕ) (chunk : Str) : Str :=
  buffer.take last ++ chunk ++ nul :: buffer.drop (last + chunk.length + 1)

def endLine (buffer : Str) : Prompted :=
  let length := (text buffer).length
  if length = 0 then .wild
  else if buffer[length - 1]? = some '\n' then .line (.read (buffer.set (length - 1) nul))
  else .line (.read buffer)

section Prompt

variable (bufsiz : ℕ) (granted : ℕ → Bool)

/-- The loop, with what is in the buffer and what is left of the input. `bufsiz` is `BUFSIZ`, and
`granted` tells for each size whether `realloc` succeeds. A read that ends before the size given
to `fgets` without a newline has met the end of the input. -/
def promptLoop : ℕ → Str → ℕ → ℕ → Str → Prompted × Str
  | 0, _, _, _, stdin => (.unfinished, stdin)
  | rounds + 1, buffer, buffSize, last, stdin =>
    let buffSize := buffSize + bufsiz
    if granted buffSize = false then (.null, stdin)
    else
      match fgets buffSize stdin with
      | none => (endLine buffer, [])
      | some (chunk, rest) =>
        if buffSize < last + chunk.length + 1 then (.overrun, rest)
        else
          let buffer := store buffer last chunk
          let length := (text buffer).length
          let feof := chunk.length < buffSize - 1 ∧ '\n' ∉ chunk
          if ¬ feof ∧ length ≠ 0 ∧ buffer[length - 1]? ≠ some '\n' then
            promptLoop rounds buffer buffSize (length - 1) rest
          else (endLine buffer, rest)

/-- Each round but the last reads a character. -/
def prompt (stdin : Str) : Prompted × Str :=
  promptLoop bufsiz granted (stdin.length + 1) [] 0 0 stdin

def prompts : ℕ → Str → List Prompted
  | 0, _ => []
  | n + 1, stdin => (prompt bufsiz granted stdin).1 :: prompts n (prompt bufsiz granted stdin).2

end Prompt

/-! ## Cutting up a line -/

def argsMax : ℕ := 32

def pipe (c : Char) : Bool := c = '|'

def blank (c : Char) : Bool := c = ' '

inductive Slot where
  | unset
  | null
  | word (w : CString)
deriving DecidableEq

/-- `struct input`; a NULL in `segments` is `none`. -/
structure Input where
  segments : ℕ → Option (ℕ → Slot)
  argsCtr : ℕ → ℕ
  segCtr : ℕ

/-- What is touched on the way: an entry of `in.segments` or `in.argsCtr`, of the array `segment`
with its bound, or of an argument array, and a block of memory for as many characters as are
copied into it. The arrays are kept apart here, which says nothing of what lies behind each of
them: a run counts up to its first access out of range. -/
inductive Access where
  | segments (i : ℕ)
  | argsCtr (i : ℕ)
  | segment (i bound : ℕ)
  | argument (j : ℕ)
  | block (size needed : ℕ)

/-- `refused` is the return value -1, `aborted` an assertion that fails, and `crashed` a copy to a
NULL pointer. -/
inductive Halt where
  | refused
  | aborted
  | crashed
deriving DecidableEq

abbrev Shell := Logged Access Halt

/-- Which calls of `malloc` succeed: for the argument array of a segment, and for a word. -/
structure Heap where
  segment : ℕ → Bool
  word : ℕ → ℕ → Bool

def Heap.plenty : Heap := ⟨fun _ => true, fun _ _ => true⟩

/-- The loop of `getSegCtr`; `res` is an `unsigned short`. -/
def countPipes : Str → ℕ → ℕ
  | [], res => res
  | c :: it, res => countPipes it (if c = '|' then (res + 1) % 2 ^ 16 else res)

def getSegCtr (line : CString) : ℕ := (countPipes line.chars 0 + 1) % 2 ^ 16

/-- The pointers to the segments; the counter is an `unsigned short`. -/
structure Split where
  segment : ℕ → Option ℕ
  segCtr : ℕ

/-- The body of the first loop. -/
def storeSegment (bound : ℕ) (split : Split) (p : ℕ) (_ : Str) : Shell Split := do
  notes [.segment split.segCtr bound]
  pure ⟨Function.update split.segment split.segCtr (some p), (split.segCtr + 1) % 2 ^ 16⟩

def Input.setArgument (input : Input) (i j : ℕ) (slot : Slot) : Input :=
  { input with
    segments := Function.update input.segments i
      ((input.segments i).map fun arguments => Function.update arguments j slot) }

/-- The body of the loop over the words of a segment; `len` is an `unsigned short`. -/
def copyWord (heap : Heap) (i : ℕ) (input : Input) (_ : ℕ) (temp : Str) : Shell Input := do
  notes [.argsCtr i]
  require (input.argsCtr i ≤ argsMax) .aborted
  let idx := input.argsCtr i
  let len := (temp.length + 1) % 2 ^ 16
  notes [.segments i, .argument idx]
  require (heap.word i idx = true) .crashed
  notes [.block len (temp.length + 1)]
  pure { input.setArgument i idx (.word (.read temp)) with
    argsCtr := Function.update input.argsCtr i ((idx + 1) % 2 ^ 16) }

/-- One round of the loop over the segments, and what it leaves of the line. -/
def parseSegment (heap : Heap) (bound i p : ℕ) (memory : Str) (input : Input) : Shell (Input × Str) := do
  notes [.segments i]
  require (heap.segment i = true) .refused
  notes [.segment i bound]
  let (input, c) ← forTokens blank (copyWord heap i)
    { input with segments := Function.update input.segments i (some fun _ => .unset) } (.at memory p)
  notes [.segments i, .argsCtr i, .argument (input.argsCtr i)]
  pure (input.setArgument i (input.argsCtr i) .null, c.memory)

def parseSegments (heap : Heap) (bound : ℕ) (segment : ℕ → Option ℕ) :
    ℕ → ℕ → Str → Input → Shell Input
  | 0, _, _, input => pure input
  | n + 1, i, memory, input =>
    match segment i with
    | none => halt .crashed
    | some p => do
      let (input, memory) ← parseSegment heap bound i p memory input
      parseSegments heap bound segment n (i + 1) memory input

def parse (heap : Heap) (line : CString) (input : Input) (segCtr : ℕ) : Shell Input := do
  let (split, c) ← forTokens pipe (storeSegment segCtr) ⟨fun _ => none, input.segCtr⟩ (.start line.chars)
  require (segCtr = split.segCtr) .aborted
  parseSegments heap segCtr split.segment split.segCtr 0 c.memory { input with segCtr := split.segCtr }

/-- How `main` has a line cut up; its calls of `memset` clear as many entries as there are pipes,
and one more. -/
def readInput (heap : Heap) (line : CString) : Shell Input := do
  let segCtr := getSegCtr line
  notes ((List.range segCtr).map .segments ++ (List.range segCtr).map .argsCtr)
  parse heap line ⟨fun _ => none, fun _ => 0, 0⟩ segCtr

/-! ## Running the segments -/

/-- What the system answers: whether `chdir` succeeds, and the status of the child, `none` when
`fork` fails. -/
structure System where
  chdir : ℕ → Bool
  child : ℕ → Option Int32

def exitName : CString := ⟨['e', 'x', 'i', 't'], by decide⟩

def cdName : CString := ⟨['c', 'd'], by decide⟩

/-- The string `in.segments[i][0]`. -/
def Input.command (input : Input) (i : ℕ) : Option CString :=
  match input.segments i with
  | none => none
  | some arguments =>
    match arguments 0 with
    | .word w => some w
    | _ => none

/-- `crashes` is a comparison with a NULL pointer. -/
inductive Turn where
  | goes (success : Bool)
  | exits
  | crashes
deriving DecidableEq

/-- One segment. What `chdir` returns is not looked at. -/
def runSegment (input : Input) (system : System) (i : ℕ) (success : Bool) : Turn :=
  match input.command i with
  | none => .crashes
  | some name =>
    if name = exitName then .exits
    else if name = cdName then
      if input.argsCtr i = 2 then .goes success else .goes false
    else
      match system.child i with
      | none => .goes false
      | some status => .goes (success && status == 0)

def runSegments (input : Input) (system : System) : ℕ → ℕ → Bool → Turn
  | 0, _, success => .goes success
  | n + 1, i, success =>
    match runSegment input system i success with
    | .goes success => runSegments input system n (i + 1) success
    | turn => turn

/-- The loop that adds the commands to the history. The shell exits when one cannot be stored. -/
def rememberSegments (input : Input) : ℕ → ℕ → History → Option History
  | 0, _, ht => some ht
  | n + 1, i, ht =>
    match input.command i with
    | none => none
    | some command =>
      match remember ht command true with
      | .stored ht => rememberSegments input n (i + 1) ht
      | _ => none

/-- The history after the segments of a line have run; `none` when the shell does not get there. -/
def runPipeline (input : Input) (system : System) (ht : History) : Option History :=
  match runSegments input system input.segCtr 0 true with
  | .goes success => if success then rememberSegments input input.segCtr 0 ht else some ht
  | _ => none

end UnixSystems.ShellModel
