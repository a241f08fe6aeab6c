import Mathlib

/-! The ptree system call of ptree.c. The kernel it runs on is a parameter: the tasks, the
rows of children in list order, and the pid each task has in the namespace of the caller.
`psCopy` always succeeds, so the branches that test its result are left out. -/
namespace UnixSystems.PtreeModel

structure TaskStruct (Task : Type*) where
  pid : Int32
  realParent : Task
  groupLeader : Task
  children : List Task
  comm : List UInt8
  state : Int64
  uid : UInt32

structure Kernel (Task : Type*) where
  task : Task → TaskStruct Task
  initTask : Task
  tasks : List Task
  vpid : Task → Option Int32

structure Prinfo where
  parentPid : Int32
  pid : Int32
  state : Int64
  uid : UInt32
  comm : List UInt8
  level : ℕ
deriving DecidableEq

inductive Run (α : Type*) where
  | value (a : α)
  | oops
  | unfinished
deriving DecidableEq

def Run.bind {α β : Type*} (r : Run α) (f : α → Run β) : Run β :=
  match r with
  | .value a => f a
  | .oops => .oops
  | .unfinished => .unfinished

section Calls

variable {Task : Type*} [DecidableEq Task] (k : Kernel Task)

def findTaskByVpid (nr : Int32) : Option Task := k.tasks.find? fun t => k.vpid t = some nr

def getRoot (rootPid : Int32) : Option Task :=
  if rootPid = 0 then some k.initTask else findTaskByVpid k rootPid

def psCopy (src : Task) (lvl : UInt16) : Prinfo where
  comm := (k.task src).comm
  state := (k.task src).state
  uid := (k.task src).uid
  pid := (k.task src).pid
  parentPid := (k.task (k.task src).realParent).pid
  level := lvl.toNat

def getLevel (root : Int32) : ℕ → Int32 → UInt16 → Run UInt16
  | 0, _, _ => .unfinished
  | fuel + 1, child, res =>
    if root ≠ child then
      match getRoot k child with
      | none => .oops
      | some parent => getLevel root fuel (k.task (k.task parent).realParent).pid (res + 1)
    else .value (res + 1)

/-- Add the row of siblings, threads filtered out, until there are `knr` entries. -/
def copyRow (knr : ℕ) (level : UInt16) : List Task → List Prinfo → List Prinfo
  | [], tree => tree
  | task :: siblings, tree =>
    if tree.length < knr then
      copyRow knr level siblings
        (if (k.task task).groupLeader = task then tree ++ [psCopy k task level] else tree)
    else tree

/-- The output array is also the queue: `next` is the entry whose row comes next. -/
def bfs (knr walk : ℕ) : ℕ → UInt16 → List Prinfo → Run (List Prinfo)
  | 0, _, _ => .unfinished
  | fuel + 1, next, tree =>
    if next.toNat < tree.length ∧ tree.length < knr then
      match tree[next.toNat]?, tree.head? with
      | some entry, some top =>
        match getRoot k entry.pid with
        | none => .oops
        | some parent =>
          (getLevel k top.pid walk (k.task parent).pid 0).bind fun level =>
            bfs knr walk fuel (next + 1) (copyRow k knr level (k.task parent).children tree)
      | _, _ => .oops
    else .value tree

end Calls

/-! ## The call -/

/-- The pointers are given by whether they are null, the user's `nr` by its value. -/
structure Args where
  bufNull : Bool
  nrNull : Bool
  nr : Int32
  rootPid : Int32

/-- Which copies between user and kernel space succeed, and which sizes `kmalloc` grants. -/
structure Env where
  copyFromUser : Bool
  kmalloc : ℕ → Bool
  copyNr : Bool
  copyBuf : Bool

structure Result where
  ret : ℤ
  nr : Int32
  buf : Option (List Prinfo)
deriving DecidableEq

def einval : ℤ := 22

def efault : ℤ := 14

def esrch : ℤ := 3

def prinfoSize : ℕ := 40

def copyOut (env : Env) (args : Args) (tree : List Prinfo) : Result :=
  let i := Int32.ofNat tree.length
  if i ≠ args.nr ∧ ¬ env.copyNr then ⟨-efault, args.nr, none⟩
  else
    let nr := if i ≠ args.nr then i else args.nr
    if env.copyBuf then ⟨0, nr, some tree⟩ else ⟨-efault, nr, none⟩

def doPtree {Task : Type*} [DecidableEq Task] (k : Kernel Task) (env : Env) (fuel : ℕ)
    (args : Args) : Run Result :=
  let fail (err : ℤ) : Run Result := .value ⟨err, args.nr, none⟩
  if args.bufNull ∨ args.nrNull then fail (-einval)
  else if ¬ env.copyFromUser then fail (-efault)
  else if args.nr < 1 then fail (-einval)
  else
    let knr := args.nr.toInt.toNat
    if ¬ env.kmalloc (prinfoSize * knr) then fail (-1)
    else match getRoot k args.rootPid with
      | none => fail (-esrch)
      | some root =>
        let tree := if (k.task root).groupLeader = root then [psCopy k root 0] else []
        (bfs k knr fuel fuel 0 tree).bind fun tree => .value (copyOut env args tree)

end UnixSystems.PtreeModel
