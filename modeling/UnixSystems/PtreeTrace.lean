import UnixSystems.PtreeModel

/-! The loops of ptree, with a record of every pid they look up again. The array holds the tasks
themselves; forgetting them and the record gives the loops back. -/
namespace UnixSystems.PtreeTrace
open PtreeModel

/-- A stored pid, by the task it was taken from, and what `get_root` finds for it. -/
structure Lookup (Task : Type*) where
  stored : Task
  found : Option Task
deriving DecidableEq

def Lookup.Right {Task : Type*} (l : Lookup Task) : Prop := l.found = some l.stored

structure Traced (Task α : Type*) where
  result : Run α
  log : List (Lookup Task)

section Bind

variable {Task α β : Type*}

def Traced.value (a : α) : Traced Task α := ⟨.value a, []⟩

def Traced.bind (r : Traced Task α) (f : α → Traced Task β) : Traced Task β :=
  match r.result with
  | .value a => ⟨(f a).result, r.log ++ (f a).log⟩
  | .oops => ⟨.oops, r.log⟩
  | .unfinished => ⟨.unfinished, r.log⟩

theorem Traced.bind_result (r : Traced Task α) (f : α → Traced Task β) :
    (r.bind f).result = r.result.bind fun a => (f a).result := by
  unfold Traced.bind
  cases r.result <;> rfl

theorem Traced.bind_of_value {r : Traced Task α} {a : α} (ends : r.result = .value a)
    (f : α → Traced Task β) : r.bind f = ⟨(f a).result, r.log ++ (f a).log⟩ := by
  rw [Traced.bind, ends]

theorem Traced.mem_bind_log {r : Traced Task α} {l : Lookup Task} (member : l ∈ r.log)
    (f : α → Traced Task β) : l ∈ (r.bind f).log := by
  unfold Traced.bind
  cases r.result with
  | value a => exact List.mem_append_left _ member
  | oops => exact member
  | unfinished => exact member

theorem Traced.forall_bind_log {P : Lookup Task → Prop} {r : Traced Task α}
    {f : α → Traced Task β} (first : ∀ l ∈ r.log, P l)
    (then_ : ∀ a, r.result = .value a → ∀ l ∈ (f a).log, P l) : ∀ l ∈ (r.bind f).log, P l := by
  unfold Traced.bind
  cases ends : r.result with
  | value a => exact fun l member => (List.mem_append.mp member).elim (first l) (then_ a ends l)
  | oops => exact first
  | unfinished => exact first

/-- A null dereference comes from a lookup that found nothing. -/
def Traced.Blames (r : Traced Task α) : Prop := r.result = .oops → ∃ l ∈ r.log, l.found = none

theorem Traced.blames_bind {r : Traced Task α} {f : α → Traced Task β} (first : r.Blames)
    (then_ : ∀ a, (f a).Blames) : (r.bind f).Blames := by
  unfold Traced.Blames Traced.bind at *
  cases ends : r.result with
  | value a =>
    intro oops
    obtain ⟨l, member, failed⟩ := then_ a oops
    exact ⟨l, List.mem_append_right _ member, failed⟩
  | oops => exact fun _ => first ends
  | unfinished => exact nofun

end Bind

section Loops

variable {Task : Type*} (k : Kernel Task)

def look (t : Task) : Traced Task Task :=
  match getRoot k (k.task t).pid with
  | none => ⟨.oops, [⟨t, none⟩]⟩
  | some u => ⟨.value u, [⟨t, some u⟩]⟩

def traceLevel (root : Int32) : ℕ → Task → UInt16 → Traced Task UInt16
  | 0, _, _ => ⟨.unfinished, []⟩
  | fuel + 1, child, res =>
    if root ≠ (k.task child).pid then
      (look k child).bind fun parent => traceLevel root fuel (k.task parent).realParent (res + 1)
    else .value (res + 1)

variable [DecidableEq Task]

def traceRow (knr : ℕ) (level : UInt16) : List Task → List (Task × UInt16) → List (Task × UInt16)
  | [], entries => entries
  | task :: siblings, entries =>
    if entries.length < knr then
      traceRow knr level siblings
        (if (k.task task).groupLeader = task then entries ++ [(task, level)] else entries)
    else entries

def traceBfs (knr walk : ℕ) :
    ℕ → UInt16 → List (Task × UInt16) → Traced Task (List (Task × UInt16))
  | 0, _, _ => ⟨.unfinished, []⟩
  | fuel + 1, next, entries =>
    if next.toNat < entries.length ∧ entries.length < knr then
      match entries[next.toNat]?, entries.head? with
      | some entry, some top =>
        (look k entry.1).bind fun parent =>
          (traceLevel k (k.task top.1).pid walk parent 0).bind fun level =>
            traceBfs knr walk fuel (next + 1) (traceRow k knr level (k.task parent).children entries)
      | _, _ => ⟨.oops, []⟩
    else .value entries

/-! ## Failure -/

omit [DecidableEq Task] in
theorem look_blames (t : Task) : (look k t).Blames := by
  unfold look Traced.Blames
  cases getRoot k (k.task t).pid with
  | none => exact fun _ => ⟨_, List.mem_singleton_self _, rfl⟩
  | some u => exact nofun

omit [DecidableEq Task] in
theorem traceLevel_blames (root : Int32) (fuel : ℕ) (child : Task) (res : UInt16) :
    (traceLevel k root fuel child res).Blames := by
  induction fuel generalizing child res with
  | zero => exact nofun
  | succ fuel ih =>
    rw [traceLevel]
    split_ifs
    · exact Traced.blames_bind (look_blames k child) fun parent => ih _ _
    · exact nofun

theorem traceBfs_blames (knr walk fuel : ℕ) (next : UInt16) (entries : List (Task × UInt16)) :
    (traceBfs k knr walk fuel next entries).Blames := by
  induction fuel generalizing next entries with
  | zero => exact nofun
  | succ fuel ih =>
    rw [traceBfs]
    split_ifs with go
    · cases entries with
      | nil => exact absurd go.1 (Nat.not_lt_zero _)
      | cons top entries =>
        rw [List.getElem?_eq_getElem go.1, List.head?_cons]
        exact Traced.blames_bind (look_blames k _) fun parent =>
          Traced.blames_bind (traceLevel_blames k _ walk parent 0) fun level => ih _ _
    · exact nofun

/-! ## Erasure -/

def copied (e : Task × UInt16) : Prinfo := psCopy k e.1 e.2

omit [DecidableEq Task] in
theorem traceLevel_result (root : Int32) (fuel : ℕ) (child : Task) (res : UInt16) :
    (traceLevel k root fuel child res).result = getLevel k root fuel (k.task child).pid res := by
  induction fuel generalizing child res with
  | zero => rfl
  | succ fuel ih =>
    rw [traceLevel, getLevel]
    split_ifs
    · rw [Traced.bind_result, look]
      cases getRoot k (k.task child).pid with
      | none => rfl
      | some parent => exact ih _ _
    · rfl

theorem traceRow_copied (knr : ℕ) (level : UInt16) (siblings : List Task)
    (entries : List (Task × UInt16)) :
    (traceRow k knr level siblings entries).map (copied k) =
      copyRow k knr level siblings (entries.map (copied k)) := by
  induction siblings generalizing entries with
  | nil => rfl
  | cons task siblings ih =>
    rw [traceRow, copyRow, List.length_map]
    split_ifs
    · rw [ih, List.map_append]
      rfl
    · exact ih entries
    · rfl

theorem traceBfs_result (knr walk fuel : ℕ) (next : UInt16) (entries : List (Task × UInt16)) :
    ((traceBfs k knr walk fuel next entries).result.bind fun done => .value (done.map (copied k))) =
      bfs k knr walk fuel next (entries.map (copied k)) := by
  induction fuel generalizing next entries with
  | zero => rfl
  | succ fuel ih =>
    rw [traceBfs, bfs, List.length_map, List.getElem?_map, List.head?_map]
    split_ifs
    · cases entries[next.toNat]? with
      | none => rfl
      | some entry =>
        cases entries.head? with
        | none => rfl
        | some top =>
          have same : (copied k entry).pid = (k.task entry.1).pid := rfl
          have root_eq : (copied k top).pid = (k.task top.1).pid := rfl
          simp only [Option.map_some, same, root_eq]
          rw [Traced.bind_result, look]
          cases getRoot k (k.task entry.1).pid with
          | none => rfl
          | some parent =>
            simp only [Run.bind]
            rw [Traced.bind_result, traceLevel_result]
            cases getLevel k (k.task top.1).pid walk (k.task parent).pid 0 with
            | value level =>
              have rest := ih (next + 1) (traceRow k knr level (k.task parent).children entries)
              rwa [traceRow_copied] at rest
            | oops => rfl
            | unfinished => rfl
    · rfl

end Loops

end UnixSystems.PtreeTrace
