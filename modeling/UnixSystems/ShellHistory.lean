import UnixSystems.RingLog
import UnixSystems.ShellModel

/-! The history of mybash as a ring that holds the last commands. -/
namespace UnixSystems.ShellHistory
open StrTok RingLog ShellModel

abbrev Records (ht : History) (items : List CString) : Prop :=
  Ring memorySize ht.commands ht.index ht.size items

theorem records_empty : Records .empty [] := ring_nil memorySize

theorem remember_short {ht : History} {items : List CString} {command : CString}
    (short : command.chars.length < 65535) (records : Records ht items) :
    ∃ ht', remember ht command true = .stored ht' ∧ Records ht' (items ++ [command]) := by
  have fits : ¬ (command.chars.length + 1) % 2 ^ 16 < command.chars.length + 1 := by omega
  unfold remember
  simp only [Bool.true_eq_false, if_false, fits]
  exact ⟨_, rfl, records.push (by decide) command⟩

theorem remember_long (ht : History) {command : CString} (long : ¬ command.chars.length < 65535) :
    remember ht command true = .overrun := by
  have wraps : (command.chars.length + 1) % 2 ^ 16 < command.chars.length + 1 := by omega
  unfold remember
  simp only [Bool.true_eq_false, if_false, wraps, if_true]

theorem rememberAll_records (commands : List CString) {ht : History} {items : List CString}
    (records : Records ht items) (short : ∀ c ∈ commands, c.chars.length < 65535) :
    ∃ ht', rememberAll commands ht = some ht' ∧ Records ht' (items ++ commands) := by
  induction commands generalizing ht items with
  | nil => exact ⟨ht, rfl, by simpa using records⟩
  | cons command commands ih =>
    obtain ⟨next, call, recorded⟩ := remember_short (short command List.mem_cons_self) records
    obtain ⟨ht', ends, all⟩ := ih recorded fun c member => short c (List.mem_cons_of_mem _ member)
    refine ⟨ht', ?_, by simpa using all⟩
    rw [rememberAll, call]
    exact ends

theorem rememberAll_long (commands : List CString) (ht : History)
    (long : ¬ ∀ c ∈ commands, c.chars.length < 65535) : rememberAll commands ht = none := by
  induction commands generalizing ht with
  | nil => exact absurd (fun c member => absurd member List.not_mem_nil) long
  | cons command commands ih =>
    rw [rememberAll]
    by_cases short : command.chars.length < 65535
    · cases remember ht command true with
      | stored next =>
        exact ih next fun all => long fun c member =>
          (List.mem_cons.mp member).elim (fun same => same ▸ short) (all c)
      | refused next => rfl
      | overrun => rfl
    · rw [remember_long ht short]

end UnixSystems.ShellHistory
