import UnixSystems.WrrConservation

/-! What `get_wrr_info` copies to user space. The buffer is on the stack and is not cleared, and
the index into its arrays is one of its own fields; so the words around it are modelled too. -/
namespace UnixSystems.WrrInfo
open WrrModel Errno
open WrrConservation (quiet)

def maxCpus : ℕ := 8

/-- The words of the stack, counted from the start of the buffer. -/
abbrev Stack := ℤ → UInt32

/-! `struct wrr_info`: where its fields are. -/

def numCpus : ℤ := 0

def nrRunning (k : ℤ) : ℤ := 1 + k

def totalWeight (k : ℤ) : ℤ := 1 + maxCpus + k

/-- `sizeof(struct wrr_info)`, in bytes. -/
def size : ℕ := 4 * (1 + 2 * maxCpus)

/-- `written` lists the array indices that have been written to. -/
structure Filling where
  words : Stack
  written : List ℤ

/-- `buff.num_cpus` as an index. -/
def Filling.index (f : Filling) : ℤ := (f.words numCpus).toInt32.toInt

def Filling.store (f : Filling) (field : ℤ → ℤ) (value : UInt32) : Filling where
  words := Function.update f.words (field f.index) value
  written := f.written ++ [f.index]

def report (s : State) (f : Filling) (cpu : ℕ) : Filling :=
  let wrr := (s.rq cpu).wrr
  let f := f.store nrRunning wrr.nrRunning
  let f := f.store totalWeight wrr.totalWeight
  { f with words := Function.update f.words numCpus (f.words numCpus + 1) }

def fill (s : State) (online : Cpumask) (stack : Stack) : Filling :=
  online.cpus.foldl (report s) ⟨Function.update stack numCpus 0, []⟩

def byte (words : Stack) (b : ℕ) : UInt8 := (words (b / 4 : ℕ) >>> (8 * (b % 4)).toUInt32).toUInt8

structure Reply where
  ret : ℤ
  written : List ℤ
  copied : List UInt8

/-- `room` is how many bytes can be written at `info`: `copy_to_user` copies what fits. -/
def getWrrInfo (s : State) (online : Cpumask) (infoNull : Bool) (room : ℕ) (stack : Stack) : Reply :=
  if infoNull then ⟨-einval, [], []⟩
  else
    let buff := fill s online stack
    let copied := (List.range (min room size)).map (byte buff.words)
    if room < size then ⟨-efault, buff.written, copied⟩ else ⟨0, buff.written, copied⟩

/-! ## The loop -/

structure Filled (s : State) (stack : Stack) (cpus : List ℕ) (f : Filling) : Prop where
  num : f.words numCpus = UInt32.ofNat cpus.length
  running : ∀ (k : ℕ) (inside : k < cpus.length),
    f.words (nrRunning k) = (s.rq cpus[k]).wrr.nrRunning
  weight : ∀ (k : ℕ) (inside : k < cpus.length),
    f.words (totalWeight k) = (s.rq cpus[k]).wrr.totalWeight
  rest : ∀ a, a ≠ numCpus → (∀ k < cpus.length, a ≠ nrRunning k ∧ a ≠ totalWeight k) →
    f.words a = stack a
  written : ∀ k ∈ f.written, 0 ≤ k ∧ k < cpus.length

section Loop

variable {s : State} {stack : Stack} {cpus : List ℕ} {f : Filling}

theorem Filled.index (filled : Filled s stack cpus f) (few : cpus.length ≤ maxCpus) :
    f.index = cpus.length := by
  have small : ∀ n < 9, (UInt32.ofNat n).toInt32.toInt = n := by decide
  rw [Filling.index, filled.num]
  exact small _ (Nat.lt_succ_of_le few)

theorem filled_nil (s : State) (stack : Stack) :
    Filled s stack [] ⟨Function.update stack numCpus 0, []⟩ := by
  refine ⟨by simp, fun k inside => absurd inside (by simp), fun k inside => absurd inside (by simp),
    fun a away _ => ?_, by simp⟩
  exact Function.update_of_ne away _ _

theorem nrRunning_ne_numCpus (k : ℕ) : nrRunning k ≠ numCpus := by
  simp only [nrRunning, numCpus]
  omega

theorem totalWeight_ne_numCpus (k : ℕ) : totalWeight k ≠ numCpus := by
  simp only [totalWeight, numCpus]
  omega

theorem nrRunning_ne_totalWeight {j k : ℕ} (inside : j < maxCpus) : nrRunning j ≠ totalWeight k := by
  simp only [nrRunning, totalWeight]
  omega

theorem report_eq (s : State) (f : Filling) (cpu n : ℕ) (index : f.index = n) :
    report s f cpu = ⟨Function.update (Function.update (Function.update f.words
      (nrRunning n) (s.rq cpu).wrr.nrRunning) (totalWeight n) (s.rq cpu).wrr.totalWeight)
      numCpus (f.words numCpus + 1), f.written ++ [(n : ℤ), (n : ℤ)]⟩ := by
  have first := (nrRunning_ne_numCpus n).symm
  have second := (totalWeight_ne_numCpus n).symm
  have again : (f.store nrRunning (s.rq cpu).wrr.nrRunning).index = n := by
    simp only [Filling.index, Filling.store] at index ⊢
    rw [index, Function.update_of_ne first]
    exact index
  rw [report]
  simp only [Filling.store] at again ⊢
  rw [again, index, Function.update_of_ne second, Function.update_of_ne first]
  simp

theorem Filled.report (filled : Filled s stack cpus f) (few : cpus.length < maxCpus) (cpu : ℕ) :
    Filled s stack (cpus ++ [cpu]) (report s f cpu) := by
  rw [report_eq s f cpu cpus.length (filled.index few.le)]
  refine ⟨?_, fun k inside => ?_, fun k inside => ?_, fun a away other => ?_, fun k member => ?_⟩
  · simp [filled.num]
  · have bound : k < cpus.length + 1 := by simpa using inside
    dsimp only
    rw [Function.update_of_ne (nrRunning_ne_numCpus k),
      Function.update_of_ne (nrRunning_ne_totalWeight (by omega))]
    by_cases last : k = cpus.length
    · simp [last]
    · have before : k < cpus.length := by omega
      rw [Function.update_of_ne (by simpa [nrRunning] using last), filled.running k before,
        List.getElem_append_left before]
  · have bound : k < cpus.length + 1 := by simpa using inside
    dsimp only
    rw [Function.update_of_ne (totalWeight_ne_numCpus k)]
    by_cases last : k = cpus.length
    · simp [last]
    · have before : k < cpus.length := by omega
      rw [Function.update_of_ne (by simpa [totalWeight] using last),
        Function.update_of_ne (nrRunning_ne_totalWeight few).symm, filled.weight k before,
        List.getElem_append_left before]
  · have here := other cpus.length (by simp)
    have kept := filled.rest a away fun k inside => other k (by simp; omega)
    dsimp only
    rw [Function.update_of_ne away, Function.update_of_ne here.2, Function.update_of_ne here.1, kept]
  · have bound := filled.written k
    simp only [List.mem_append, List.mem_cons, List.not_mem_nil, or_false, or_self] at member
    simp only [List.length_append, List.length_singleton]
    rcases member with old | rfl
    · have := bound old
      omega
    · omega

theorem filled_foldl (s : State) (stack : Stack) (cpus : List ℕ) (few : cpus.length ≤ maxCpus) :
    Filled s stack cpus (cpus.foldl (WrrInfo.report s) ⟨Function.update stack numCpus 0, []⟩) := by
  induction cpus using List.reverseRecOn with
  | nil => exact filled_nil s stack
  | append_singleton cpus cpu ih =>
    simp only [List.length_append, List.length_singleton] at few
    rw [List.foldl_append]
    exact (ih (by omega)).report (by omega) cpu

theorem written_foldl (s : State) (cpus : List ℕ) (f : Filling) :
    f.written <+: (cpus.foldl (WrrInfo.report s) f).written := by
  induction cpus generalizing f with
  | nil => exact List.prefix_rfl
  | cons cpu cpus ih =>
    have stored : f.written <+: (WrrInfo.report s f cpu).written :=
      (List.prefix_append _ _).trans (List.prefix_append _ _)
    exact stored.trans (ih (WrrInfo.report s f cpu))

theorem overrun (s : State) (stack : Stack) (cpus : List ℕ) (many : maxCpus < cpus.length) :
    (maxCpus : ℤ) ∈ (cpus.foldl (WrrInfo.report s) ⟨Function.update stack numCpus 0, []⟩).written := by
  have first := filled_foldl s stack (cpus.take maxCpus) (by simp)
  have full : (cpus.take maxCpus).length = maxCpus := by simpa using many.le
  rw [← List.take_append_drop maxCpus cpus, List.drop_eq_getElem_cons many, List.foldl_append,
    List.foldl_cons]
  refine (written_foldl s (cpus.drop (maxCpus + 1)) _).subset ?_
  rw [report_eq s _ _ maxCpus (by rw [first.index full.le, full])]
  simp

end Loop

/-! ## The copy -/

/-- The call stays within its arrays, reports each online CPU in its place, and what it copies
does not depend on what was on the stack. -/
structure ReportsOnline (s : State) (online : Cpumask) (infoNull : Bool) (room : ℕ) : Prop where
  within : ∀ stack, ∀ k ∈ (getWrrInfo s online infoNull room stack).written, 0 ≤ k ∧ k < maxCpus
  num : infoNull = false → ∀ stack, ((fill s online stack).words numCpus).toNat = online.weight
  entry : infoNull = false → ∀ stack (k : ℕ) (inside : k < online.cpus.length),
    (fill s online stack).words (nrRunning k) = (s.rq online.cpus[k]).wrr.nrRunning ∧
      (fill s online stack).words (totalWeight k) = (s.rq online.cpus[k]).wrr.totalWeight
  blind : ∀ stack stack', (getWrrInfo s online infoNull room stack).copied =
    (getWrrInfo s online infoNull room stack').copied

theorem getWrrInfo_written (s : State) (online : Cpumask) (room : ℕ) (stack : Stack) :
    (getWrrInfo s online false room stack).written = (fill s online stack).written := by
  simp only [getWrrInfo, Bool.false_eq_true, if_false]
  split_ifs <;> rfl

theorem getWrrInfo_copied (s : State) (online : Cpumask) (room : ℕ) (stack : Stack) :
    (getWrrInfo s online false room stack).copied =
      (List.range (min room size)).map (byte (fill s online stack).words) := by
  simp only [getWrrInfo, Bool.false_eq_true, if_false]
  split_ifs <;> rfl

/-- The words that are reported cover the front of the buffer, up to the entry after the last;
with all entries in use they cover all of it. -/
theorem Filled.word {s : State} {stack : Stack} {cpus : List ℕ} {f : Filling}
    (filled : Filled s stack cpus f) (w : ℕ)
    (covered : w < 1 + cpus.length ∨ cpus.length = maxCpus ∧ w < 1 + 2 * maxCpus) :
    ∀ {stack' g}, Filled s stack' cpus g → f.words w = g.words w := by
  intro stack' g other
  cases w with
  | zero => exact filled.num.trans other.num.symm
  | succ k =>
    by_cases first : k < cpus.length
    · have here : ((k + 1 : ℕ) : ℤ) = nrRunning k := by
        simp only [nrRunning]
        omega
      rw [here, filled.running k first, other.running k first]
    · obtain ⟨full, bound⟩ := covered.resolve_left (by omega)
      have here : ((k + 1 : ℕ) : ℤ) = totalWeight (k - maxCpus : ℕ) := by
        simp only [totalWeight]
        omega
      have inside : k - maxCpus < cpus.length := by omega
      rw [here, filled.weight _ inside, other.weight _ inside]

theorem overruns (s : State) (online : Cpumask) (many : maxCpus < online.weight) (room : ℕ)
    (stack : Stack) : (maxCpus : ℤ) ∈ (getWrrInfo s online false room stack).written := by
  rw [getWrrInfo_written]
  exact overrun s stack online.cpus many

/-- The word of the first entry that is not in use is whatever was on the stack. -/
theorem fill_stale (s : State) (online : Cpumask) (free : online.weight < maxCpus) (stack : Stack) :
    (fill s online stack).words (nrRunning online.weight) = stack (nrRunning online.weight) := by
  have filled := filled_foldl s stack online.cpus free.le
  refine filled.rest _ (nrRunning_ne_numCpus _) fun k inside => ⟨?_, ?_⟩
  · have apart : k < online.weight := inside
    simp only [nrRunning]
    omega
  · exact nrRunning_ne_totalWeight free

theorem leaks (s : State) (online : Cpumask) (free : online.weight < maxCpus) {room : ℕ}
    (large : 4 * (1 + online.weight) < room) :
    (getWrrInfo s online false room fun _ => 0).copied ≠
      (getWrrInfo s online false room fun _ => 1).copied := by
  intro same
  have inside : 4 * (1 + online.weight) < min room size := by
    rw [size]
    omega
  have place : ((4 * (1 + online.weight) / 4 : ℕ) : ℤ) = nrRunning online.weight := by
    simp only [nrRunning]
    omega
  rw [getWrrInfo_copied, getWrrInfo_copied, List.map_inj_left] at same
  have byte_eq := same _ (List.mem_range.mpr inside)
  rw [byte, byte, place, fill_stale s online free, fill_stale s online free,
    Nat.mul_mod_right] at byte_eq
  exact absurd byte_eq (by decide)

theorem reportsOnline_of_covered (s : State) (online : Cpumask) (room : ℕ)
    (few : online.weight ≤ maxCpus)
    (covered : online.weight = maxCpus ∨ room ≤ 4 * (1 + online.weight)) :
    ReportsOnline s online false room := by
  have filled := fun stack => filled_foldl s stack online.cpus few
  have length : online.weight = online.cpus.length := rfl
  refine ⟨fun stack k member => ?_, fun _ stack => ?_, fun _ stack k inside =>
    ⟨(filled stack).running k inside, (filled stack).weight k inside⟩, fun stack stack' => ?_⟩
  · rw [getWrrInfo_written] at member
    have bound := (filled stack).written k member
    omega
  · rw [fill, (filled stack).num, UInt32.toNat_ofNat']
    refine Nat.mod_eq_of_lt ?_
    simp only [maxCpus] at few
    omega
  · rw [getWrrInfo_copied, getWrrInfo_copied]
    refine List.map_congr_left fun b member => ?_
    have inside := List.mem_range.mp member
    have word := (filled stack).word (b / 4) ?_ (filled stack')
    · rw [byte, byte, fill, fill, word]
    · rw [size] at inside
      refine covered.symm.imp (fun short => ?_) fun full => ⟨full, ?_⟩ <;> omega

theorem reportsOnline_iff (s : State) (online : Cpumask) (infoNull : Bool) (room : ℕ) :
    ReportsOnline s online infoNull room ↔ infoNull = true ∨
      online.weight ≤ maxCpus ∧ (online.weight = maxCpus ∨ room ≤ 4 * (1 + online.weight)) := by
  cases infoNull with
  | true =>
    refine ⟨fun _ => .inl rfl, fun _ => ⟨?_, nofun, nofun, ?_⟩⟩
    · simp [getWrrInfo]
    · simp [getWrrInfo]
  | false =>
    constructor
    · intro reports
      have few : online.weight ≤ maxCpus := by
        by_contra many
        have beyond := overruns s online (not_le.mp many) room fun _ => 0
        exact absurd (reports.within _ _ beyond).2 (lt_irrefl _)
      refine .inr ⟨few, or_iff_not_imp_left.mpr fun free => ?_⟩
      by_contra large
      exact leaks s online (lt_of_le_of_ne few free) (not_le.mp large) (reports.blind _ _)
    · intro small
      obtain ⟨few, covered⟩ := small.resolve_left Bool.false_ne_true
      exact reportsOnline_of_covered s online room few covered

/-- On a machine with one CPU, fourteen words of the kernel stack reach the caller; on one with
nine, the call writes past the arrays. -/
theorem one_cpu_leaks :
    (getWrrInfo quiet (.interval 0 1) false size fun _ => 0).copied ≠
        (getWrrInfo quiet (.interval 0 1) false size fun _ => 1).copied ∧
      8 ∈ (getWrrInfo quiet (.interval 0 9) false size fun _ => 0).written ∧
      ¬ ReportsOnline quiet (.interval 0 1) false size ∧
      ¬ ReportsOnline quiet (.interval 0 9) false size := by
  have leaked : (getWrrInfo quiet (.interval 0 1) false size fun _ => 0).copied ≠
      (getWrrInfo quiet (.interval 0 1) false size fun _ => 1).copied := by decide
  have beyond : 8 ∈ (getWrrInfo quiet (.interval 0 9) false size fun _ => 0).written := by decide
  refine ⟨leaked, beyond, fun reports => leaked (reports.blind _ _), fun reports => ?_⟩
  exact absurd (reports.within _ 8 beyond).2 (by decide)

end UnixSystems.WrrInfo
