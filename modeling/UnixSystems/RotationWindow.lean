import UnixSystems.RotationRuns

/-! The sliding window of rotation samples. The run is paired with the samples that have
arrived since the last accepted `set_rotation_sampling`, oldest first; the law compares
the fifo with them. Eviction tests the length for equality with the window. -/
namespace UnixSystems.RotationWindow
open GuardedRuns RotationModel RotationRuns

def sampling (s : State) : Int32 × Int32 × Fifo DevRotation maxWindow :=
  (s.sampleSize, s.windowSize, s.sampleQueue)

theorem sampling_checkEvents (es : List (Int × Addr)) (s : State) :
    sampling (es.foldl (fun s e => checkEvent s e.2) s) = sampling s := by
  induction es generalizing s with
  | nil => rfl
  | cons e es ih =>
    rw [List.foldl_cons, ih, checkEvent_eq]
    split_ifs <;> rfl

theorem sampling_removeAndFree (s : State) (id : Int) : sampling (removeAndFree s id) = sampling s := by
  unfold removeAndFree
  cases s.eventIdr.find id <;> rfl

theorem sampling_registerEvent (s : State) (event : Addr) (idrMemory : Bool) :
    sampling (registerEvent s event idrMemory).1 = sampling s := by
  unfold registerEvent idrAlloc
  dsimp only
  split_ifs <;> rfl

theorem sampling_leaveWait (s : State) (pid : Pid) (evt : Addr) (id : Int) :
    sampling (leaveWait s pid evt id).1 = sampling s := by
  unfold leaveWait
  dsimp only
  split_ifs
  · exact sampling_removeAndFree _ id
  · rfl

theorem sampling_waitLoop (s : State) (pid : Pid) (evt : Addr) (id : Int) (signalPending : Bool) :
    sampling (waitLoop s pid evt id signalPending).1 = sampling s := by
  have prepared : sampling (prepareToWait s evt pid) = sampling s := by
    unfold prepareToWait
    split_ifs <;> rfl
  unfold waitLoop
  dsimp only
  split_ifs
  · rw [sampling_leaveWait]
    exact prepared
  · exact prepared
  · exact sampling_leaveWait s pid evt id

def Samples : Action → Prop
  | .setRotation uid rotation => uid = 0 ∧ rotation ≠ none
  | .setRotationSampling uid nrSamples window =>
    uid = 0 ∧ ¬ (nrSamples < 0 ∨ window < nrSamples ∨ (maxWindow : Int) < window.toInt)
  | _ => False

instance (a : Action) : Decidable (Samples a) := by
  refine a.casesOn ?_ ?_ ?_ ?_ ?_ ?_ ?_ ?_ <;> intros <;> dsimp only [Samples] <;> infer_instance

theorem sampling_step (s : State) (a : Action) (other : ¬ Samples a) :
    sampling (step s a) = sampling s := by
  cases a with
  | setRotation uid rotation =>
    simp only [step, setRotation]
    split_ifs with root
    · rfl
    · cases rotation with
      | none => rfl
      | some kRot => exact absurd ⟨not_not.mp root, by simp⟩ other
  | rotevtCreate motion memory idrMemory =>
    simp only [step, rotevtCreate]
    split_ifs
    · cases motion with
      | none => rfl
      | some motion => exact sampling_registerEvent _ _ _
    · rfl
  | rotevtDestroy id =>
    simp only [step, rotevtDestroy]
    cases s.eventIdr.find id with
    | none => rfl
    | some evt =>
      dsimp only
      split_ifs
      · rfl
      · exact sampling_removeAndFree _ id
  | rotevtWait pid id signalPending =>
    simp only [step, rotevtWait]
    cases s.eventIdr.find id with
    | none => rfl
    | some evt => exact sampling_waitLoop _ _ _ _ _
  | resume pid signalPending =>
    simp only [step, rotevtWaitResumed]
    cases s.waiters.find? (·.pid = pid) with
    | none => rfl
    | some w => exact sampling_waitLoop _ _ _ _ _
  | wakeUp pid => rfl
  | setRotationSampling uid nrSamples window =>
    simp only [step, setRotationSampling]
    split_ifs with root invalid
    · rfl
    · rfl
    · exact absurd ⟨not_not.mp root, invalid⟩ other
  | getRotationSampling storeSamples storeWindow => rfl

/-! ## The law -/

def recordArrival (seen : List DevRotation) : Action → List DevRotation
  | .setRotation uid (some kRot) => if uid = 0 then seen ++ [kRot] else seen
  | .setRotationSampling uid nrSamples window =>
    if Samples (.setRotationSampling uid nrSamples window) then [] else seen
  | _ => seen

def recordStep (t : State × List DevRotation) (a : Action) : State × List DevRotation :=
  (step t.1 a, recordArrival t.2 a)

/-- The fifo holds the latest samples, as many as the window allows, in arrival order. -/
structure WindowLaw (t : State × List DevRotation) : Prop where
  nonneg : 0 ≤ t.1.sampleSize.toInt
  ordered : t.1.sampleSize.toInt ≤ t.1.windowSize.toInt
  fits : t.1.windowSize.toInt ≤ maxWindow
  latest : t.1.sampleQueue.items = t.2.rtake t.1.windowSize.toInt.toNat

def WindowCond (t : State × List DevRotation) : Action → Prop
  | .setRotation uid rotation => uid = 0 → rotation ≠ none → t.1.windowSize ≠ 0
  | _ => True

theorem windowLaw_congr {s t : State} (same : sampling s = sampling t) (seen : List DevRotation) :
    WindowLaw (s, seen) ↔ WindowLaw (t, seen) := by
  obtain ⟨samples, window, queue⟩ : s.sampleSize = t.sampleSize ∧ s.windowSize = t.windowSize ∧
      s.sampleQueue = t.sampleQueue := by simpa [sampling] using same
  constructor
  · rintro ⟨nonneg, ordered, fits, latest⟩
    simp only [samples, window, queue] at nonneg ordered fits latest
    exact ⟨nonneg, ordered, fits, latest⟩
  · rintro ⟨nonneg, ordered, fits, latest⟩
    simp only [← samples, ← window, ← queue] at nonneg ordered fits latest
    exact ⟨nonneg, ordered, fits, latest⟩

theorem latest_insert (q : Fifo DevRotation maxWindow) (seen : List DevRotation) (n : ℕ)
    (fits : n + 1 ≤ maxWindow) (latest : q.items = seen.rtake (n + 1)) (kRot : DevRotation) :
    ((if q.len = n + 1 then q.get.2 else q).put kRot).items = (seen ++ [kRot]).rtake (n + 1) := by
  have length : q.len = min (n + 1) seen.length := by
    rw [Fifo.len, latest, List.rtake, List.length_drop]
    omega
  rw [List.rtake_concat_succ]
  split_ifs with full
  · have tail : q.get.2.items = seen.rtake n := by
      rw [Fifo.get_snd_items, latest, List.rtake, List.rtake, List.tail_drop]
      congr 1
      omega
    rw [Fifo.put_items_of_lt _ _ (by rw [tail, List.rtake, List.length_drop]; omega), tail]
  · have short : seen.length ≤ n := by omega
    have all : q.items = seen := by
      rw [latest, List.rtake, Nat.sub_eq_zero_of_le (by omega), List.drop_zero]
    have rest : seen.rtake n = seen := by
      rw [List.rtake, Nat.sub_eq_zero_of_le short, List.drop_zero]
    rw [Fifo.put_items_of_lt _ _ (by rw [all]; omega), all, rest]

/-- With an empty window nothing is evicted, so the sample stays. -/
theorem latest_insert_empty (q : Fifo DevRotation maxWindow) (empty : q.items = [])
    (kRot : DevRotation) : ((if q.len = 0 then q.get.2 else q).put kRot).items = [kRot] := by
  have gone : q.get.2.items = [] := by rw [Fifo.get_snd_items, empty]; rfl
  rw [if_pos (by rw [Fifo.len, empty]; rfl),
    Fifo.put_items_of_lt _ _ (by rw [gone]; decide), gone]
  rfl

theorem sampling_setRotation (s : State) (kRot : DevRotation) :
    sampling (step s (.setRotation 0 (some kRot))) = sampling (insertSample s kRot) := by
  simp only [step, setRotation, ne_eq, not_true_eq_false, if_false]
  split_ifs
  · exact sampling_checkEvents _ _
  · rfl

theorem windowLaw_sample_iff (s : State) (seen : List DevRotation) (kRot : DevRotation)
    (law : WindowLaw (s, seen)) :
    WindowLaw (insertSample s kRot, seen ++ [kRot]) ↔ s.windowSize ≠ 0 := by
  obtain ⟨nonneg, ordered, fits, latest⟩ := law
  dsimp only at nonneg ordered fits latest
  have width : s.windowSize.toUInt32.toNat = s.windowSize.toInt.toNat := by
    have unsigned := Int32.toNat_toUInt32_of_nonneg (nonneg.trans ordered)
    omega
  cases size : s.windowSize.toInt.toNat with
  | zero =>
    have zero : s.windowSize = 0 := by
      apply Int32.toInt_inj.mp
      rw [Int32.toInt_zero]
      omega
    refine iff_of_false (fun broken => ?_) (by simp [zero])
    have still := broken.latest
    rw [size, List.rtake_zero] at latest
    have kept := latest_insert_empty s.sampleQueue latest kRot
    simp only [insertSample, width, size] at still
    rw [kept, List.rtake_zero] at still
    cases still
  | succ n =>
    have wide : s.windowSize ≠ 0 := by
      intro zero
      rw [zero, Int32.toInt_zero] at size
      cases size
    rw [size] at latest
    have next := latest_insert s.sampleQueue seen n (by omega) latest kRot
    refine iff_of_true ⟨nonneg, ordered, fits, ?_⟩ wide
    simp only [insertSample, width, size]
    exact next

theorem discard_items (n : ℕ) (q : Fifo DevRotation maxWindow) (enough : q.len ≤ n) :
    (discard n q).items = [] := by
  induction n generalizing q with
  | zero => exact List.eq_nil_of_length_eq_zero (Nat.le_zero.mp enough)
  | succ n ih =>
    rw [RotationModel.discard]
    split_ifs with empty
    · exact List.eq_nil_of_length_eq_zero empty
    · refine ih _ ?_
      rw [Fifo.len, Fifo.get_snd_items, List.length_tail]
      exact Nat.sub_le_of_le_add enough

theorem windowLaw_reset (s : State) (nrSamples window : Int32)
    (valid : ¬ (nrSamples < 0 ∨ window < nrSamples ∨ (maxWindow : Int) < window.toInt)) :
    WindowLaw (step s (.setRotationSampling 0 nrSamples window), []) := by
  simp only [step, setRotationSampling, ne_eq, not_true_eq_false, if_false, if_neg valid]
  simp only [not_or, Int32.lt_iff_toInt_lt, Int32.toInt_zero, not_lt] at valid
  refine ⟨valid.1, valid.2.1, valid.2.2, ?_⟩
  rw [discard_items _ _ le_rfl, List.rtake_nil]

theorem windowLaw_step_iff (t : State × List DevRotation) (a : Action) (law : WindowLaw t) :
    WindowLaw (recordStep t a) ↔ WindowCond t a := by
  obtain ⟨s, seen⟩ := t
  by_cases samples : Samples a
  · cases a with
    | setRotation uid rotation =>
      obtain ⟨rfl, given⟩ := samples
      obtain ⟨kRot, rfl⟩ := Option.ne_none_iff_exists'.mp given
      simp only [recordStep, recordArrival, if_true]
      rw [windowLaw_congr (sampling_setRotation s kRot), windowLaw_sample_iff s seen kRot law]
      simp [WindowCond]
    | setRotationSampling uid nrSamples window =>
      obtain ⟨rfl, valid⟩ := samples
      simp only [recordStep, recordArrival]
      rw [if_pos ⟨rfl, valid⟩]
      exact iff_of_true (windowLaw_reset s nrSamples window valid) trivial
    | rotevtCreate _ _ _ | rotevtDestroy _ | rotevtWait _ _ _ | resume _ _ | wakeUp _
    | getRotationSampling _ _ => cases samples
  · have unseen : recordArrival seen a = seen := by
      cases a with
      | setRotation uid rotation =>
        cases rotation with
        | none => rfl
        | some kRot => exact if_neg fun root => samples ⟨root, by simp⟩
      | setRotationSampling uid nrSamples window => exact if_neg samples
      | rotevtCreate _ _ _ | rotevtDestroy _ | rotevtWait _ _ _ | resume _ _ | wakeUp _
      | getRotationSampling _ _ => rfl
    rw [recordStep, unseen, windowLaw_congr (sampling_step s a samples)]
    refine iff_of_true law ?_
    cases a with
    | setRotation uid rotation => exact fun root given => absurd ⟨root, given⟩ samples
    | rotevtCreate _ _ _ | rotevtDestroy _ | rotevtWait _ _ _ | resume _ _ | wakeUp _
    | setRotationSampling _ _ _ | getRotationSampling _ _ => trivial

theorem always_windowLaw_iff (acts : List Action) :
    Always recordStep WindowLaw (boot, []) acts ↔ Along recordStep WindowCond (boot, []) acts := by
  have start : WindowLaw (boot, []) := ⟨by decide, by decide, by decide, rfl⟩
  have free : Along recordStep (fun _ _ => True) (boot, []) acts :=
    along_of_forall (fun _ _ => trivial) _ acts
  exact always_iff_along (fun _ => True) WindowLaw (fun _ _ _ _ => trivial)
    (fun t a _ _ => windowLaw_step_iff t a) trivial start free

/-- A window of size 0 is accepted, and the next sample is kept in it. -/
theorem empty_window_grows :
    (setRotationSampling boot 0 0 0).2 = 0 ∧
      ¬ Always recordStep WindowLaw (boot, [])
        [.setRotationSampling 0 0 0, .setRotation 0 (some ⟨1, 2, 3⟩)] := by
  refine ⟨by decide, fun always => ?_⟩
  exact absurd (always _ List.prefix_rfl).latest (by decide)

end UnixSystems.RotationWindow
