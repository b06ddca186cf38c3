import BlindSig.AccelService
import BlindSig.Driver

set_option autoImplicit false

namespace BlindSig.Driver

open Clocked Accel

variable {P : State → Prop} {x m v word : Word}

theorem stable_of_quiet (step : ∀ s i, P s → i.rstN = true → i.wen = false → P (s.edge i)) :
    bus.Stable P :=
  fun s e holds => step s e.pins holds rfl rfl

theorem status_busy (s : State) : (s.status &&& statusBusy != 0) = s.flagBusy := by
  unfold State.status
  cases s.flagBusy <;> cases s.flagDone <;> cases s.flagError <;> decide

theorem status_error (s : State) : (s.status &&& statusError != 0) = s.flagError := by
  unfold State.status
  cases s.flagBusy <;> cases s.flagDone <;> cases s.flagError <;> decide

theorem triple_mmioWrite (stable : bus.Stable P) {offset : BitVec 5} {value : Word}
    {Q : State → Prop} (step : ∀ s, P s → Q (s.edge (busWrite offset value))) :
    bus.Triple P (mmioWrite offset value) fun _ => Q :=
  Bus.triple_store stable step

theorem triple_mmioRead (stable : bus.Stable P) {offset : BitVec 5} {Q : Word → State → Prop}
    (step : ∀ s, P s → Q (s.rdata offset) (s.edge (busRead offset))) :
    bus.Triple P (mmioRead offset) Q :=
  Bus.triple_load stable step

theorem triple_isBusy (stable : bus.Stable P) {Q : Bool → State → Prop}
    (step : ∀ s, P s → Q s.flagBusy (s.edge (busRead regStatus))) : bus.Triple P isBusy Q := by
  refine Bus.triple_bind (Q := fun data s => Q (data &&& statusBusy != 0) s)
    (triple_mmioRead stable ?_) fun data => Bus.triple_pure fun s now => now
  intro s now
  change Q (s.status &&& statusBusy != 0) _
  rw [status_busy]
  exact step s now

theorem triple_isError (stable : bus.Stable P) {Q : Bool → State → Prop}
    (step : ∀ s, P s → Q s.flagError (s.edge (busRead regStatus))) : bus.Triple P isError Q := by
  refine Bus.triple_bind (Q := fun data s => Q (data &&& statusError != 0) s)
    (triple_mmioRead stable ?_) fun data => Bus.triple_pure fun s now => now
  intro s now
  change Q (s.status &&& statusError != 0) _
  rw [status_error]
  exact step s now

theorem calm_of_silent {i : Pins} (silent : i.wen = false) : ¬i.resetWrite :=
  fun written => by simp [written.2.1.1] at silent

theorem stable_loaded : bus.Stable (Loaded x m) :=
  stable_of_quiet fun _ _ loaded released silent =>
    loaded.edge released (command_quiet silent) (by simp) loaded.operand loaded.modulus

theorem stable_atRest : bus.Stable AtRest :=
  stable_of_quiet fun _ _ rests released silent => rests.edge_quiet released (command_quiet silent)

theorem stable_refused : bus.Stable (Refused x) :=
  stable_of_quiet fun _ _ refused released silent =>
    refused.edge_quiet released (command_quiet silent)

theorem stable_finished : bus.Stable (Finished v) :=
  stable_of_quiet fun _ _ finished released silent =>
    finished.edge released (calm_of_silent silent)

theorem stable_modArmed : bus.Stable fun s => Loaded x m s ∧ s.loadModArmed = true := by
  intro s e armed
  refine ⟨stable_loaded s e armed.1, ?_⟩
  change (s.edge e.pins).loadModArmed = true
  rw [edge_loadModArmed rfl, command_quiet rfl]
  exact armed.2

theorem stable_opArmed : bus.Stable fun s => Loaded x m s ∧ s.loadOpArmed = true := by
  intro s e armed
  refine ⟨stable_loaded s e armed.1, ?_⟩
  change (s.edge e.pins).loadOpArmed = true
  rw [edge_loadOpArmed rfl, command_quiet rfl]
  exact armed.2

theorem triple_reset : bus.Triple AtRest reset fun _ => Loaded 0 0 :=
  triple_mmioWrite stable_atRest fun _ rests => rests.edge_reset rfl rfl

/-- The one-shot command arms the register, and the data write consumes the arm. -/
theorem triple_loadModulusWord (word : Word) :
    bus.Triple (Loaded x m) (loadModulusWord word) fun _ => Loaded x word := by
  refine Bus.triple_bind (Q := fun _ s => Loaded x m s ∧ s.loadModArmed = true)
    (triple_mmioWrite stable_loaded ?_) fun _ => triple_mmioWrite stable_modArmed ?_
  · intro s loaded
    have order : s.command (busWrite regCtrl ctrlLoadMod) = .loadMod := rfl
    refine ⟨loaded.edge rfl order (by simp) loaded.operand loaded.modulus, ?_⟩
    rw [edge_loadModArmed rfl, order]
    rfl
  · intro s ⟨loaded, armed⟩
    have order : s.command (busWrite regModulus word) = .modulus word := by
      simp [State.command, busWrite, armed, regModulus, addrCtrl, addrOperand, addrModulus]
    exact loaded.edge rfl order (by simp) loaded.operand rfl

theorem triple_loadOperandWord (word : Word) :
    bus.Triple (Loaded x m) (loadOperandWord word) fun _ => Loaded word m := by
  refine Bus.triple_bind (Q := fun _ s => Loaded x m s ∧ s.loadOpArmed = true)
    (triple_mmioWrite stable_loaded ?_) fun _ => triple_mmioWrite stable_opArmed ?_
  · intro s loaded
    have order : s.command (busWrite regCtrl ctrlLoadOp) = .loadOp := rfl
    refine ⟨loaded.edge rfl order (by simp) loaded.operand loaded.modulus, ?_⟩
    rw [edge_loadOpArmed rfl, order]
    rfl
  · intro s ⟨loaded, armed⟩
    have order : s.command (busWrite regOperand word) = .operand word := by
      simp [State.command, busWrite, armed, regOperand, addrCtrl, addrOperand]
    exact loaded.edge rfl order (by simp) rfl loaded.modulus

/-- Of several words the last one stands. -/
theorem triple_loadModulus (words : List Word) :
    bus.Triple (Loaded x m) (loadModulus words) fun _ => Loaded x (words.getLastD m) := by
  induction words generalizing m with
  | nil => exact Bus.triple_pure fun s loaded => loaded
  | cons word words ih =>
      rw [List.getLastD_cons]
      exact Bus.triple_bind (triple_loadModulusWord word) fun _ => ih

theorem triple_loadOperand (words : List Word) :
    bus.Triple (Loaded x m) (loadOperand words) fun _ => Loaded (words.getLastD x) m := by
  induction words generalizing x with
  | nil => exact Bus.triple_pure fun s loaded => loaded
  | cons word words ih =>
      rw [List.getLastD_cons]
      exact Bus.triple_bind (triple_loadOperandWord word) fun _ => ih

theorem command_start_write {s : State} (loaded : Loaded x m s) :
    s.command (busWrite regCtrl ctrlStart) = if m = 0 then .refuse else .start := by
  rw [← loaded.modulus]
  exact command_of_startWrite (by decide) loaded.ready.cstate

/-- A START has been written over the operand `x` and the modulus `m`. -/
def Started (x m : Word) (s : State) : Prop := if m = 0 then Refused x s else Flight x m 68 s

theorem triple_start : bus.Triple (Loaded x m) start fun _ => Started x m := by
  refine triple_mmioWrite stable_loaded fun s loaded => ?_
  unfold Started
  split
  · rename_i zero
    subst zero
    exact loaded.edge_refuse rfl (command_start_write (s := s) loaded)
  · rename_i nonzero
    have stage := loaded.ready.edge_start (i := busWrite regCtrl ctrlStart) (by decide)
      (by rw [loaded.modulus]; exact nonzero)
    rw [loaded.operand, loaded.modulus] at stage
    exact .requested stage

/-- The operation lands within `n` edges. -/
def Landing (x m : Word) (n : ℕ) (s : State) : Prop := ∃ k ≤ n, Flight x m k s

theorem stable_landing {n : ℕ} : bus.Stable (Landing x m n) := by
  apply stable_of_quiet
  intro s i landing released silent
  obtain ⟨k, within, flight⟩ := landing
  exact ⟨k - 1, by omega, flight.edge released silent⟩

theorem edge_read_finished {s : State} (finished : Finished v s) (addr : BitVec 5) :
    Finished v (s.edge (busRead addr)) :=
  finished.edge rfl (calm_of_silent rfl)

theorem triple_readOutcome_finished : bus.Triple (Finished v) readOutcome
    fun outcome s => outcome = .ok v ∧ Finished v s := by
  refine Bus.triple_bind (Q := fun error s => error = false ∧ Finished v s)
    (triple_isError stable_finished fun _ now => ⟨now.flagError, edge_read_finished now _⟩) ?_
  rintro (_ | _)
  · refine Bus.triple_bind (Q := fun data s => data = v ∧ Finished v s)
      (triple_mmioRead stable_finished.and_left fun _ now =>
        ⟨now.2.result, edge_read_finished now.2 _⟩) ?_
    intro data
    apply Bus.triple_pure
    rintro s ⟨rfl, now⟩
    exact ⟨rfl, now⟩
  · exact Bus.triple_absurd (by simp)

theorem edge_read_refused {s : State} (refused : Refused x s) (addr : BitVec 5) :
    Refused x (s.edge (busRead addr)) :=
  refused.edge_quiet rfl (command_quiet rfl)

theorem triple_readOutcome_refused : bus.Triple (Refused x) readOutcome
    fun outcome s => outcome = .error () ∧ Refused x s := by
  refine Bus.triple_bind (Q := fun error s => error = true ∧ Refused x s)
    (triple_isError stable_refused fun _ now => ⟨now.flagError, edge_read_refused now _⟩) ?_
  rintro (_ | _)
  · exact Bus.triple_absurd (by simp)
  · exact Bus.triple_pure fun s now => ⟨rfl, now.2⟩

/-- A poll that finds BUSY low ends the loop. -/
theorem triple_wait_idle {Q : Except Unit Word → State → Prop} (stable : bus.Stable P)
    (idle : ∀ s, P s → s.flagBusy = false ∧ P (s.edge (busRead regStatus)))
    (tail : bus.Triple P readOutcome Q) (polls : ℕ) :
    bus.Triple P (waitAndReadResult (polls + 1))
      fun outcome s => ∃ r, outcome = some r ∧ Q r s := by
  refine Bus.triple_bind (Q := fun busy s => busy = false ∧ P s) (triple_isBusy stable idle) ?_
  rintro (_ | _)
  · refine Bus.triple_bind (Q := Q) ?_ fun r => Bus.triple_pure fun s now => ⟨r, rfl, now⟩
    exact Bus.triple_pre (fun s now => now.2) tail
  · exact Bus.triple_absurd (by simp)

theorem triple_wait_finished {polls : ℕ} (enough : 0 < polls) :
    bus.Triple (Finished v) (waitAndReadResult polls)
      fun outcome s => outcome = some (.ok v) ∧ Finished v s := by
  obtain ⟨more, rfl⟩ : ∃ more, polls = more + 1 := ⟨polls - 1, by omega⟩
  refine Bus.triple_post (triple_wait_idle stable_finished
    (fun _ now => ⟨now.flagBusy, edge_read_finished now _⟩) triple_readOutcome_finished more) ?_
  rintro _ s ⟨r, rfl, rfl, now⟩
  exact ⟨rfl, now⟩

theorem triple_wait_refused {polls : ℕ} (enough : 0 < polls) :
    bus.Triple (Refused x) (waitAndReadResult polls)
      fun outcome s => outcome = some (.error ()) ∧ Refused x s := by
  obtain ⟨more, rfl⟩ : ∃ more, polls = more + 1 := ⟨polls - 1, by omega⟩
  refine Bus.triple_post (triple_wait_idle stable_refused
    (fun _ now => ⟨now.loaded.flagBusy, edge_read_refused now _⟩) triple_readOutcome_refused more) ?_
  rintro _ s ⟨r, rfl, rfl, now⟩
  exact ⟨rfl, now⟩

/-- The polls see BUSY until the outcome is there, and each of them brings it
nearer. -/
theorem triple_wait_landing {n polls : ℕ} (enough : n < polls) :
    bus.Triple (Landing x m n) (waitAndReadResult polls)
      fun outcome s => outcome = some (.ok (squareValue x m)) ∧ Finished (squareValue x m) s := by
  induction polls generalizing n with
  | zero => omega
  | succ polls ih =>
      refine Bus.triple_bind
        (Q := fun busy s => if busy then 0 < n ∧ Landing x m (n - 1) s
          else Finished (squareValue x m) s) (triple_isBusy stable_landing ?_) ?_
      · rintro s ⟨k, within, flight⟩
        rw [flight.flagBusy]
        rcases Nat.eq_zero_or_pos k with rfl | airborne
        · exact edge_read_finished flight.landed _
        · rw [if_pos (by simpa using Nat.ne_of_gt airborne)]
          exact ⟨by omega, k - 1, by omega, flight.edge rfl rfl⟩
      · rintro (_ | _)
        · refine Bus.triple_bind triple_readOutcome_finished fun r => Bus.triple_pure ?_
          rintro s ⟨rfl, now⟩
          exact ⟨rfl, now⟩
        · intro gap k s now
          have airborne : 0 < n := now.1
          exact ih (n := n - 1) (by omega) gap k s now.2

/-- What the polls return after a START, and what they leave behind. -/
def Answered (x m : Word) (outcome : Option (Except Unit Word)) (s : State) : Prop :=
  if m = 0 then outcome = some (.error ()) ∧ Refused x s
  else outcome = some (.ok (squareValue x m)) ∧ Finished (squareValue x m) s

theorem triple_wait {polls : ℕ} (enough : 69 ≤ polls) :
    bus.Triple (Started x m) (waitAndReadResult polls) (Answered x m) := by
  unfold Started Answered
  split
  · exact triple_wait_refused (by omega)
  · refine Bus.triple_pre ?_ (triple_wait_landing enough)
    exact fun s flight => ⟨68, Nat.le_refl 68, flight⟩

/-- The modular square over the integers; there is none modulo zero. -/
def square (x m : Word) : Except Unit ℕ :=
  if m.toNat = 0 then .error () else .ok (x.toNat * x.toNat % m.toNat)

/-- The integers behind an answer. -/
def answer (outcome : Option (Except Unit Word)) : Option (Except Unit ℕ) :=
  outcome.map (Except.map BitVec.toNat)

theorem Answered.answer {outcome : Option (Except Unit Word)} {s : State}
    (answered : Answered x m outcome s) : answer outcome = some (square x m) := by
  unfold Answered at answered
  unfold square
  split at answered
  · rename_i zero
    rw [answered.1, if_pos (by rw [zero]; rfl)]
    rfl
  · rename_i nonzero
    have positive : ¬m.toNat = 0 := fun zero => nonzero (BitVec.eq_of_toNat_eq zero)
    rw [answered.1, if_neg positive, ← Nat.pow_two, ← squareValue_toNat nonzero]
    rfl

theorem Answered.atRest {outcome : Option (Except Unit Word)} {s : State}
    (answered : Answered x m outcome s) : AtRest s := by
  unfold Answered at answered
  split at answered
  · exact answered.2.loaded.atRest
  · exact answered.2.atRest

/-- What `compute` is for: the last words of the slices count. -/
def squareOf (modulus operand : List Word) : Except Unit ℕ :=
  square (operand.getLastD 0) (modulus.getLastD 0)

/-- What `compute` does once it has written RESET. -/
theorem triple_afterReset {polls : ℕ} (enough : 69 ≤ polls) (modulus operand : List Word) :
    bus.Triple (Loaded 0 0) (do
        loadModulus modulus
        loadOperand operand
        start
        waitAndReadResult polls)
      (Answered (operand.getLastD 0) (modulus.getLastD 0)) := by
  refine Bus.triple_bind (triple_loadModulus modulus) fun _ => ?_
  refine Bus.triple_bind (triple_loadOperand operand) fun _ => ?_
  exact Bus.triple_bind triple_start fun _ => triple_wait enough

theorem triple_compute {polls : ℕ} (enough : 69 ≤ polls) (modulus operand : List Word) :
    bus.Triple AtRest (compute polls modulus operand)
      fun outcome s => answer outcome = some (squareOf modulus operand) ∧ AtRest s :=
  Bus.triple_bind triple_reset fun _ => Bus.triple_post (triple_afterReset enough modulus operand)
    fun _ _ answered => ⟨answered.answer, answered.atRest⟩

theorem triple_computeAll {polls : ℕ} (enough : 69 ≤ polls) (calls : List (List Word × List Word)) :
    bus.Triple AtRest (computeAll polls calls)
      fun outcomes _ => outcomes.map answer = calls.map fun call => some (squareOf call.1 call.2) := by
  induction calls with
  | nil => exact Bus.triple_pure fun s _ => rfl
  | cons call calls ih =>
      obtain ⟨modulus, operand⟩ := call
      refine Bus.triple_bind (triple_compute enough modulus operand) fun outcome => ?_
      refine Bus.triple_bind
        (Q := fun outcomes s => answer outcome = some (squareOf modulus operand) ∧
          outcomes.map answer = calls.map fun call => some (squareOf call.1 call.2)) ?_ ?_
      · intro gap k s now
        exact ⟨now.1, ih gap k s now.2⟩
      · intro outcomes
        apply Bus.triple_pure
        intro s now
        rw [List.map_cons, List.map_cons, now.1, now.2]

/-- Every call of a sequence from hardware reset returns the square of its own
operand modulo its own modulus, however the accesses are spaced. -/
theorem computeAll_squares (polls : ℕ) (enough : 69 ≤ polls) (gap : ℕ → List Idle)
    (calls : List (List Word × List Word)) :
    (bus.run gap (computeAll polls calls) 0 .reset).value.map answer =
      calls.map fun call => some (squareOf call.1 call.2) :=
  triple_computeAll enough calls gap 0 .reset loaded_reset.atRest

theorem computeAll_squares_two :
    (bus.run (fun _ => []) (computeAll 69 [([7], [10]), ([], [3]), ([13], [4, 15])]) 0 .reset).value.map
      answer = [some (.ok 2), some (.error ()), some (.ok 4)] :=
  computeAll_squares 69 (Nat.le_refl 69) (fun _ => []) [([7], [10]), ([], [3]), ([13], [4, 15])]

end BlindSig.Driver
