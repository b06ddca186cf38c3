import BlindSig.AccelHistory
import BlindSig.AccelReadable
import BlindSig.DriverCompute

set_option autoImplicit false

/- What an Ok of the driver stands for: `wait_and_read_result` checks BUSY and
ERROR, and not DONE. -/
namespace BlindSig.Driver

open Clocked Accel

/-- The public calls of BlindSigAccel. -/
inductive Call where
  | reset
  | loadModulusWord (word : Word)
  | loadOperandWord (word : Word)
  | loadModulus (words : List Word)
  | loadOperand (words : List Word)
  | start
  | compute (modulus operand : List Word)
  | waitAndReadResult

/-- Of all calls only two return a result. -/
def perform (polls : ℕ) : Call → Access (Option (Except Unit Word))
  | .reset => do
      reset
      return none
  | .loadModulusWord word => do
      loadModulusWord word
      return none
  | .loadOperandWord word => do
      loadOperandWord word
      return none
  | .loadModulus words => do
      loadModulus words
      return none
  | .loadOperand words => do
      loadOperand words
      return none
  | .start => do
      start
      return none
  | .compute modulus operand => compute polls modulus operand
  | .waitAndReadResult => waitAndReadResult polls

/-- The peripheral as the driver reaches it, with the history of its last RESET. -/
def audit : Bus (State × History) Pins (BitVec 5) Word Idle := bus.monitored .fresh History.watch

variable (gap : ℕ → List Idle)

/-- The next access and the peripheral after a sequence of calls. -/
def runCalls (polls : ℕ) : List Call → ℕ × (State × History) → ℕ × (State × History)
  | [], now => now
  | call :: calls, (k, s) =>
      let outcome := audit.run gap (perform polls call) k s
      runCalls polls calls (outcome.next, outcome.state)

/-- The same from hardware reset. -/
def after (polls : ℕ) (calls : List Call) : ℕ × (State × History) :=
  runCalls gap polls calls (0, (.reset, .fresh))

/-- DONE is up and ERROR is low, of an operation that has completed since the last
RESET. -/
def Completed (t : State × History) : Prop :=
  t.1.flagDone = true ∧ t.1.flagError = false ∧ t.2.completed = true

/-- An Ok comes with one read of RESULT at least, and each of them is made of a
completed operation. -/
def Honest (p : Access (Option (Except Unit Word))) (k : ℕ) (s : State × History) : Prop :=
  ∀ v, (bus.run gap p k s.1).value = some (.ok v) →
    (∃ t, (regResult, t) ∈ audit.reads gap p k s) ∧
    ∀ t, (regResult, t) ∈ audit.reads gap p k s → Completed t

/-- What a call of `wait_and_read_result` has to find at its first poll: BUSY, or
DONE after a RESET that was not late, or a multiplication that a RESET has failed to
stop and that completes before RESULT is read. -/
def Timely (k : ℕ) (s : State × History) : Prop :=
  let t := audit.wait s (gap k)
  t.1.flagBusy = true ∨ t.1.flagDone = true ∧ t.2.late = false ∨
    t.1.cstate = .cMul ∧ t.1.uMulmod.toSerial.wait ≤ (gap (k + 1)).length + (gap (k + 2)).length + 2

/-- What `compute` does before it waits. -/
def prepare (modulus operand : List Word) : Access Unit := do
  reset
  loadModulus modulus
  loadOperand operand
  start

/-- The condition on a call made in `s`. -/
def Call.Meets (k : ℕ) (s : State × History) : Call → Prop
  | .compute modulus operand =>
      let prepared := audit.run gap (prepare modulus operand) k s
      Timely gap prepared.next prepared.state
  | .waitAndReadResult => Timely gap k s
  | _ => True

variable {gap} {s : State} {a : State × History} {k polls : ℕ}

/-- What a poll that finds BUSY low is followed by. -/
def settled : Access (Option (Except Unit Word)) := do
  return some (← readOutcome)

/-- The cycle of an access to STATUS. -/
def statusEdge (a : State × History) : State × History := audit.device.edge a (busRead regStatus)

theorem run_readOutcome (k : ℕ) (s : State) : bus.run gap readOutcome k s =
    bus.run gap (if (bus.wait s (gap k)).flagError then return .error ()
        else do return .ok (← mmioRead regResult))
      (k + 1) ((bus.wait s (gap k)).edge (busRead regStatus)) := by
  rw [← status_error]
  rfl

theorem reads_readOutcome (k : ℕ) (a : State × History) : audit.reads gap readOutcome k a =
    (regStatus, audit.wait a (gap k)) ::
      audit.reads gap (if (audit.wait a (gap k)).1.flagError then return .error ()
          else do return .ok (← mmioRead regResult) : Access (Except Unit Word))
        (k + 1) (statusEdge (audit.wait a (gap k))) := by
  rw [← status_error]
  rfl

theorem run_settled (k : ℕ) (s : State) : (bus.run gap settled k s).value =
    some (if (bus.wait s (gap k)).flagError then .error ()
      else .ok (bus.wait ((bus.wait s (gap k)).edge (busRead regStatus)) (gap (k + 1))).result) := by
  rw [settled, Bus.run_bind, run_readOutcome]
  cases (bus.wait s (gap k)).flagError <;> rfl

theorem reads_settled (k : ℕ) (a : State × History) : audit.reads gap settled k a =
    (regStatus, audit.wait a (gap k)) :: if (audit.wait a (gap k)).1.flagError then []
      else [(regResult, audit.wait (statusEdge (audit.wait a (gap k))) (gap (k + 1)))] := by
  rw [settled, Bus.reads_bind, reads_readOutcome]
  cases (audit.wait a (gap k)).1.flagError <;> rfl

theorem run_audit {β : Type} (p : Access β) (k : ℕ) (a : State × History) :
    (audit.run gap p k a).value = (bus.run gap p k a.1).value ∧
      (audit.run gap p k a).state.1 = (bus.run gap p k a.1).state ∧
      (audit.run gap p k a).next = (bus.run gap p k a.1).next :=
  Bus.run_monitored gap p k

theorem wait_fst (a : State × History) (cycles : List Idle) :
    (audit.wait a cycles).1 = bus.wait a.1 cycles :=
  Bus.wait_monitored cycles

theorem honest_settled (k : ℕ) (a : State × History) : Honest gap settled k a ↔
    ((audit.wait a (gap k)).1.flagError = false →
      Completed (audit.wait (statusEdge (audit.wait a (gap k))) (gap (k + 1)))) := by
  have other : regResult ≠ regStatus := by decide
  unfold Honest
  rw [run_settled, reads_settled, ← wait_fst]
  cases (audit.wait a (gap k)).1.flagError with
  | true => simp
  | false => simp [other]

theorem run_wait_succ (k : ℕ) (s : State) : bus.run gap (waitAndReadResult (polls + 1)) k s =
    bus.run gap (if (bus.wait s (gap k)).flagBusy then waitAndReadResult polls else settled) (k + 1)
      ((bus.wait s (gap k)).edge (busRead regStatus)) := by
  rw [← status_busy]
  rfl

theorem reads_wait_succ (k : ℕ) (a : State × History) :
    audit.reads gap (waitAndReadResult (polls + 1)) k a =
      (regStatus, audit.wait a (gap k)) ::
        audit.reads gap
          (if (audit.wait a (gap k)).1.flagBusy then waitAndReadResult polls else settled) (k + 1)
          (statusEdge (audit.wait a (gap k))) := by
  rw [← status_busy]
  rfl

/-- A poll passes the question on. -/
theorem honest_wait_succ (k : ℕ) (a : State × History) :
    Honest gap (waitAndReadResult (polls + 1)) k a ↔
      Honest gap (if (audit.wait a (gap k)).1.flagBusy then waitAndReadResult polls else settled)
        (k + 1) (statusEdge (audit.wait a (gap k))) := by
  have other : regResult ≠ regStatus := by decide
  have now : (statusEdge (audit.wait a (gap k))).1 =
      (bus.wait a.1 (gap k)).edge (busRead regStatus) := by
    rw [← wait_fst]
    rfl
  unfold Honest
  rw [run_wait_succ, reads_wait_succ, now, ← wait_fst]
  simp [other]

/-- Without a write the flags move only by a completion. -/
theorem flags_edge_silent {i : Pins} (released : i.rstN = true) (silent : i.wen = false) :
    (s.edge i).flagBusy = (!s.completes && s.flagBusy) ∧
      (s.edge i).flagDone = (s.completes || s.flagDone) ∧ (s.edge i).flagError = s.flagError := by
  rw [edge_flagBusy released, edge_flagDone released, edge_flagError released, command_quiet silent]
  exact ⟨rfl, rfl, rfl⟩

/-- BUSY or DONE is up. -/
def Attended (s : State) : Prop := s.flagBusy = true ∨ s.flagDone = true

theorem attended_edge {i : Pins} (attended : Attended s) (released : i.rstN = true)
    (silent : i.wen = false) : Attended (s.edge i) := by
  obtain ⟨busy, done, -⟩ := flags_edge_silent (s := s) released silent
  unfold Attended at attended ⊢
  rw [busy, done]
  cases s.completes with
  | true => exact Or.inr rfl
  | false => exact attended

theorem stable_attended : bus.Stable Attended :=
  stable_of_quiet fun _ _ attended released silent => attended_edge attended released silent

/-- DONE is up and ERROR is low. -/
def Succeeded (s : State) : Prop := s.flagDone = true ∧ s.flagError = false

theorem succeeded_edge {i : Pins} (succeeded : Succeeded s) (released : i.rstN = true)
    (silent : i.wen = false) : Succeeded (s.edge i) := by
  obtain ⟨-, done, error⟩ := flags_edge_silent (s := s) released silent
  refine ⟨?_, error.trans succeeded.2⟩
  rw [done, succeeded.1, Bool.or_true]

theorem stable_succeeded : bus.Stable Succeeded :=
  stable_of_quiet fun _ _ succeeded released silent => succeeded_edge succeeded released silent

theorem stable_done : bus.Stable fun s => s.flagDone = true := by
  apply stable_of_quiet
  intro s i done released silent
  rw [(flags_edge_silent released silent).2.1, done, Bool.or_true]

/-- What the history makes of a success. -/
theorem completed_iff (traced : Traced a) (timely : a.2.late = false) :
    Completed a ↔ Succeeded a.1 := by
  constructor
  · exact fun completed => ⟨completed.1, completed.2.1⟩
  · intro succeeded
    exact ⟨succeeded.1, succeeded.2,
      traced.completed.mpr ⟨traced.control.finished.mpr succeeded, timely⟩⟩

theorem not_completed_of_late (traced : Traced a) (late : a.2.late = true) : ¬Completed a := by
  intro completed
  have timely := (traced.completed.mp completed.2.2).2
  rw [late] at timely
  cases timely

/-- Only a RESET changes what is known of the last one. -/
theorem late_silent {i : Pins} (released : i.rstN = true) (silent : i.wen = false) :
    (audit.device.edge a i).2.late = a.2.late := by
  change (a.2.watch a.1 i).late = _
  rw [watch_quiet released (calm_of_silent silent)]

theorem late_wait (cycles : List Idle) : (audit.wait a cycles).2.late = a.2.late := by
  induction cycles generalizing a with
  | nil => rfl
  | cons e cycles ih => exact ih.trans (late_silent rfl rfl)

theorem traced_wait (traced : Traced a) (cycles : List Idle) : Traced (audit.wait a cycles) := by
  induction cycles generalizing a with
  | nil => exact traced
  | cons e cycles ih => exact ih (traced.edge e.pins)

/-- From BUSY or DONE on, every Ok is one of a completed operation. -/
theorem honest_of_attended (polls k : ℕ) (a : State × History) (traced : Traced a)
    (timely : a.2.late = false) (attended : Attended (audit.wait a (gap k)).1) :
    Honest gap (waitAndReadResult polls) k a := by
  induction polls generalizing k a with
  | zero => exact fun v ok => nomatch ok
  | succ polls ih =>
      have traced' : Traced (statusEdge (audit.wait a (gap k))) :=
        (traced_wait traced (gap k)).edge (busRead regStatus)
      have timely' : (statusEdge (audit.wait a (gap k))).2.late = false :=
        (late_silent rfl rfl).trans ((late_wait (gap k)).trans timely)
      rw [honest_wait_succ]
      cases busy : (audit.wait a (gap k)).1.flagBusy with
      | true =>
          have next := attended_edge attended (i := busRead regStatus) rfl rfl
          apply ih (k + 1) _ traced' timely'
          rw [wait_fst]
          exact stable_attended.wait next (gap (k + 1))
      | false =>
          have done : (audit.wait a (gap k)).1.flagDone = true := by
            simpa [Attended, busy] using attended
          have done' : (statusEdge (audit.wait a (gap k))).1.flagDone = true := by
            change ((audit.wait a (gap k)).1.edge (busRead regStatus)).flagDone = true
            rw [(flags_edge_silent rfl rfl).2.1, done, Bool.or_true]
          refine (honest_settled _ _).mpr fun error => ?_
          have traced'' := (traced_wait traced' (gap (k + 1))).edge (busRead regStatus)
          have shown : Succeeded (audit.wait (statusEdge (audit.wait a (gap k))) (gap (k + 1))).1 := by
            refine ⟨?_, error⟩
            rw [wait_fst]
            exact stable_done.wait done' (gap (k + 1))
          refine (completed_iff (traced_wait traced'' (gap (k + 2))) ?_).mpr ?_
          · exact (late_wait _).trans ((late_silent rfl rfl).trans ((late_wait _).trans timely'))
          · rw [wait_fst]
            exact stable_succeeded.wait (succeeded_edge shown rfl rfl) (gap (k + 2))

/-- A multiplication without BUSY that completes after `n` more edges. -/
structure Ghost (n : ℕ) (s : State) : Prop where
  control : Control s
  cstate : s.cstate = .cMul
  flagBusy : s.flagBusy = false
  wait : s.uMulmod.toSerial.wait = n

theorem ghost_edge {n : ℕ} {i : Pins} (ghost : Ghost (n + 1) s) (released : i.rstN = true)
    (silent : i.wen = false) : if n = 0 then Succeeded (s.edge i) else Ghost n (s.edge i) := by
  obtain ⟨control, cstate, busy, wait⟩ := ghost
  obtain ⟨busy', done', error'⟩ := flags_edge_silent (s := s) released silent
  have error : s.flagError = false := by
    apply eq_false_of_ne_true
    intro raised
    simp [(control.error raised).1] at cstate
  cases pulse : s.uMulmod.done with
  | true =>
      have completes : s.completes = true := completes_iff.mpr ⟨cstate, pulse⟩
      have last : n = 0 := by
        have now : s.uMulmod.toSerial.wait = 1 := if_pos pulse
        omega
      rw [if_pos last]
      exact ⟨by rw [done', completes]; rfl, error'.trans error⟩
  | false =>
      have completes : s.completes = false := by simp [State.completes, pulse]
      have nearer := mulmod_wait_edge control (i := i) released cstate pulse
      have positive := SerialUnit.wait_positive (u := (s.edge i).uMulmod.toSerial)
      rw [if_neg (by omega)]
      refine ⟨control_edge control i, ?_, ?_, by omega⟩
      · rw [edge_cstate released, not_handsOver (by simp [cstate]), completes, command_quiet silent]
        exact cstate
      · rw [busy', busy, Bool.and_false]

theorem ghost_wait {n : ℕ} (positive : 0 < n) (ghost : Ghost n s) (cycles : List Idle) :
    if n ≤ cycles.length then Succeeded (bus.wait s cycles)
      else Ghost (n - cycles.length) (bus.wait s cycles) := by
  induction cycles generalizing n s with
  | nil => rwa [List.length_nil, if_neg (by omega)]
  | cons e cycles ih =>
      obtain ⟨n, rfl⟩ : ∃ before, n = before + 1 := ⟨n - 1, by omega⟩
      have next := ghost_edge ghost (i := e.pins) rfl rfl
      change if _ then Succeeded (bus.wait (s.edge e.pins) cycles)
        else Ghost _ (bus.wait (s.edge e.pins) cycles)
      rw [List.length_cons]
      split at next
      · rw [if_pos (by omega)]
        exact stable_succeeded.wait next cycles
      · have rest := ih (by omega) next
        by_cases landed : n ≤ cycles.length
        · rw [if_pos landed] at rest
          rwa [if_pos (by omega)]
        · rw [if_neg landed] at rest
          rw [if_neg (by omega), Nat.add_sub_add_right]
          exact rest

theorem Ghost.unfinished {n : ℕ} (ghost : Ghost n s) : s.flagDone = false := by
  apply eq_false_of_ne_true
  intro done
  cases error : s.flagError with
  | true => simpa [ghost.cstate] using (ghost.control.error error).1
  | false => simpa [ghost.cstate] using ghost.control.finished.mpr ⟨done, error⟩

/-- The control is idle and no outcome is shown. -/
def Vacant (s : State) : Prop := s.cstate = .cIdle ∧ s.flagDone = false

theorem stable_vacant : bus.Stable Vacant := by
  apply stable_of_quiet
  intro s i vacant released silent
  obtain ⟨idle, low⟩ := vacant
  have completes : s.completes = false := not_completes (by simp [idle])
  refine ⟨?_, ?_⟩
  · rw [edge_cstate released, not_handsOver (by simp [idle]), completes, command_quiet silent]
    exact idle
  · rw [(flags_edge_silent released silent).2.1, completes, low]
    rfl

theorem stable_unfailed : bus.Stable fun s => s.flagError = false := by
  apply stable_of_quiet
  intro s i low released silent
  exact (flags_edge_silent released silent).2.2.trans low

/-- A read of STATUS drives the pins of an idle cycle. -/
def statusRead : Idle := ⟨regStatus, 0, true⟩

/-- With neither BUSY nor DONE up the control is idle or multiplies on after a RESET. -/
theorem unattended_cases (control : Control s) (unattended : ¬Attended s) :
    s.flagBusy = false ∧ s.flagDone = false ∧ s.flagError = false ∧
      (s.cstate = .cIdle ∨ s.cstate = .cMul) := by
  rw [Attended, not_or, Bool.not_eq_true, Bool.not_eq_true] at unattended
  obtain ⟨busy, done⟩ := unattended
  have error : s.flagError = false := by
    apply eq_false_of_ne_true
    intro raised
    simp [(control.error raised).2] at done
  refine ⟨busy, done, error, ?_⟩
  cases phase : s.cstate with
  | cIdle => exact Or.inl rfl
  | cReduce => simp [(control.reducing phase).1] at busy
  | cMul => exact Or.inr rfl
  | cDone => simp [(control.finished.mp phase).1] at done

/-- The cycles from a first poll to the read of RESULT. -/
def toResult (gap : ℕ → List Idle) (k : ℕ) : List Idle :=
  statusRead :: gap (k + 1) ++ statusRead :: gap (k + 2)

theorem length_toResult (k : ℕ) :
    (toResult gap k).length = (gap (k + 1)).length + (gap (k + 2)).length + 2 := by
  simp only [toResult, List.length_append, List.length_cons]
  omega

/-- A first poll that finds neither BUSY nor ERROR leads straight to RESULT. -/
theorem honest_wait_unattended (k polls : ℕ) (busy : (audit.wait a (gap k)).1.flagBusy = false)
    (error : (audit.wait a (gap k)).1.flagError = false) :
    Honest gap (waitAndReadResult (polls + 1)) k a ↔
      Completed (audit.wait (audit.wait a (gap k)) (toResult gap k)) := by
  have unfailed : (audit.wait (statusEdge (audit.wait a (gap k))) (gap (k + 1))).1.flagError =
      false := by
    rw [wait_fst]
    exact stable_unfailed.wait (stable_unfailed _ statusRead error) (gap (k + 1))
  have read : audit.wait (statusEdge (audit.wait (statusEdge (audit.wait a (gap k))) (gap (k + 1))))
      (gap (k + 2)) = audit.wait (audit.wait a (gap k)) (toResult gap k) := by
    rw [toResult, Bus.wait_append]
    rfl
  rw [honest_wait_succ, busy, if_neg Bool.false_ne_true, honest_settled, read]
  exact ⟨fun honest => honest unfailed, fun completed _ => completed⟩

theorem not_succeeded (low : s.flagDone = false) : ¬Succeeded s := by
  intro succeeded
  rw [succeeded.1] at low
  cases low

/-- After a late RESET the poll finds the DONE of the operation before it. -/
theorem honest_wait_late (traced : Traced a) (late : a.2.late = true) (k polls : ℕ) :
    ¬Honest gap (waitAndReadResult (polls + 1)) k a ∧ ¬Timely gap k a := by
  have traced' := traced_wait traced (gap k)
  have late' : (audit.wait a (gap k)).2.late = true := (late_wait _).trans late
  have phase : (audit.wait a (gap k)).1.cstate = .cDone := traced'.late late'
  obtain ⟨done, error⟩ := traced'.control.finished.mp phase
  have busy : (audit.wait a (gap k)).1.flagBusy = false := by
    apply eq_false_of_ne_true
    intro raised
    have low := (traced'.control.busy raised).2
    rw [done] at low
    cases low
  constructor
  · rw [honest_wait_unattended k polls busy error]
    exact not_completed_of_late (traced_wait traced' _) ((late_wait _).trans late')
  · simp [Timely, busy, late', phase]

/-- The condition is exact for every state in working order and every spacing. -/
theorem honest_wait_iff (traced : Traced a) (k polls : ℕ) :
    Honest gap (waitAndReadResult (polls + 1)) k a ↔ Timely gap k a := by
  cases late : a.2.late with
  | true =>
      obtain ⟨dishonest, untimely⟩ := @honest_wait_late gap _ traced late k polls
      exact iff_of_false dishonest untimely
  | false =>
      have late' : (audit.wait a (gap k)).2.late = false := (late_wait _).trans late
      have traced' := traced_wait traced (gap k)
      by_cases attended : Attended (audit.wait a (gap k)).1
      · have timely : Timely gap k a := by
          rcases attended with busy | done
          · exact Or.inl busy
          · exact Or.inr (Or.inl ⟨done, late'⟩)
        exact iff_of_true (honest_of_attended _ k a traced late attended) timely
      · obtain ⟨busy, done, error, phase⟩ := unattended_cases traced'.control attended
        rw [honest_wait_unattended k polls busy error, Timely,
          completed_iff (traced_wait traced' _) ((late_wait _).trans late'), wait_fst]
        simp only [busy, done, Bool.false_eq_true, false_or, false_and]
        rcases phase with idle | multiplying
        · have vacant := stable_vacant.wait ⟨idle, done⟩ (toResult gap k)
          exact iff_of_false (not_succeeded vacant.2) (by simp [idle])
        · have ghost : Ghost (audit.wait a (gap k)).1.uMulmod.toSerial.wait
              (audit.wait a (gap k)).1 :=
            ⟨traced'.control, multiplying, busy, rfl⟩
          have later := ghost_wait SerialUnit.wait_positive ghost (toResult gap k)
          rw [length_toResult] at later
          simp only [multiplying, true_and]
          split at later
          · rename_i within
            exact iff_of_true later within
          · rename_i beyond
            exact iff_of_false (not_succeeded later.unfinished) beyond

theorem reads_loadModulus (words : List Word) (k : ℕ) (a : State × History) :
    audit.reads gap (loadModulus words) k a = [] := by
  induction words generalizing k a with
  | nil => rfl
  | cons word words ih => exact ih (k + 2) _

theorem reads_loadOperand (words : List Word) (k : ℕ) (a : State × History) :
    audit.reads gap (loadOperand words) k a = [] := by
  induction words generalizing k a with
  | nil => rfl
  | cons word words ih => exact ih (k + 2) _

/-- `compute` returns what its own wait returns, and reads nothing before. -/
theorem honest_compute (modulus operand : List Word) (k : ℕ) (a : State × History) :
    Honest gap (compute polls modulus operand) k a ↔
      Honest gap (waitAndReadResult polls) (audit.run gap (prepare modulus operand) k a).next
        (audit.run gap (prepare modulus operand) k a).state := by
  obtain ⟨-, state, next⟩ := @run_audit gap _ (prepare modulus operand) k a
  have run : (bus.run gap (compute polls modulus operand) k a.1).value =
      (bus.run gap (waitAndReadResult polls) (audit.run gap (prepare modulus operand) k a).next
        (audit.run gap (prepare modulus operand) k a).state.1).value := by
    rw [state, next]
    simp only [compute, prepare, Bus.run_bind]
  have reads : audit.reads gap (compute polls modulus operand) k a =
      audit.reads gap (waitAndReadResult polls) (audit.run gap (prepare modulus operand) k a).next
        (audit.run gap (prepare modulus operand) k a).state := by
    simp only [compute, prepare, Bus.run_bind, Bus.reads_bind, reads_loadModulus, reads_loadOperand,
      List.nil_append]
    rfl
  rw [Honest, Honest, run, reads]

theorem honest_of_none (p : Access Unit) (k : ℕ) (a : State × History) :
    Honest gap (do p; return none) k a := by
  intro v ok
  rw [Bus.run_bind] at ok
  exact nomatch ok

theorem honest_call_iff (reached : audited.Reachable a) (k polls : ℕ) (call : Call) :
    Honest gap (perform (polls + 1) call) k a ↔ call.Meets gap k a := by
  cases call with
  | compute modulus operand =>
      have prepared := audit.run_reachable reached gap (prepare modulus operand) k
      exact (honest_compute modulus operand k a).trans
        (honest_wait_iff (Traced.of_reachable prepared) _ polls)
  | waitAndReadResult => exact honest_wait_iff (Traced.of_reachable reached) k polls
  | reset => exact iff_of_true (honest_of_none reset k a) trivial
  | loadModulusWord word => exact iff_of_true (honest_of_none (loadModulusWord word) k a) trivial
  | loadOperandWord word => exact iff_of_true (honest_of_none (loadOperandWord word) k a) trivial
  | loadModulus words => exact iff_of_true (honest_of_none (loadModulus words) k a) trivial
  | loadOperand words => exact iff_of_true (honest_of_none (loadOperand words) k a) trivial
  | start => exact iff_of_true (honest_of_none start k a) trivial

theorem runCalls_reachable (gap : ℕ → List Idle) (polls : ℕ) (calls : List Call)
    {now : ℕ × (State × History)} (reached : audited.Reachable now.2) :
    audited.Reachable (runCalls gap polls calls now).2 := by
  induction calls generalizing now with
  | nil => exact reached
  | cons call calls ih => exact ih (audit.run_reachable reached gap (perform polls call) now.1)

/-- Over every sequence of calls with every spacing: each Ok is one of a completed
operation exactly when each wait finds what it has to. -/
theorem success_iff (polls : ℕ) (enough : 69 ≤ polls) (gap : ℕ → List Idle) (calls : List Call) :
    (∀ n call, calls[n]? = some call → Honest gap (perform polls call)
      (after gap polls (calls.take n)).1 (after gap polls (calls.take n)).2) ↔
    ∀ n call, calls[n]? = some call → Call.Meets gap
      (after gap polls (calls.take n)).1 (after gap polls (calls.take n)).2 call := by
  obtain ⟨more, rfl⟩ : ∃ more, polls = more + 1 := ⟨polls - 1, by omega⟩
  refine forall_congr' fun n => forall_congr' fun call => imp_congr_right fun _ => ?_
  exact honest_call_iff (runCalls_reachable gap (more + 1) (calls.take n) .reset) _ more call

/-- The documented use: `compute` over 7 and 10 finds BUSY at its first poll. -/
theorem success_squareTen : Honest (fun _ => []) (compute 69 [7] [10]) 0 (.reset, .fresh) := by
  apply (success_iff 69 (Nat.le_refl 69) (fun _ => []) [.compute [7] [10]]).mpr ?_ 0 _ rfl
  intro n call listed
  match n with
  | 0 =>
      cases listed
      exact Or.inl (by decide +kernel)

/-- Right after the hardware reset `wait_and_read_result` returns Ok(0) with DONE low. -/
theorem unfinished_ok :
    ¬∀ polls, 69 ≤ polls → ∀ (gap : ℕ → List Idle) (calls : List Call) n call,
      calls[n]? = some call → Honest gap (perform polls call)
        (after gap polls (calls.take n)).1 (after gap polls (calls.take n)).2 := by
  intro always
  have honest := always 69 (Nat.le_refl 69) (fun _ => []) [.waitAndReadResult] 0 _ rfl
  rcases (honest_call_iff .reset 0 68 .waitAndReadResult).mp honest with
    busy | ⟨done, -⟩ | ⟨phase, -⟩
  · cases busy
  · cases done
  · cases phase

end BlindSig.Driver
