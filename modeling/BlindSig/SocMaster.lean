import BlindSig.SocDirect

set_option autoImplicit false

/- A processor that makes the accesses of a program one after the other. The
fabric serves each of them, so every program comes to its end. -/
namespace BlindSig.Soc

open Clocked

variable {β γ : Type}

/-- What it drives while `p` is left to do. -/
def offer : Prog (BitVec 32) Word β → Pins
  | .pure _ => ⟨true, false, 0, 0, 0⟩
  | .write addr data _ => ⟨true, true, addr, data, 0xF⟩
  | .read addr _ => ⟨true, true, addr, 0, 0⟩

/-- What is left after a cycle. -/
def advance (p : Prog (BitVec 32) Word β) (ready : Bool) (rdata : Word) : Prog (BitVec 32) Word β :=
  if ready then
    match p with
    | .pure value => .pure value
    | .write _ _ next => next
    | .read _ next => next rdata
  else p

def held : Pins := ⟨false, false, 0, 0, 0⟩

/-- Cycle `n` after one cycle of reset: what is left, and the fabric. -/
def serve (p : Prog (BitVec 32) Word β) (s : State) : ℕ → Prog (BitVec 32) Word β × State
  | 0 => (p, s.edge held)
  | n + 1 =>
      let now := serve p s n
      (advance now.1 (now.2.memReady (offer now.1)) (now.2.memRdata (offer now.1)),
        now.2.edge (offer now.1))

def masterPins (p : Prog (BitVec 32) Word β) (s : State) : ℕ → Pins
  | 0 => held
  | n + 1 => offer (serve p s n).1

/-- Each access of the program is one to a device. -/
def OnDevices : Prog (BitVec 32) Word β → Prop
  | .pure _ => True
  | .write addr _ next =>
      (addr.extractLsb' 28 4 = 1 ∨ addr.extractLsb' 28 4 = 2) ∧ OnDevices next
  | .read addr next =>
      (addr.extractLsb' 28 4 = 1 ∨ addr.extractLsb' 28 4 = 2) ∧ ∀ data, OnDevices (next data)

theorem onDevices_bind {p : Prog (BitVec 32) Word β} {f : β → Prog (BitVec 32) Word γ}
    (first : OnDevices p) (second : ∀ value, OnDevices (f value)) : OnDevices (p >>= f) := by
  induction p with
  | pure value => exact second value
  | write addr data next ih => exact ⟨first.1, ih first.2⟩
  | read addr next ih => exact ⟨first.1, fun data => ih data (first.2 data)⟩

theorem onDevices_register (p : Driver.Access β) : OnDevices (p.mapAddr register) := by
  induction p with
  | pure value => trivial
  | write offset data next ih => exact ⟨Or.inr (register_region offset).1, ih⟩
  | read offset next ih => exact ⟨Or.inr (register_region offset).1, ih⟩

theorem OnDevices.advance {p : Prog (BitVec 32) Word β} (on : OnDevices p) (ready : Bool)
    (rdata : Word) : OnDevices (advance p ready rdata) := by
  unfold Soc.advance
  split
  · cases p with
    | pure value => exact on
    | write addr data next => exact on.2
    | read addr next => exact on.2 rdata
  · exact on

/-- A request of the program is one to the console or to the accelerator. -/
theorem OnDevices.mapped {p : Prog (BitVec 32) Word β} (on : OnDevices p)
    (valid : (offer p).memValid = true) :
    ((offer p).transaction.selSimio || (offer p).transaction.selAccel) = true := by
  cases p with
  | pure value => cases valid
  | write addr data next =>
      exact Bool.or_eq_true_iff.mpr (on.1.imp (fun here => beq_iff_eq.mpr here)
        fun here => beq_iff_eq.mpr here)
  | read addr next =>
      exact Bool.or_eq_true_iff.mpr (on.1.imp (fun here => beq_iff_eq.mpr here)
        fun here => beq_iff_eq.mpr here)

variable {p : Prog (BitVec 32) Word β} {s : State}

theorem serve_onDevices (on : OnDevices p) (n : ℕ) : OnDevices (serve p s n).1 := by
  induction n with
  | zero => exact on
  | succ n ih => exact ih.advance _ _

theorem run_master (n : ℕ) : run s (masterPins p s) (n + 1) = (serve p s n).2 := by
  induction n with
  | zero => rfl
  | succ n ih =>
      rw [run, ih]
      rfl

/-- It keeps to the rule of the fabric. -/
theorem compliant_master (on : OnDevices p) : Compliant s (masterPins p s) 1 := by
  refine ⟨Nat.one_pos, ?_, ?_, ?_, ?_⟩
  · intro n inside
    rw [Nat.lt_one_iff.mp inside]
    exact ⟨rfl, rfl⟩
  · intro n later
    obtain ⟨m, rfl⟩ : ∃ m, n = m + 1 := ⟨n - 1, by omega⟩
    change (offer (serve p s m).1).resetn = true
    cases (serve p s m).1 <;> rfl
  · intro n later valid
    obtain ⟨m, rfl⟩ : ∃ m, n = m + 1 := ⟨n - 1, by omega⟩
    have device := (serve_onDevices (s := s) on m).mapped valid
    exact Or.inr (Bool.or_eq_true_iff.mp device)
  · intro n valid waiting
    cases n with
    | zero => cases valid
    | succ m =>
        have wait : (serve p s m).2.memReady (offer (serve p s m).1) = false := by
          rw [← run_master]
          exact waiting
        change (offer (advance _ _ _)).request = (offer (serve p s m).1).request
        rw [wait]
        rfl

theorem ready_master (n : ℕ) : ready s (masterPins p s) 1 n =
    (serve p s n).2.memReady (offer (serve p s n).1) := by
  rw [ready, shown, Nat.add_comm, run_master]
  rfl

theorem requests_master (n : ℕ) :
    requests (masterPins p s) 1 n = (offer (serve p s n).1).request := by
  rw [requests, Nat.add_comm]
  rfl

/-- A write is made before its acknowledge cycle, where the master still offers it. -/
def pending (ready : Bool) : Prog (BitVec 32) Word β → Prog (BitVec 32) Word β
  | .write addr data next => if ready then next else .write addr data next
  | p => p

/-- The access of a cycle is the one on offer: a write when it begins, a read
when it is acknowledged. -/
theorem event_master (on : OnDevices p) (n : ℕ) : event s (masterPins p s) 1 n =
    match (serve p s n).1 with
    | .pure _ => none
    | .write addr data _ =>
        if ready s (masterPins p s) 1 n then none else some (.wrote addr data)
    | .read addr _ =>
        if ready s (masterPins p s) 1 n then
          some (.got addr ((serve p s n).2.memRdata (offer (serve p s n).1)))
        else none := by
  have answers := answers_of_compliant (compliant_master (s := s) on)
  have opened := Handshake.opens_eq answers n
  change opens s (masterPins p s) 1 n = _ at opened
  have rdata : (shown s (masterPins p s) 1 n).memRdata (masterPins p s (1 + n)) =
      (serve p s n).2.memRdata (offer (serve p s n).1) := by
    rw [shown, Nat.add_comm, run_master]
    rfl
  have device := (serve_onDevices (s := s) on n).mapped
  unfold event access
  rw [opened, rdata, requests_master]
  cases left : (serve p s n).1 with
  | pure value =>
      have none : ((⟨0, 0, 0⟩ : Transaction).selSimio || (⟨0, 0, 0⟩ : Transaction).selAccel) = false := by
        decide
      simp only [offer, Pins.request, Pins.transaction, none, Bool.false_eq_true, ↓reduceIte]
  | write addr data next =>
      rw [left] at device
      have here := device rfl
      have write : (⟨addr, data, 0xF⟩ : Transaction).isWrite = true := rfl
      simp only [offer, Pins.request, Pins.transaction] at here ⊢
      simp only [here, write, ↓reduceIte]
      cases ready s (masterPins p s) 1 n <;> rfl
  | read addr next =>
      rw [left] at device
      have here := device rfl
      have read : (⟨addr, 0, 0⟩ : Transaction).isWrite = false := rfl
      simp only [offer, Pins.request, Pins.transaction] at here ⊢
      simp only [here, read, Bool.false_eq_true, ↓reduceIte]
      cases ready s (masterPins p s) 1 n <;> rfl

/-- The accesses in the fabric are those of the program. -/
theorem follow_master (on : OnDevices p) (n : ℕ) :
    p.follow (events s (masterPins p s) 1 n) =
      some (pending (ready s (masterPins p s) 1 n) (serve p s n).1) := by
  have answers := answers_of_compliant (compliant_master (s := s) on)
  induction n with
  | zero =>
      rw [answers.init]
      change p.follow [] = _
      rw [Prog.follow_nil]
      cases h : (serve p s 0).1 with
      | pure value => exact congrArg some h
      | write addr data next => exact congrArg some h
      | read addr next => exact congrArg some h
  | succ n ih =>
      have next : (serve p s (n + 1)).1 = advance (serve p s n).1 (ready s (masterPins p s) 1 n)
          ((serve p s n).2.memRdata (offer (serve p s n).1)) := by
        rw [ready_master]
        rfl
      rw [events_succ, Prog.follow_append, ih, Option.bind_some, event_master on, answers.step, next,
        requests_master]
      cases left : (serve p s n).1 with
      | pure value => cases ready s (masterPins p s) 1 n <;> rfl
      | write addr data after =>
          cases ready s (masterPins p s) 1 n with
          | true => cases after <;> rfl
          | false =>
              change (if addr = addr ∧ data = data then _ else none) = _
              rw [if_pos ⟨rfl, rfl⟩, Prog.follow_nil]
              rfl
      | read addr after =>
          cases ready s (masterPins p s) 1 n with
          | true =>
              change (if addr = addr then _ else none) = _
              rw [if_pos rfl, Prog.follow_nil]
              simp only [advance, ↓reduceIte, Bool.not_true, Bool.and_false]
              cases after ((serve p s n).2.memRdata (offer (.read addr after))) <;> rfl
          | false => rfl

/-- Two cycles for each access, and the program is at its end. -/
theorem serve_ends (on : OnDevices p) (q : Prog (BitVec 32) Word β) (n : ℕ)
    (left : (serve p s n).1 = q) (fresh : ready s (masterPins p s) 1 n = false) :
    ∃ m value, (serve p s m).1 = .pure value ∧ ready s (masterPins p s) 1 m = false := by
  have answers := answers_of_compliant (compliant_master (s := s) on)
  have next : ∀ k, (serve p s (k + 1)).1 = advance (serve p s k).1 (ready s (masterPins p s) 1 k)
      ((serve p s k).2.memRdata (offer (serve p s k).1)) := by
    intro k
    rw [ready_master]
    rfl
  induction q generalizing n with
  | pure value => exact ⟨n, value, left, fresh⟩
  | write addr data after ih =>
      have second : ready s (masterPins p s) 1 (n + 1) = true := by
        rw [answers.step, requests_master, left, fresh]
        rfl
      have kept : (serve p s (n + 1)).1 = .write addr data after := by
        rw [next, left, fresh]
        rfl
      refine ih (n + 2) ?_ ?_
      · rw [next, kept, second]
        rfl
      · rw [answers.step, second, Bool.not_true, Bool.and_false]
  | read addr after ih =>
      have second : ready s (masterPins p s) 1 (n + 1) = true := by
        rw [answers.step, requests_master, left, fresh]
        rfl
      have kept : (serve p s (n + 1)).1 = .read addr after := by
        rw [next, left, fresh]
        rfl
      refine ih ((serve p s (n + 1)).2.memRdata (offer (serve p s (n + 1)).1)) (n + 2) ?_ ?_
      · rw [next, kept, second]
        rfl
      · rw [answers.step, second, Bool.not_true, Bool.and_false]

/-- For every program there is a run of the fabric that makes its accesses. -/
theorem exists_run (s : State) (on : OnDevices p) : ∃ (ins : ℕ → Pins) (n : ℕ) (value : β),
    Compliant s ins 1 ∧ p.follow (events s ins 1 n) = some (.pure value) := by
  have answers := answers_of_compliant (compliant_master (s := s) on)
  obtain ⟨n, value, ended, fresh⟩ := serve_ends (s := s) on p 0 rfl answers.init
  refine ⟨masterPins p s, n, value, compliant_master on, ?_⟩
  rw [follow_master on, fresh, ended]
  rfl

/-- A console nobody has written to shows nothing. -/
theorem Devices.In.silent {t : Devices} (agree : t.In s) (wrote : Wrote [] t) :
    s.printed = [] ∧ s.simioHalt = false := by
  change t.written = [] at wrote
  constructor
  · rw [agree.printed, Devices.printed, wrote]
    rfl
  · rw [agree.simioHalt, Devices.halted, wrote]
    rfl

/-- The driver through the fabric: whatever the processor fetches, loads and
stores in memory between its accesses, and however long it takes, each call
returns the square of its own operand modulo its own modulus. -/
theorem computeAll_on_soc {image : BitVec 12 → Word} {ins : ℕ → Pins} {r : ℕ}
    (compliant : Compliant s ins r) (powerUp : PowerUp image s) (polls : ℕ) (enough : 69 ≤ polls)
    (calls : List (List Word × List Word)) (n : ℕ)
    (outcomes : List (Option (Except Unit Word)))
    (follows : ((Driver.computeAll polls calls).mapAddr register).follow (events s ins r n) =
      some (.pure outcomes)) :
    outcomes.map Driver.answer = calls.map (fun call => some (Driver.squareOf call.1 call.2)) ∧
      (shown s ins r n).printed = [] ∧ (shown s ins r n).simioHalt = false := by
  have triple : devices.Triple (fun s => Accel.AtRest s.accel ∧ Wrote [] s) _ _ :=
    triple_driver (Driver.triple_computeAll enough calls)
  obtain ⟨t, agree, squares, silent⟩ := devices_of_follow triple
    (fun _ => Bus.Stable.and_left stable_wrote) ⟨Accel.loaded_reset.atRest, rfl⟩ compliant powerUp
    follows
  exact ⟨squares, agree.silent silent⟩

theorem computeAll_on_soc_two : ∃ (ins : ℕ → Pins) (n : ℕ) (outcomes : List (Option (Except Unit Word))),
    ((Driver.computeAll 69 [([7], [10]), ([], [3])]).mapAddr register).follow
      (events blank ins 1 n) = some (.pure outcomes) ∧
    outcomes.map Driver.answer = [some (.ok 2), some (.error ())] := by
  obtain ⟨ins, n, outcomes, compliant, follows⟩ :=
    exists_run blank (onDevices_register (Driver.computeAll 69 [([7], [10]), ([], [3])]))
  exact ⟨ins, n, outcomes, follows, (computeAll_on_soc compliant ⟨rfl, rfl, rfl⟩ 69
    (Nat.le_refl 69) [([7], [10]), ([], [3])] n outcomes follows).1⟩

end BlindSig.Soc
