import BlindSig.ClockedMachine

set_option autoImplicit false

namespace Clocked.Armed

variable {α : Type*}

/-- What a cycle means to the register. -/
inductive Event (α : Type*) where
  | clear
  | disarm
  | arm
  | write (value : α)
  | other
deriving DecidableEq

structure Port (α : Type*) where
  armed : Bool
  value : α

def Port.edge (zero : α) (p : Port α) : Event α → Port α
  | .clear => ⟨false, zero⟩
  | .disarm => { p with armed := false }
  | .arm => { p with armed := true }
  | .write value => if p.armed then ⟨false, value⟩ else p
  | .other => p

def machine (zero : α) : Machine (Port α) (Event α) := ⟨⟨false, zero⟩, Port.edge zero⟩

/-- The events that use up or withdraw an authorisation. -/
def Event.Spends : Event α → Prop
  | .clear => True
  | .disarm => True
  | .write _ => True
  | .arm => False
  | .other => False

variable (events : ℕ → Event α)

/-- The command in cycle `j` still stands in cycle `n`. -/
def Stands (j n : ℕ) : Prop :=
  j < n ∧ events j = .arm ∧ ∀ i, j < i → i < n → ¬(events i).Spends

/-- The write in cycle `n` is the first one after the command in cycle `j`. -/
def Authorises (j n : ℕ) : Prop := Stands events j n ∧ ∃ value, events n = .write value

def Authorised (n : ℕ) : Prop := ∃ j, Authorises events j n

/-- `value` is what the last authorised write since the last clear has left. -/
def LastWrite (zero : α) (n : ℕ) (value : α) : Prop :=
  (∃ j < n, Authorised events j ∧ events j = .write value ∧
    ∀ i, j < i → i < n → events i ≠ .clear ∧ ¬Authorised events i) ∨
  (value = zero ∧ ∀ j < n, Authorised events j → ∃ i, j < i ∧ i < n ∧ events i = .clear)

/-- The protocol of the register, over the events of a run. -/
structure Protocol (zero : α) (value : ℕ → α) (armed : ℕ → Bool) : Prop where
  /-- A command authorises one write at most. -/
  once : ∀ j n n', Authorises events j n → Authorises events j n' → n = n'
  armed_iff : ∀ n, armed n = true ↔ ∃ j, Stands events j n
  /-- Nothing but an authorised write or a clear changes the value. -/
  changes : ∀ n, value (n + 1) ≠ value n → Authorised events n ∨ events n = .clear
  takes : ∀ n data, Authorised events n → events n = .write data → value (n + 1) = data
  clears : ∀ n, events n = .clear → value (n + 1) = zero
  last : ∀ n, LastWrite events zero n (value n)

variable {events} {zero : α} {n : ℕ}

theorem Authorises.unique {j n n' : ℕ} (first : Authorises events j n)
    (second : Authorises events j n') : n = n' := by
  obtain ⟨⟨after, -, fresh⟩, value, write⟩ := first
  obtain ⟨⟨after', -, fresh'⟩, value', write'⟩ := second
  rcases Nat.lt_trichotomy n n' with earlier | same | later
  · exact absurd (by rw [write]; trivial) (fresh' n after earlier)
  · exact same
  · exact absurd (by rw [write']; trivial) (fresh n' after' later)

/-- A command stands after a cycle that was the command or kept it. -/
theorem stands_succ : (∃ j, Stands events j (n + 1)) ↔
    events n = .arm ∨ (∃ j, Stands events j n) ∧ ¬(events n).Spends := by
  constructor
  · rintro ⟨j, before, command, fresh⟩
    rcases Nat.lt_or_eq_of_le (Nat.le_of_lt_succ before) with earlier | now
    · right
      refine ⟨⟨j, earlier, command, fun i after below => fresh i after (by omega)⟩, ?_⟩
      exact fresh n earlier (Nat.lt_succ_self n)
    · left
      rw [← now]
      exact command
  · rintro (command | ⟨⟨j, earlier, command, fresh⟩, kept⟩)
    · exact ⟨n, Nat.lt_succ_self n, command, fun i after below => by omega⟩
    · refine ⟨j, by omega, command, fun i after below => ?_⟩
      rcases Nat.lt_or_eq_of_le (Nat.le_of_lt_succ below) with inside | now
      · exact fresh i after inside
      · rw [now]
        exact kept

theorem trace_armed (n : ℕ) :
    ((machine zero).trace ⟨false, zero⟩ events n).armed = true ↔ ∃ j, Stands events j n := by
  induction n with
  | zero => simp [Stands]
  | succ n ih =>
      rw [stands_succ, ← ih, Machine.trace_succ]
      change (Port.edge zero _ (events n)).armed = true ↔ _
      cases event : events n with
      | clear => simp [Port.edge, Event.Spends]
      | disarm => simp [Port.edge, Event.Spends]
      | arm => simp [Port.edge]
      | write value =>
          cases armed : ((machine zero).trace ⟨false, zero⟩ events n).armed <;>
            simp [Port.edge, Event.Spends, armed]
      | other => simp [Port.edge, Event.Spends]

theorem authorised_iff : Authorised events n ↔
    (∃ j, Stands events j n) ∧ ∃ value, events n = .write value :=
  ⟨fun ⟨j, stands, write⟩ => ⟨⟨j, stands⟩, write⟩, fun ⟨⟨j, stands⟩, write⟩ => ⟨j, stands, write⟩⟩

theorem trace_takes {data : α} (authorised : Authorised events n) (write : events n = .write data) :
    ((machine zero).trace ⟨false, zero⟩ events (n + 1)).value = data := by
  have armed : ((machine zero).trace ⟨false, zero⟩ events n).armed = true :=
    (trace_armed n).mpr (authorised_iff.mp authorised).1
  rw [Machine.trace_succ]
  change (Port.edge zero _ (events n)).value = data
  rw [write, Port.edge, if_pos armed]

theorem trace_clears (clear : events n = .clear) :
    ((machine zero).trace ⟨false, zero⟩ events (n + 1)).value = zero := by
  rw [Machine.trace_succ]
  change (Port.edge zero _ (events n)).value = zero
  rw [clear]
  rfl

theorem trace_keeps (unauthorised : ¬Authorised events n) (kept : events n ≠ .clear) :
    ((machine zero).trace ⟨false, zero⟩ events (n + 1)).value =
      ((machine zero).trace ⟨false, zero⟩ events n).value := by
  rw [Machine.trace_succ]
  change (Port.edge zero _ (events n)).value = _
  cases event : events n with
  | clear => exact absurd event kept
  | disarm => rfl
  | arm => rfl
  | write value =>
      have unarmed : ¬((machine zero).trace ⟨false, zero⟩ events n).armed = true := by
        rw [trace_armed]
        exact fun stands => unauthorised (authorised_iff.mpr ⟨stands, value, event⟩)
      rw [Port.edge, if_neg unarmed]
  | other => rfl

theorem LastWrite.keep {value : α} (last : LastWrite events zero n value)
    (unauthorised : ¬Authorised events n) (kept : events n ≠ .clear) :
    LastWrite events zero (n + 1) value := by
  rcases last with ⟨j, before, authorised, write, fresh⟩ | ⟨blank, cleared⟩
  · refine Or.inl ⟨j, by omega, authorised, write, fun i after below => ?_⟩
    rcases Nat.lt_or_eq_of_le (Nat.le_of_lt_succ below) with inside | now
    · exact fresh i after inside
    · rw [now]
      exact ⟨kept, unauthorised⟩
  · refine Or.inr ⟨blank, fun j before authorised => ?_⟩
    rcases Nat.lt_or_eq_of_le (Nat.le_of_lt_succ before) with earlier | now
    · obtain ⟨i, after, below, clear⟩ := cleared j earlier authorised
      exact ⟨i, after, by omega, clear⟩
    · exact absurd (now ▸ authorised) unauthorised

/-- The register holds the data of its last authorised write. -/
theorem trace_last (n : ℕ) :
    LastWrite events zero n ((machine zero).trace ⟨false, zero⟩ events n).value := by
  induction n with
  | zero => exact Or.inr ⟨rfl, fun j before => absurd before (Nat.not_lt_zero j)⟩
  | succ n ih =>
      by_cases authorised : Authorised events n
      · obtain ⟨value, write⟩ := (authorised_iff.mp authorised).2
        rw [trace_takes authorised write]
        exact Or.inl ⟨n, Nat.lt_succ_self n, authorised, write, fun i after below => by omega⟩
      · by_cases clear : events n = .clear
        · rw [trace_clears clear]
          refine Or.inr ⟨rfl, fun j before authorised' => ⟨n, ?_, Nat.lt_succ_self n, clear⟩⟩
          apply Nat.lt_of_le_of_ne (Nat.le_of_lt_succ before)
          intro now
          exact authorised (now ▸ authorised')
        · rw [trace_keeps authorised clear]
          exact ih.keep authorised clear

/-- Every register that moves like the port keeps the protocol. -/
theorem protocol_of_trace (port : ℕ → Port α) (init : port 0 = ⟨false, zero⟩)
    (steps : ∀ n, port (n + 1) = (port n).edge zero (events n)) :
    Protocol events zero (fun n => (port n).value) fun n => (port n).armed := by
  have run : ∀ n, port n = (machine zero).trace ⟨false, zero⟩ events n := by
    intro n
    induction n with
    | zero => exact init
    | succ n ih => rw [steps, ih]; rfl
  simp only [run]
  refine ⟨fun _ _ _ => Authorises.unique, trace_armed, ?_, ?_, ?_, trace_last⟩
  · intro n moved
    by_contra other
    rw [not_or] at other
    exact moved (trace_keeps other.1 other.2)
  · exact fun n data => trace_takes
  · exact fun n => trace_clears

end Clocked.Armed
