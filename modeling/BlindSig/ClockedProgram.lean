import BlindSig.ClockedMachine

set_option autoImplicit false

namespace Clocked

variable {σ ι α ω η β γ : Type}

/-- The accesses of a program in order. What follows a read depends on its data. -/
inductive Prog (α ω β : Type) where
  | pure (value : β)
  | write (addr : α) (data : ω) (next : Prog α ω β)
  | read (addr : α) (next : ω → Prog α ω β)

namespace Prog

def bind : Prog α ω β → (β → Prog α ω γ) → Prog α ω γ
  | .pure value, f => f value
  | .write addr data next, f => .write addr data (next.bind f)
  | .read addr next, f => .read addr fun data => (next data).bind f

instance : Monad (Prog α ω) where
  pure := .pure
  bind := .bind

def store (addr : α) (data : ω) : Prog α ω Unit := .write addr data (.pure ())

def load (addr : α) : Prog α ω ω := .read addr .pure

end Prog

/-- How accesses and idle cycles drive the pins of a device, and what a cycle
of a read returns. -/
structure Bus (σ ι α ω η : Type) where
  device : Machine σ ι
  write : α → ω → ι
  read : α → ι
  idle : η → ι
  rdata : σ → ι → ω

/-- Result, final state of the device, and the index of the next gap. -/
structure Outcome (σ β : Type) where
  value : β
  state : σ
  next : ℕ

namespace Bus

variable (B : Bus σ ι α ω η)

def wait (s : σ) (cycles : List η) : σ := cycles.foldl (fun s e => B.device.edge s (B.idle e)) s

/-- Access number `k` comes after the idle cycles `gap k`. -/
def run (gap : ℕ → List η) : Prog α ω β → ℕ → σ → Outcome σ β
  | .pure value, k, s => ⟨value, s, k⟩
  | .write addr data next, k, s =>
      run gap next (k + 1) (B.device.edge (B.wait s (gap k)) (B.write addr data))
  | .read addr next, k, s =>
      let t := B.wait s (gap k)
      run gap (next (B.rdata t (B.read addr))) (k + 1) (B.device.edge t (B.read addr))

theorem run_bind (gap : ℕ → List η) (p : Prog α ω β) (f : β → Prog α ω γ) (k : ℕ) (s : σ) :
    B.run gap (p >>= f) k s =
      B.run gap (f (B.run gap p k s).value) (B.run gap p k s).next (B.run gap p k s).state := by
  induction p generalizing k s with
  | pure value => rfl
  | write addr data next ih => exact ih (k + 1) _
  | read addr next ih => exact ih _ (k + 1) _

theorem indist_wait {s t : σ} (same : B.device.Indist B.rdata s t) (cycles : List η) :
    B.device.Indist B.rdata (B.wait s cycles) (B.wait t cycles) := by
  induction cycles generalizing s t with
  | nil => exact same
  | cons e cycles ih => exact ih (same.edge (B.idle e))

/-- A program cannot tell apart what no stream of inputs can. -/
theorem run_congr {s t : σ} (same : B.device.Indist B.rdata s t) (gap : ℕ → List η)
    (p : Prog α ω β) (k : ℕ) : (B.run gap p k s).value = (B.run gap p k t).value := by
  induction p generalizing k s t with
  | pure value => rfl
  | write addr data next ih =>
      apply ih
      exact (B.indist_wait same (gap k)).edge (B.write addr data)
  | read addr next ih =>
      have now := B.indist_wait same (gap k)
      rw [run, run, now.output (B.read addr)]
      apply ih
      exact now.edge (B.read addr)

theorem wait_append (s : σ) (first second : List η) :
    B.wait s (first ++ second) = B.wait (B.wait s first) second :=
  List.foldl_append

theorem wait_reachable {s : σ} (reached : B.device.Reachable s) (cycles : List η) :
    B.device.Reachable (B.wait s cycles) := by
  induction cycles generalizing s with
  | nil => exact reached
  | cons e cycles ih => exact ih (reached.edge (B.idle e))

theorem run_reachable {s : σ} (reached : B.device.Reachable s) (gap : ℕ → List η)
    (p : Prog α ω β) (k : ℕ) : B.device.Reachable (B.run gap p k s).state := by
  induction p generalizing k s with
  | pure value => exact reached
  | write addr data next ih => exact ih ((B.wait_reachable reached (gap k)).edge _) (k + 1)
  | read addr next ih => exact ih _ ((B.wait_reachable reached (gap k)).edge _) (k + 1)

/-- The reads of a run in order: the address, and the device in the cycle of the read. -/
def reads (gap : ℕ → List η) : Prog α ω β → ℕ → σ → List (α × σ)
  | .pure _, _, _ => []
  | .write addr data next, k, s =>
      reads gap next (k + 1) (B.device.edge (B.wait s (gap k)) (B.write addr data))
  | .read addr next, k, s =>
      let t := B.wait s (gap k)
      (addr, t) :: reads gap (next (B.rdata t (B.read addr))) (k + 1) (B.device.edge t (B.read addr))

theorem reads_bind (gap : ℕ → List η) (p : Prog α ω β) (f : β → Prog α ω γ) (k : ℕ) (s : σ) :
    B.reads gap (p >>= f) k s = B.reads gap p k s ++
      B.reads gap (f (B.run gap p k s).value) (B.run gap p k s).next (B.run gap p k s).state := by
  induction p generalizing k s with
  | pure value => rfl
  | write addr data next ih => exact ih (k + 1) _
  | read addr next ih => exact congrArg (List.cons _) (ih _ (k + 1) _)

/-- Idle cycles do not matter to `P`. -/
def Stable (P : σ → Prop) : Prop := ∀ s e, P s → P (B.device.edge s (B.idle e))

/-- From every state with `P`, however the accesses are spaced, the program
ends with `Q`. -/
def Triple (P : σ → Prop) (p : Prog α ω β) (Q : β → σ → Prop) : Prop :=
  ∀ gap k s, P s → Q (B.run gap p k s).value (B.run gap p k s).state

variable {B} {P P' : σ → Prop} {Q : β → σ → Prop} {R : γ → σ → Prop}

theorem Stable.and_left {p : Prop} (stable : B.Stable P) : B.Stable fun s => p ∧ P s :=
  fun s e now => ⟨now.1, stable s e now.2⟩

theorem Stable.wait (stable : B.Stable P) {s : σ} (holds : P s) (cycles : List η) :
    P (B.wait s cycles) := by
  induction cycles generalizing s with
  | nil => exact holds
  | cons e cycles ih => exact ih (stable s e holds)

theorem triple_pure {value : β} (holds : ∀ s, P s → Q value s) : B.Triple P (pure value) Q :=
  fun _ _ s now => holds s now

theorem triple_store (stable : B.Stable P) {addr : α} {data : ω} {Q : Unit → σ → Prop}
    (step : ∀ s, P s → Q () (B.device.edge s (B.write addr data))) :
    B.Triple P (Prog.store addr data) Q :=
  fun gap k _ now => step _ (stable.wait now (gap k))

theorem triple_load (stable : B.Stable P) {addr : α} {Q : ω → σ → Prop}
    (step : ∀ s, P s → Q (B.rdata s (B.read addr)) (B.device.edge s (B.read addr))) :
    B.Triple P (Prog.load addr) Q :=
  fun gap k _ now => step _ (stable.wait now (gap k))

theorem triple_bind {p : Prog α ω β} {f : β → Prog α ω γ} (first : B.Triple P p Q)
    (second : ∀ value, B.Triple (Q value) (f value) R) : B.Triple P (p >>= f) R := by
  intro gap k s now
  rw [run_bind]
  exact second _ gap _ _ (first gap k s now)

theorem triple_pre {p : Prog α ω β} (weaker : ∀ s, P' s → P s) (triple : B.Triple P p Q) :
    B.Triple P' p Q :=
  fun gap k s now => triple gap k s (weaker s now)

theorem triple_post {p : Prog α ω β} {Q' : β → σ → Prop} (triple : B.Triple P p Q)
    (stronger : ∀ value s, Q value s → Q' value s) : B.Triple P p Q' :=
  fun gap k s now => stronger _ _ (triple gap k s now)

/-- A branch that is never taken. -/
theorem triple_absurd {p : Prog α ω β} (never : ∀ s, ¬P s) : B.Triple P p Q :=
  fun _ _ s now => absurd now (never s)

section Monitored

variable {μ : Type} {init : μ} {watch : μ → σ → ι → μ} {s : σ × μ}

/-- The same bus with a monitor beside the device. -/
def monitored (B : Bus σ ι α ω η) (init : μ) (watch : μ → σ → ι → μ) : Bus (σ × μ) ι α ω η where
  device := B.device.monitored init watch
  write := B.write
  read := B.read
  idle := B.idle
  rdata s i := B.rdata s.1 i

theorem wait_monitored (cycles : List η) :
    ((B.monitored init watch).wait s cycles).1 = B.wait s.1 cycles := by
  induction cycles generalizing s with
  | nil => rfl
  | cons e cycles ih => exact ih

/-- A program cannot tell that it is watched. -/
theorem run_monitored (gap : ℕ → List η) (p : Prog α ω β) (k : ℕ) :
    ((B.monitored init watch).run gap p k s).value = (B.run gap p k s.1).value ∧
      ((B.monitored init watch).run gap p k s).state.1 = (B.run gap p k s.1).state ∧
      ((B.monitored init watch).run gap p k s).next = (B.run gap p k s.1).next := by
  induction p generalizing k s with
  | pure value => exact ⟨rfl, rfl, rfl⟩
  | write addr data next ih =>
      rw [run, run, ← wait_monitored]
      exact ih (k + 1)
  | read addr next ih =>
      rw [run, run, ← wait_monitored]
      exact ih _ (k + 1)

end Monitored

end Bus

end Clocked
