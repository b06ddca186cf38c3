import Mathlib.Logic.Function.Basic
import BlindSig.ClockedProgram

set_option autoImplicit false

/- A program and the cycles of a bus: which accesses a stretch of cycles makes,
when they are those of a program, and what a program sees of one part of a
larger device. -/
namespace Clocked

variable {σ σ' ι ι' α α' ω η η' β γ : Type}

inductive Event (α ω : Type) where
  | wrote (addr : α) (data : ω)
  | got (addr : α) (data : ω)
deriving DecidableEq

/-- What the bus does in one cycle. -/
inductive Cycle (α ω η : Type) where
  | write (addr : α) (data : ω)
  | read (addr : α)
  | idle (e : η)

namespace Prog

/-- The same program with its addresses placed elsewhere. -/
def mapAddr (place : α → α') : Prog α ω β → Prog α' ω β
  | .pure value => .pure value
  | .write addr data next => .write (place addr) data (next.mapAddr place)
  | .read addr next => .read (place addr) fun data => (next data).mapAddr place

section Follow

variable [DecidableEq α] [DecidableEq ω]

/-- What is left of a program after the given accesses, if they are its first ones. -/
def follow : Prog α ω β → List (Event α ω) → Option (Prog α ω β)
  | p, [] => some p
  | .write addr data next, .wrote addr' data' :: events =>
      if addr = addr' ∧ data = data' then next.follow events else none
  | .read addr next, .got addr' data :: events =>
      if addr = addr' then (next data).follow events else none
  | _, _ :: _ => none

theorem follow_nil (p : Prog α ω β) : p.follow [] = some p := by
  cases p <;> rfl

theorem follow_append (p : Prog α ω β) (first second : List (Event α ω)) :
    p.follow (first ++ second) = (p.follow first).bind (·.follow second) := by
  induction first generalizing p with
  | nil => rw [List.nil_append, follow_nil, Option.bind_some]
  | cons event events ih =>
      cases p with
      | pure value => cases event <;> rfl
      | write addr data next =>
          cases event with
          | wrote addr' data' =>
              rw [List.cons_append, follow, follow]
              split
              · exact ih next
              · rfl
          | got addr' data' => rfl
      | read addr next =>
          cases event with
          | wrote addr' data' => rfl
          | got addr' data' =>
              rw [List.cons_append, follow, follow]
              split
              · exact ih (next data')
              · rfl

theorem follow_bind {p q : Prog α ω β} {f : β → Prog α ω γ} {events : List (Event α ω)}
    (follows : p.follow events = some q) : (p >>= f).follow events = some (q >>= f) := by
  induction events generalizing p with
  | nil =>
      rw [follow_nil, Option.some.injEq] at follows
      rw [follow_nil, follows]
  | cons event events ih =>
      cases p with
      | pure value => cases event <;> cases follows
      | write addr data next =>
          cases event with
          | wrote addr' data' =>
              rw [follow] at follows
              change (if addr = addr' ∧ data = data' then (next >>= f).follow events else none) = _
              split at follows
              · rename_i same
                rw [if_pos same]
                exact ih follows
              · cases follows
          | got addr' data' => cases follows
      | read addr next =>
          cases event with
          | wrote addr' data' => cases follows
          | got addr' data' =>
              rw [follow] at follows
              change (if addr = addr' then (next data' >>= f).follow events else none) = _
              split at follows
              · rename_i same
                rw [if_pos same]
                exact ih follows
              · cases follows

theorem follow_wrote {p q : Prog α ω β} {addr : α} {data : ω} {events : List (Event α ω)}
    (follows : p.follow (.wrote addr data :: events) = some q) :
    ∃ next, p = .write addr data next ∧ next.follow events = some q := by
  cases p with
  | pure value => cases follows
  | read addr' next => cases follows
  | write addr' data' next =>
      rw [follow] at follows
      split at follows
      · rename_i same
        exact ⟨next, by rw [same.1, same.2], follows⟩
      · cases follows

theorem follow_got {p q : Prog α ω β} {addr : α} {data : ω} {events : List (Event α ω)}
    (follows : p.follow (.got addr data :: events) = some q) :
    ∃ next, p = .read addr next ∧ (next data).follow events = some q := by
  cases p with
  | pure value => cases follows
  | write addr' data' next => cases follows
  | read addr' next =>
      rw [follow] at follows
      split at follows
      · rename_i same
        exact ⟨next, by rw [same], follows⟩
      · cases follows

end Follow

end Prog

namespace Bus

variable (B : Bus σ ι α ω η)

def pins : Cycle α ω η → ι
  | .write addr data => B.write addr data
  | .read addr => B.read addr
  | .idle e => B.idle e

/-- The access a cycle makes in the state `s`. -/
def event (s : σ) : Cycle α ω η → Option (Event α ω)
  | .write addr data => some (.wrote addr data)
  | .read addr => some (.got addr (B.rdata s (B.read addr)))
  | .idle _ => none

def play (s : σ) (cycles : List (Cycle α ω η)) : σ :=
  cycles.foldl (fun s c => B.device.edge s (B.pins c)) s

/-- The accesses of a stretch of cycles, in order. -/
def events : σ → List (Cycle α ω η) → List (Event α ω)
  | _, [] => []
  | s, c :: cycles => (B.event s c).toList ++ events (B.device.edge s (B.pins c)) cycles

theorem play_append (s : σ) (first second : List (Cycle α ω η)) :
    B.play s (first ++ second) = B.play (B.play s first) second :=
  List.foldl_append

theorem events_append (s : σ) (first second : List (Cycle α ω η)) :
    B.events s (first ++ second) = B.events s first ++ B.events (B.play s first) second := by
  induction first generalizing s with
  | nil => rfl
  | cons c cycles ih =>
      rw [List.cons_append, events, events, ih, List.append_assoc]
      rfl

/-- The gaps before access number `k` are not looked at again. -/
theorem run_congr_gap {gap gap' : ℕ → List η} (p : Prog α ω β) (k : ℕ) (s : σ)
    (same : ∀ j, k ≤ j → gap j = gap' j) : B.run gap p k s = B.run gap' p k s := by
  induction p generalizing k s with
  | pure value => rfl
  | write addr data next ih =>
      rw [run, run, same k (Nat.le_refl k)]
      exact ih (k + 1) _ fun j later => same j (by omega)
  | read addr next ih =>
      rw [run, run, same k (Nat.le_refl k)]
      exact ih _ (k + 1) _ fun j later => same j (by omega)

/-- A cycle of idling before a program belongs to its first gap. -/
theorem run_idle (gap : ℕ → List η) (p : Prog α ω β) (k : ℕ) (s : σ) (e : η)
    (unfinished : ∀ value, p ≠ .pure value) :
    B.run (Function.update gap k (e :: gap k)) p k s =
      B.run gap p k (B.device.edge s (B.idle e)) := by
  have later : ∀ j, k + 1 ≤ j → Function.update gap k (e :: gap k) j = gap j :=
    fun j after => Function.update_of_ne (by omega) _ _
  cases p with
  | pure value => exact absurd rfl (unfinished value)
  | write addr data next =>
      rw [run, run, Function.update_self, B.run_congr_gap next (k + 1) _ later]
      rfl
  | read addr next =>
      simp only [run, Function.update_self, wait, List.foldl_cons]
      exact B.run_congr_gap _ (k + 1) _ later

/-- Cycles that make the accesses of a program are one of its runs, and what
comes after its last access is idle. -/
theorem run_of_follow [DecidableEq α] [DecidableEq ω] {value : β} (cycles : List (Cycle α ω η))
    (p : Prog α ω β) (k : ℕ) (s : σ) (follows : p.follow (B.events s cycles) = some (.pure value)) :
    ∃ gap idles, (B.run gap p k s).value = value ∧
      B.play s cycles = B.wait (B.run gap p k s).state idles := by
  induction cycles generalizing p k s with
  | nil =>
      rw [events, Prog.follow_nil, Option.some.injEq] at follows
      subst follows
      exact ⟨fun _ => [], [], rfl, rfl⟩
  | cons c cycles ih =>
      cases c with
      | idle e =>
          obtain ⟨gap, idles, result, final⟩ := ih p k (B.device.edge s (B.idle e)) follows
          cases p with
          | pure other => exact ⟨gap, e :: idles, result, final⟩
          | write addr data next =>
              refine ⟨Function.update gap k (e :: gap k), idles, ?_⟩
              rw [B.run_idle gap _ k s e (by simp)]
              exact ⟨result, final⟩
          | read addr next =>
              refine ⟨Function.update gap k (e :: gap k), idles, ?_⟩
              rw [B.run_idle gap _ k s e (by simp)]
              exact ⟨result, final⟩
      | write addr data =>
          obtain ⟨next, rfl, rest⟩ := Prog.follow_wrote follows
          obtain ⟨gap, idles, result, final⟩ := ih next (k + 1) _ rest
          refine ⟨Function.update gap k [], idles, ?_⟩
          have later : ∀ j, k + 1 ≤ j → Function.update gap k [] j = gap j :=
            fun j after => Function.update_of_ne (by omega) _ _
          rw [run, Function.update_self, B.run_congr_gap next (k + 1) _ later]
          exact ⟨result, final⟩
      | read addr =>
          obtain ⟨next, rfl, rest⟩ := Prog.follow_got follows
          obtain ⟨gap, idles, result, final⟩ := ih _ (k + 1) _ rest
          refine ⟨Function.update gap k [], idles, ?_⟩
          have later : ∀ j, k + 1 ≤ j → Function.update gap k [] j = gap j :=
            fun j after => Function.update_of_ne (by omega) _ _
          simp only [run, Function.update_self]
          rw [B.run_congr_gap _ (k + 1) _ later]
          exact ⟨result, final⟩

/-- A program can always be brought to its end. -/
theorem exists_finish [DecidableEq α] [DecidableEq ω] (p : Prog α ω β) (s : σ) :
    ∃ (cycles : List (Cycle α ω η)) (value : β),
      p.follow (B.events s cycles) = some (.pure value) := by
  induction p generalizing s with
  | pure value => exact ⟨[], value, rfl⟩
  | write addr data next ih =>
      obtain ⟨cycles, value, follows⟩ := ih (B.device.edge s (B.write addr data))
      refine ⟨.write addr data :: cycles, value, ?_⟩
      change (if addr = addr ∧ data = data then _ else none) = _
      rw [if_pos ⟨rfl, rfl⟩]
      exact follows
  | read addr next ih =>
      obtain ⟨cycles, value, follows⟩ := ih (B.rdata s (B.read addr))
        (B.device.edge s (B.read addr))
      refine ⟨.read addr :: cycles, value, ?_⟩
      change (if addr = addr then _ else none) = _
      rw [if_pos rfl]
      exact follows

variable {B} {P : σ → Prop} {Q : β → σ → Prop}

/-- What a triple promises holds from the program's last access on. -/
theorem Triple.of_follow [DecidableEq α] [DecidableEq ω] {p : Prog α ω β}
    (triple : B.Triple P p Q) (stable : ∀ value, B.Stable (Q value)) {s : σ} (start : P s)
    {cycles : List (Cycle α ω η)} {value : β}
    (follows : p.follow (B.events s cycles) = some (.pure value)) :
    Q value (B.play s cycles) := by
  obtain ⟨gap, idles, result, final⟩ := B.run_of_follow cycles p 0 s follows
  have ended := triple gap 0 s start
  rw [result] at ended
  rw [final]
  exact (stable value).wait ended idles

/-- Before that, it holds of some way to go on. -/
theorem Triple.of_prefix [DecidableEq α] [DecidableEq ω] {p q : Prog α ω β}
    (triple : B.Triple P p Q) (stable : ∀ value, B.Stable (Q value)) {s : σ} (start : P s)
    {cycles : List (Cycle α ω η)} (follows : p.follow (B.events s cycles) = some q) :
    ∃ (more : List (Cycle α ω η)) (value : β), Q value (B.play (B.play s cycles) more) := by
  obtain ⟨more, value, finishes⟩ := B.exists_finish q (B.play s cycles)
  refine ⟨more, value, ?_⟩
  rw [← B.play_append]
  apply triple.of_follow stable start
  rw [B.events_append, Prog.follow_append, follows, Option.bind_some]
  exact finishes

/-- The device `B` is the part `view` of the device `B'`, reached at the placed
addresses and undisturbed by the idle cycles. -/
structure Part (B' : Bus σ' ι' α' ω η') (B : Bus σ ι α ω η) (view : σ' → σ) (place : α → α')
    (rest : η' → η) : Prop where
  write : ∀ s addr data, view (B'.device.edge s (B'.write (place addr) data)) =
    B.device.edge (view s) (B.write addr data)
  read : ∀ s addr, view (B'.device.edge s (B'.read (place addr))) =
    B.device.edge (view s) (B.read addr)
  rdata : ∀ s addr, B'.rdata s (B'.read (place addr)) = B.rdata (view s) (B.read addr)
  idle : ∀ s e, view (B'.device.edge s (B'.idle e)) = B.device.edge (view s) (B.idle (rest e))

variable {B' : Bus σ' ι' α' ω η'} {view : σ' → σ} {place : α → α'} {rest : η' → η}

theorem Part.wait (part : Part B' B view place rest) (s : σ') (idles : List η') :
    view (B'.wait s idles) = B.wait (view s) (idles.map rest) := by
  induction idles generalizing s with
  | nil => rfl
  | cons e idles ih =>
      change view (B'.wait (B'.device.edge s (B'.idle e)) idles) = _
      rw [ih, part.idle]
      rfl

/-- A program on a part runs as on the part alone. -/
theorem Part.run (part : Part B' B view place rest) (gap : ℕ → List η') (p : Prog α ω β) (k : ℕ)
    (s : σ') :
    (B'.run gap (p.mapAddr place) k s).value =
        (B.run (fun j => (gap j).map rest) p k (view s)).value ∧
      view (B'.run gap (p.mapAddr place) k s).state =
        (B.run (fun j => (gap j).map rest) p k (view s)).state := by
  induction p generalizing k s with
  | pure value => exact ⟨rfl, rfl⟩
  | write addr data next ih =>
      have now := ih (k + 1) (B'.device.edge (B'.wait s (gap k)) (B'.write (place addr) data))
      rw [part.write, part.wait] at now
      exact now
  | read addr next ih =>
      have now := ih (B'.rdata (B'.wait s (gap k)) (B'.read (place addr))) (k + 1)
        (B'.device.edge (B'.wait s (gap k)) (B'.read (place addr)))
      rw [part.read, part.rdata, part.wait] at now
      simp only [Prog.mapAddr, Bus.run, part.rdata, part.wait]
      exact now

/-- What neither the accesses to a part nor the idle cycles touch survives a
program on that part. -/
theorem run_frame {F : σ' → Prop} (gap : ℕ → List η') (p : Prog α ω β) (k : ℕ) (s : σ')
    (stable : B'.Stable F)
    (write : ∀ s addr data, F s → F (B'.device.edge s (B'.write (place addr) data)))
    (read : ∀ s addr, F s → F (B'.device.edge s (B'.read (place addr)))) (start : F s) :
    F (B'.run gap (p.mapAddr place) k s).state := by
  induction p generalizing k s with
  | pure value => exact start
  | write addr data next ih => exact ih (k + 1) _ (write _ addr data (stable.wait start (gap k)))
  | read addr next ih => exact ih _ (k + 1) _ (read _ addr (stable.wait start (gap k)))

/-- A triple about a part, in the whole device. -/
theorem Part.triple (part : Part B' B view place rest) {p : Prog α ω β} {F : σ' → Prop}
    (triple : B.Triple P p Q) (stable : B'.Stable F)
    (write : ∀ s addr data, F s → F (B'.device.edge s (B'.write (place addr) data)))
    (read : ∀ s addr, F s → F (B'.device.edge s (B'.read (place addr)))) :
    B'.Triple (fun s => P (view s) ∧ F s) (p.mapAddr place) fun value s => Q value (view s) ∧ F s := by
  rintro gap k s ⟨now, frame⟩
  obtain ⟨value, state⟩ := part.run gap p k s
  have result := triple (fun j => (gap j).map rest) k (view s) now
  rw [← value, ← state] at result
  exact ⟨result, run_frame gap p k s stable write read frame⟩

end Bus

end Clocked
