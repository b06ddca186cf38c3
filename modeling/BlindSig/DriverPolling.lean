import BlindSig.AccelBusy
import BlindSig.DriverCompute

set_option autoImplicit false

namespace BlindSig.Driver

open Clocked Accel

/-- In working order, and BUSY, if up, for at most `n` more edges. -/
def BusyWithin (n : ℕ) (s : State) : Prop := Control s ∧ (s.flagBusy = true → s.rank ≤ n)

variable {s : State} {i : Pins} {n : ℕ}

/-- Without a write BUSY is never raised, and its end draws nearer. -/
theorem busyWithin_edge (within : BusyWithin n s) (released : i.rstN = true)
    (silent : i.wen = false) : BusyWithin (n - 1) (s.edge i) := by
  obtain ⟨control, bound⟩ := within
  refine ⟨control_edge control i, fun still => ?_⟩
  have busy : s.flagBusy = true := by
    have raised := still
    rw [edge_flagBusy released, command_quiet silent, Bool.and_eq_true] at raised
    exact raised.2
  have less := control.rank_edge busy still
  have now := bound busy
  omega

theorem stable_busyWithin : bus.Stable (BusyWithin n) := by
  apply stable_of_quiet
  intro s i within released silent
  obtain ⟨control, bound⟩ := busyWithin_edge within released silent
  refine ⟨control, fun busy => ?_⟩
  have now := bound busy
  omega

theorem triple_wait_returns {polls : ℕ} (enough : n < polls) :
    bus.Triple (BusyWithin n) (waitAndReadResult polls) fun outcome _ => ∃ r, outcome = some r := by
  induction polls generalizing n with
  | zero => omega
  | succ polls ih =>
      refine Bus.triple_bind
        (Q := fun busy s => busy = true → 0 < n ∧ BusyWithin (n - 1) s)
        (triple_isBusy stable_busyWithin ?_) ?_
      · intro s within busy
        have positive := within.1.rank_positive busy
        have bound := within.2 busy
        exact ⟨by omega, busyWithin_edge within rfl rfl⟩
      · rintro (_ | _)
        · refine Bus.triple_bind (Q := fun _ _ => True) (fun _ _ _ _ => trivial) fun r => ?_
          exact Bus.triple_pure fun s _ => ⟨r, rfl⟩
        · intro gap k s now
          obtain ⟨positive, within⟩ := now rfl
          exact ih (n := n - 1) (by omega) gap k s within

/-- BUSY is never up for 69 cycles in a row, whatever the bus does, and the
polling loop returns from every reachable state. -/
theorem polling_returns :
    (∀ ins n, ∃ k < 69, (shown ins (n + k)).flagBusy = false) ∧
      ∀ s, machine.Reachable s → ∀ polls, 69 ≤ polls → ∀ gap k,
        ∃ outcome, (bus.run gap (waitAndReadResult polls) k s).value = some outcome := by
  constructor
  · intro ins n
    have reached : machine.Reachable (machine.trace .reset ins n) :=
      Machine.Reachable.reset.trace ins n
    obtain ⟨k, within, idle⟩ := busy_falls reached fun k => ins (n + k)
    refine ⟨k, within, ?_⟩
    rw [← Machine.trace_add] at idle
    unfold shown State.settle
    split
    · exact idle
    · rfl
  · intro s reached polls enough gap k
    have control := Control.of_reachable reached
    have within : BusyWithin 68 s := ⟨control, fun _ => control.rank_le⟩
    exact triple_wait_returns enough gap k s within

/-- After the documented sequence the 69th poll at the latest ends the loop. -/
theorem polling_returns_seven : ∃ outcome, (bus.run (fun _ => []) (waitAndReadResult 69) 0
    (machine.trace .reset (script [busWrite addrCtrl 8, busWrite addrModulus 7,
      busWrite addrCtrl 4, busWrite addrOperand 10, busWrite addrCtrl 1]) 5)).value =
    some outcome :=
  polling_returns.2 _ (Machine.Reachable.reset.trace _ 5) 69 (Nat.le_refl 69) _ 0

end BlindSig.Driver
