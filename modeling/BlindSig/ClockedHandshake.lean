import BlindSig.ClockedMachine

set_option autoImplicit false

/- A valid/ready handshake whose responder acknowledges every request in its
second cycle. Streams are indexed by the cycle. -/
namespace Clocked.Handshake

variable {π β : Type*}

structure Request (π : Type*) where
  valid : Bool
  payload : π

/-- A request stays up, unchanged, until the cycle that acknowledges it. -/
def Holds (reqs : ℕ → Request π) (ready : ℕ → Bool) : Prop :=
  ∀ n, (reqs n).valid = true → ready n = false → reqs (n + 1) = reqs n

/-- One flip-flop that is set by a request it has not acknowledged yet. -/
structure Answers (reqs : ℕ → Request π) (ready : ℕ → Bool) : Prop where
  init : ready 0 = false
  step : ∀ n, ready (n + 1) = ((reqs n).valid && !ready n)

/-- The first cycle of a transaction: a request is up, and the cycle before was
idle or acknowledged the transaction before. -/
def opens (reqs : ℕ → Request π) (ready : ℕ → Bool) : ℕ → Bool
  | 0 => (reqs 0).valid
  | n + 1 => (reqs (n + 1)).valid && !((reqs n).valid && !ready n)

/-- What a strobe lets through in the first `n` cycles, in order. -/
def record (strobe : ℕ → Bool) (data : ℕ → β) (n : ℕ) : List β :=
  (List.range n).filterMap fun k => if strobe k then some (data k) else none

/-- The transactions opened in the first `n` cycles, in order. -/
def transactions (reqs : ℕ → Request π) (ready : ℕ → Bool) (n : ℕ) : List π :=
  record (opens reqs ready) (fun k => (reqs k).payload) n

/-- `value` is what the last transaction before cycle `n` that `pick` selects
brings, or `init`. -/
def LastPick (reqs : ℕ → Request π) (ready : ℕ → Bool) (pick : π → Option β) (init : β) (n : ℕ)
    (value : β) : Prop :=
  (∃ m < n, opens reqs ready m = true ∧ pick (reqs m).payload = some value ∧
    ∀ k, m < k → k < n → opens reqs ready k = true → pick (reqs k).payload = none) ∨
  (value = init ∧ ∀ k < n, opens reqs ready k = true → pick (reqs k).payload = none)

variable {reqs : ℕ → Request π} {ready : ℕ → Bool} {n : ℕ}

/-- A cycle that does not open a transaction of interest changes nothing. -/
theorem LastPick.keep {pick : π → Option β} {init value : β}
    (last : LastPick reqs ready pick init n value)
    (other : opens reqs ready n = true → pick (reqs n).payload = none) :
    LastPick reqs ready pick init (n + 1) value := by
  have now : ∀ k, k < n + 1 → (k < n → opens reqs ready k = true → pick (reqs k).payload = none) →
      opens reqs ready k = true → pick (reqs k).payload = none := by
    intro k before earlier
    rcases Nat.lt_or_eq_of_le (Nat.le_of_lt_succ before) with inside | same
    · exact earlier inside
    · rw [same]
      exact other
  rcases last with ⟨m, before, opened, picked, fresh⟩ | ⟨blank, fresh⟩
  · exact Or.inl ⟨m, by omega, opened, picked, fun k after below =>
      now k below (fresh k after)⟩
  · exact Or.inr ⟨blank, fun k below => now k below (fresh k)⟩

theorem record_succ (strobe : ℕ → Bool) (data : ℕ → β) (n : ℕ) :
    record strobe data (n + 1) =
      record strobe data n ++ if strobe n then [data n] else [] := by
  unfold record
  rw [List.range_succ, List.filterMap_append]
  congr 1
  cases fired : strobe n <;> simp [fired]

/-- A strobe that fires once for each transaction it selects lets exactly those
through, in their order. -/
theorem record_of_opens {strobe : ℕ → Bool} {data : ℕ → β} {selects : π → Bool} {view : π → β}
    (fires : ∀ k, strobe k = (opens reqs ready k && selects (reqs k).payload))
    (shows : ∀ k, data k = view (reqs k).payload) (n : ℕ) :
    record strobe data n = ((transactions reqs ready n).filter selects).map view := by
  induction n with
  | zero => rfl
  | succ n ih =>
      have now := fires n
      rw [transactions, record_succ, record_succ, List.filter_append, List.map_append, ih, shows n]
      congr 1
      cases opened : opens reqs ready n with
      | false =>
          rw [opened, Bool.false_and] at now
          rw [now]
          rfl
      | true =>
          rw [opened, Bool.true_and] at now
          rw [now]
          cases selected : selects (reqs n).payload <;> simp [selected]

section Responder

variable (answers : Answers reqs ready)

include answers

/-- The responder knows the first cycle of a transaction without having seen
where the last one ended. -/
theorem opens_eq (n : ℕ) : opens reqs ready n = ((reqs n).valid && !ready n) := by
  cases n with
  | zero => rw [opens, answers.init, Bool.not_false, Bool.and_true]
  | succ n => rw [opens, answers.step n]

theorem ready_succ (n : ℕ) : ready (n + 1) = opens reqs ready n := by
  rw [answers.step, opens_eq answers]

theorem ready_of_opens (opened : opens reqs ready n = true) : ready n = false := by
  rw [opens_eq answers, Bool.and_eq_true, Bool.not_eq_true'] at opened
  exact opened.2

/-- The second cycle is the last one. -/
theorem opens_succ (opened : opens reqs ready n = true) : opens reqs ready (n + 1) = false := by
  rw [opens_eq answers, ready_succ answers, opened, Bool.not_true, Bool.and_false]

theorem Holds.second (holds : Holds reqs ready) (opened : opens reqs ready n = true) :
    reqs (n + 1) = reqs n := by
  have waiting := ready_of_opens answers opened
  rw [opens_eq answers, Bool.and_eq_true] at opened
  exact holds n opened.1 waiting

/-- A request that opens nothing repeats the one of the cycle before. -/
theorem Holds.first (holds : Holds reqs ready) (valid : (reqs n).valid = true)
    (later : opens reqs ready n = false) :
    ∃ m, n = m + 1 ∧ opens reqs ready m = true ∧ reqs n = reqs m := by
  rw [opens_eq answers, valid, Bool.true_and, Bool.not_eq_false'] at later
  cases n with
  | zero => rw [answers.init] at later; cases later
  | succ m =>
      have opened : opens reqs ready m = true := by rw [← ready_succ answers, later]
      exact ⟨m, rfl, opened, holds.second answers opened⟩

/-- A register that both cycles of a transaction write holds what the last
transaction has brought. -/
theorem Holds.last_pick (holds : Holds reqs ready) {pick : π → Option β} {init : β} {reg : ℕ → β}
    (first : reg 0 = init)
    (writes : ∀ n, reg (n + 1) =
      if (reqs n).valid then (pick (reqs n).payload).getD (reg n) else reg n) (n : ℕ) :
    LastPick reqs ready pick init n (reg n) := by
  induction n with
  | zero => exact Or.inr ⟨first, fun k before => absurd before (Nat.not_lt_zero k)⟩
  | succ n ih =>
      cases opened : opens reqs ready n with
      | true =>
          have valid : (reqs n).valid = true := by
            rw [opens_eq answers, Bool.and_eq_true] at opened
            exact opened.1
          rw [writes, if_pos valid]
          cases picked : pick (reqs n).payload with
          | none => exact ih.keep fun _ => picked
          | some value =>
              exact Or.inl ⟨n, Nat.lt_succ_self n, opened, picked, fun k after below => by omega⟩
      | false =>
          have same : reg (n + 1) = reg n := by
            rw [writes]
            cases valid : (reqs n).valid with
            | false => rfl
            | true =>
                obtain ⟨m, rfl, opened', repeats⟩ := holds.first answers valid opened
                have valid' : (reqs m).valid = true := repeats ▸ valid
                rw [repeats, if_pos rfl, writes m, if_pos valid']
                cases pick (reqs m).payload <;> rfl
          rw [same]
          exact ih.keep fun now => by rw [opened] at now; cases now

end Responder

end Clocked.Handshake
