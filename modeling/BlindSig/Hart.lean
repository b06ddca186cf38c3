import BlindSig.Accel
import BlindSig.ClockedSchedule
import BlindSig.Rv32i

set_option autoImplicit false

/- The machine that a program for the SoC sees: RV32I over 16 KB of memory, and
devices behind single accesses. -/
namespace BlindSig.Hart

open Clocked Rv32i

/-- The registers, the memory, and the word fetched for the address `pc`. -/
structure State where
  pc : Word
  regs : Regs
  mem : Bytes 14
  fetched : Word

def inRam (a : Word) : Prop := a.extractLsb' 28 4 = 0

def inDevices (a : Word) : Prop := a.extractLsb' 28 4 = 1 ∨ a.extractLsb' 28 4 = 2

instance (a : Word) : Decidable (inRam a) := inferInstanceAs (Decidable (_ = _))

instance (a : Word) : Decidable (inDevices a) := inferInstanceAs (Decidable (_ ∨ _))

/-- The memory repeats itself within its region. -/
def ramAddr (a : Word) : BitVec 14 := a.extractLsb' 0 14

/-- Devices are reached in whole words. -/
def wordAddr (a : Word) : Word := a.extractLsb' 2 30 ++ 0#2

/-- The bytes that an access finds in the word of a device. -/
def fromWord (size : Size) (a word : Word) : Word :=
  ((word >>> (8 * (a.toNat % 4))).setWidth (8 * size.bytes)).setWidth 32

/-- A device gets the stored bytes on all lanes of the word. -/
def toWord (size : Size) (data : Word) : Word :=
  match size with
  | .word => data
  | .half => data.setWidth 16 ++ data.setWidth 16
  | .byte => data.setWidth 8 ++ data.setWidth 8 ++ data.setWidth 8 ++ data.setWidth 8

/-- An instruction can be carried out at this address. The core reads the word after
it ahead, so the last word of the region is left out: it would read a device there. -/
def Fetchable (pc : Word) : Prop := inRam pc ∧ inRam (pc + 4) ∧ Size.word.aligned pc

instance (pc : Word) : Decidable (Fetchable pc) := inferInstanceAs (Decidable (_ ∧ _))

/-- On to the instruction at `pc`. It is fetched before the memory changes, so a
store to the very next instruction comes too late for it. -/
def State.goto (s : State) (pc : Word) (regs : Regs) (mem : Bytes 14) : Option State :=
  if Fetchable pc then some ⟨pc, regs, mem, s.mem.word (ramAddr pc)⟩ else none

/-- What the core makes of an instruction. The instruction set has a FENCE ignore the
register that it names; the core writes an unknown value to it. -/
def coreEffect (i : Instr) (pc : Word) (regs : Regs) (unknown : Word) : Effect :=
  match i with
  | .fence rd => .write rd unknown (pc + 4)
  | _ => i.effect pc regs

/-- What an instruction does, if it stays within the map and is aligned; `answer`
is what a device returns. -/
def State.perform (s : State) (e : Effect) (answer : Word) :
    Option (List (Event (BitVec 32) Word) × State) :=
  match e with
  | .write rd value next => (s.goto next (s.regs.write rd value) s.mem).map ([], ·)
  | .load op rd addr =>
      if ¬op.size.aligned addr then none
      else if inRam addr then
        let value := op.extend (s.mem.load op.size (ramAddr addr))
        (s.goto (s.pc + 4) (s.regs.write rd value) s.mem).map ([], ·)
      else if inDevices addr then
        let value := op.extend (fromWord op.size addr answer)
        (s.goto (s.pc + 4) (s.regs.write rd value) s.mem).map ([.got (wordAddr addr) answer], ·)
      else none
  | .store size addr data =>
      if ¬size.aligned addr then none
      else if inRam addr then
        (s.goto (s.pc + 4) s.regs (s.mem.store size (ramAddr addr) data)).map ([], ·)
      else if inDevices addr then
        (s.goto (s.pc + 4) s.regs s.mem).map ([.wrote (wordAddr addr) (toWord size data)], ·)
      else none

/-- One instruction and the device access it makes; `answer` is all that the program
does not determine. -/
def State.step (s : State) (answer : Word) : Option (List (Event (BitVec 32) Word) × State) :=
  match decode s.fetched with
  | none => none
  | some i => s.perform (coreEffect i s.pc s.regs answer) answer

/-- The last multiple of the size up to an address. -/
def alignDown (size : Size) (a : Word) : Word := BitVec.ofNat 32 (a.toNat / size.bytes * size.bytes)

/-- What has been done when an illegal instruction, or a misaligned jump or access,
ends the program: the jump has written its register, and the access is made all the
same, only that a load writes no register and the bytes are those of the aligned
address below. -/
def State.fault (s : State) (answer : Word) :
    Option (List (Event (BitVec 32) Word) × Regs × Bytes 14) :=
  match decode s.fetched with
  | none => some ([], s.regs, s.mem)
  | some i =>
      match i.effect s.pc s.regs with
      | .write rd value next =>
          if Size.word.aligned next then none
          else if inRam next then some ([], s.regs.write rd value, s.mem)
          else none
      | .load op _ addr =>
          if op.size.aligned addr then none
          else if inRam addr then some ([], s.regs, s.mem)
          else if inDevices addr then some ([.got (wordAddr addr) answer], s.regs, s.mem)
          else none
      | .store size addr data =>
          if size.aligned addr then none
          else if inRam addr then
            some ([], s.regs, s.mem.store size (ramAddr (alignDown size addr)) data)
          else if inDevices addr then
            some ([.wrote (wordAddr addr) (toWord size data)], s.regs, s.mem)
          else none

def State.Faults (s : State) : Prop := ∃ answer, s.fault answer ≠ none

/-- Where the processor begins, with the stack at the end of the memory `M`. -/
def boot (M : Bytes 14) : State := ⟨0, Regs.write (fun _ => 0) 2 0x4000, M, M.word 0⟩

/-- `k` instructions and the device accesses they make. -/
inductive Run : State → ℕ → List (Event (BitVec 32) Word) → State → Prop
  | start (s : State) : Run s 0 [] s
  | next {s t u : State} {k : ℕ} {before now : List (Event (BitVec 32) Word)}
      (earlier : Run s k before t) (answer : Word) (step : t.step answer = some (now, u)) :
      Run s (k + 1) (before ++ now) u

/-- Nothing lets the program go on. -/
def State.Stuck (s : State) : Prop := ∀ answer, s.step answer = none

/-- The first instruction of a run, where all its answers lead to the same. -/
theorem Run.head {s s' u : State} {j : ℕ} {events now : List (Event (BitVec 32) Word)}
    (step : ∀ answer, s.step answer = some (now, s')) (run : Run s j events u) :
    (j = 0 ∧ events = [] ∧ u = s) ∨
      ∃ k later, j = k + 1 ∧ events = now ++ later ∧ Run s' k later u := by
  induction run with
  | start => exact Or.inl ⟨rfl, rfl, rfl⟩
  | next earlier answer goes ih =>
      refine Or.inr ?_
      rcases ih with ⟨rfl, rfl, rfl⟩ | ⟨k, later, rfl, rfl, run⟩
      · rw [step] at goes
        cases goes
        exact ⟨0, [], rfl, (List.append_nil _).symm, .start _⟩
      · exact ⟨k + 1, _, rfl, List.append_assoc _ _ _, .next run answer goes⟩

/-- A run of `n` instructions, or to where it gets stuck, makes that step. -/
theorem Run.goes {s s' u : State} {j n : ℕ} {events now : List (Event (BitVec 32) Word)}
    (step : ∀ answer, s.step answer = some (now, s')) (run : Run s j events u)
    (ended : j = n + 1 ∨ u.Stuck) :
    ∃ k later, j = k + 1 ∧ events = now ++ later ∧ Run s' k later u ∧ (k = n ∨ u.Stuck) := by
  rcases run.head step with ⟨rfl, -, rfl⟩ | ⟨k, later, rfl, made, rest⟩
  · rcases ended with more | stuck
    · cases more
    · have none := stuck 0
      rw [step] at none
      cases none
  · exact ⟨k, later, rfl, made, rest, ended.imp_left Nat.succ.inj⟩

section Fault

variable {s : State} {i : Instr} {answer : Word}

theorem fault_write {r : Reg} {value target : Word} (decoded : decode s.fetched = some i)
    (effect : i.effect s.pc s.regs = .write r value target) (odd : ¬Size.word.aligned target)
    (ram : inRam target) : s.fault answer = some ([], s.regs.write r value, s.mem) := by
  simp only [State.fault, decoded, effect]
  rw [if_neg odd, if_pos ram]

theorem fault_load {op : Load} {r : Reg} {addr : Word} (decoded : decode s.fetched = some i)
    (effect : i.effect s.pc s.regs = .load op r addr) (odd : ¬op.size.aligned addr)
    (region : inRam addr ∨ inDevices addr) :
    s.fault answer =
      some (if inRam addr then [] else [.got (wordAddr addr) answer], s.regs, s.mem) := by
  simp only [State.fault, decoded, effect]
  rw [if_neg odd]
  by_cases ram : inRam addr
  · rw [if_pos ram, if_pos ram]
  · rw [if_neg ram, if_neg ram, if_pos (region.resolve_left ram)]

theorem fault_store {size : Size} {addr data : Word} (decoded : decode s.fetched = some i)
    (effect : i.effect s.pc s.regs = .store size addr data) (odd : ¬size.aligned addr)
    (region : inRam addr ∨ inDevices addr) :
    s.fault answer =
      some (if inRam addr then [] else [.wrote (wordAddr addr) (toWord size data)], s.regs,
        if inRam addr then s.mem.store size (ramAddr (alignDown size addr)) data else s.mem) := by
  simp only [State.fault, decoded, effect]
  rw [if_neg odd]
  by_cases ram : inRam addr
  · rw [if_pos ram, if_pos ram, if_pos ram]
  · rw [if_neg ram, if_neg ram, if_neg ram, if_pos (region.resolve_left ram)]

theorem of_guarded {α : Type} {P R S : Prop} [Decidable P] [Decidable R] [Decidable S] {a b : α}
    (some : (if P then none else if R then some a else if S then some b else none) ≠ none) :
    ¬P ∧ (R ∨ S) := by
  by_cases out : P
  · exact absurd (if_pos out) some
  rw [if_neg out] at some
  by_cases first : R
  · exact ⟨out, Or.inl first⟩
  rw [if_neg first] at some
  by_cases second : S
  · exact ⟨out, Or.inr second⟩
  · exact absurd (if_neg second) some

/-- The ways to end in a fault. -/
theorem fault_cases (faults : s.Faults) : decode s.fetched = none ∨ ∃ i,
    decode s.fetched = some i ∧
      ((∃ r value target, i.effect s.pc s.regs = .write r value target ∧
          ¬Size.word.aligned target ∧ inRam target) ∨
        (∃ op r addr, i.effect s.pc s.regs = .load op r addr ∧ ¬op.size.aligned addr ∧
          (inRam addr ∨ inDevices addr)) ∨
        ∃ size addr data, i.effect s.pc s.regs = .store size addr data ∧ ¬size.aligned addr ∧
          (inRam addr ∨ inDevices addr)) := by
  obtain ⟨answer, some⟩ := faults
  unfold State.fault at some
  cases decoded : decode s.fetched with
  | none => exact Or.inl rfl
  | some i =>
      refine Or.inr ⟨i, rfl, ?_⟩
      simp only [decoded] at some
      cases effect : i.effect s.pc s.regs with
      | write r value target =>
          rw [effect] at some
          dsimp only at some
          by_cases whole : Size.word.aligned target
          · exact absurd (if_pos whole) some
          rw [if_neg whole] at some
          by_cases ram : inRam target
          · exact Or.inl ⟨r, value, target, rfl, whole, ram⟩
          · exact absurd (if_neg ram) some
      | load op r addr =>
          rw [effect] at some
          obtain ⟨odd, region⟩ := of_guarded some
          exact Or.inr (Or.inl ⟨op, r, addr, rfl, odd, region⟩)
      | store size addr data =>
          rw [effect] at some
          obtain ⟨odd, region⟩ := of_guarded some
          exact Or.inr (Or.inr ⟨size, addr, data, rfl, odd, region⟩)

end Fault

theorem goto_some {s s' : State} {pc : Word} {regs : Regs} {mem : Bytes 14} :
    s.goto pc regs mem = some s' ↔
      Fetchable pc ∧ s' = ⟨pc, regs, mem, s.mem.word (ramAddr pc)⟩ := by
  rw [State.goto]
  by_cases here : Fetchable pc
  · rw [if_pos here, Option.some.injEq, eq_comm]
    simp [here]
  · simp [here]

theorem step_decoded {s : State} {i : Instr} (decoded : decode s.fetched = some i)
    (answer : Word) :
    s.step answer = s.perform (coreEffect i s.pc s.regs answer) answer := by
  simp only [State.step, decoded]

section CoreEffect

variable {i : Instr} {pc : Word} {regs : Regs} (unknown : Word)

/-- The core goes on where the instruction set does. -/
theorem coreEffect_write {r : Reg} {value target : Word}
    (effect : i.effect pc regs = .write r value target) :
    ∃ r value, coreEffect i pc regs unknown = .write r value target := by
  cases i with
  | fence rd =>
      cases effect
      exact ⟨rd, unknown, rfl⟩
  | _ => exact ⟨r, value, effect⟩

theorem coreEffect_access {e : Effect} (effect : i.effect pc regs = e)
    (access : ∀ r value target, e ≠ .write r value target) : coreEffect i pc regs unknown = e := by
  cases i with
  | fence rd => exact absurd effect.symm (access _ _ _)
  | _ => exact effect

end CoreEffect

theorem State.Faults.stuck {s : State} (faults : s.Faults) : s.Stuck := by
  intro answer
  rcases fault_cases faults with illegal | ⟨i, decoded, ways⟩
  · rw [State.step, illegal]
  rw [step_decoded decoded]
  rcases ways with ⟨r, value, target, effect, odd, -⟩ | ⟨op, r, addr, effect, odd, -⟩ |
    ⟨size, addr, data, effect, odd, -⟩
  · obtain ⟨r, value, same⟩ := coreEffect_write answer effect
    rw [same, State.perform, State.goto, if_neg fun there => odd there.2.2]
    rfl
  · rw [coreEffect_access answer effect fun _ _ _ => Effect.noConfusion, State.perform, if_pos odd]
  · rw [coreEffect_access answer effect fun _ _ _ => Effect.noConfusion, State.perform, if_pos odd]

/-- An instruction that can be carried out. -/
theorem instr_of_alive {s : State} (alive : ¬s.Stuck) : ∃ i answer now s',
    decode s.fetched = some i ∧
      s.perform (coreEffect i s.pc s.regs answer) answer = some (now, s') ∧
      ∀ answer, s.step answer = s.perform (coreEffect i s.pc s.regs answer) answer := by
  obtain ⟨answer, goes⟩ := not_forall.mp alive
  obtain ⟨⟨now, s'⟩, step⟩ := Option.ne_none_iff_exists'.mp goes
  cases decoded : decode s.fetched with
  | none =>
      rw [State.step, decoded] at step
      cases step
  | some i =>
      rw [step_decoded decoded] at step
      exact ⟨i, answer, now, s', rfl, step, step_decoded decoded⟩

variable {β γ : Type} {Q : β → State → Prop} {p : Prog (BitVec 32) Word β} {s : State}

/-- Whatever the devices answer, from `s` on the program in the memory makes the
accesses of `p`, and ends them with `Q`. -/
inductive Performs (Q : β → State → Prop) : Prog (BitVec 32) Word β → State → Prop
  | done {value : β} {s : State} (here : Q value s) : Performs Q (.pure value) s
  | step {p : Prog (BitVec 32) Word β} {s : State} (now : Word → List (Event (BitVec 32) Word))
      (next : Word → State) (left : Word → Prog (BitVec 32) Word β)
      (steps : ∀ answer, s.step answer = some (now answer, next answer))
      (follows : ∀ answer, p.follow (now answer) = some (left answer))
      (later : ∀ answer, Performs Q (left answer) (next answer)) : Performs Q p s

/-- An access to the memory or none at all. -/
theorem Performs.quiet {s' : State} (steps : ∀ answer, s.step answer = some ([], s'))
    (later : Performs Q p s') : Performs Q p s :=
  .step (fun _ => []) (fun _ => s') (fun _ => p) steps (fun _ => Prog.follow_nil p) fun _ => later

theorem Performs.mono {Q' : β → State → Prop} (performs : Performs Q p s)
    (weaker : ∀ value s, Q value s → Q' value s) : Performs Q' p s := by
  induction performs with
  | done here => exact .done (weaker _ _ here)
  | step now next left steps follows later ih => exact .step now next left steps follows ih

theorem Performs.bind {f : β → Prog (BitVec 32) Word γ} {R : γ → State → Prop}
    (first : Performs (fun value s => Performs R (f value) s) p s) : Performs R (p >>= f) s := by
  induction first with
  | done here => exact here
  | step now next left steps follows later ih =>
      exact .step now next (fun answer => left answer >>= f) steps
        (fun answer => Prog.follow_bind (follows answer)) ih

/-- About to carry out the instruction at `pc`. -/
def enter (pc : Word) (regs : Regs) (M : Bytes 14) : State := ⟨pc, regs, M, M.word (ramAddr pc)⟩

/-- The memory has the instruction `i` at `pc`. -/
def Code (M : Bytes 14) (pc : Word) (i : Instr) : Prop := decode (M.word (ramAddr pc)) = some i

section Rules

variable {pc : Word} {regs : Regs} {M : Bytes 14} {i : Instr} (code : Code M pc i)

include code

theorem enter_step (answer : Word) : (enter pc regs M).step answer =
    (enter pc regs M).perform (coreEffect i pc regs answer) answer :=
  step_decoded (s := enter pc regs M) code answer

theorem enter_write {rd : Reg} {value next : Word}
    (effect : ∀ unknown, coreEffect i pc regs unknown = .write rd value next)
    (here : Fetchable next) (answer : Word) : (enter pc regs M).step answer =
      some ([], enter next (regs.write rd value) M) := by
  rw [enter_step code, effect, State.perform, State.goto, if_pos here]
  rfl

theorem enter_wrote {size : Size} {addr data : Word}
    (effect : ∀ unknown, coreEffect i pc regs unknown = .store size addr data)
    (aligned : size.aligned addr) (device : inDevices addr) (here : Fetchable (pc + 4))
    (answer : Word) : (enter pc regs M).step answer =
      some ([.wrote (wordAddr addr) (toWord size data)], enter (pc + 4) regs M) := by
  have outside : ¬inRam addr := by
    unfold inRam
    rcases device with here | here <;> rw [here] <;> decide
  rw [enter_step code, effect, State.perform, if_neg (not_not_intro aligned), if_neg outside,
    if_pos device, State.goto, if_pos (by exact here)]
  rfl

/-- An instruction without an access. -/
theorem Performs.write (rd : Reg) (value next : Word)
    (effect : ∀ unknown, coreEffect i pc regs unknown = .write rd value next)
    (here : Fetchable next) (later : Performs Q p (enter next (regs.write rd value) M)) :
    Performs Q p (enter pc regs M) :=
  .quiet (enter_write code effect here) later

/-- A store to the memory. -/
theorem Performs.stored (size : Size) (addr data : Word)
    (effect : ∀ unknown, coreEffect i pc regs unknown = .store size addr data)
    (aligned : size.aligned addr) (ram : inRam addr) (here : Fetchable (pc + 4))
    (kept : (M.store size (ramAddr addr) data).word (ramAddr (pc + 4)) = M.word (ramAddr (pc + 4)))
    (later : Performs Q p (enter (pc + 4) regs (M.store size (ramAddr addr) data))) :
    Performs Q p (enter pc regs M) := by
  refine .quiet (fun answer => ?_) later
  rw [enter_step code, effect, State.perform, if_neg (not_not_intro aligned), if_pos ram,
    State.goto, if_pos (by exact here)]
  exact congrArg (fun word => some ([], State.mk (pc + 4) regs _ word)) kept.symm

/-- A store to a device. -/
theorem Performs.wrote (size : Size) (addr data : Word) {rest : Prog (BitVec 32) Word β}
    (effect : ∀ unknown, coreEffect i pc regs unknown = .store size addr data)
    (aligned : size.aligned addr) (device : inDevices addr) (here : Fetchable (pc + 4))
    (later : Performs Q rest (enter (pc + 4) regs M)) :
    Performs Q (.write (wordAddr addr) (toWord size data) rest) (enter pc regs M) := by
  refine .step (fun _ => [.wrote (wordAddr addr) (toWord size data)])
    (fun _ => enter (pc + 4) regs M) (fun _ => rest) (enter_wrote code effect aligned device here)
    (fun _ => ?_) fun _ => later
  rw [Prog.follow, if_pos ⟨rfl, rfl⟩, Prog.follow_nil]

end Rules

end BlindSig.Hart
