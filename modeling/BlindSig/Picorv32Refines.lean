import BlindSig.Picorv32Access
import BlindSig.Picorv32Execute

set_option autoImplicit false

namespace BlindSig.Picorv32

open Clocked ByteLanes Soc Rv32i

variable {t : SocTop} {s : Hart.State} {i : Instr} {Q : List (Event (BitVec 32) Word) → SocTop → Prop}
  {past : List (Event (BitVec 32) Word)}

section Launch

variable (launch : Launch t s) (encoded : i.Encoded s.fetched)

include launch encoded

theorem Launch.flag : t.cpu.decoder.first.instrJal = (flagsOf i).instrJal := by
  have x : Unknown := ⟨0, 0, 0, 0, 0, false, 0⟩
  obtain ⟨fits, first, -⟩ := launch.decoder (x := x)
  rw [← flags_eq fits encoded, ← first]
  rfl

/-- What the launch of any instruction but JAL leads to. -/
theorem Launch.leads_decoded (other : (flagsOf i).instrJal = false)
    (next : ∀ t', Decoded t' s → Meets Q past t') :
    Meets Q past t := by
  refine meets_silent launch.calm.silent fun x => next _ (launch.decoded ?_)
  rw [launch.flag encoded, other]

end Launch

section Decoded

variable (decoded : Decoded t s)

include decoded

/-- The flags of the first stage. -/
theorem Decoded.first_flags (encoded : i.Encoded s.fetched) :
    t.cpu.decoder.first.instrJalr = (flagsOf i).instrJalr ∧
      t.cpu.decoder.first.isBeqBneBltBgeBltuBgeu = (flagsOf i).isBranch := by
  have flags := decoded.flags encoded
  exact ⟨congrArg Flags.instrJalr flags, congrArg Flags.isBranch flags⟩

/-- The instructions that write what the ALU puts out. -/
theorem Decoded.leads_exec (encoded : i.Encoded s.fetched) (exec : inExec i = true)
    (here : Hart.Fetchable (s.pc + 4))
    (other : (flagsOf i).isBranch = false) (straight : (flagsOf i).instrJalr = false)
    (next : ∀ t' m d x, Fits d s.fetched → d.derived = d.derive → m.regOp1 = (operands i s).1 →
      m.regOp2 = (operands i s).2 →
      Launch t' ⟨s.pc + 4, s.regs.write (rd s.fetched) (Main.aluOut m d x), s.mem,
        s.mem.word (Hart.ramAddr (s.pc + 4))⟩ → Meets Q past t') :
    Meets Q past t := by
  obtain ⟨jalr, branch⟩ := decoded.first_flags encoded
  rw [straight] at jalr
  rw [other] at branch
  refine meets_silent decoded.calm.silent fun x => ?_
  obtain ⟨sh, reads⟩ := ldRs1_exec (x := x)
    (n := t.cpu.main.defaults t.cpu.decoder true false x) decoded encoded exec
  obtain ⟨carrying, one, two, -, req, -, first⟩ := decoded.carrying reads
  rw [decoded.req, jalr] at req
  have asking := decoded.asking (x := x) jalr
  refine meets_fetch here.1 asking.carried fun y => ?_
  obtain ⟨fetching, asks⟩ := carrying.alu (x := y) req (by rw [first, branch])
    (by rw [first, jalr]) here asking
  refine fetching.leads_answering (fun t' launch => ?_) asks
    (asking.edge (i := (t.step x).input true) rfl carrying.running (Or.inl rfl))
  exact next t' _ _ y carrying.fits carrying.derived one two launch

/-- Those for which this is a result. -/
theorem Decoded.leads_alu {regs : Regs} (encoded : i.Encoded s.fetched) (exec : inExec i = true)
    (here : Hart.Fetchable (s.pc + 4))
    (other : (flagsOf i).isBranch = false) (straight : (flagsOf i).instrJalr = false)
    (result : ∀ m d x, Fits d s.fetched → d.derived = d.derive → m.regOp1 = (operands i s).1 →
      m.regOp2 = (operands i s).2 → s.regs.write (rd s.fetched) (Main.aluOut m d x) = regs)
    (next : ∀ t', Launch t' ⟨s.pc + 4, regs, s.mem, s.mem.word (Hart.ramAddr (s.pc + 4))⟩ →
      Meets Q past t') :
    Meets Q past t := by
  refine decoded.leads_exec encoded exec here other straight
    fun t' m d x fits derived one two launch => next t' ?_
  rw [← result m d x fits derived one two]
  exact launch

/-- A branch in its second cycle in the state `exec`, with the next instruction
fetched ahead. -/
theorem Decoded.leads_branching {cond : Cond} {p q : Reg} {offset : Word}
    (encoded : (Instr.branch cond p q offset).Encoded s.fetched)
    (next : ∀ t' data, Branching t' s (s.regs.read (rs1 s.fetched)) (s.regs.read (rs2 s.fetched)) →
      Answering t'.mem 1 (readOf (s.pc + 4) data) → Meets Q past t') :
    Meets Q past t := by
  have ahead : Hart.inRam (s.pc + 4) := decoded.here.2.1
  obtain ⟨jalr, -⟩ := decoded.first_flags encoded
  refine meets_silent decoded.calm.silent fun x => ?_
  obtain ⟨sh, reads⟩ := ldRs1_exec (x := x)
    (n := t.cpu.main.defaults t.cpu.decoder true false x) decoded encoded rfl
  obtain ⟨carrying, one, two, -, req, -, -⟩ := decoded.carrying reads
  rw [decoded.req, jalr] at req
  have asking := decoded.asking (x := x) jalr
  have branching : Branching (t.step x) s (s.regs.read (rs1 s.fetched))
      (s.regs.read (rs2 s.fetched)) :=
    ⟨carrying.state, carrying.running, carrying.untriggered, req, carrying.pc, carrying.next,
      carrying.direct, carrying.regs, carrying.fits, carrying.derived, carrying.ram, carrying.here,
      one, two⟩
  refine meets_fetch ahead asking.carried fun y => ?_
  obtain ⟨branching', answering⟩ := branching.again encoded (x := y) asking
  exact next _ _ branching' answering

/-- A branch: decided in two cycles, and fetched anew when it is taken. -/
theorem Decoded.leads_branch {cond : Cond} {p q : Reg} {offset target : Word}
    (encoded : (Instr.branch cond p q offset).Encoded s.fetched)
    (choice : target = if cond.holds (s.regs.read (rs1 s.fetched)) (s.regs.read (rs2 s.fetched))
      then s.pc + offset else s.pc + 4)
    (there : Hart.Fetchable target)
    (next : ∀ t', Launch t' ⟨target, s.regs, s.mem, s.mem.word (Hart.ramAddr target)⟩ →
      Meets Q past t') :
    Meets Q past t := by
  have ahead : Hart.inRam (s.pc + 4) := decoded.here.2.1
  refine decoded.leads_branching encoded fun t' data branching answering => ?_
  refine meets_fetch ahead answering.carried fun x => ?_
  cases holds : cond.holds (s.regs.read (rs1 s.fetched)) (s.regs.read (rs2 s.fetched)) with
  | false =>
      rw [holds, if_neg Bool.false_ne_true] at choice
      rw [choice] at next there
      exact next _ (branching.not_taken encoded answering ahead holds there)
  | true =>
      rw [holds, if_pos rfl] at choice
      rw [choice] at next there
      obtain ⟨heading, asks, at_target, calm⟩ :=
        branching.taken encoded (x := x) answering ahead holds
      exact Fetching.leads_calm ⟨heading, there⟩ next asks calm at_target

/-- The shifts. -/
theorem Decoded.leads_shift {op : Alu} {amount : BitVec 5} (shifts : Shifts op s.fetched)
    (straight : t.cpu.decoder.first.instrJalr = false)
    (reads : ∀ n x, ∃ b, t.cpu.main.ldRs1Case t.cpu.decoder x n =
      n.reads (s.regs.read (rs1 s.fetched)) b amount n.req.memDoRinst .shift)
    (here : Hart.Fetchable (s.pc + 4))
    (next : ∀ t', Launch t' ⟨s.pc + 4, s.regs.write (rd s.fetched)
      (op.shift (s.regs.read (rs1 s.fetched)) amount.toNat), s.mem,
      s.mem.word (Hart.ramAddr (s.pc + 4))⟩ → Meets Q past t') :
    Meets Q past t := by
  refine meets_silent decoded.calm.silent fun x => ?_
  obtain ⟨b, reads⟩ := reads (t.cpu.main.defaults t.cpu.decoder true false x) x
  obtain ⟨carrying, one, -, sh, req, -, -⟩ := decoded.carrying reads
  have none : t.cpu.main.req.memDoRinst = false := by rw [decoded.req]
  rw [show (t.cpu.main.defaults t.cpu.decoder true false x).req.memDoRinst = false from none,
    straight] at req
  refine Carrying.leads_shift shifts here next amount.toNat (t.step x) carrying req
    (Or.inl ⟨_, decoded.asking straight⟩) ?_ ?_
  · rw [one, sh]
  · rw [sh]

/-- An indirect jump: nothing is fetched before its target is known. -/
theorem Decoded.leads_jalr {r a : Reg} {imm target : Word}
    (encoded : (Instr.jalr r a imm).Encoded s.fetched)
    (sum : target = (s.regs.read (rs1 s.fetched) + imm) &&& ~~~1)
    (next : ∀ t', Heading t' target (s.regs.write (rd s.fetched) (s.pc + 4)) s.mem →
      t'.cpu.main.req = noRequests → Calm t'.mem → Meets Q past t') :
    Meets Q past t := by
  obtain ⟨jalr, branch⟩ := decoded.first_flags encoded
  refine meets_silent decoded.calm.silent fun x => ?_
  obtain ⟨sh, reads⟩ := ldRs1_exec (x := x)
    (n := t.cpu.main.defaults t.cpu.decoder true false x) decoded encoded rfl
  obtain ⟨carrying, one, two, -, req, -, first⟩ := decoded.carrying reads
  rw [decoded.req, jalr] at req
  have calm : Calm (t.step x).mem := by
    apply rests_none decoded.calm decoded.running
    rw [decoded.req, jalr]
    rfl
  refine meets_silent calm.silent fun y => ?_
  have result : (t.step x).cpu.main.aluOut (t.step x).cpu.decoder y &&& ~~~1 = target := by
    rw [aluOut_add carrying.derived carrying.fits encoded (Or.inr (Or.inr rfl)), one, two, sum]
    rfl
  obtain ⟨heading, none, calm⟩ := carrying.jalr (x := y) req (by rw [first, branch]; rfl)
    (by rw [first, jalr]; rfl) calm result
  exact next _ heading none calm

theorem Decoded.begins_load {op : Load} {r a : Reg} {imm : Word}
    (encoded : (Instr.load op r a imm).Encoded s.fetched)
    (next : ∀ t', Begun t' s true op.size (s.regs.read (rs1 s.fetched) + imm)
      (s.mem.word (Hart.ramAddr (s.pc + 4))) → Extends t'.cpu.main.latched op → Meets Q past t') :
    Meets Q past t := by
  obtain ⟨jalr, -⟩ := decoded.first_flags encoded
  refine meets_silent decoded.calm.silent fun x => ?_
  obtain ⟨b, sh, reads⟩ := ldRs1_load (x := x)
    (n := t.cpu.main.defaults t.cpu.decoder true false x) decoded encoded
  obtain ⟨carrying, one, -, -, req, -, -⟩ := decoded.carrying reads
  rw [jalr] at req
  exact carrying.begins_load encoded req (by rw [one]) (decoded.asking jalr) next

theorem Decoded.begins_store {size : Size} {a b : Reg} {imm : Word}
    (encoded : (Instr.store size a b imm).Encoded s.fetched)
    (next : ∀ t', Begun t' s false size (s.regs.read (rs1 s.fetched) + imm)
      (s.mem.word (Hart.ramAddr (s.pc + 4))) →
      t'.cpu.main.regOp2 = s.regs.read (rs2 s.fetched) → Meets Q past t') :
    Meets Q past t := by
  obtain ⟨jalr, -⟩ := decoded.first_flags encoded
  refine meets_silent decoded.calm.silent fun x => ?_
  obtain ⟨sh, reads⟩ := ldRs1_store (x := x)
    (n := t.cpu.main.defaults t.cpu.decoder true false x) decoded encoded
  obtain ⟨carrying, one, two, -, req, fresh, -⟩ := decoded.carrying reads
  rw [jalr] at req
  exact carrying.begins_store encoded req fresh (by rw [one]) two (decoded.asking jalr) next

end Decoded

section Step

variable (next : ∀ answer now s' t', s.step answer = some (now, s') → Launch t' s' →
  Meets Q (past ++ now) t')
  (step : ∀ answer, s.step answer = s.perform (Hart.coreEffect i s.pc s.regs answer) answer)

include next step

/-- Where an instruction without an access goes on. -/
theorem goes_on {r : Reg} {value : Word → Word} {target answer : Word}
    {now : List (Event (BitVec 32) Word)} {s' : Hart.State}
    (effect : ∀ x, Hart.coreEffect i s.pc s.regs x = .write r (value x) target)
    (performs : s.perform (Hart.coreEffect i s.pc s.regs answer) answer = some (now, s')) :
    Hart.Fetchable target ∧ ∀ x t', Launch t' ⟨target, s.regs.write r (value x), s.mem,
      s.mem.word (Hart.ramAddr target)⟩ → Meets Q past t' := by
  rw [effect] at performs
  obtain ⟨u, goes, -⟩ := Option.map_eq_some_iff.mp performs
  have there := (Hart.goto_some.mp goes).1
  refine ⟨there, fun x t' launch => ?_⟩
  have after := next x [] _ t' ?_ launch
  · rwa [List.append_nil] at after
  · rw [step, effect, Hart.State.perform, Hart.goto_some.mpr ⟨there, rfl⟩]
    rfl

theorem loads_on {op : Load} {addr answer : Word} {now : List (Event (BitVec 32) Word)}
    {s' : Hart.State} (effect : ∀ x, Hart.coreEffect i s.pc s.regs x = .load op (rd s.fetched) addr)
    (performs : s.perform (Hart.coreEffect i s.pc s.regs answer) answer = some (now, s')) :
    op.size.aligned addr ∧ (Hart.inRam addr ∨ Hart.inDevices addr) ∧ Hart.Fetchable (s.pc + 4) ∧
      Loads Q past s op addr (s.mem.word (Hart.ramAddr (s.pc + 4))) := by
  rw [effect] at performs
  simp only [effect] at step
  simp only [Hart.State.perform] at performs step
  by_cases whole : op.size.aligned addr
  · rw [if_neg (not_not.mpr whole)] at performs
    simp only [if_neg (not_not.mpr whole)] at step
    by_cases inRam : Hart.inRam addr
    · rw [if_pos inRam] at performs
      simp only [if_pos inRam] at step
      obtain ⟨u, goes, -⟩ := Option.map_eq_some_iff.mp performs
      have here := (Hart.goto_some.mp goes).1
      refine ⟨whole, Or.inl inRam, here, fun t' answer launch => ?_⟩
      rw [if_pos inRam] at launch ⊢
      refine next answer [] _ t' ?_ launch
      rw [step, Hart.goto_some.mpr ⟨here, rfl⟩]
      rfl
    · rw [if_neg inRam] at performs
      simp only [if_neg inRam] at step
      by_cases device : Hart.inDevices addr
      · rw [if_pos device] at performs
        simp only [if_pos device] at step
        obtain ⟨u, goes, -⟩ := Option.map_eq_some_iff.mp performs
        have here := (Hart.goto_some.mp goes).1
        refine ⟨whole, Or.inr device, here, fun t' answer launch => ?_⟩
        rw [if_neg inRam] at launch ⊢
        refine next answer [.got (wordAddr addr) answer] _ t' ?_ launch
        rw [step, Hart.goto_some.mpr ⟨here, rfl⟩]
        rfl
      · rw [if_neg device] at performs
        cases performs
  · rw [if_pos whole] at performs
    cases performs

theorem stores_on {size : Size} {addr value answer : Word} {now : List (Event (BitVec 32) Word)}
    {s' : Hart.State} (effect : ∀ x, Hart.coreEffect i s.pc s.regs x = .store size addr value)
    (performs : s.perform (Hart.coreEffect i s.pc s.regs answer) answer = some (now, s')) :
    size.aligned addr ∧ (Hart.inRam addr ∨ Hart.inDevices addr) ∧ Hart.Fetchable (s.pc + 4) ∧
      Stores Q past s size addr value (s.mem.word (Hart.ramAddr (s.pc + 4))) := by
  rw [effect] at performs
  simp only [effect] at step
  simp only [Hart.State.perform] at performs step
  by_cases whole : size.aligned addr
  · rw [if_neg (not_not.mpr whole)] at performs
    simp only [if_neg (not_not.mpr whole)] at step
    by_cases inRam : Hart.inRam addr
    · rw [if_pos inRam] at performs
      simp only [if_pos inRam] at step
      obtain ⟨u, goes, -⟩ := Option.map_eq_some_iff.mp performs
      have here := (Hart.goto_some.mp goes).1
      refine ⟨whole, Or.inl inRam, here, fun t' launch => ?_⟩
      rw [if_pos inRam] at launch ⊢
      refine next answer [] _ t' ?_ launch
      rw [step, Hart.goto_some.mpr ⟨here, rfl⟩]
      rfl
    · rw [if_neg inRam] at performs
      simp only [if_neg inRam] at step
      by_cases device : Hart.inDevices addr
      · rw [if_pos device] at performs
        simp only [if_pos device] at step
        obtain ⟨u, goes, -⟩ := Option.map_eq_some_iff.mp performs
        have here := (Hart.goto_some.mp goes).1
        refine ⟨whole, Or.inr device, here, fun t' launch => ?_⟩
        rw [if_neg inRam] at launch ⊢
        refine next answer [.wrote (wordAddr addr) (Hart.toWord size value)] _ t' ?_ launch
        rw [step, Hart.goto_some.mpr ⟨here, rfl⟩]
        rfl
      · rw [if_neg device] at performs
        cases performs
  · rw [if_pos whole] at performs
    cases performs

end Step

/-- One instruction: from its launch to that of the next one, with its access to
a device if it makes one. -/
theorem Launch.leads (launch : Launch t s) (alive : ¬s.Stuck)
    (next : ∀ answer now s' t', s.step answer = some (now, s') → Launch t' s' →
      Meets Q (past ++ now) t') :
    Meets Q past t := by
  obtain ⟨i, answer, now, s', decoded, performs, step⟩ := Hart.instr_of_alive alive
  have encoded := encoded_of_decode decoded
  cases i with
  | lui r imm =>
      obtain ⟨here, on⟩ := goes_on next step (fun _ => rfl) performs
      obtain rfl := encoded.2.1
      refine launch.leads_decoded encoded rfl fun t' second =>
        second.leads_alu encoded rfl here rfl rfl ?_ (on 0)
      intro m d x fits derived one two
      rw [aluOut_add derived fits encoded (Or.inl rfl), one, two]
      exact congrArg _ (BitVec.zero_add imm)
  | auipc r imm =>
      obtain ⟨here, on⟩ := goes_on next step (fun _ => rfl) performs
      obtain rfl := encoded.2.1
      refine launch.leads_decoded encoded rfl fun t' second =>
        second.leads_alu encoded rfl here rfl rfl ?_ (on 0)
      intro m d x fits derived one two
      rw [aluOut_add derived fits encoded (Or.inr (Or.inl rfl)), one, two]
      rfl
  | jal r offset =>
      obtain ⟨there, on⟩ := goes_on next step (fun _ => rfl) performs
      obtain ⟨-, rfl, rfl⟩ := id encoded
      refine meets_silent launch.calm.silent fun x => ?_
      obtain ⟨heading, asks, target, calm⟩ := launch.jal (x := x) (launch.flag encoded)
      exact Fetching.leads_calm ⟨heading, there⟩ (on 0) asks calm target
  | jalr r a imm =>
      obtain ⟨there, on⟩ := goes_on next step (fun _ => rfl) performs
      obtain ⟨-, -, rfl, rfl, -⟩ := id encoded
      exact launch.leads_decoded encoded rfl fun t' second =>
        second.leads_jalr encoded rfl fun t'' heading none calm =>
          Fetching.leads_fresh ⟨heading, there⟩ (on 0) none calm
  | branch cond a b offset =>
      obtain ⟨there, on⟩ := goes_on next step (fun _ => rfl) performs
      obtain ⟨-, -, rfl, rfl, -⟩ := id encoded
      simp only [Regs.write_zero] at on
      exact launch.leads_decoded encoded rfl fun t' second =>
        second.leads_branch encoded rfl there (on 0)
  | load op r a imm =>
      obtain ⟨-, -, rfl, rfl, -⟩ := id encoded
      obtain ⟨whole, region, here, on⟩ := loads_on next step (fun _ => rfl) performs
      refine launch.leads_decoded encoded rfl fun t' second =>
        second.begins_load encoded fun t'' begun set => ?_
      have loading : Loading t'' s op _ _ := ⟨begun.toAccessing, set, begun.ram, whole, region, here⟩
      exact loading.leads on begun
  | store size a b imm =>
      obtain ⟨-, -, rfl, rfl, -⟩ := id encoded
      obtain ⟨whole, region, here, on⟩ := stores_on next step (fun _ => rfl) performs
      refine launch.leads_decoded encoded rfl fun t' second =>
        second.begins_store encoded fun t'' begun value => ?_
      have storing : Storing t'' s size _ _ _ := ⟨begun.toAccessing, value, whole, region, here⟩
      exact storing.leads on begun
  | aluImm op r a imm =>
      obtain ⟨here, on⟩ := goes_on next step (fun _ => rfl) performs
      obtain ⟨-, -, rfl, rfl, operand⟩ := id encoded
      refine launch.leads_decoded encoded rfl fun t' second => ?_
      cases shifts : op.isShift with
      | false =>
          refine second.leads_alu encoded (by simp [inExec, shifts]) here rfl rfl ?_ (on 0)
          intro m d x fits derived one two
          rw [aluOut_aluImm derived fits encoded shifts, one, two]
          rfl
      | true =>
          refine second.leads_shift ⟨shifts, Or.inl ⟨_, _, _, encoded⟩⟩ (second.first_flags encoded).1
            (fun n x => ldRs1_shiftImm second encoded shifts) here ?_
          have amount : imm.toNat % 32 = (rs2 s.fetched).toNat := by
            rw [operand, aluImmOperand, shifts, if_pos rfl, BitVec.toNat_setWidth]
            have := (rs2 s.fetched).isLt
            omega
          rw [← amount, ← Alu.eval_shift shifts]
          exact on 0
  | alu op r a b =>
      obtain ⟨here, on⟩ := goes_on next step (fun _ => rfl) performs
      obtain ⟨-, -, rfl, rfl, rfl⟩ := id encoded
      refine launch.leads_decoded encoded rfl fun t' second => ?_
      cases shifts : op.isShift with
      | false =>
          refine second.leads_alu encoded (by simp [inExec, shifts]) here rfl rfl ?_ (on 0)
          intro m d x fits derived one two
          rw [aluOut_alu derived fits encoded shifts, one, two]
          rfl
      | true =>
          refine second.leads_shift ⟨shifts, Or.inr ⟨_, _, _, encoded⟩⟩ (second.first_flags encoded).1
            (fun n x => ⟨_, ldRs1_shift second encoded shifts⟩) here ?_
          rw [BitVec.toNat_setWidth, ← Alu.eval_shift shifts]
          exact on 0
  | fence r =>
      obtain ⟨here, on⟩ := goes_on next step (fun _ => rfl) performs
      obtain rfl := encoded.2.2
      -- The ALU has no operation for it, so that whatever it puts out is written.
      exact launch.leads_decoded encoded rfl fun t' second =>
        second.leads_exec encoded rfl here rfl rfl fun u m d x _ _ _ _ =>
          on (Main.aluOut m d x) u

end BlindSig.Picorv32
