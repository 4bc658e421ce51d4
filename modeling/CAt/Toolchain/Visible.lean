import CAt.Assembler.HiddenOperands

namespace CAt

open GuardedLoop
open HiddenOperands (restrict reads executeOpcode_restrict)

-- An instruction with zeros wherever execute_op does not look.
def Instruction.seen (inst : Instruction) : Instruction :=
  match inst.decode with
  | some op => restrict op inst
  | none => ⟨255, .replicate 3 0, 0⟩

def CallFrame.seen (frame : CallFrame) : CallFrame := ⟨frame.rip, 0, 0⟩

namespace Machine

-- What an instruction can read of the machine: no bfp, no lvp, no log, no other instruction.
def bare (m : Machine) : Machine :=
  { m with program := .empty, frameMemory := fun l => (m.frameMemory l).seen, coreLogger := none }

end Machine

namespace Visible

open Machine

def Same (c c' : Except Fault Machine) : Prop := bare <$> c = bare <$> c'

section Compare

variable {m : Machine} {inst : Instruction}

theorem same_bind {α : Type} {c : Except Fault α} {k k' : α → Except Fault Machine}
    (h : ∀ a, Same (k a) (k' a)) : Same (c >>= k) (c >>= k') := by
  unfold Same
  rw [map_bind, map_bind]
  exact bind_congr h

theorem same_ite {c : Prop} [Decidable c] {a a' b b' : Except Fault Machine} (ha : Same a a')
    (hb : Same b b') : Same (if c then a else b) (if c then a' else b') := by
  split
  · exact ha
  · exact hb

theorem same_setDReg (r : Byte) (v : Uint) : Same (m.setDReg r v) (m.bare.setDReg r v) :=
  same_bind fun _ => rfl

theorem same_setFReg (r : Byte) (v : Float32Bits) : Same (m.setFReg r v) (m.bare.setFReg r v) :=
  same_bind fun _ => rfl

theorem same_intOp (g : Uint → Uint → Uint) : Same (m.intOp inst g) (m.bare.intOp inst g) :=
  same_bind fun _ => same_bind fun _ => same_setDReg _ _

theorem same_floatOp (g : Float32Bits → Float32Bits → Float32Bits) :
    Same (m.floatOp inst g) (m.bare.floatOp inst g) :=
  same_bind fun _ => same_bind fun _ => same_setFReg _ _

theorem same_floatCompare (g : Float32Bits → Float32Bits → Bool) :
    Same (m.floatCompare inst g) (m.bare.floatCompare inst g) :=
  same_bind fun _ => same_bind fun _ => same_setDReg _ _

theorem same_logicalAnd : Same (m.logicalAnd inst) (m.bare.logicalAnd inst) :=
  same_bind fun _ => same_ite (same_setDReg _ _) (same_bind fun _ => same_setDReg _ _)

theorem same_logicalOr : Same (m.logicalOr inst) (m.bare.logicalOr inst) :=
  same_bind fun _ => same_ite (same_setDReg _ _) (same_bind fun _ => same_setDReg _ _)

theorem same_divide : Same (m.divide inst) (m.bare.divide inst) :=
  same_bind fun _ => same_bind fun _ => same_ite rfl (same_setDReg _ _)

theorem same_jumpImmediateIf (g : Uint → Uint → Bool) :
    Same (m.jumpImmediateIf inst g) (m.bare.jumpImmediateIf inst g) :=
  same_bind fun _ => same_bind fun _ => same_ite rfl rfl

theorem same_jumpRegisterIf (g : Uint → Uint → Bool) :
    Same (m.jumpRegisterIf inst g) (m.bare.jumpRegisterIf inst g) :=
  same_bind fun _ => same_bind fun _ => same_ite (same_bind fun _ => rfl) rfl

theorem same_push : Same (m.push inst) (m.bare.push inst) :=
  same_bind fun _ => same_bind fun _ => rfl

theorem same_pop : Same (m.pop inst) (m.bare.pop inst) :=
  same_bind fun vt => same_setDReg (m := { m with stackTop := vt.2 }) _ _

theorem seen_update (fm : Fin frameCount → CallFrame) (i : Fin frameCount)
    {frame frame' : CallFrame} (h : frame.seen = frame'.seen) :
    (fun l => (Function.update fm i frame l).seen) =
      fun l => (Function.update (fun l => (fm l).seen) i frame' l).seen := by
  funext l
  by_cases hl : l = i
  · subst hl
    rw [Function.update_self, Function.update_self, h]
  · rw [Function.update_of_ne hl, Function.update_of_ne hl]
    rfl

theorem same_startRecord : Same m.startRecord m.bare.startRecord := by
  simp only [startRecord, record, bind_assoc, pure_bind]
  refine same_bind fun i => congrArg Except.ok ?_
  exact congrArg (fun memory => { m.bare with frameMemory := memory }) (seen_update _ i rfl)

theorem same_enter : Same (m.enter inst) (m.bare.enter inst) := by
  simp only [enter, call, bind_assoc, pure_bind]
  refine same_bind fun i => congrArg Except.ok ?_
  exact congrArg (fun memory => { m.bare with
    pc := inst.storage.asI32.signExtend 64
    frames := m.frames + 1
    frameMemory := memory }) (seen_update _ i rfl)

theorem same_returnToCaller : Same m.returnToCaller m.bare.returnToCaller := by
  refine same_ite (same_bind fun i => congrArg Except.ok ?_) (same_bind fun _ => rfl)
  exact congrArg (fun memory => { m.bare with
    pc := (m.frameMemory i).rip - 1
    frames := m.frames - 1
    frameMemory := memory }) (seen_update _ i rfl)

theorem same_leave : Same (m.leave inst) (m.bare.leave inst) :=
  same_bind fun value => same_returnToCaller (m := { m with accumRegister := value })

theorem same_print (host : Host) : Same (m.print host) (m.bare.print host) := by
  simp only [Machine.print]
  change Same (if h : (m.iregisters 1).toNat + (m.iregisters 2).toNat ≤ stackSize then _ else _)
    (if h : (m.iregisters 1).toNat + (m.iregisters 2).toNat ≤ stackSize then _ else _)
  split
  · exact same_ite rfl rfl
  · rfl

theorem same_executeOpcode (host : Host) {op : Inst} (hop : op ≠ .iRegDump) :
    Same (executeOpcode host m inst op) (executeOpcode host m.bare inst op) := by
  cases op with
  | iEntry => rfl
  | iHalt => rfl
  | iPush => exact same_push
  | iPop => exact same_pop
  | iRec => exact same_startRecord
  | iCall => exact same_enter
  | iGetac => exact same_setDReg _ _
  | iInc | iDec | iCu2i | iCi2u => exact same_bind fun _ => same_setDReg _ _
  | iAdd | iSub | iMul | iCmpe | iCmpeg | iCmpel | iCmpg | iCmpl => exact same_intOp _
  | iDiv => exact same_divide
  | iFadd | iFsub | iFdiv | iFmul => exact same_floatOp _
  | iFcmpe | iFcmpeg | iFcmpel | iFcmpg | iFcmpl => exact same_floatCompare _
  | iDload => exact same_bind fun _ => same_bind fun _ => same_setDReg _ _
  | iFload => exact same_bind fun _ => same_setFReg _ _
  | iDsave | iFsave => exact same_bind fun _ => same_bind fun _ => same_bind fun _ => rfl
  | iFset => exact same_setFReg _ _
  | iSet => exact same_setDReg _ _
  | iAnd => exact same_logicalAnd
  | iOr => exact same_logicalOr
  | iCi2f | iCu2f => exact same_bind fun _ => same_setFReg _ _
  | iCf2i | iCf2u => exact same_bind fun _ => same_setDReg _ _
  | iJmp => rfl
  | iEjmp | iNejmp => exact same_jumpImmediateIf _
  | iRjmp => exact same_bind fun _ => rfl
  | iErjmp | iNerjmp => exact same_jumpRegisterIf _
  | iPrint => exact same_print host
  | iRegDump => exact absurd rfl hop
  | iRet => exact same_leave
  | iNop => rfl

theorem bare_regDump (m : Machine) (inst : Instruction) :
    bare <$> m.regDump inst =
      if m.coreLogger.isSome then (fun _ => m.bare) <$> m.dReg inst.r0 else .ok m.bare := by
  rw [regDump]
  cases m.coreLogger.isSome with
  | true =>
    simp only [if_true]
    cases m.dReg inst.r0 with
    | error e => rfl
    | ok value => rfl
  | false => rfl

theorem same_regDump {m' : Machine} (hbare : m.bare = m'.bare)
    (hlogs : m.coreLogger.isSome = m'.coreLogger.isSome ∨ ∃ i, regIndex inst.r0 = .ok i) :
    Same (m.regDump inst) (m'.regDump inst) := by
  have hvalue : m.bare.dReg inst.r0 = m'.bare.dReg inst.r0 := congrArg (dReg · inst.r0) hbare
  change m.dReg inst.r0 = m'.dReg inst.r0 at hvalue
  rw [Same, bare_regDump, bare_regDump, ← hvalue, hbare]
  rcases hlogs with hsame | ⟨i, hi⟩
  · rw [hsame]
  · have hread : m.dReg inst.r0 = .ok (m.iregisters i) := by
      rw [dReg, hi]
      rfl
    rw [hread]
    split <;> split <;> rfl

theorem same_executeInst (host : Host) {m' : Machine} (hbare : m.bare = m'.bare)
    (hdump : inst.decode = some .iRegDump →
      m.coreLogger.isSome = m'.coreLogger.isSome ∨ ∃ i, regIndex inst.r0 = .ok i) :
    Same (executeInst host m inst) (executeInst host m' inst) := by
  rw [executeInst, executeInst]
  cases hop : inst.decode with
  | none => exact congrArg (fun m => Except.ok (unsupported m)) hbare
  | some op =>
    by_cases hdumps : op = .iRegDump
    · subst hdumps
      exact same_regDump hbare (hdump hop)
    · have hm : Same (executeOpcode host m inst op) (executeOpcode host m'.bare inst op) :=
        hbare ▸ same_executeOpcode host hdumps
      exact hm.trans (same_executeOpcode host hdumps).symm

end Compare

section Seen

variable {inst inst' : Instruction}

theorem decode_seen (inst : Instruction) : inst.seen.decode = inst.decode := by
  rw [Instruction.seen]
  cases hop : inst.decode with
  | none => rfl
  | some op => exact Build.decode_operands op _ _ _ _

theorem executeInst_seen (host : Host) (m : Machine) (inst : Instruction) :
    executeInst host m inst.seen = executeInst host m inst := by
  rw [executeInst, executeInst, decode_seen]
  cases hop : inst.decode with
  | none => rfl
  | some op =>
    have hseen : inst.seen = restrict op inst := by rw [Instruction.seen, hop]
    rw [hseen]
    exact (executeOpcode_restrict host m inst op).symm

theorem seen_congr (hop : inst.operation.setWidth 8 = inst'.operation.setWidth 8)
    (hregisters : inst.argumentReg = inst'.argumentReg)
    (hstorage : inst.storage.setWidth 32 = inst'.storage.setWidth 32) :
    inst.seen = inst'.seen := by
  have hdecode : inst.decode = inst'.decode := by rw [Instruction.decode, hop, Instruction.decode]
  rw [Instruction.seen, Instruction.seen, hdecode]
  cases inst'.decode with
  | none => rfl
  | some op =>
    simp only [restrict, Instruction.r0, Instruction.r1, Instruction.r2, UniformStrg.asI32,
      UniformStrg.asF32, hregisters, hstorage]

end Seen

def DumpsInRange (code : List Instruction) : Prop :=
  ∀ inst ∈ code, inst.decode = some .iRegDump → inst.r0.toNat < intRegCount

instance (code : List Instruction) : Decidable (DumpsInRange code) :=
  inferInstanceAs (Decidable (∀ inst ∈ code,
    inst.decode = some .iRegDump → inst.r0.toNat < intRegCount))

-- Two machines that differ only in what no instruction reads. A dump outside the register file
-- tells a machine with a log from one without.
structure Twins (m m' : Machine) : Prop where
  bare : m.bare = m'.bare
  code : m.program.code.map Instruction.seen = m'.program.code.map Instruction.seen
  logs : m.coreLogger.isSome = m'.coreLogger.isSome ∨ DumpsInRange m.program.code

section Run

variable {host : Host} {m m' : Machine}

namespace Twins

theorem pc_eq (h : Twins m m') : m.pc = m'.pc := by
  have hbare : m.bare.pc = m'.bare.pc := congrArg Machine.pc h.bare
  exact hbare

theorem isRunning_eq (h : Twins m m') : m.isRunning = m'.isRunning := by
  have hbare : m.bare.isRunning = m'.bare.isRunning := congrArg Machine.isRunning h.bare
  exact hbare

theorem fetched (h : Twins m m') :
    m.fetched.map Instruction.seen = m'.fetched.map Instruction.seen := by
  rw [Machine.fetched, Machine.fetched, ← List.getElem?_map, ← List.getElem?_map, h.code, h.pc_eq]

theorem size_eq (h : Twins m m') : m.program.size = m'.program.size := by
  have hlength := congrArg List.length h.code
  rw [List.length_map, List.length_map] at hlength
  rw [Program.size, Program.size, hlength]

theorem guard_eq (h : Twins m m') : (vmLoop host).guard m = (vmLoop host).guard m' := by
  simp only [vmLoop, h.pc_eq, h.isRunning_eq, h.size_eq]

theorem dump (h : Twins m m') {inst : Instruction} (hfetched : m.fetched = some inst)
    (hdecode : inst.decode = some .iRegDump) :
    m.coreLogger.isSome = m'.coreLogger.isSome ∨ ∃ i, regIndex inst.r0 = .ok i := by
  rcases h.logs with hsame | hrange
  · exact .inl hsame
  · have hlt := hrange inst (Machine.fetched_mem hfetched) hdecode
    exact .inr ⟨_, dif_pos hlt⟩

theorem same (h : Twins m m') : Same (executeOp host m) (executeOp host m') := by
  have hfetched := h.fetched
  cases hf : m.fetched with
  | none =>
    rw [hf, Option.map_none, eq_comm, Option.map_eq_none_iff] at hfetched
    simp only [executeOp, instNext, show m.program.code[m.pc.toNat]? = none from hf,
      show m'.program.code[m'.pc.toNat]? = none from hfetched]
    rfl
  | some inst =>
    rw [hf, Option.map_some, eq_comm, Option.map_eq_some_iff] at hfetched
    obtain ⟨inst', hf', hseen⟩ := hfetched
    have hadvance : m.advance.bare = m'.advance.bare := congrArg Machine.advance h.bare
    have hm' : executeOp host m' = executeInst host m'.advance inst := by
      rw [executeOp_of_fetched hf', ← executeInst_seen, hseen, executeInst_seen]
    rw [executeOp_of_fetched hf, hm']
    exact same_executeInst host hadvance (h.dump hf)

theorem kept (h : Twins m m') {u u' : Machine} (hu : executeOp host m = .ok u)
    (hu' : executeOp host m' = .ok u') (hbare : u.bare = u'.bare) : Twins u u' := by
  obtain ⟨inst, -, heffect⟩ := executeOp_effect hu
  obtain ⟨inst', -, heffect'⟩ := executeOp_effect hu'
  refine ⟨hbare, ?_, ?_⟩
  · rw [heffect.program_unchanged, heffect'.program_unchanged]
    exact h.code
  · rw [heffect.program_unchanged, heffect.coreLogger_isSome, heffect'.coreLogger_isSome]
    exact h.logs

theorem step (h : Twins m m') : Loop.Alike Twins (executeOp host m) (executeOp host m') := by
  have hsame : Machine.bare <$> executeOp host m = Machine.bare <$> executeOp host m' := h.same
  cases hu : executeOp host m with
  | error e =>
    rw [hu] at hsame
    cases hu' : executeOp host m' with
    | error e' =>
      rw [hu'] at hsame
      cases hsame
      exact .error e
    | ok u' =>
      rw [hu'] at hsame
      cases hsame
  | ok u =>
    rw [hu] at hsame
    cases hu' : executeOp host m' with
    | error e' =>
      rw [hu'] at hsame
      cases hsame
    | ok u' =>
      rw [hu'] at hsame
      exact .ok (h.kept hu hu' (Except.ok.inj hsame))

theorem run (h : Twins m m') (n : Nat) :
    Loop.Alike Twins (executeProgram host n m) (executeProgram host n m') :=
  Loop.run_alike Twins (fun _ _ h => h.guard_eq) (fun _ _ h _ => h.step) h n

end Twins

theorem unread_never_shows (h : Twins m m') (n : Nat) :
    (∃ e, executeProgram host n m = .error e ∧ executeProgram host n m' = .error e) ∨
      ∃ u u', executeProgram host n m = .ok u ∧ executeProgram host n m' = .ok u' ∧
        Twins u u' := by
  have halike : Loop.Alike Twins (executeProgram host n m) (executeProgram host n m') := h.run n
  generalize executeProgram host n m = c at halike ⊢
  generalize executeProgram host n m' = c' at halike ⊢
  cases halike with
  | error e => exact .inl ⟨e, rfl, rfl⟩
  | ok twins => exact .inr ⟨_, _, rfl, rfl, twins⟩

def dumped : Program := ⟨[Build.regDump 3, Build.call 2, Build.ret 0], by decide⟩

theorem unread_never_shows_dumped :
    ∃ u u', executeProgram Host.integer 3 (initMachine .zero dumped) = .ok u ∧
      executeProgram Host.integer 3 { initMachine .zero dumped with
        frameMemory := fun _ => ⟨0, 7, 9⟩
        coreLogger := some [] } = .ok u' ∧ Twins u u' := by
  have htwins : Twins (initMachine .zero dumped) { initMachine .zero dumped with
      frameMemory := fun _ => ⟨0, 7, 9⟩
      coreLogger := some [] } := ⟨rfl, rfl, .inr (by decide)⟩
  have halike :
      (∃ e, executeProgram Host.integer 3 (initMachine .zero dumped) = .error e ∧ _) ∨ _ :=
    unread_never_shows htwins 3
  rcases halike with ⟨e, herror, -⟩ | hok
  · cases herror
  · exact hok

end Run

end Visible

end CAt
