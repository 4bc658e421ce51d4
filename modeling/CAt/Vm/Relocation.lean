import CAt.Vm.Effects

namespace CAt

open GuardedLoop

namespace Relocation

def takesAddress (op : Inst) : Bool := op.isJump || op == .iCall

def addToI32 (s : UniformStrg) (n : Nat) : UniformStrg :=
  s.extractLsb' 32 32 ++ (s.asI32 + BitVec.ofNat 32 n)

def relocate (n : Nat) (inst : Instruction) : Instruction :=
  if inst.decode.any takesAddress then { inst with storage := addToI32 inst.storage n } else inst

structure Relocatable (n : Nat) (p : Program) : Prop where
  noRegisterJump : ∀ inst ∈ p.code, ∀ op ∈ inst.decode, op.isRegisterJump = false
  inRange : ∀ inst ∈ p.code, ∀ op ∈ inst.decode, takesAddress op = true →
    0 ≤ inst.storage.asI32.toInt ∧ inst.storage.asI32.toInt + n < 2 ^ 31

def shiftFrames (n : Nat) (frames : SizeT) (fm : Fin frameCount → CallFrame) :
    Fin frameCount → CallFrame :=
  fun l =>
    if l.val < frames.toNat then { fm l with rip := (fm l).rip + BitVec.ofNat 64 n } else fm l

def shift (n : Nat) (p' : Program) (m : Machine) : Machine :=
  { m with
    program := p'
    pc := m.pc + BitVec.ofNat 64 n
    frameMemory := shiftFrames n m.frames m.frameMemory }

theorem asI32_addToI32 (s : UniformStrg) (n : Nat) :
    UniformStrg.asI32 (addToI32 s n) = UniformStrg.asI32 s + BitVec.ofNat 32 n := by
  unfold addToI32
  generalize UniformStrg.asI32 s + BitVec.ofNat 32 n = low
  rw [UniformStrg.asI32, BitVec.setWidth_append, dif_pos (Nat.le_refl 32), BitVec.setWidth_eq]

@[simp] theorem relocate_argumentReg (n : Nat) (inst : Instruction) :
    (relocate n inst).argumentReg = inst.argumentReg := by
  unfold relocate
  split <;> rfl

@[simp] theorem relocate_decode (n : Nat) (inst : Instruction) :
    (relocate n inst).decode = inst.decode := by
  unfold relocate
  split <;> rfl

theorem shiftFrames_update_dead (n : Nat) {frames : SizeT} {i : Fin frameCount}
    (h : frames.toNat ≤ i.val) (fm : Fin frameCount → CallFrame) (frame : CallFrame) :
    shiftFrames n frames (Function.update fm i frame) =
      Function.update (shiftFrames n frames fm) i frame := by
  funext l
  by_cases hl : l = i
  · subst hl
    simp [shiftFrames, Nat.not_lt.mpr h]
  · simp [shiftFrames, Function.update_of_ne hl]

theorem shiftFrames_push (n : Nat) {frames : SizeT} (room : frames.toNat < frameCount)
    (fm : Fin frameCount → CallFrame) (rip : SizeT) (bfp lvp : Uint) :
    shiftFrames n (frames + 1) (Function.update fm ⟨frames.toNat, room⟩ ⟨rip, bfp, lvp⟩) =
      Function.update (shiftFrames n frames fm) ⟨frames.toNat, room⟩
        ⟨rip + BitVec.ofNat 64 n, bfp, lvp⟩ := by
  funext l
  unfold shiftFrames
  rw [frames_succ room]
  by_cases hl : l = ⟨frames.toNat, room⟩
  · subst hl
    rw [Function.update_self, Function.update_self, if_pos (Nat.lt_succ_self _)]
  · have hne : l.val ≠ frames.toNat := fun h => hl (Fin.ext h)
    have hlt : l.val < frames.toNat + 1 ↔ l.val < frames.toNat := by omega
    simp only [Function.update_of_ne hl, hlt]

theorem shiftFrames_pop (n : Nat) {frames : SizeT} (live : frames ≠ 0)
    (room : (frames - 1).toNat < frameCount) (fm : Fin frameCount → CallFrame) :
    shiftFrames n (frames - 1) (Function.update fm ⟨(frames - 1).toNat, room⟩ .zero) =
      Function.update (shiftFrames n frames fm) ⟨(frames - 1).toNat, room⟩ .zero := by
  funext l
  unfold shiftFrames
  rw [frames_pred live]
  by_cases hl : l = ⟨(frames - 1).toNat, room⟩
  · subst hl
    rw [Function.update_self, Function.update_self, if_neg (Nat.lt_irrefl _)]
  · have hne : l.val ≠ (frames - 1).toNat := fun h => hl (Fin.ext h)
    have hlt : l.val < (frames - 1).toNat + 1 ↔ l.val < (frames - 1).toNat := by omega
    simp only [Function.update_of_ne hl, hlt]

theorem shiftFrames_live (n : Nat) {frames : SizeT} {i : Fin frameCount}
    (h : i.val < frames.toNat) (fm : Fin frameCount → CallFrame) :
    (shiftFrames n frames fm i).rip = (fm i).rip + BitVec.ofNat 64 n := by
  simp [shiftFrames, h]

theorem relocate_of_not_address {n : Nat} {inst : Instruction} {op : Inst}
    (hop : inst.decode = some op) (h : takesAddress op = false) : relocate n inst = inst := by
  simp [relocate, hop, h]

theorem relocate_asI32 {n : Nat} {inst : Instruction} {op : Inst}
    (hop : inst.decode = some op) (h : takesAddress op = true) :
    (relocate n inst).storage.asI32 = inst.storage.asI32 + BitVec.ofNat 32 n := by
  simp [relocate, hop, h, asI32_addToI32]

section Target

variable {n : Nat} {v : BitVec 32}

theorem target_toNat (nonneg : 0 ≤ v.toInt) (below : v.toInt + n < 2 ^ 31) :
    2 * (v.toNat + n) < 2 ^ 32 ∧ (v + BitVec.ofNat 32 n).toNat = v.toNat + n := by
  have hv := BitVec.toInt_eq_toNat_cond v
  have hlt := v.isLt
  split at hv
  · have hsum : v.toNat + n < 2 ^ 31 := by omega
    refine ⟨by omega, ?_⟩
    rw [BitVec.toNat_add, BitVec.toNat_ofNat]
    omega
  · omega

theorem target_setWidth (nonneg : 0 ≤ v.toInt) (below : v.toInt + n < 2 ^ 31) :
    (v + BitVec.ofNat 32 n).setWidth 64 = v.setWidth 64 + BitVec.ofNat 64 n := by
  obtain ⟨hlt, hsum⟩ := target_toNat nonneg below
  apply BitVec.eq_of_toNat_eq
  simp only [BitVec.toNat_setWidth, BitVec.toNat_add (w := 64), BitVec.toNat_ofNat, hsum]
  omega

theorem target_signExtend (nonneg : 0 ≤ v.toInt) (below : v.toInt + n < 2 ^ 31) :
    (v + BitVec.ofNat 32 n).signExtend 64 = v.signExtend 64 + BitVec.ofNat 64 n := by
  obtain ⟨hlt, hsum⟩ := target_toNat nonneg below
  have hmsb : v.msb = false := BitVec.msb_eq_false_iff_two_mul_lt.mpr (by omega)
  have hmsb' : (v + BitVec.ofNat 32 n).msb = false :=
    BitVec.msb_eq_false_iff_two_mul_lt.mpr (by omega)
  rw [BitVec.signExtend_eq_setWidth_of_msb_false hmsb,
    BitVec.signExtend_eq_setWidth_of_msb_false hmsb']
  exact target_setWidth nonneg below

end Target

section Commutes

variable (n : Nat) (p' : Program) {m : Machine} {inst : Instruction}

theorem shift_bind {α : Type} {c : Except Fault α} {f f' : α → Except Fault Machine}
    (h : ∀ a, f' a = shift n p' <$> f a) : (c >>= f') = shift n p' <$> (c >>= f) := by
  rw [map_bind]
  exact bind_congr h

theorem shift_ite {c : Prop} [Decidable c] {a a' b b' : Except Fault Machine}
    (ha : a' = shift n p' <$> a) (hb : b' = shift n p' <$> b) :
    (if c then a' else b') = shift n p' <$> (if c then a else b) := by
  split
  · exact ha
  · exact hb

theorem shift_setDReg (r : Byte) (v : Uint) :
    (shift n p' m).setDReg r v = shift n p' <$> m.setDReg r v :=
  shift_bind n p' fun _ => rfl

theorem shift_setFReg (r : Byte) (v : Float32Bits) :
    (shift n p' m).setFReg r v = shift n p' <$> m.setFReg r v :=
  shift_bind n p' fun _ => rfl

theorem shift_intOp (f : Uint → Uint → Uint) :
    (shift n p' m).intOp inst f = shift n p' <$> m.intOp inst f :=
  shift_bind n p' fun _ => shift_bind n p' fun _ => shift_setDReg n p' _ _

theorem shift_floatOp (f : Float32Bits → Float32Bits → Float32Bits) :
    (shift n p' m).floatOp inst f = shift n p' <$> m.floatOp inst f :=
  shift_bind n p' fun _ => shift_bind n p' fun _ => shift_setFReg n p' _ _

theorem shift_floatCompare (f : Float32Bits → Float32Bits → Bool) :
    (shift n p' m).floatCompare inst f = shift n p' <$> m.floatCompare inst f :=
  shift_bind n p' fun _ => shift_bind n p' fun _ => shift_setDReg n p' _ _

theorem shift_logicalAnd : (shift n p' m).logicalAnd inst = shift n p' <$> m.logicalAnd inst :=
  shift_bind n p' fun _ => shift_ite n p' (shift_setDReg n p' _ _)
    (shift_bind n p' fun _ => shift_setDReg n p' _ _)

theorem shift_logicalOr : (shift n p' m).logicalOr inst = shift n p' <$> m.logicalOr inst :=
  shift_bind n p' fun _ => shift_ite n p' (shift_setDReg n p' _ _)
    (shift_bind n p' fun _ => shift_setDReg n p' _ _)

theorem shift_divide : (shift n p' m).divide inst = shift n p' <$> m.divide inst :=
  shift_bind n p' fun _ => shift_bind n p' fun _ => shift_ite n p' rfl (shift_setDReg n p' _ _)

theorem shift_push : (shift n p' m).push inst = shift n p' <$> m.push inst :=
  shift_bind n p' fun _ => shift_bind n p' fun _ => rfl

theorem shift_pop : (shift n p' m).pop inst = shift n p' <$> m.pop inst :=
  shift_bind n p' fun vt => shift_setDReg n p' (m := { m with stackTop := vt.2 }) _ _

theorem shift_save (slot : Byte) (value : Except Fault (BitVec 32)) :
    (do
      let address ← (shift n p' m).dReg slot
      let v ← value
      let stackMemory ← copyIn (shift n p' m).stackMemory address.toNat v
      return { shift n p' m with stackMemory }) = shift n p' <$> (do
      let address ← m.dReg slot
      let v ← value
      let stackMemory ← copyIn m.stackMemory address.toNat v
      return { m with stackMemory }) :=
  shift_bind n p' fun _ => shift_bind n p' fun _ => shift_bind n p' fun _ => rfl

theorem shift_print (host : Host) : (shift n p' m).print host = shift n p' <$> m.print host := by
  simp only [Machine.print]
  change (if h : (m.iregisters 1).toNat + (m.iregisters 2).toNat ≤ stackSize then _ else _) = _
  split
  · exact shift_ite n p' rfl rfl
  · rfl

theorem shift_regDump : (shift n p' m).regDump inst = shift n p' <$> m.regDump inst :=
  shift_ite n p' (shift_bind n p' fun _ => rfl) rfl

theorem shift_jumpImmediateIf {inst' : Instruction} (f : Uint → Uint → Bool)
    (hregs : inst'.argumentReg = inst.argumentReg)
    (htarget : inst'.storage.asI32.setWidth 64 =
      inst.storage.asI32.setWidth 64 + BitVec.ofNat 64 n) :
    (shift n p' m).jumpImmediateIf inst' f = shift n p' <$> m.jumpImmediateIf inst f := by
  unfold Machine.jumpImmediateIf Instruction.r1 Instruction.r2
  rw [hregs, htarget]
  exact shift_bind n p' fun _ => shift_bind n p' fun _ => shift_ite n p' rfl rfl

theorem shift_startRecord : (shift n p' m).startRecord = shift n p' <$> m.startRecord := by
  have hframes : (shift n p' m).frames = m.frames := rfl
  unfold Machine.startRecord record
  rw [hframes]
  cases h : frameIndex m.frames with
  | error e => rfl
  | ok i =>
    obtain ⟨room, rfl⟩ := frameIndex_ok h
    have hdead : m.frames.toNat ≤ (⟨m.frames.toNat, room⟩ : Fin frameCount).val := Nat.le_refl _
    exact congrArg (fun fm => Except.ok { shift n p' m with frameMemory := fm })
      (shiftFrames_update_dead n hdead _ _).symm

theorem shift_enter {inst' : Instruction} (hlog : m.coreLogger = none)
    (htarget : inst'.storage.asI32.signExtend 64 =
      inst.storage.asI32.signExtend 64 + BitVec.ofNat 64 n) :
    (shift n p' m).enter inst' = shift n p' <$> m.enter inst := by
  have hframes : (shift n p' m).frames = m.frames := rfl
  have hlog' : (shift n p' m).coreLogger = none := hlog
  have hpc : (shift n p' m).pc + 1 = m.pc + 1 + BitVec.ofNat 64 n := by
    change m.pc + BitVec.ofNat 64 n + 1 = _
    rw [BitVec.add_assoc, BitVec.add_comm (BitVec.ofNat 64 n), BitVec.add_assoc]
  unfold Machine.enter call
  rw [hframes, hpc, htarget]
  simp only [Machine.log, hlog, hlog', Option.map_none]
  cases h : frameIndex m.frames with
  | error e => rfl
  | ok i =>
    obtain ⟨room, rfl⟩ := frameIndex_ok h
    exact congrArg (fun fm => Except.ok { shift n p' m with
        frameMemory := fm
        frames := m.frames + 1
        pc := inst.storage.asI32.signExtend 64 + BitVec.ofNat 64 n
        coreLogger := none })
      (shiftFrames_push n room _ _ _ _).symm

theorem shift_returnToCaller (hlog : m.coreLogger = none) :
    (shift n p' m).returnToCaller = shift n p' <$> m.returnToCaller := by
  have hframes : (shift n p' m).frames = m.frames := rfl
  have hlog' : (shift n p' m).coreLogger = none := hlog
  have hmem : (shift n p' m).frameMemory = shiftFrames n m.frames m.frameMemory := rfl
  unfold Machine.returnToCaller
  rw [hframes]
  by_cases live : m.frames ≠ 0
  · rw [if_pos live, if_pos live]
    cases h : frameIndex (m.frames - 1) with
    | error e => rfl
    | ok i =>
      obtain ⟨room, rfl⟩ := frameIndex_ok h
      have hlive : (m.frames - 1).toNat < m.frames.toNat := frames_pred live ▸ Nat.lt_succ_self _
      have hrip := shiftFrames_live n (i := ⟨(m.frames - 1).toNat, room⟩) hlive m.frameMemory
      have hpc : (m.frameMemory ⟨(m.frames - 1).toNat, room⟩).rip + BitVec.ofNat 64 n - 1 =
          (m.frameMemory ⟨(m.frames - 1).toNat, room⟩).rip - 1 + BitVec.ofNat 64 n := by
        bv_omega
      have hpop := shiftFrames_pop n live room m.frameMemory
      change Except.ok _ = Except.ok _
      simp only [Machine.log, hlog, hlog', Option.map_none]
      rw [hmem, hrip, hpc, ← hpop]
      rfl
  · rw [if_neg live, if_neg live]
    cases h : frameIndex m.frames with
    | error e => rfl
    | ok i =>
      change Except.ok _ = Except.ok _
      simp only [Machine.log, hlog, hlog', Option.map_none]
      rfl

theorem shift_leave (hlog : m.coreLogger = none) :
    (shift n p' m).leave inst = shift n p' <$> m.leave inst :=
  shift_bind n p' fun value =>
    shift_returnToCaller n p' (m := { m with accumRegister := value }) hlog

theorem shift_executeOpcode {host : Host} {op : Inst} (hlog : m.coreLogger = none)
    (hop : inst.decode = some op) (hreg : op.isRegisterJump = false)
    (hrange : takesAddress op = true →
      0 ≤ inst.storage.asI32.toInt ∧ inst.storage.asI32.toInt + n < 2 ^ 31) :
    executeOpcode host (shift n p' m) (relocate n inst) op =
      shift n p' <$> executeOpcode host m inst op := by
  cases ht : takesAddress op with
  | true =>
    obtain ⟨nonneg, below⟩ := hrange ht
    have hzero := (congrArg _ (relocate_asI32 (n := n) hop ht)).trans (target_setWidth nonneg below)
    have hsign := (congrArg _ (relocate_asI32 (n := n) hop ht)).trans
      (target_signExtend nonneg below)
    have hregs := relocate_argumentReg n inst
    cases op with
    | iJmp =>
      exact congrArg (fun pc => Except.ok { shift n p' m with pc }) hzero
    | iEjmp => exact shift_jumpImmediateIf n p' _ hregs hzero
    | iNejmp => exact shift_jumpImmediateIf n p' _ hregs hzero
    | iCall => exact shift_enter n p' hlog hsign
    | _ => cases ht
  | false =>
    rw [relocate_of_not_address hop ht]
    cases op with
    | iEntry => rfl
    | iHalt => rfl
    | iPush => exact shift_push n p'
    | iPop => exact shift_pop n p'
    | iRec => exact shift_startRecord n p'
    | iGetac => exact shift_setDReg n p' _ _
    | iDiv => exact shift_divide n p'
    | iAnd => exact shift_logicalAnd n p'
    | iOr => exact shift_logicalOr n p'
    | iDsave => exact shift_save n p' inst.r1 (m.dReg inst.r0)
    | iFsave => exact shift_save n p' inst.r1 (m.fReg inst.r0)
    | iFset => exact shift_setFReg n p' _ _
    | iSet => exact shift_setDReg n p' _ _
    | iPrint => exact shift_print n p' host
    | iRegDump => exact shift_regDump n p'
    | iRet => exact shift_leave n p' hlog
    | iNop => rfl
    | iRjmp | iErjmp | iNerjmp => cases hreg
    | iJmp | iEjmp | iNejmp | iCall => cases ht
    | iDload => exact shift_bind n p' fun _ => shift_bind n p' fun _ => shift_setDReg n p' _ _
    | iFload => exact shift_bind n p' fun _ => shift_setFReg n p' _ _
    | iAdd | iSub | iMul | iCmpe | iCmpeg | iCmpel | iCmpg | iCmpl => exact shift_intOp n p' _
    | iFadd | iFsub | iFdiv | iFmul => exact shift_floatOp n p' _
    | iFcmpe | iFcmpeg | iFcmpel | iFcmpg | iFcmpl => exact shift_floatCompare n p' _
    | iInc | iDec | iCu2i | iCi2u | iCf2i | iCf2u =>
      exact shift_bind n p' fun _ => shift_setDReg n p' _ _
    | iCi2f | iCu2f => exact shift_bind n p' fun _ => shift_setFReg n p' _ _

theorem shift_executeInst {host : Host} (hlog : m.coreLogger = none)
    (hreg : ∀ op ∈ inst.decode, op.isRegisterJump = false)
    (hrange : ∀ op ∈ inst.decode, takesAddress op = true →
      0 ≤ inst.storage.asI32.toInt ∧ inst.storage.asI32.toInt + n < 2 ^ 31) :
    executeInst host (shift n p' m) (relocate n inst) = shift n p' <$> executeInst host m inst := by
  unfold executeInst
  rw [relocate_decode]
  cases hop : inst.decode with
  | none => rfl
  | some op => exact shift_executeOpcode n p' hlog hop (hreg op hop) (hrange op hop)

end Commutes

def RipInRange (frames : SizeT) (fm : Fin frameCount → CallFrame) : Prop :=
  ∀ l : Fin frameCount, l.val < frames.toNat →
    0 < (fm l).rip.toNat ∧ (fm l).rip.toNat ≤ 2 ^ 60 + 1

structure Bounded (p : Program) (m : Machine) : Prop where
  program : m.program = p
  silent : m.coreLogger = none
  pc_le : m.pc.toNat ≤ 2 ^ 60
  rip : RipInRange m.frames m.frameMemory

theorem bounded_init (g : Globals) (p : Program) : Bounded p (initMachine g p) := by
  refine ⟨rfl, rfl, Nat.zero_le _, ?_⟩
  intro l hl
  exact absurd hl (Nat.not_lt_zero _)

theorem RipInRange.update {frames : SizeT} {fm : Fin frameCount → CallFrame}
    (h : RipInRange frames fm) {i : Fin frameCount} (hi : frames.toNat ≤ i.val)
    (frame : CallFrame) : RipInRange frames (Function.update fm i frame) := by
  intro l hl
  have hne : l ≠ i := by
    rintro rfl
    omega
  rw [Function.update_of_ne hne]
  exact h l hl

theorem RipInRange.push {frames : SizeT} {fm : Fin frameCount → CallFrame}
    (h : RipInRange frames fm) (room : frames.toNat < frameCount) {frame : CallFrame}
    (hpos : 0 < frame.rip.toNat) (hle : frame.rip.toNat ≤ 2 ^ 60 + 1) :
    RipInRange (frames + 1) (Function.update fm ⟨frames.toNat, room⟩ frame) := by
  intro l hl
  rw [frames_succ room] at hl
  by_cases heq : l = ⟨frames.toNat, room⟩
  · subst heq
    rw [Function.update_self]
    exact ⟨hpos, hle⟩
  · have hne : l.val ≠ frames.toNat := fun hv => heq (Fin.ext hv)
    rw [Function.update_of_ne heq]
    exact h l (by omega)

theorem RipInRange.pop {frames : SizeT} {fm : Fin frameCount → CallFrame}
    (h : RipInRange frames fm) (live : frames ≠ 0) : RipInRange (frames - 1) fm := by
  have hpred := frames_pred live
  intro l hl
  exact h l (by omega)

section Step

variable {host : Host} {n : Nat} {p p' : Program} {m m' : Machine} {inst : Instruction}

theorem advance_pc_toNat (hlt : m.pc.toNat < p.code.length) :
    m.advance.pc.toNat = m.pc.toNat + 1 := by
  have := p.size_lt
  change (m.pc + 1).toNat = _
  bv_omega

theorem target_le {v : BitVec 32} (nonneg : 0 ≤ v.toInt) : (v.signExtend 64).toNat ≤ 2 ^ 60 := by
  have hlt := v.isLt
  have hmsb : v.msb = false := by
    rw [BitVec.msb_eq_false_iff_two_mul_lt]
    have hv := BitVec.toInt_eq_toNat_cond v
    split at hv <;> omega
  rw [BitVec.signExtend_eq_setWidth_of_msb_false hmsb, BitVec.toNat_setWidth]
  omega

theorem Bounded.step (h : Bounded p m) (hlt : m.pc.toNat < p.code.length)
    (hreg : ∀ op ∈ inst.decode, op.isRegisterJump = false)
    (hrange : ∀ op ∈ inst.decode, takesAddress op = true →
      0 ≤ inst.storage.asI32.toInt ∧ inst.storage.asI32.toInt + n < 2 ^ 31)
    (he : Effect inst m.advance inst.decode m') : Bounded p m' := by
  have hsize := p.size_lt
  have hpc := advance_pc_toNat hlt
  have hnext : m.advance.pc.toNat ≤ 2 ^ 60 := by omega
  have hprog : m'.program = p := he.program_unchanged.trans h.program
  have hlog : m'.coreLogger = none := he.coreLogger_none h.silent
  have hrip : RipInRange m.advance.frames m.advance.frameMemory := h.rip
  generalize hd : inst.decode = op at he
  refine ⟨hprog, hlog, ?_, ?_⟩
  · cases he with
    | jump kind =>
      change (inst.storage.asI32.setWidth 64).toNat ≤ _
      rw [BitVec.toNat_setWidth]
      omega
    | registerJump target kind =>
      exact absurd (hreg _ hd) (by simp [kind])
    | call room line => exact target_le (hrange .iCall hd rfl).1
    | ret accumRegister line live room =>
      obtain ⟨hpos, hle⟩ := hrip ⟨_, room⟩ (frames_pred live ▸ Nat.lt_succ_self _)
      change ((m.advance.frameMemory ⟨_, room⟩).rip - 1).toNat ≤ _
      bv_omega
    | _ => exact hnext
  · cases he with
    | record room => exact hrip.update (Nat.le_refl _) _
    | call room line =>
      apply hrip.push room
      · change 0 < (m.advance.pc + 1).toNat
        bv_omega
      · change (m.advance.pc + 1).toNat ≤ _
        bv_omega
    | ret accumRegister line live room => exact (hrip.pop live).update (Nat.le_refl _) _
    | _ => exact hrip

theorem shift_advance (n : Nat) (p' : Program) (m : Machine) :
    (shift n p' m).advance = shift n p' m.advance := by
  have hpc : m.pc + BitVec.ofNat 64 n + 1 = m.pc + 1 + BitVec.ofNat 64 n := by
    rw [BitVec.add_assoc, BitVec.add_comm (BitVec.ofNat 64 n), BitVec.add_assoc]
  exact congrArg (fun pc => { shift n p' m with pc }) hpc

end Step

structure Relocated (n : Nat) (p p' : Program) : Prop extends Relocatable n p where
  code_eq : ∃ nops : List Instruction, nops.length = n ∧
    (∀ inst ∈ nops, inst.decode = some .iNop) ∧ p'.code = nops ++ p.code.map (relocate n)

namespace Relocated

variable {host : Host} {n : Nat} {p p' : Program} {m m' : Machine}

theorem length_eq (h : Relocated n p p') : p'.code.length = n + p.code.length := by
  obtain ⟨nops, rfl, -, hcode⟩ := h.code_eq
  rw [hcode, List.length_append, List.length_map]

theorem code_nop (h : Relocated n p p') {j : Nat} (hj : j < n) :
    ∃ inst, p'.code[j]? = some inst ∧ inst.decode = some .iNop := by
  obtain ⟨nops, rfl, hnops, hcode⟩ := h.code_eq
  refine ⟨nops[j], ?_, hnops _ (List.getElem_mem hj)⟩
  rw [hcode, List.getElem?_append_left hj, List.getElem?_eq_getElem hj]

theorem code_relocate (h : Relocated n p p') (j : Nat) :
    p'.code[j + n]? = p.code[j]?.map (relocate n) := by
  obtain ⟨nops, rfl, -, hcode⟩ := h.code_eq
  rw [hcode, List.getElem?_append_right (Nat.le_add_left _ _), Nat.add_sub_cancel,
    List.getElem?_map]

theorem shift_pc_toNat (h : Relocated n p p') (hm : Bounded p m) :
    (shift n p' m).pc.toNat = m.pc.toNat + n := by
  have hlen := h.length_eq
  have hsize := p'.size_lt
  have hpc := hm.pc_le
  change (m.pc + BitVec.ofNat 64 n).toNat = _
  rw [BitVec.toNat_add, BitVec.toNat_ofNat]
  omega

theorem shift_rip_toNat (h : Relocated n p p') (hm : Bounded p m) {l : Fin frameCount}
    (hl : l.val < m.frames.toNat) :
    ((shift n p' m).frameMemory l).rip.toNat = (m.frameMemory l).rip.toNat + n := by
  have hlen := h.length_eq
  have hsize := p'.size_lt
  have hrip := (hm.rip l hl).2
  change (shiftFrames n m.frames m.frameMemory l).rip.toNat = _
  rw [shiftFrames_live n hl, BitVec.toNat_add, BitVec.toNat_ofNat]
  omega

theorem shift_guard (h : Relocated n p p') (hm : Bounded p m) :
    (vmLoop host).guard (shift n p' m) = (vmLoop host).guard m := by
  rw [Bool.eq_iff_iff, guard_iff, guard_iff, h.shift_pc_toNat hm, hm.program]
  change _ + n < p'.code.length ∧ m.isRunning = true ↔ _
  rw [h.length_eq, Nat.add_comm n, Nat.add_lt_add_iff_right]

theorem shift_step (h : Relocated n p p') (hm : Bounded p m)
    (hlt : m.pc.toNat < p.code.length) (hstep : executeOp host m = .ok m') :
    executeOp host (shift n p' m) = .ok (shift n p' m') ∧ Bounded p m' := by
  obtain ⟨inst, hf, he⟩ := executeOp_effect hstep
  rw [executeOp_of_fetched hf] at hstep
  have hget : p.code[m.pc.toNat]? = some inst := by
    rw [← hm.program]
    exact hf
  have hmem := List.mem_of_getElem? hget
  have hreg := h.noRegisterJump inst hmem
  have hrange := h.inRange inst hmem
  have hf' : (shift n p' m).fetched = some (relocate n inst) := by
    change p'.code[(shift n p' m).pc.toNat]? = _
    rw [h.shift_pc_toNat hm, h.code_relocate, hget]
    rfl
  refine ⟨?_, hm.step hlt hreg hrange he⟩
  rw [executeOp_of_fetched hf', shift_advance]
  have hlog : m.advance.coreLogger = none := hm.silent
  rw [shift_executeInst n p' hlog hreg hrange, hstep]
  rfl

theorem run_nops (h : Relocated n p p') (host : Host) (g : Globals) {j : Nat} (hj : j ≤ n) :
    executeProgram host j (initMachine g p') =
      .ok { initMachine g p' with pc := BitVec.ofNat 64 j } := by
  induction j with
  | zero => rfl
  | succ j ih =>
    obtain ⟨inst, hget, hnop⟩ := h.code_nop hj
    have hlen := h.length_eq
    have hsize := p'.size_lt
    have hpc : (BitVec.ofNat 64 j).toNat = j := by
      rw [BitVec.toNat_ofNat]
      omega
    have hguard : (vmLoop host).guard { initMachine g p' with pc := BitVec.ofNat 64 j } = true := by
      refine guard_iff.mpr ⟨?_, rfl⟩
      change (BitVec.ofNat 64 j).toNat < p'.code.length
      omega
    have hf : { initMachine g p' with pc := BitVec.ofNat 64 j }.fetched = some inst := by
      change p'.code[(BitVec.ofNat 64 j).toNat]? = _
      rw [hpc, hget]
    have hnext : BitVec.ofNat 64 j + 1 = BitVec.ofNat 64 (j + 1) := by
      rw [BitVec.ofNat_add]
      rfl
    rw [executeProgram, Loop.run_succ_last]
    have hrun := ih (by omega)
    rw [executeProgram] at hrun
    rw [hrun]
    change (vmLoop host).iterate _ = _
    rw [Loop.iterate_of_guard hguard]
    change executeOp host _ = _
    rw [executeOp_of_fetched hf, executeInst, hnop]
    exact congrArg (fun pc => Except.ok { initMachine g p' with pc }) hnext

theorem shift_init (n : Nat) (g : Globals) (p p' : Program) :
    shift n p' (initMachine g p) = { initMachine g p' with pc := BitVec.ofNat 64 n } := by
  have hpc : (0 : SizeT) + BitVec.ofNat 64 n = BitVec.ofNat 64 n := BitVec.zero_add _
  exact congrArg (fun pc => { initMachine g p' with pc }) hpc

theorem run_shift (h : Relocated n p p') (g : Globals) {k : Nat}
    (hrun : executeProgram host k (initMachine g p) = .ok m) :
    executeProgram host (n + k) (initMachine g p') = .ok (shift n p' m) ∧ Bounded p m := by
  have guards (s t : Machine) (hR : t = shift n p' s ∧ Bounded p s) :
      (vmLoop host).guard s = (vmLoop host).guard t := by
    obtain ⟨rfl, hs⟩ := hR
    exact (h.shift_guard hs).symm
  have bodies (s t s' : Machine) (hR : t = shift n p' s ∧ Bounded p s)
      (hg : (vmLoop host).guard s = true) (hbody : (vmLoop host).body s = .ok s') :
      ∃ t', (vmLoop host).body t = .ok t' ∧ t' = shift n p' s' ∧ Bounded p s' := by
    obtain ⟨rfl, hs⟩ := hR
    obtain ⟨hlt, -⟩ := guard_iff.mp hg
    obtain ⟨hstep, hs'⟩ := h.shift_step hs (hs.program ▸ hlt) hbody
    exact ⟨shift n p' s', hstep, rfl, hs'⟩
  obtain ⟨t, ht, rfl, hm⟩ := Loop.run_lockstep _ guards bodies ⟨rfl, bounded_init g p⟩ hrun
  have hnops := h.run_nops host g (Nat.le_refl n)
  refine ⟨?_, hm⟩
  rw [executeProgram] at hnops ⊢
  rw [Loop.run_add, hnops, ← shift_init n g p p']
  exact ht

end Relocated

theorem relocation_simulation (host : Host) (g : Globals) (n : Nat) (p p' : Program)
    (h : Relocated n p p') (k : Nat) (m : Machine)
    (hrun : executeProgram host k (initMachine g p) = .ok m) :
    executeProgram host (n + k) (initMachine g p') = .ok (shift n p' m) ∧
      (shift n p' m).pc.toNat = m.pc.toNat + n ∧
      (∀ l : Fin frameCount, l.val < m.frames.toNat →
        ((shift n p' m).frameMemory l).rip.toNat = (m.frameMemory l).rip.toNat + n) ∧
      (vmLoop host).guard (shift n p' m) = (vmLoop host).guard m := by
  obtain ⟨hshift, hm⟩ := h.run_shift g hrun
  exact ⟨hshift, h.shift_pc_toNat hm, fun l hl => h.shift_rip_toNat hm hl, h.shift_guard hm⟩

def moved : Program :=
  ⟨List.replicate 2 (Build.operands .iNop 0 0 0 0) ++ Program.oneCall.code.map (relocate 2),
    by decide⟩

theorem moved_relocated : Relocated 2 .oneCall moved where
  noRegisterJump := by decide
  inRange := by decide
  code_eq := ⟨_, rfl, by decide, rfl⟩

theorem relocation_simulation_one_call :
    ∃ m, executeProgram Host.integer 2 (initMachine .zero .oneCall) = .ok m ∧
      executeProgram Host.integer 4 (initMachine .zero moved) = .ok (shift 2 moved m) := by
  refine ⟨_, rfl, ?_⟩
  exact (relocation_simulation Host.integer .zero 2 .oneCall moved moved_relocated 2 _ rfl).1

end Relocation

end CAt
