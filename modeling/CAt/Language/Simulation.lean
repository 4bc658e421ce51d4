import CAt.Assembler.ConditionalJumps
import CAt.Language.Layout
import CAt.Language.Semantics
import CAt.Vm.InstructionTraces

namespace CAt

namespace Language

open GuardedLoop
open RegisterInstructions (Mnemonic Ready built performed executeOpcode_built)
open ConditionalJumps (jumpImmediateIf_build)

theorem findFrom_le {name : LabelName} {n k : Nat} {ls : List Line}
    (h : findFrom name n ls = some k) : k ≤ n + (statements ls).length := by
  induction ls generalizing n with
  | nil => cases h
  | cons l ls ih =>
    cases l with
    | label other =>
      rw [findFrom] at h
      split at h
      · cases h
        exact Nat.le_add_right _ _
      · exact ih h
    | statement s =>
      have := ih h
      rw [statements, List.length_cons]
      omega

namespace Source

variable (p : Source)

theorem position_le (name : LabelName) : p.position name ≤ programSize := by
  rw [position]
  cases hfind : findFrom name 0 p.lines with
  | none => exact Nat.zero_le _
  | some k =>
    have := findFrom_le hfind
    have := p.statementsFit
    rw [Option.getD_some]
    omega

theorem resolve_lt (target : Target) : target.resolve p.position < 10000 := by
  cases target with
  | address a => exact a.isLt
  | label name => exact Nat.lt_of_le_of_lt (p.position_le name) (by decide)

theorem length_code (host : Host) : (p.code host).length = p.statements.length :=
  List.length_map _

def program (host : Host) : Program where
  code := p.code host
  size_lt := by
    rw [p.length_code]
    exact Nat.lt_of_le_of_lt p.statementsFit (by decide)

end Source

def Framed (frames : Fin frameCount → CallFrame) : List Nat → Prop
  | [] => True
  | caller :: callers =>
    (∃ h : callers.length < frameCount, (frames ⟨callers.length, h⟩).rip.toNat = caller + 1) ∧
      Framed frames callers

theorem Framed.congr {frames frames' : Fin frameCount → CallFrame} {callers : List Nat}
    (h : Framed frames callers) (heq : ∀ l, l.val < callers.length → frames' l = frames l) :
    Framed frames' callers := by
  induction callers with
  | nil => trivial
  | cons caller callers ih =>
    obtain ⟨⟨hlt, hrip⟩, hrest⟩ := h
    refine ⟨⟨hlt, ?_⟩, ih hrest fun l hl => heq l (Nat.lt_succ_of_lt hl)⟩
    rw [heq ⟨callers.length, hlt⟩ (Nat.lt_succ_self _)]
    exact hrip

-- `bfp`, `lvp`, the log and what the memory holds above the stack are the machine's own.
structure Represents (host : Host) (p : Source) (s : State) (m : Machine) : Prop where
  code : m.program.code = p.code host
  pc : m.pc.toNat = s.next
  iregisters : m.iregisters = s.registers
  fregisters : m.fregisters = s.floats
  accumRegister : m.accumRegister = s.accumulator
  isRunning : m.isRunning = s.running
  writes : m.writes = s.output
  stderr : m.stderr = []
  stackTop : m.stackTop.toNat = 4 * s.stack.length
  stackRoom : s.stack.length ≤ maxWords
  stackMemory : ByteMemory.Holds m.stackMemory 4 s.stack.reverse
  frames : m.frames.toNat = s.callers.length
  frameRoom : s.callers.length ≤ frameCount
  frameMemory : Framed m.frameMemory s.callers

theorem represents_init {host : Host} {p : Source} {g : Globals}
    (hregisters : g.dRegisters = fun _ => 0) (hfloats : g.fRegisters = fun _ => 0) :
    Represents host p .init (initMachine g (p.program host)) where
  code := rfl
  pc := rfl
  iregisters := hregisters
  fregisters := hfloats
  accumRegister := rfl
  isRunning := rfl
  writes := rfl
  stderr := rfl
  stackTop := rfl
  stackRoom := Nat.zero_le _
  stackMemory := ByteMemory.holds_nil _ 4
  frames := rfl
  frameRoom := Nat.zero_le _
  frameMemory := trivial

def Yields (host : Host) (p : Source) (c : Except Fault Machine) (s : State) : Prop :=
  ∃ m, c = .ok m ∧ Represents host p s m

namespace Represents

variable {host : Host} {p : Source} {s s' : State} {m : Machine}

theorem guard_eq (h : Represents host p s m) : (machine host p).guard s = (vmLoop host).guard m := by
  rw [Bool.eq_iff_iff, guard_iff, h.code, h.pc, h.isRunning, p.length_code, and_comm]
  simp [machine]

theorem fetched (h : Represents host p s m) : m.fetched =
    p.statements[s.next]?.map (·.encode host p.position) := by
  rw [Machine.fetched, h.code, h.pc, Source.code, List.getElem?_map]

theorem assign (h : Represents host p s m) (x : Fin intRegCount) (v : Uint) :
    Represents host p (s.assign x v)
      { m with iregisters := Function.update m.iregisters x v } :=
  { h with iregisters := congrArg (Function.update · x v) h.iregisters }

theorem assignFloat (h : Represents host p s m) (x : Fin fltRegCount) (v : Float32Bits) :
    Represents host p (s.assignFloat x v)
      { m with fregisters := Function.update m.fregisters x v } :=
  { h with fregisters := congrArg (Function.update · x v) h.fregisters }

theorem setDReg (h : Represents host p s m) (x : Fin intRegCount) (v : Uint) :
    Yields host p (m.setDReg (registerByte x) v) (s.assign x v) :=
  ⟨_, Machine.setDReg_ofNat m x v, h.assign x v⟩

theorem setFReg (h : Represents host p s m) (x : Fin intRegCount) (v : Float32Bits) :
    Yields host p (m.setFReg (registerByte x) v) (s.assignFloat x v) := by
  refine ⟨_, ?_, h.assignFloat x v⟩
  rw [Machine.setFReg, registerByte, regIndex_ofNat]
  rfl

theorem dReg (h : Represents host p s m) (x : Fin intRegCount) :
    m.dReg (registerByte x) = .ok (s.registers x) := by
  rw [← h.iregisters]
  exact Machine.dReg_ofNat m x

theorem fReg (h : Represents host p s m) (x : Fin intRegCount) :
    m.fReg (registerByte x) = .ok (s.floats x) := by
  rw [Machine.fReg, registerByte, regIndex_ofNat, ← h.fregisters]
  rfl

theorem goto (h : Represents host p s m) {n : Nat} {pc : SizeT} (hpc : pc.toNat = n) :
    Represents host p (s.goto n) { m with pc } :=
  { h with pc := hpc }

theorem log (h : Represents host p s m) (line : LogLine) : Represents host p s (m.log line) :=
  { h with }

theorem stop (h : Represents host p s m) :
    Represents host p { s with running := false } { m with isRunning := false } :=
  { h with isRunning := rfl }

theorem advance (h : Represents host p s m) (hnext : s.next < p.statements.length) :
    Represents host p s.advance m.advance := by
  have hfit := p.statementsFit
  have hpc := h.pc
  have hlt : s.next < programSize := Nat.lt_of_lt_of_le hnext hfit
  refine { h with pc := ?_ }
  change (m.pc + 1).toNat = s.next + 1
  simp only [programSize] at hlt
  bv_omega

section Statements

variable (h : Represents host p s m)

include h

theorem computeFloats (op : FloatComputation) (x y z : Fin intRegCount) :
    Yields host p
      (executeInst host m
        (Build.operands op.op (registerByte x) (registerByte y) (registerByte z) 0))
      (s.assignFloat x (op.compute host (s.floats y) (s.floats z))) := by
  have hfloatOp (f : Float32Bits → Float32Bits → Float32Bits) : m.floatOp
      (Build.operands op.op (registerByte x) (registerByte y) (registerByte z) 0) f =
        m.setFReg (registerByte x) (f (s.floats y) (s.floats z)) := by
    simp only [Machine.floatOp, Build.r0_operands, Build.r1_operands, Build.r2_operands, h.fReg,
      Loop.ok_bind]
  have hexecute : executeInst host m
      (Build.operands op.op (registerByte x) (registerByte y) (registerByte z) 0) =
        m.setFReg (registerByte x) (op.compute host (s.floats y) (s.floats z)) := by
    rw [executeInst, Build.decode_operands]
    cases op <;> exact hfloatOp _
  rw [hexecute]
  exact h.setFReg x _

theorem compareFloats (op : FloatComparison) (x y z : Fin intRegCount) :
    Yields host p
      (executeInst host m
        (Build.operands op.op (registerByte x) (registerByte y) (registerByte z) 0))
      (s.assign x (truth (op.compare host (s.floats y) (s.floats z)))) := by
  have hcompare (f : Float32Bits → Float32Bits → Bool) : m.floatCompare
      (Build.operands op.op (registerByte x) (registerByte y) (registerByte z) 0) f =
        m.setDReg (registerByte x) (truth (f (s.floats y) (s.floats z))) := by
    simp only [Machine.floatCompare, Build.r0_operands, Build.r1_operands, Build.r2_operands,
      h.fReg, Loop.ok_bind]
  have hexecute : executeInst host m
      (Build.operands op.op (registerByte x) (registerByte y) (registerByte z) 0) =
        m.setDReg (registerByte x) (truth (op.compare host (s.floats y) (s.floats z))) := by
    rw [executeInst, Build.decode_operands]
    cases op <;> exact hcompare _
  rw [hexecute]
  exact h.setDReg x _

theorem cast (op : Cast) (x y : Fin intRegCount) :
    Yields host p (executeInst host m (Build.operands op.op (registerByte x) (registerByte y) 0 0))
      (op.perform host s x y) := by
  have hword : m.dReg (Build.operands op.op (registerByte x) (registerByte y) 0 0).r1 =
    .ok (s.registers y) := h.dReg y
  have hfloat : m.fReg (Build.operands op.op (registerByte x) (registerByte y) 0 0).r1 =
    .ok (s.floats y) := h.fReg y
  rw [executeInst, Build.decode_operands]
  cases op with
  | cf2i =>
    change Yields host p (m.fReg _ >>= _) _
    rw [hfloat]
    exact h.setDReg x _
  | cf2u =>
    change Yields host p (m.fReg _ >>= _) _
    rw [hfloat]
    exact h.setDReg x _
  | ci2f =>
    change Yields host p (m.dReg _ >>= _) _
    rw [hword]
    exact h.setFReg x _
  | cu2f =>
    change Yields host p (m.dReg _ >>= _) _
    rw [hword]
    exact h.setFReg x _

theorem set (x : Fin intRegCount) (v : Uint) :
    Yields host p (executeInst host m (Build.set (registerByte x) v)) (s.assign x v) := by
  have hvalue : (Build.set (registerByte x) v).storage.asI32 = v := UniformStrg.asI32_ofI32 v
  rw [executeInst, Build.set, Build.decode_operands, ← Build.set]
  change Yields host p (m.setDReg (registerByte x) (Build.set (registerByte x) v).storage.asI32) _
  rw [hvalue]
  exact h.setDReg x v

theorem fset (x : Fin intRegCount) (v : Float32Bits) :
    Yields host p (executeInst host m (Build.fset (registerByte x) v)) (s.assignFloat x v) := by
  have hvalue : (Build.fset (registerByte x) v).storage.asF32 = v := UniformStrg.asI32_ofI32 v
  rw [executeInst, Build.fset, Build.decode_operands, ← Build.fset]
  change Yields host p (m.setFReg (registerByte x) (Build.fset (registerByte x) v).storage.asF32) _
  rw [hvalue]
  exact h.setFReg x v

theorem regDump (x : Fin intRegCount) :
    Yields host p (executeInst host m (Build.regDump (registerByte x))) s := by
  have hvalue : m.dReg (Build.regDump (registerByte x)).r0 = .ok (s.registers x) := h.dReg x
  rw [executeInst, Build.regDump, Build.decode_operands, ← Build.regDump]
  change Yields host p (m.regDump _) s
  rw [Machine.regDump]
  split
  · rw [hvalue]
    exact ⟨_, rfl, h.log _⟩
  · exact ⟨m, rfl, h⟩

theorem record (hroom : s.callers.length < frameCount) :
    Yields host p (executeInst host m Build.rec) s := by
  have hindex : frameIndex m.frames = .ok ⟨s.callers.length, hroom⟩ :=
    frameIndex_of_toNat h.frames
  have hframed : Framed (Function.update m.frameMemory ⟨s.callers.length, hroom⟩
      ⟨0, m.stackTop.setWidth 32, 0⟩) s.callers :=
    h.frameMemory.congr fun l hl => Function.update_of_ne (Fin.ne_of_lt hl) _ _
  rw [executeInst, Build.rec, Build.decode_operands]
  change Yields host p m.startRecord s
  rw [Machine.startRecord, CAt.record, hindex]
  exact ⟨_, rfl, { h with frameMemory := hframed }⟩

theorem print (hprinted : printed host s = .ok s') :
    Yields host p (executeInst host m Build.print) s' := by
  have hroom : 4 + 4 * s.stack.length ≤ stackSize := by
    have := h.stackRoom
    simp only [maxWords, stackSize] at this ⊢
    omega
  have hlength : s.stack.reverse.length = s.stack.length := List.length_reverse
  have hbytes : ByteMemory.slice m.stackMemory 4 (4 * s.stack.length) hroom = s.bytes := by
    have hslice := h.stackMemory.slice_eq (hlength ▸ hroom)
    simp only [hlength] at hslice
    exact hslice
  rw [printed] at hprinted
  split at hprinted
  · rename_i hwithin
    have hfits : (s.registers 1).toNat + (s.registers 2).toNat ≤ stackSize :=
      Nat.le_trans hwithin.2 hroom
    have hslice : ByteMemory.slice m.stackMemory (s.registers 1).toNat (s.registers 2).toNat
        hfits = (s.bytes.drop ((s.registers reg1).toNat - 4)).take (s.registers reg2).toNat := by
      rw [← hbytes]
      exact ByteMemory.slice_within m.stackMemory hroom hwithin.1 hwithin.2
    rw [executeInst, Build.print, Build.decode_operands]
    change Yields host p (m.print host) s'
    rw [Machine.print, h.iregisters, h.writes, dif_pos hfits, hslice]
    dsimp only at hprinted ⊢
    split at hprinted
    · rename_i hresult
      cases hprinted
      have hwritten : host.write s.output (s.registers 0) _ ≠ 0 := hresult
      rw [if_pos hwritten]
      exact ⟨_, rfl, { h with writes := rfl }⟩
    · cases hprinted
  · cases hprinted

theorem jump {n : Nat} (hn : n < 10000) :
    Yields host p (executeInst host m (Build.jmp (BitVec.ofNat 32 n))) (s.goto n) := by
  have hpc : ((UniformStrg.ofI32 (BitVec.ofNat 32 n)).asI32.setWidth 64).toNat = n := by
    rw [UniformStrg.asI32_ofI32, BitVec.toNat_setWidth, BitVec.toNat_ofNat]
    omega
  rw [executeInst, Build.jmp, Build.decode_operands]
  exact ⟨_, rfl, h.goto hpc⟩

theorem branch (equal : Bool) {n : Nat} (hn : n < 10000) (x : Fin intRegCount) :
    Yields host p
      (executeInst host m (Build.operands (if equal then .iEjmp else .iNejmp) 0 (registerByte x) 0
        (.ofI32 (BitVec.ofNat 32 n))))
      (if (s.registers x == s.registers reg0) = equal then s.goto n else s) := by
  have hpc : ((BitVec.ofNat 32 n).setWidth 64 : SizeT).toNat = n := by
    rw [BitVec.toNat_setWidth, BitVec.toNat_ofNat]
    omega
  have hjump (op : Inst) (f : Uint → Uint → Bool) :
      Yields host p (m.jumpImmediateIf (Build.operands op 0 (registerByte x) 0
        (.ofI32 (BitVec.ofNat 32 n))) f)
      (if f (s.registers x) (s.registers 0) then s.goto n else s) := by
    rw [← h.iregisters]
    refine ⟨_, jumpImmediateIf_build m op (BitVec.ofNat 32 n) 0 x f, ?_⟩
    split
    · exact h.goto hpc
    · exact h
  rw [executeInst, Build.decode_operands]
  cases equal with
  | true => exact hjump .iEjmp (· == ·)
  | false =>
    have hunequal := hjump .iNejmp (· != ·)
    simp only [bne, Bool.not_eq_true'] at hunequal
    exact hunequal

end Statements

theorem executeInst_built {mn : Mnemonic} {r : Fin 3 → Fin intRegCount} (hready : Ready m r mn) :
    executeInst host m.advance (built mn r) = .ok (performed m r mn) := by
  rw [executeInst, built, Build.decode_operands]
  exact executeOpcode_built host m r mn hready

theorem compute (h : Represents host p s.advance m.advance) (hs : Represents host p s m)
    {c : RegisterInstructions.Computation} {r : Fin 3 → Fin intRegCount}
    (hready : ¬ (c = .div ∧ s.registers (r 2) = 0)) :
    Yields host p (executeInst host m.advance (built (.compute c) r))
      (s.advance.assign (r 0)
        (BitVec.ofInt 32 (RegisterInstructions.value (fun k => (s.registers (r k)).toNat) c))) := by
  have hmachine : Ready m r (.compute c) := by
    rw [← hs.iregisters] at hready
    cases c with
    | div => exact fun hzero => hready ⟨rfl, hzero⟩
    | _ => trivial
  rw [executeInst_built hmachine, ← hs.iregisters]
  exact ⟨_, rfl, h.assign (r 0) _⟩

theorem push (h : Represents host p s.advance m.advance) (hs : Represents host p s m)
    {r : Fin 3 → Fin intRegCount} (hroom : s.stack.length < maxWords) :
    Yields host p (executeInst host m.advance (built .push r))
      { s.advance with stack := s.registers (r 0) :: s.stack } := by
  have htop := hs.stackTop
  have hready : Ready m r .push := by
    simp only [Ready, maxWords, stackSize] at hroom ⊢
    omega
  have haddress : m.stackTop.toNat + 4 = 4 + 4 * s.stack.reverse.length := by
    rw [List.length_reverse]
    omega
  have hfits : 4 + 4 * s.stack.reverse.length + 4 ≤ stackSize := haddress ▸ hready
  have hmemory := hs.stackMemory.push (s.registers (r 0)) hfits
  rw [executeInst_built hready]
  refine ⟨_, rfl, { h with stackTop := ?_, stackRoom := hroom, stackMemory := ?_ }⟩
  · change (m.stackTop + 4).toNat = 4 * (s.stack.length + 1)
    simp only [maxWords, stackSize] at hroom
    bv_omega
  · change ByteMemory.Holds (ByteMemory.store m.stackMemory (m.stackTop.toNat + 4)
      (m.iregisters (r 0))) 4 (s.registers (r 0) :: s.stack).reverse
    rw [haddress, hs.iregisters, List.reverse_cons]
    exact hmemory

theorem pop (h : Represents host p s.advance m.advance) (hs : Represents host p s m)
    {r : Fin 3 → Fin intRegCount} {w : Uint} {stack : List Uint} (hstack : s.stack = w :: stack) :
    Yields host p (executeInst host m.advance (built .pop r))
      ({ s.advance with stack }.assign (r 0) w) := by
  have htop := hs.stackTop
  have hroom := hs.stackRoom
  have hholds := hs.stackMemory
  rw [hstack, List.length_cons] at htop hroom
  rw [hstack, List.reverse_cons] at hholds
  obtain ⟨hfits, hload⟩ := hholds stack.reverse.length (by simp)
  rw [List.getElem_concat_length rfl] at hload
  have haddress : m.stackTop.toNat = 4 + 4 * stack.reverse.length := by
    rw [List.length_reverse]
    omega
  have hready : Ready m r .pop := ⟨by omega, haddress ▸ hfits⟩
  have hword : RegisterInstructions.wordAt m.stackMemory m.stackTop.toNat = w := by
    rw [haddress, RegisterInstructions.wordAt, dif_pos hfits, hload]
  have hpopped : Represents host p { s.advance with stack }
      { m.advance with stackTop := m.stackTop - 4 } := by
    refine { h with stackTop := ?_, stackRoom := Nat.le_of_succ_le hroom, stackMemory := ?_ }
    · change (m.stackTop - 4).toNat = 4 * stack.length
      bv_omega
    · have hrest := hholds.dropLast
      rw [List.dropLast_concat] at hrest
      exact hrest
  rw [executeInst_built hready, performed, hword]
  exact ⟨_, rfl, hpopped.assign (r 0) w⟩

theorem call (h : Represents host p s m) {n : Nat} (hn : n < 10000)
    (hnext : s.next < p.statements.length) (hroom : s.callers.length < frameCount) :
    Yields host p (executeInst host m.advance (Build.call (BitVec.ofNat 32 n)))
      { s with next := n, callers := (s.next + 1) :: s.callers } := by
  have hindex : frameIndex m.frames = .ok ⟨s.callers.length, hroom⟩ :=
    frameIndex_of_toNat h.frames
  have hpc := h.pc
  have hlt : s.next < programSize := Nat.lt_of_lt_of_le hnext p.statementsFit
  have hrip : (m.pc + 1 + 1).toNat = s.next + 1 + 1 := by
    simp only [programSize] at hlt
    bv_omega
  have htarget : ((UniformStrg.ofI32 (BitVec.ofNat 32 n)).asI32.signExtend 64).toNat = n := by
    have hmsb : (BitVec.ofNat 32 n).msb = false := by
      rw [BitVec.msb_eq_false_iff_two_mul_lt, BitVec.toNat_ofNat]
      omega
    rw [UniformStrg.asI32_ofI32, BitVec.signExtend_eq_setWidth_of_msb_false hmsb,
      BitVec.toNat_setWidth, BitVec.toNat_ofNat]
    omega
  have hrest : Framed (Function.update m.frameMemory ⟨s.callers.length, hroom⟩
      ⟨m.pc + 1 + 1, 0, m.stackTop.setWidth 32⟩) s.callers :=
    h.frameMemory.congr fun l hl => Function.update_of_ne (Fin.ne_of_lt hl) _ _
  rw [executeInst, Build.call, Build.decode_operands]
  change Yields host p (m.advance.enter _) _
  have hframe : m.advance.frames = m.frames := rfl
  rw [Machine.enter, CAt.call, hframe, hindex]
  refine ⟨_, rfl, { h with pc := htarget, frames := ?_, frameRoom := hroom, frameMemory := ?_ }⟩
  · change (m.frames + 1).toNat = s.callers.length + 1
    have hframes := h.frames
    rw [frames_succ (hframes ▸ hroom), hframes]
  · refine ⟨⟨hroom, ?_⟩, hrest⟩
    change (Function.update m.frameMemory ⟨s.callers.length, hroom⟩
      ⟨m.pc + 1 + 1, 0, m.stackTop.setWidth 32⟩ ⟨s.callers.length, hroom⟩).rip.toNat = _
    rw [Function.update_self]
    exact hrip

theorem ret (h : Represents host p s.advance m.advance) (hs : Represents host p s m)
    {r : Fin 3 → Fin intRegCount}
    (hperform : Language.perform host p.position s (.registers .ret r) = .ok s') :
    Yields host p (executeInst host m.advance (built .ret r)) s' := by
  have hframes := hs.frames
  have hready : Ready m r .ret := hframes.trans_le hs.frameRoom
  rw [executeInst_built hready, performed, RegisterInstructions.returned]
  rw [Language.perform] at hperform
  split at hperform
  · rename_i hcallers
    cases hperform
    rw [hcallers] at hframes
    have hroot : m.frames = 0 := BitVec.eq_of_toNat_eq hframes
    rw [if_pos hroot]
    exact ⟨_, rfl, { h with
      accumRegister := congrFun hs.iregisters (r 0)
      isRunning := rfl }⟩
  · rename_i caller callers hcallers
    cases hperform
    have hframed := hs.frameMemory
    rw [hcallers] at hframes hframed
    obtain ⟨⟨hlt, hrip⟩, hrest⟩ := hframed
    rw [List.length_cons] at hframes
    have hlive : m.frames ≠ 0 := by
      rintro hzero
      rw [hzero] at hframes
      cases hframes
    have hpred := frames_pred hlive
    have htop : m.frames.toNat - 1 = callers.length := by omega
    have hreturn :
        ((RegisterInstructions.frameAt m (m.frames.toNat - 1)).rip - 1).toNat = caller := by
      rw [htop, RegisterInstructions.frameAt_of_lt m hlt]
      bv_omega
    rw [if_neg hlive]
    refine ⟨_, rfl, { hs with
      pc := hreturn
      accumRegister := congrFun hs.iregisters (r 0)
      frames := ?_
      frameRoom := Nat.le_of_lt hlt
      frameMemory := hrest.congr fun l hl => if_neg (htop ▸ Nat.ne_of_lt hl) }⟩
    change (m.frames - 1).toNat = callers.length
    omega

theorem perform (h : Represents host p s m) (hnext : s.next < p.statements.length)
    {statement : Statement} (hperform : Language.perform host p.position s statement = .ok s') :
    Yields host p (executeInst host m.advance (statement.encode host p.position)) s' := by
  have hadvance := h.advance hnext
  cases statement with
  | halt =>
    cases hperform
    exact ⟨_, rfl, hadvance.stop⟩
  | record =>
    rw [Language.perform] at hperform
    split at hperform
    · rename_i hroom
      cases hperform
      exact hadvance.record hroom
    · cases hperform
  | print => exact hadvance.print hperform
  | registers mn r =>
    cases mn with
    | compute c =>
      rw [Language.perform] at hperform
      split at hperform
      · cases hperform
      · rename_i hready
        cases hperform
        exact hadvance.compute h hready
    | push =>
      rw [Language.perform] at hperform
      split at hperform
      · rename_i hroom
        cases hperform
        exact hadvance.push h hroom
      · cases hperform
    | pop =>
      rw [Language.perform] at hperform
      split at hperform
      · cases hperform
      · rename_i w stack hstack
        cases hperform
        exact hadvance.pop h hstack
    | ret => exact hadvance.ret h hperform
  | computeFloats op x y z =>
    cases hperform
    exact hadvance.computeFloats op x y z
  | compareFloats op x y z =>
    cases hperform
    exact hadvance.compareFloats op x y z
  | cast op x y =>
    cases hperform
    exact hadvance.cast op x y
  | regDump x =>
    cases hperform
    exact hadvance.regDump x
  | set x v =>
    cases hperform
    exact hadvance.set x _
  | fset x v =>
    cases hperform
    exact hadvance.fset x _
  | jump target =>
    cases hperform
    exact hadvance.jump (p.resolve_lt target)
  | call target =>
    rw [Language.perform] at hperform
    split at hperform
    · rename_i hroom
      cases hperform
      exact h.call (p.resolve_lt target) hnext hroom
    · cases hperform
  | branch equal target x =>
    have hbranch : Yields host p _ (if (s.registers x == s.registers reg0) = equal then
        s.goto (target.resolve p.position) else s.advance) :=
      hadvance.branch equal (p.resolve_lt target) x
    rw [Language.perform] at hperform
    split at hperform
    · rename_i htaken
      cases hperform
      rw [if_pos htaken] at hbranch
      exact hbranch
    · rename_i htaken
      cases hperform
      rw [if_neg htaken] at hbranch
      exact hbranch

theorem step (h : Represents host p s m) (hguard : (machine host p).guard s = true)
    (hstep : Language.step host p s = .ok s') : Yields host p (executeOp host m) s' := by
  have hnext : s.next < p.statements.length := of_decide_eq_true (Bool.and_eq_true_iff.mp hguard).2
  have hstatement : p.statements[s.next]? = some p.statements[s.next] :=
    List.getElem?_eq_getElem hnext
  have hfetched : m.fetched = some (p.statements[s.next].encode host p.position) := by
    rw [h.fetched, hstatement]
    rfl
  rw [Language.step, hstatement] at hstep
  rw [executeOp_of_fetched hfetched]
  exact h.perform hnext hstep

end Represents

section Run

variable {host : Host} {p : Source}

theorem run_represented {m : Machine} {s s' : State} {n : Nat} (h : Represents host p s m)
    (hrun : (machine host p).run n s = .ok s') : Yields host p (executeProgram host n m) s' :=
  Loop.run_lockstep (fun s m => Represents host p s m) (fun _ _ h => h.guard_eq)
    (fun _ _ _ h hguard hstep => h.step hguard hstep) h hrun

theorem returns_represented (g : Globals) (hregisters : g.dRegisters = fun _ => 0)
    (hfloats : g.fRegisters = fun _ => 0) {s : State} (h : Returns host p s) :
    ∃ m, (vmLoop host).Finishes (initMachine g (p.program host)) m ∧ Represents host p s m := by
  obtain ⟨n, hrun, hguard⟩ := h
  obtain ⟨m, hexecute, hm⟩ := run_represented (represents_init hregisters hfloats) hrun
  exact ⟨m, ⟨n, hexecute, hm.guard_eq ▸ hguard⟩, hm⟩

theorem returns_of_finishes (g : Globals) (hregisters : g.dRegisters = fun _ => 0)
    (hfloats : g.fRegisters = fun _ => 0) (hsafe : ∀ n, ∃ s, run host p n = .ok s) {m : Machine}
    (h : (vmLoop host).Finishes (initMachine g (p.program host)) m) :
    ∃ s, Returns host p s ∧ Represents host p s m := by
  obtain ⟨n, hexecute, hguard⟩ := h
  obtain ⟨s, hrun⟩ := hsafe n
  obtain ⟨m', hexecute', hm⟩ := run_represented (represents_init hregisters hfloats) hrun
  cases hexecute.symm.trans hexecute'
  exact ⟨s, ⟨n, hrun, hm.guard_eq.trans hguard⟩, hm⟩

theorem execution_preserved (p : Source) (host : Host) (g : Globals)
    (hregisters : g.dRegisters = fun _ => 0) (hfloats : g.fRegisters = fun _ => 0) :
    (∀ n s, run host p n = .ok s →
      Yields host p (executeProgram host n (initMachine g (p.program host))) s) ∧
    (∀ s, Returns host p s →
      ∃ m, (vmLoop host).Finishes (initMachine g (p.program host)) m ∧ Represents host p s m) ∧
    ((∀ n, ∃ s, run host p n = .ok s) →
      ∀ m, (vmLoop host).Finishes (initMachine g (p.program host)) m →
        ∃ s, Returns host p s ∧ Represents host p s m) :=
  ⟨fun _ _ h => run_represented (represents_init hregisters hfloats) h,
    fun _ h => returns_represented g hregisters hfloats h,
    fun hsafe _ h => returns_of_finishes g hregisters hfloats hsafe h⟩

theorem execution_preserved_addOne :
    ∃ m, (vmLoop Host.integer).Finishes (initMachine .zero (addOne.program Host.integer)) m ∧
      m.accumRegister = 21 := by
  have hreturns : Returns Host.integer addOne { State.init with
      next := 3
      registers := Function.update (Function.update (fun _ => 0) 0 20) 0 21
      accumulator := 21
      running := false } := ⟨5, rfl, rfl⟩
  obtain ⟨m, hfinishes, hm⟩ :=
    (execution_preserved addOne Host.integer .zero rfl rfl).2.1 _ hreturns
  exact ⟨m, hfinishes, hm.accumRegister⟩

end Run

end Language

end CAt
