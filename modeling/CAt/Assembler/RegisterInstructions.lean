import CAt.Assembler.OperandText
import CAt.Vm.Effects
import Mathlib.Data.Fin.VecNotation

namespace CAt

namespace RegisterInstructions

inductive Computation where
  | add | sub | mul | div | and | or
  | cmpe | cmpeg | cmpel | cmpg | cmpl
  | cu2i | ci2u
  | inc | dec
deriving DecidableEq, Repr

inductive Mnemonic where
  | compute (c : Computation)
  | push | pop | ret
deriving DecidableEq, Repr

def Computation.text : Computation → List Char
  | .add => ['a', 'd', 'd']
  | .sub => ['s', 'u', 'b']
  | .mul => ['m', 'u', 'l']
  | .div => ['d', 'i', 'v']
  | .and => ['a', 'n', 'd']
  | .or => ['o', 'r']
  | .cmpe => ['c', 'm', 'p', 'e']
  | .cmpeg => ['c', 'm', 'p', 'e', 'g']
  | .cmpel => ['c', 'm', 'p', 'e', 'l']
  | .cmpg => ['c', 'm', 'p', 'g']
  | .cmpl => ['c', 'm', 'p', 'l']
  | .cu2i => ['c', 'u', '2', 'i']
  | .ci2u => ['c', 'i', '2', 'u']
  | .inc => ['i', 'n', 'c']
  | .dec => ['d', 'e', 'c']

def Mnemonic.text : Mnemonic → List Char
  | .compute c => c.text
  | .push => ['p', 'u', 's', 'h']
  | .pop => ['p', 'o', 'p']
  | .ret => ['r', 'e', 't']

def Mnemonic.arity : Mnemonic → Nat
  | .compute .inc | .compute .dec | .push | .pop | .ret => 1
  | .compute .cu2i | .compute .ci2u => 2
  | .compute _ => 3

-- The line names the destination first; registers past the mnemonic's arity are not written.
def line (mn : Mnemonic) (r : Fin 3 → Fin intRegCount) : List Token :=
  ⟨some mn.text, .word⟩ :: ((List.ofFn r).take mn.arity).map registerToken

def value (v : Fin 3 → Nat) : Computation → Int
  | .add => v 1 + v 2
  | .sub => v 1 - v 2
  | .mul => v 1 * v 2
  | .div => v 1 / v 2
  | .and => if v 1 ≠ 0 ∧ v 2 ≠ 0 then 1 else 0
  | .or => if v 1 ≠ 0 ∨ v 2 ≠ 0 then 1 else 0
  | .cmpe => if v 1 = v 2 then 1 else 0
  | .cmpeg => if v 2 ≤ v 1 then 1 else 0
  | .cmpel => if v 1 ≤ v 2 then 1 else 0
  | .cmpg => if v 2 < v 1 then 1 else 0
  | .cmpl => if v 1 < v 2 then 1 else 0
  | .cu2i | .ci2u => v 1
  | .inc => v 0 + 1
  | .dec => v 0 - 1

def wordAt (memory : Stack) (a : Nat) : Uint :=
  if h : a + 4 ≤ stackSize then ByteMemory.load memory a h else 0

def frameAt (m : Machine) (l : Nat) : CallFrame :=
  if h : l < frameCount then m.frameMemory ⟨l, h⟩ else .zero

def returned (m : Machine) (result : Uint) : Machine :=
  if m.frames = 0 then
    { m.log (.rootRet 0 (frameAt m 0).rip) with
      pc := m.pc + 1
      accumRegister := result
      isRunning := false }
  else
    let top := m.frames.toNat - 1
    { m.log (.ret m.frames (frameAt m top).rip) with
      pc := (frameAt m top).rip - 1
      accumRegister := result
      frames := m.frames - 1
      frameMemory := fun l => if l.val = top then .zero else m.frameMemory l }

def performed (m : Machine) (r : Fin 3 → Fin intRegCount) : Mnemonic → Machine
  | .compute c => { m with
      pc := m.pc + 1
      iregisters := Function.update m.iregisters (r 0)
        (BitVec.ofInt 32 (value (fun k => (m.iregisters (r k)).toNat) c)) }
  | .push => { m with
      pc := m.pc + 1
      stackTop := m.stackTop + 4
      stackMemory := ByteMemory.store m.stackMemory (m.stackTop.toNat + 4) (m.iregisters (r 0)) }
  | .pop => { m with
      pc := m.pc + 1
      stackTop := m.stackTop - 4
      iregisters := Function.update m.iregisters (r 0) (wordAt m.stackMemory m.stackTop.toNat) }
  | .ret => returned m (m.iregisters (r 0))

-- The last bound of `pop` and that of `ret` say that the state is one of a real machine:
-- stack_top lies in STACK and frames in frame_memory.
def Ready (m : Machine) (r : Fin 3 → Fin intRegCount) : Mnemonic → Prop
  | .compute .div => m.iregisters (r 2) ≠ 0
  | .compute _ => True
  | .push => m.stackTop.toNat + 8 ≤ stackSize
  | .pop => 4 ≤ m.stackTop.toNat ∧ m.stackTop.toNat + 4 ≤ stackSize
  | .ret => m.frames.toNat ≤ frameCount

def Computation.op : Computation → Inst
  | .add => .iAdd
  | .sub => .iSub
  | .mul => .iMul
  | .div => .iDiv
  | .and => .iAnd
  | .or => .iOr
  | .cmpe => .iCmpe
  | .cmpeg => .iCmpeg
  | .cmpel => .iCmpel
  | .cmpg => .iCmpg
  | .cmpl => .iCmpl
  | .cu2i => .iCu2i
  | .ci2u => .iCi2u
  | .inc => .iInc
  | .dec => .iDec

def Mnemonic.op : Mnemonic → Inst
  | .compute c => c.op
  | .push => .iPush
  | .pop => .iPop
  | .ret => .iRet

def slot (mn : Mnemonic) (k : Nat) (b : Byte) : Byte := if k < mn.arity then b else 0

def built (mn : Mnemonic) (r : Fin 3 → Fin intRegCount) : Instruction :=
  Build.operands mn.op (slot mn 0 (registerByte (r 0))) (slot mn 1 (registerByte (r 1)))
    (slot mn 2 (registerByte (r 2))) 0

theorem assemble_op (mn : Mnemonic) (arg0 arg1 arg2 arg3 : Uint) :
    assemble mn.op arg0 arg1 arg2 arg3 0 0 = Build.operands mn.op (slot mn 0 (toReg arg0))
      (slot mn 1 (toReg arg1)) (slot mn 2 (toReg arg2)) 0 := by
  rcases mn with c | _ | _ | _
  · cases c <;> rfl
  all_goals rfl

theorem slot_registers (mn : Mnemonic) (r : Fin 3 → Fin intRegCount) (k : Fin 3) :
    slot mn k.val (toReg (registerSlots ((List.ofFn r).take mn.arity) k.castSucc)) =
      slot mn k.val (registerByte (r k)) := by
  unfold slot
  split
  · rename_i hk
    have hget : ((List.ofFn r).take mn.arity)[k.val]? = some (r k) := by
      rw [List.getElem?_take_of_lt hk, List.getElem?_ofFn, dif_pos k.isLt]
    simp only [registerSlots, Fin.val_castSucc, hget, Option.elim_some]
    exact toReg_ofNat (r k)
  · rfl

theorem assembleLine_line (host : Host) (junk : Nat → Reg) (labels : List Label) (mn : Mnemonic)
    (r : Fin 3 → Fin intRegCount) :
    assembleLine host junk labels (line mn r) = .ok (built mn r) := by
  have hkeyword : (isKeyword mn.text).bind Inst.ofCode = some mn.op := by
    rcases mn with c | _ | _ | _
    · cases c <;> rfl
    all_goals rfl
  have hcount : getInstuctionCount mn.op = ((List.ofFn r).take mn.arity).length := by
    rcases mn with c | _ | _ | _
    · cases c <;> rfl
    all_goals rfl
  have hfits : ((List.ofFn r).take mn.arity).length ≤ 4 := by
    rw [List.length_take, List.length_ofFn]
    omega
  rw [line, assembleLine_of_keyword rfl hkeyword,
    readOperands_registers host junk labels _ hcount hfits]
  change Except.ok (assemble mn.op (registerSlots _ 0) (registerSlots _ 1) (registerSlots _ 2)
    (registerSlots _ 3) 0 0) = _
  have h0 := slot_registers mn r 0
  have h1 := slot_registers mn r 1
  have h2 := slot_registers mn r 2
  simp only [Fin.val_zero, Fin.val_one, Fin.val_two, Fin.castSucc_zero, Fin.castSucc_one] at h0 h1 h2
  rw [assemble_op, built, h0, h1]
  exact congrArg (fun b => Except.ok (Build.operands _ _ _ b 0)) h2

def word (v : Fin 3 → Uint) : Computation → Uint
  | .add => v 1 + v 2
  | .sub => v 1 - v 2
  | .mul => v 1 * v 2
  | .div => v 1 / v 2
  | .and => truth (v 1 != 0 && v 2 != 0)
  | .or => truth (v 1 != 0 || v 2 != 0)
  | .cmpe => truth (v 1 == v 2)
  | .cmpeg => truth (v 2 ≤ v 1)
  | .cmpel => truth (v 1 ≤ v 2)
  | .cmpg => truth (v 2 < v 1)
  | .cmpl => truth (v 1 < v 2)
  | .cu2i | .ci2u => v 1
  | .inc => v 0 + 1
  | .dec => v 0 - 1

theorem truth_eq {b : Bool} {p : Prop} [Decidable p] (h : b = true ↔ p) :
    truth b = BitVec.ofInt 32 (if p then 1 else 0) := by
  unfold truth
  by_cases hp : p
  · rw [if_pos (h.mpr hp), if_pos hp]
    rfl
  · rw [if_neg (fun hb => hp (h.mp hb)), if_neg hp]
    rfl

theorem ofInt_toNat (x : Uint) : BitVec.ofInt 32 (x.toNat : Int) = x := by
  rw [BitVec.ofInt_natCast, BitVec.ofNat_toNat, BitVec.setWidth_eq]

theorem ofInt_sub (x y : Int) : BitVec.ofInt 32 (x - y) = BitVec.ofInt 32 x - BitVec.ofInt 32 y := by
  rw [Int.sub_eq_add_neg, BitVec.ofInt_add, BitVec.ofInt_neg, BitVec.sub_eq_add_neg]

theorem word_eq_value (v : Fin 3 → Uint) (c : Computation) :
    word v c = BitVec.ofInt 32 (value (fun k => (v k).toNat) c) := by
  have hne (k : Fin 3) : (v k != 0) = true ↔ (v k).toNat ≠ 0 := by
    rw [bne_iff_ne, ne_eq, ← BitVec.toNat_inj]
    rfl
  cases c with
  | add => rw [word, value, BitVec.ofInt_add, ofInt_toNat, ofInt_toNat]
  | sub => rw [word, value, ofInt_sub, ofInt_toNat, ofInt_toNat]
  | mul => rw [word, value, BitVec.ofInt_mul, ofInt_toNat, ofInt_toNat]
  | div => rw [word, value, ← Int.natCast_ediv, ← BitVec.toNat_udiv, ofInt_toNat]
  | and => exact truth_eq (by rw [Bool.and_eq_true, hne, hne])
  | or => exact truth_eq (by rw [Bool.or_eq_true, hne, hne])
  | cmpe => exact truth_eq (by rw [beq_iff_eq, BitVec.toNat_inj])
  | cmpeg => exact truth_eq decide_eq_true_iff
  | cmpel => exact truth_eq decide_eq_true_iff
  | cmpg => exact truth_eq decide_eq_true_iff
  | cmpl => exact truth_eq decide_eq_true_iff
  | cu2i | ci2u => rw [word, value, ofInt_toNat]
  | inc => rw [word, value, BitVec.ofInt_add, ofInt_toNat]; rfl
  | dec => rw [word, value, ofInt_sub, ofInt_toNat]; rfl

def assigned (m : Machine) (x : Fin intRegCount) (v : Uint) : Machine :=
  { m with iregisters := Function.update m.iregisters x v }

theorem setDReg_register (m : Machine) (x : Fin intRegCount) (v : Uint) :
    m.setDReg (registerByte x) v = .ok (assigned m x v) :=
  Machine.setDReg_ofNat m x v

section Execute

variable (host : Host) (m : Machine) (r : Fin 3 → Fin intRegCount)

theorem unary (x y : Fin intRegCount) (f : Uint → Uint) :
    (do m.setDReg (registerByte x) (f (← m.dReg (registerByte y)))) =
      .ok (assigned m x (f (m.iregisters y))) := by
  rw [registerByte, Machine.dReg_ofNat]
  exact setDReg_register m x _

theorem binary (f : Uint → Uint → Uint) :
    (do
      let x ← m.dReg (registerByte (r 1))
      let y ← m.dReg (registerByte (r 2))
      m.setDReg (registerByte (r 0)) (f x y)) =
      .ok (assigned m (r 0) (f (m.iregisters (r 1)) (m.iregisters (r 2)))) := by
  rw [registerByte, registerByte, Machine.dReg_ofNat, Machine.dReg_ofNat]
  exact setDReg_register m (r 0) _

theorem logicalAnd_built :
    m.logicalAnd (built (.compute .and) r) =
      .ok (assigned m (r 0) (word (fun k => m.iregisters (r k)) .and)) := by
  have hx : m.dReg (built (.compute .and) r).r1 = .ok (m.iregisters (r 1)) :=
    Machine.dReg_ofNat m (r 1)
  have hy : m.dReg (built (.compute .and) r).r2 = .ok (m.iregisters (r 2)) :=
    Machine.dReg_ofNat m (r 2)
  have hset (v : Uint) : m.setDReg (built (.compute .and) r).r0 v = .ok (assigned m (r 0) v) :=
    setDReg_register m (r 0) v
  rw [Machine.logicalAnd, hx, hy]
  change (if m.iregisters (r 1) = 0 then m.setDReg _ 0 else m.setDReg _ _) = _
  rw [hset, hset, word]
  by_cases hzero : m.iregisters (r 1) = 0
  · rw [if_pos hzero, hzero]
    rfl
  · have hne : (m.iregisters (r 1) != 0) = true := bne_iff_ne.mpr hzero
    rw [if_neg hzero, hne, Bool.true_and]

theorem logicalOr_built :
    m.logicalOr (built (.compute .or) r) =
      .ok (assigned m (r 0) (word (fun k => m.iregisters (r k)) .or)) := by
  have hx : m.dReg (built (.compute .or) r).r1 = .ok (m.iregisters (r 1)) :=
    Machine.dReg_ofNat m (r 1)
  have hy : m.dReg (built (.compute .or) r).r2 = .ok (m.iregisters (r 2)) :=
    Machine.dReg_ofNat m (r 2)
  have hset (v : Uint) : m.setDReg (built (.compute .or) r).r0 v = .ok (assigned m (r 0) v) :=
    setDReg_register m (r 0) v
  rw [Machine.logicalOr, hx, hy]
  change (if (m.iregisters (r 1) != 0) = true then m.setDReg _ 1 else m.setDReg _ _) = _
  rw [hset, hset, word]
  cases hne : m.iregisters (r 1) != 0 with
  | true => rfl
  | false => rfl

theorem divide_built (hy : m.iregisters (r 2) ≠ 0) :
    m.divide (built (.compute .div) r) =
      .ok (assigned m (r 0) (word (fun k => m.iregisters (r k)) .div)) := by
  have hdividend : m.dReg (built (.compute .div) r).r1 = .ok (m.iregisters (r 1)) :=
    Machine.dReg_ofNat m (r 1)
  have hdivisor : m.dReg (built (.compute .div) r).r2 = .ok (m.iregisters (r 2)) :=
    Machine.dReg_ofNat m (r 2)
  rw [Machine.divide, hdividend, hdivisor]
  change (if m.iregisters (r 2) = 0 then _ else m.setDReg (registerByte (r 0)) _) = _
  rw [if_neg hy]
  exact setDReg_register m (r 0) _

theorem executeOpcode_compute (c : Computation) (hready : Ready m r (.compute c)) :
    executeOpcode host m (built (.compute c) r) c.op =
      .ok (assigned m (r 0) (word (fun k => m.iregisters (r k)) c)) := by
  cases c with
  | div => exact divide_built m r hready
  | and => exact logicalAnd_built m r
  | or => exact logicalOr_built m r
  | inc => exact unary m (r 0) (r 0) (· + 1)
  | dec => exact unary m (r 0) (r 0) (· - 1)
  | cu2i | ci2u => exact unary m (r 0) (r 1) id
  | _ => exact binary m r _

theorem push_built (hready : Ready m r .push) :
    m.advance.push (built .push r) = .ok (performed m r .push) := by
  have hvalue : m.advance.dReg (built .push r).r0 = .ok (m.iregisters (r 0)) :=
    Machine.dReg_ofNat m.advance (r 0)
  have hroom : m.stackTop.toNat + 8 ≤ stackSize := hready
  have hnext : (m.stackTop + 4).toNat = m.stackTop.toNat + 4 := by
    simp only [stackSize] at hroom
    bv_omega
  have hcopy : copyIn m.stackMemory (m.stackTop + 4).toNat (m.iregisters (r 0)) =
      .ok (ByteMemory.store m.stackMemory (m.stackTop.toNat + 4) (m.iregisters (r 0))) := by
    rw [copyIn, hnext, if_pos hroom]
  rw [Machine.push, hvalue]
  change (pushDecimal m.stackMemory m.stackTop (m.iregisters (r 0)) >>= _) = _
  rw [pushDecimal, hcopy]
  rfl

theorem pop_built (hready : Ready m r .pop) :
    m.advance.pop (built .pop r) = .ok (performed m r .pop) := by
  have hfits : m.stackTop.toNat + 4 ≤ stackSize := hready.2
  have hcopy : copyOut m.stackMemory m.stackTop.toNat =
      .ok (wordAt m.stackMemory m.stackTop.toNat) := by
    rw [copyOut, wordAt, dif_pos hfits, dif_pos hfits]
  rw [Machine.pop]
  change (popDecimal m.stackMemory m.stackTop >>= _) = _
  rw [popDecimal, hcopy]
  exact setDReg_register { m.advance with stackTop := m.stackTop - 4 } (r 0) _

theorem frameAt_of_lt {l : Nat} (h : l < frameCount) : frameAt m l = m.frameMemory ⟨l, h⟩ :=
  dif_pos h

theorem returnToCaller_root (hroot : m.frames = 0) :
    m.returnToCaller =
      .ok ({ m with isRunning := false }.log (.rootRet 0 (frameAt m 0).rip)) := by
  have hzero : (0 : SizeT).toNat < frameCount := by decide
  have hindex : frameIndex 0 = .ok ⟨(0 : SizeT).toNat, hzero⟩ := dif_pos hzero
  rw [Machine.returnToCaller, if_neg (not_not.mpr hroot), hroot, hindex,
    frameAt_of_lt m (l := 0) (by decide)]
  rfl

theorem returnToCaller_live (hlive : m.frames ≠ 0) (hbound : m.frames.toNat ≤ frameCount) :
    m.returnToCaller =
      .ok { m.log (.ret m.frames (frameAt m (m.frames.toNat - 1)).rip) with
        pc := (frameAt m (m.frames.toNat - 1)).rip - 1
        frames := m.frames - 1
        frameMemory := fun l =>
          if l.val = m.frames.toNat - 1 then .zero else m.frameMemory l } := by
  have hpred := frames_pred hlive
  have htop : (m.frames - 1).toNat = m.frames.toNat - 1 := by omega
  have hlt : m.frames.toNat - 1 < frameCount := by omega
  have hindex : frameIndex (m.frames - 1) = .ok ⟨m.frames.toNat - 1, hlt⟩ := by
    rw [frameIndex, dif_pos (htop ▸ hlt)]
    exact congrArg Except.ok (Fin.ext htop)
  have hupdate : Function.update m.frameMemory ⟨m.frames.toNat - 1, hlt⟩ .zero =
      fun l => if l.val = m.frames.toNat - 1 then .zero else m.frameMemory l := by
    funext l
    simp only [Function.update_apply, Fin.ext_iff]
  rw [Machine.returnToCaller, if_pos hlive, hindex, frameAt_of_lt m hlt, ← hupdate]
  rfl

theorem leave_built (hready : Ready m r .ret) :
    m.advance.leave (built .ret r) = .ok (performed m r .ret) := by
  have hvalue : m.advance.dReg (built .ret r).r0 = .ok (m.iregisters (r 0)) :=
    Machine.dReg_ofNat m.advance (r 0)
  rw [Machine.leave, hvalue]
  change Machine.returnToCaller { m.advance with accumRegister := m.iregisters (r 0) } = _
  rw [performed, returned]
  by_cases hroot : m.frames = 0
  · rw [if_pos hroot]
    exact returnToCaller_root _ hroot
  · rw [if_neg hroot]
    exact returnToCaller_live _ hroot hready

theorem executeOpcode_built (mn : Mnemonic) (hready : Ready m r mn) :
    executeOpcode host m.advance (built mn r) mn.op = .ok (performed m r mn) := by
  cases mn with
  | compute c =>
    have hadvance : Ready m.advance r (.compute c) := by
      cases c <;> exact hready
    exact (executeOpcode_compute host m.advance r c hadvance).trans
      (congrArg (fun v => Except.ok (assigned m.advance (r 0) v)) (word_eq_value _ c))
  | push => exact push_built m r hready
  | pop => exact pop_built m r hready
  | ret => exact leave_built m r hready

theorem executeOp_built (mn : Mnemonic) (hf : m.fetched = some (built mn r))
    (hready : Ready m r mn) : executeOp host m = .ok (performed m r mn) := by
  rw [executeOp_of_fetched hf, executeInst, built, Build.decode_operands, ← built]
  exact executeOpcode_built host m r mn hready

end Execute

theorem register_instructions (mn : Mnemonic) (r : Fin 3 → Fin intRegCount) :
    ∃ inst, (∀ host junk labels, assembleLine host junk labels (line mn r) = .ok inst) ∧
      ∀ host m, m.fetched = some inst → Ready m r mn →
        executeOp host m = .ok (performed m r mn) :=
  ⟨built mn r, fun host junk labels => assembleLine_line host junk labels mn r,
    fun host m hf hready => executeOp_built host m r mn hf hready⟩

def addMachine : Machine :=
  initMachine { Globals.zero with dRegisters := fun x => BitVec.ofNat 32 x.val }
    ⟨[Build.add 3 1 2], by simp⟩

theorem register_instructions_add :
    ∃ m, executeOp Host.integer addMachine = .ok m ∧ m.iregisters 3 = 3 := by
  obtain ⟨inst, hassembles, hexecutes⟩ := register_instructions (.compute .add) ![3, 1, 2]
  have hinst : Except.ok (Build.add 3 1 2) = Except.ok inst :=
    hassembles Host.integer (fun _ => .zero) []
  obtain rfl := Except.ok.inj hinst
  exact ⟨_, hexecutes Host.integer addMachine rfl trivial, by decide⟩

end RegisterInstructions

end CAt
