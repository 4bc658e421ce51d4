import CAt.Vm.Effects

namespace CAt

open GuardedLoop

namespace Inst

def readsFloats : Inst → Bool
  | iCf2i | iCf2u | iFcmpe | iFcmpeg | iFcmpel | iFcmpg | iFcmpl | iFsave => true
  | _ => false

end Inst

namespace Machine

def withFloats (m : Machine) (f : Fin fltRegCount → Float32Bits) : Machine :=
  { m with fregisters := f }

def integerHalf (m : Machine) : Machine := m.withFloats fun _ => 0

theorem integerHalf_withFloats (m : Machine) (f : Fin fltRegCount → Float32Bits) :
    (m.withFloats f).integerHalf = m.integerHalf := rfl

theorem eq_withFloats {m m' : Machine} (h : m.integerHalf = m'.integerHalf) :
    m' = m.withFloats m'.fregisters := by
  cases m
  cases m'
  cases h
  rfl

end Machine

def FloatsUnread (p : Program) : Prop :=
  ∀ inst ∈ p.code, ∀ op ∈ inst.decode, op.readsFloats = false

instance (p : Program) : Decidable (FloatsUnread p) :=
  inferInstanceAs (Decidable (∀ inst ∈ p.code, ∀ op ∈ inst.decode, op.readsFloats = false))

-- execute_op again and again, whether or not execute_program would go on.
def opLoop (host : Host) : Loop Machine Fault where
  guard := fun _ => true
  body := executeOp host

namespace FloatIndependence

open Machine

def Same (c c' : Except Fault Machine) : Prop := integerHalf <$> c = integerHalf <$> c'

section Compare

variable {m : Machine} {f : Fin fltRegCount → Float32Bits} {inst : Instruction}

theorem same_bind {α : Type} {c : Except Fault α} {k k' : α → Except Fault Machine}
    (h : ∀ a, Same (k a) (k' a)) : Same (c >>= k) (c >>= k') := by
  unfold Same
  rw [map_bind, map_bind]
  exact bind_congr h

theorem same_ite {c : Prop} [Decidable c] {a a' b b' : Except Fault Machine} (ha : Same a a')
    (hb : Same b b') : Same (if c then a else b) (if c then a' else b') := by
  split
  · exact ha
  · exact hb

theorem same_fReg {r : Byte} {k k' : Float32Bits → Except Fault Machine}
    (h : ∀ x x', Same (k x) (k' x')) :
    Same (m.fReg r >>= k) ((m.withFloats f).fReg r >>= k') := by
  cases hr : regIndex r with
  | error e =>
    simp only [fReg, hr]
    rfl
  | ok i =>
    simp only [fReg, hr]
    exact h _ _

theorem same_setDReg (r : Byte) (v : Uint) :
    Same (m.setDReg r v) ((m.withFloats f).setDReg r v) :=
  same_bind fun _ => rfl

theorem same_setFReg (r : Byte) (v v' : Float32Bits) :
    Same (m.setFReg r v) ((m.withFloats f).setFReg r v') :=
  same_bind fun _ => rfl

theorem same_intOp (g : Uint → Uint → Uint) :
    Same (m.intOp inst g) ((m.withFloats f).intOp inst g) :=
  same_bind fun _ => same_bind fun _ => same_setDReg _ _

theorem same_floatOp (g : Float32Bits → Float32Bits → Float32Bits) :
    Same (m.floatOp inst g) ((m.withFloats f).floatOp inst g) :=
  same_fReg fun _ _ => same_fReg fun _ _ => same_setFReg _ _ _

theorem same_logicalAnd : Same (m.logicalAnd inst) ((m.withFloats f).logicalAnd inst) :=
  same_bind fun _ => same_ite (same_setDReg _ _) (same_bind fun _ => same_setDReg _ _)

theorem same_logicalOr : Same (m.logicalOr inst) ((m.withFloats f).logicalOr inst) :=
  same_bind fun _ => same_ite (same_setDReg _ _) (same_bind fun _ => same_setDReg _ _)

theorem same_divide : Same (m.divide inst) ((m.withFloats f).divide inst) :=
  same_bind fun _ => same_bind fun _ => same_ite rfl (same_setDReg _ _)

theorem same_jumpImmediateIf (g : Uint → Uint → Bool) :
    Same (m.jumpImmediateIf inst g) ((m.withFloats f).jumpImmediateIf inst g) :=
  same_bind fun _ => same_bind fun _ => same_ite rfl rfl

theorem same_jumpRegisterIf (g : Uint → Uint → Bool) :
    Same (m.jumpRegisterIf inst g) ((m.withFloats f).jumpRegisterIf inst g) :=
  same_bind fun _ => same_bind fun _ => same_ite (same_bind fun _ => rfl) rfl

theorem same_push : Same (m.push inst) ((m.withFloats f).push inst) :=
  same_bind fun _ => same_bind fun _ => rfl

theorem same_pop : Same (m.pop inst) ((m.withFloats f).pop inst) :=
  same_bind fun vt => same_setDReg (m := { m with stackTop := vt.2 }) _ _

theorem same_startRecord : Same m.startRecord (m.withFloats f).startRecord :=
  same_bind fun _ => rfl

theorem same_enter : Same (m.enter inst) ((m.withFloats f).enter inst) :=
  same_bind fun _ => rfl

theorem same_returnToCaller : Same m.returnToCaller (m.withFloats f).returnToCaller :=
  same_ite (same_bind fun _ => rfl) (same_bind fun _ => rfl)

theorem same_leave : Same (m.leave inst) ((m.withFloats f).leave inst) :=
  same_bind fun value => same_returnToCaller (m := { m with accumRegister := value })

theorem same_print (host : Host) : Same (m.print host) ((m.withFloats f).print host) := by
  simp only [Machine.print]
  change Same (if h : (m.iregisters 1).toNat + (m.iregisters 2).toNat ≤ stackSize then _ else _)
    (if h : (m.iregisters 1).toNat + (m.iregisters 2).toNat ≤ stackSize then _ else _)
  split
  · exact same_ite rfl rfl
  · rfl

theorem same_regDump : Same (m.regDump inst) ((m.withFloats f).regDump inst) :=
  same_ite (same_bind fun _ => rfl) rfl

theorem same_executeOpcode (host : Host) {op : Inst} (hop : op.readsFloats = false) :
    Same (executeOpcode host m inst op) (executeOpcode host (m.withFloats f) inst op) := by
  cases op with
  | iEntry => rfl
  | iHalt => rfl
  | iPush => exact same_push
  | iPop => exact same_pop
  | iRec => exact same_startRecord
  | iCall => exact same_enter
  | iGetac => exact same_setDReg _ _
  | iInc | iDec | iCu2i | iCi2u => exact same_bind fun _ => same_setDReg _ _
  | iAdd | iSub | iMul | iCmpe | iCmpeg | iCmpel | iCmpg | iCmpl => exact same_intOp _
  | iDiv => exact same_divide
  | iFadd | iFsub | iFdiv | iFmul => exact same_floatOp _
  | iDload => exact same_bind fun _ => same_bind fun _ => same_setDReg _ _
  | iFload => exact same_bind fun _ => same_setFReg _ _ _
  | iDsave => exact same_bind fun _ => same_bind fun _ => same_bind fun _ => rfl
  | iFset => exact same_setFReg _ _ _
  | iSet => exact same_setDReg _ _
  | iAnd => exact same_logicalAnd
  | iOr => exact same_logicalOr
  | iCi2f | iCu2f => exact same_bind fun _ => same_setFReg _ _ _
  | iJmp => rfl
  | iEjmp | iNejmp => exact same_jumpImmediateIf _
  | iRjmp => exact same_bind fun _ => rfl
  | iErjmp | iNerjmp => exact same_jumpRegisterIf _
  | iPrint => exact same_print host
  | iRegDump => exact same_regDump
  | iRet => exact same_leave
  | iNop => rfl
  | iCf2i | iCf2u | iFcmpe | iFcmpeg | iFcmpel | iFcmpg | iFcmpl | iFsave => cases hop

theorem same_executeOp (host : Host) (hp : FloatsUnread m.program) :
    Same (executeOp host m) (executeOp host (m.withFloats f)) := by
  cases hf : m.fetched with
  | none =>
    have hf' : m.program.code[m.pc.toNat]? = none := hf
    have hf'' : (m.withFloats f).program.code[(m.withFloats f).pc.toNat]? = none := hf
    simp only [executeOp, instNext, hf', hf'']
    rfl
  | some inst =>
    have hf' : (m.withFloats f).fetched = some inst := hf
    rw [executeOp_of_fetched hf, executeOp_of_fetched hf']
    unfold executeInst
    cases hop : inst.decode with
    | none => rfl
    | some op =>
      exact same_executeOpcode (m := m.advance) host
        (hp inst (List.mem_of_getElem? hf) op hop)

end Compare

variable {host : Host} {L : Loop Machine Fault}

theorem same_run (hbody : L.body = executeOp host)
    (hguard : ∀ m m' : Machine, m.integerHalf = m'.integerHalf → L.guard m = L.guard m')
    {m : Machine} (hp : FloatsUnread m.program) (f : Fin fltRegCount → Float32Bits) (n : Nat) :
    Same (L.run n m) (L.run n (m.withFloats f)) := by
  refine Loop.run_unwinding integerHalf (fun m => FloatsUnread m.program) ?_ hguard ?_ hp
    (integerHalf_withFloats m f).symm n
  · intro m m' hm hstep
    rw [hbody] at hstep
    obtain ⟨inst, -, he⟩ := executeOp_effect hstep
    rwa [he.program_unchanged]
  · intro m m' hm hhalf
    rw [hbody, eq_withFloats hhalf]
    exact same_executeOp host hm

def floatSums : Program :=
  ⟨[Build.fset 1 0x3f800000, Build.fadd 0 0 1, Build.ci2f 2 0, Build.inc 0, Build.halt], by decide⟩

end FloatIndependence

end CAt
