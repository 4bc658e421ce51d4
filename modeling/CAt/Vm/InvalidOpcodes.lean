import CAt.Vm.Effects

namespace CAt

namespace InvalidOpcodes

def IsEnumerator (operation : BitVec 32) : Prop :=
  ∃ op : Inst, operation = BitVec.ofNat 32 op.code

def Reported (host : Host) (m : Machine) : Prop :=
  executeOp host m = .ok { m with
    pc := m.pc + 1
    stderr := m.stderr ++ ["ERROR: UNSUPPORTED INSTRUCTION"] }

theorem ofCode_eq_none_iff {n : Nat} : Inst.ofCode n = none ↔ 51 ≤ n :=
  List.getElem?_eq_none_iff

theorem decode_eq_none_iff {inst : Instruction} :
    inst.decode = none ↔ 51 ≤ inst.operation.toNat % 256 := by
  rw [Instruction.decode, ofCode_eq_none_iff, BitVec.toNat_setWidth]

theorem stderr_unchanged {inst : Instruction} {m m' : Machine} {op : Inst}
    (h : Effect inst m (some op) m') : m'.stderr = m.stderr := by
  cases h <;> rfl

theorem reported_iff (host : Host) (m : Machine) (inst : Instruction)
    (hfetched : m.fetched = some inst) :
    Reported host m ↔ 51 ≤ inst.operation.toNat % 256 := by
  rw [← decode_eq_none_iff, Reported, executeOp_of_fetched hfetched]
  constructor
  · intro h
    cases hop : inst.decode with
    | none => rfl
    | some op =>
      have heffect := executeInst_effect h
      rw [hop] at heffect
      have hsame := stderr_unchanged heffect
      have hlength := congrArg List.length hsame
      simp [Machine.advance] at hlength
  · intro hop
    rw [executeInst, hop]
    rfl

def haltPlus256 : Instruction := ⟨256, #v[0, 0, 0], 0⟩

def haltPlus256Program : Program := ⟨[haltPlus256], by decide⟩

theorem reported_iff_haltPlus256 :
    Reported Host.integer (initMachine .zero haltPlus256Program) ↔
      51 ≤ haltPlus256.operation.toNat % 256 :=
  reported_iff Host.integer (initMachine .zero haltPlus256Program) haltPlus256 rfl

theorem haltPlus256_executed :
    (initMachine .zero haltPlus256Program).fetched = some haltPlus256 ∧
      ¬ IsEnumerator haltPlus256.operation ∧
      ¬ Reported Host.integer (initMachine .zero haltPlus256Program) := by
  refine ⟨rfl, ?_, ?_⟩
  · rintro ⟨op, h⟩
    have hlt := op.code_lt
    have hcode := congrArg BitVec.toNat h
    have hleft : haltPlus256.operation.toNat = 256 := rfl
    rw [hleft, BitVec.toNat_ofNat] at hcode
    omega
  · intro h
    have hrunning := congrArg (Except.map Machine.isRunning) h
    cases hrunning

end InvalidOpcodes

end CAt
