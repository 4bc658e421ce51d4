import CAt.Assembler.AssembleLine

namespace CAt

open GuardedLoop.Loop (bind_ok)

namespace OpcodePreservation

def emitted : Inst → Inst
  | .iEntry => .iHalt
  | .iGetac => .iCall
  | .iRjmp => .iJmp
  | .iErjmp => .iEjmp
  | .iNerjmp => .iNejmp
  | .iNop => .iHalt
  | i => i

def Misassembled (i : Inst) : Prop :=
  i = .iGetac ∨ i = .iRjmp ∨ i = .iErjmp ∨ i = .iNerjmp ∨ i = .iNop

theorem assemble_operation (i : Inst) (arg0 arg1 arg2 arg3 : Uint) (fval : Float32Bits)
    (dval : Uint) :
    (assemble i arg0 arg1 arg2 arg3 fval dval).operation = BitVec.ofNat 32 (emitted i).code := by
  cases i <;> rfl

theorem emitted_eq_iff {i : Inst} (h : i ≠ .iEntry) : emitted i = i ↔ ¬ Misassembled i := by
  constructor
  · rintro he (rfl | rfl | rfl | rfl | rfl) <;> cases he
  · intro hm
    cases i with
    | iEntry => exact absurd rfl h
    | iGetac | iRjmp | iErjmp | iNerjmp | iNop => exact absurd (by simp [Misassembled]) hm
    | _ => rfl

theorem ofNat_code_inj {i j : Inst} :
    BitVec.ofNat 32 i.code = BitVec.ofNat 32 j.code ↔ i = j := by
  constructor
  · intro h
    have hi := i.code_lt
    have hj := j.code_lt
    have hnat := congrArg BitVec.toNat h
    rw [BitVec.toNat_ofNat, BitVec.toNat_ofNat] at hnat
    exact Inst.code_injective (by omega)
  · rintro rfl
    rfl

theorem assembleLine_inv {host : Host} {junk : Nat → Reg} {labels : List Label} {first : Token}
    {operands : List Token} {keyword : List Char} {inst : Instruction}
    (hfirst : first.literall = some keyword)
    (h : assembleLine host junk labels (first :: operands) = .ok inst) :
    ∃ (t : Nat) (i : Inst) (acc : Operands), isKeyword keyword = some t ∧
      Inst.ofCode t = some i ∧ inst = assemble i (acc.regs 0) (acc.regs 1) (acc.regs 2)
        (acc.regs 3) acc.fvalue acc.dvalue := by
  simp only [assembleLine, hfirst] at h
  split at h
  · cases h
  · rename_i i hi
    obtain ⟨t, ht, hcode⟩ := Option.bind_eq_some_iff.mp hi
    obtain ⟨acc, -, h⟩ := bind_ok h
    cases h
    exact ⟨t, i, acc, ht, hcode, rfl⟩

theorem operation_preserved_iff (host : Host) (junk : Nat → Reg) (labels : List Label)
    (first : Token) (operands : List Token) (keyword : List Char) (t : Nat) (inst : Instruction)
    (hfirst : first.literall = some keyword) (hkeyword : isKeyword keyword = some t)
    (hentry : t ≠ Inst.iEntry.code)
    (h : assembleLine host junk labels (first :: operands) = .ok inst) :
    inst.operation = BitVec.ofNat 32 t ↔
      ¬ (t = Inst.iGetac.code ∨ t = Inst.iRjmp.code ∨ t = Inst.iErjmp.code ∨
        t = Inst.iNerjmp.code ∨ t = Inst.iNop.code) := by
  obtain ⟨t', i, acc, ht, hcode, rfl⟩ := assembleLine_inv hfirst h
  rw [hkeyword] at ht
  obtain rfl := Option.some.inj ht
  obtain rfl := Inst.code_of_ofCode hcode
  have hne : i ≠ .iEntry := fun he => hentry (congrArg Inst.code he)
  have hcodes (j : Inst) : i.code = j.code ↔ i = j :=
    ⟨Inst.code_injective, fun he => congrArg Inst.code he⟩
  rw [assemble_operation, ofNat_code_inj, emitted_eq_iff hne]
  simp only [hcodes, Misassembled]

def getacLine : List Token := [⟨some ['g', 'e', 't', 'a', 'c'], .word⟩, ⟨some ['r', '1'], .word⟩]

theorem operation_preserved_iff_set :
    (Build.set 1 5).operation = BitVec.ofNat 32 6 ↔ ¬ (6 = Inst.iGetac.code ∨
      6 = Inst.iRjmp.code ∨ 6 = Inst.iErjmp.code ∨ 6 = Inst.iNerjmp.code ∨ 6 = Inst.iNop.code) :=
  operation_preserved_iff Host.integer (fun _ => .zero) []
    ⟨some ['s', 'e', 't'], .word⟩ [⟨some ['r', '1'], .word⟩, ⟨some ['5'], .wordLiterallNumber⟩]
    ['s', 'e', 't'] 6 (Build.set 1 5) rfl rfl (by decide) rfl

theorem getac_becomes_call :
    isKeyword ['g', 'e', 't', 'a', 'c'] = some Inst.iGetac.code ∧
      ∃ inst, assembleLine Host.integer (fun _ => .zero) [] getacLine = .ok inst ∧
        inst.operation ≠ BitVec.ofNat 32 Inst.iGetac.code :=
  ⟨rfl, _, rfl, by decide⟩

end OpcodePreservation

end CAt
