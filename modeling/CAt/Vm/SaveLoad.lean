import CAt.Vm.GuestMemory
import CAt.Vm.InstructionTraces

namespace CAt

open GuardedLoop.Loop (ok_bind)
open Relation (ReflTransGen)

namespace SaveLoad

def Leaves (host : Host) (a : Fin intRegCount) (address : Nat) (m m' : Machine) : Prop :=
  executeOp host m = .ok m' ∧ m'.iregisters a = m.iregisters a ∧
    ∀ i : Fin stackSize, address ≤ i.val → i.val < address + 4 →
      m'.stackMemory i = m.stackMemory i

-- `save`, then any number of such instructions, then `load`: `result` relates the state before
-- the load to the one after it.
def Around (host : Host) (save load : Instruction) (a : Fin intRegCount) (m : Machine)
    (result : Machine → Machine → Prop) : Prop :=
  m.fetched = some save → (m.iregisters a).toNat ≤ stackSize - 4 →
    ∃ s, executeOp host m = .ok s ∧
      ∀ t, ReflTransGen (Leaves host a (m.iregisters a).toNat) s t → t.fetched = some load →
        ∃ u, executeOp host t = .ok u ∧ result t u

section Words

variable {host : Host} {m s t : Machine} {a : Fin intRegCount} {address : Nat}

theorem leaves_register (h : ReflTransGen (Leaves host a address) s t) :
    t.iregisters a = s.iregisters a := by
  induction h with
  | refl => rfl
  | tail _ hstep ih => exact hstep.2.1.trans ih

theorem leaves_word (h : ReflTransGen (Leaves host a address) s t)
    (fits : address + 4 ≤ stackSize) :
    ByteMemory.load t.stackMemory address fits = ByteMemory.load s.stackMemory address fits := by
  induction h with
  | refl => rfl
  | tail _ hstep ih => exact (ByteMemory.load_congr fits hstep.2.2).trans ih

theorem fits_of_le (h : (m.iregisters a).toNat ≤ stackSize - 4) :
    (m.iregisters a).toNat + 4 ≤ stackSize := by
  simp only [stackSize] at *
  omega

theorem register_fits (a : Fin intRegCount) : a.val + 4 ≤ stackSize :=
  (Nat.add_le_add_right (Nat.le_of_lt a.isLt) 4).trans (by decide)

end Words

section Instructions

variable {host : Host} {m : Machine} {x a : Fin intRegCount}

theorem dsave (hf : m.fetched = some (Build.dsave (BitVec.ofNat 8 x.val) (BitVec.ofNat 8 a.val)))
    (fits : (m.iregisters a).toNat + 4 ≤ stackSize) :
    executeOp host m = .ok { m.advance with
      stackMemory := ByteMemory.store m.stackMemory (m.iregisters a).toNat (m.iregisters x) } := by
  rw [executeOp_of_fetched hf, executeInst, Build.dsave, Build.decode_operands]
  simp only [executeOpcode, Build.r0_operands, Build.r1_operands, Machine.dReg_ofNat, ok_bind,
    Machine.advance, saveDecimal, copyIn_fits fits]
  rfl

theorem fsave (hf : m.fetched = some (Build.fsave (BitVec.ofNat 8 x.val) (BitVec.ofNat 8 a.val)))
    (fits : (m.iregisters a).toNat + 4 ≤ stackSize) :
    executeOp host m = .ok { m.advance with
      stackMemory := ByteMemory.store m.stackMemory (m.iregisters a).toNat (m.fregisters x) } := by
  rw [executeOp_of_fetched hf, executeInst, Build.fsave, Build.decode_operands]
  simp only [executeOpcode, Build.r0_operands, Build.r1_operands, Machine.dReg_ofNat, Machine.fReg,
    regIndex_ofNat, ok_bind, Machine.advance, saveFloat, copyIn_fits fits]
  rfl

theorem dload (hf : m.fetched = some (Build.dload (BitVec.ofNat 8 x.val) (BitVec.ofNat 8 a.val)))
    (fits : (m.iregisters a).toNat + 4 ≤ stackSize) :
    executeOp host m = .ok { m.advance with
      iregisters := Function.update m.iregisters x
        (ByteMemory.load m.stackMemory (m.iregisters a).toNat fits) } := by
  rw [executeOp_of_fetched hf, executeInst, Build.dload, Build.decode_operands]
  simp only [executeOpcode, Build.r0_operands, Build.r1_operands, Machine.dReg_ofNat, ok_bind,
    Machine.advance, loadDecimal, copyOut_fits fits, Machine.setDReg_ofNat]

-- FLOAD reads at the number of the register, whatever the register holds.
theorem fload (hf : m.fetched = some (Build.fload (BitVec.ofNat 8 x.val) (BitVec.ofNat 8 a.val))) :
    executeOp host m = .ok { m.advance with
      fregisters := Function.update m.fregisters x
        (ByteMemory.load m.stackMemory a.val (register_fits a)) } := by
  have haddress : ((BitVec.ofNat 8 a.val).signExtend 32).toNat = a.val := by
    obtain ⟨hlt, hindex⟩ : ∃ h : (BitVec.ofNat 8 a.val).toNat < intRegCount,
        (BitVec.ofNat 8 a.val).toNat = a.val := by
      have ha := a.isLt
      simp only [intRegCount] at *
      simp only [BitVec.toNat_ofNat]
      exact ⟨by omega, by omega⟩
    rw [GuestMemory.signExtend_register hlt, hindex]
  rw [executeOp_of_fetched hf, executeInst, Build.fload, Build.decode_operands]
  simp only [executeOpcode, Build.r0_operands, Build.r1_operands, loadFloat, haddress,
    copyOut_fits (register_fits a), ok_bind, Machine.advance, Machine.setFReg, regIndex_ofNat]
  rfl

end Instructions

theorem save_load_iff (host : Host) (m : Machine) (f g a : Fin intRegCount) :
    Around host (Build.dsave (BitVec.ofNat 8 f.val) (BitVec.ofNat 8 a.val))
        (Build.dload (BitVec.ofNat 8 g.val) (BitVec.ofNat 8 a.val)) a m
        (fun _ u => u.iregisters g = m.iregisters f) ∧
      Around host (Build.fsave (BitVec.ofNat 8 f.val) (BitVec.ofNat 8 a.val))
        (Build.fload (BitVec.ofNat 8 g.val) (BitVec.ofNat 8 a.val)) a m
        (fun t u => u.fregisters g = m.fregisters f ↔ (m.iregisters a).toNat = a.val ∨
          ByteMemory.load t.stackMemory a.val (register_fits a) = m.fregisters f) := by
  constructor
  · intro hsave hroom
    have fits := fits_of_le hroom
    refine ⟨_, dsave hsave fits, fun t hsteps hload => ?_⟩
    have hsame := leaves_register hsteps
    change t.iregisters a = m.iregisters a at hsame
    have hfits : (t.iregisters a).toNat + 4 ≤ stackSize := hsame ▸ fits
    refine ⟨_, dload hload hfits, ?_⟩
    have hword := leaves_word hsteps fits
    rw [ByteMemory.load_store_same] at hword
    simp only [Function.update_self, hsame]
    exact hword
  · intro hsave hroom
    have fits := fits_of_le hroom
    refine ⟨_, fsave hsave fits, fun t hsteps hload => ?_⟩
    refine ⟨_, fload hload, ?_⟩
    have hword := leaves_word hsteps fits
    rw [ByteMemory.load_store_same] at hword
    simp only [Function.update_self]
    refine ⟨.inr, fun h => h.elim (fun hnumber => ?_) id⟩
    simp only [← hnumber]
    exact hword

def oneAt100 : Machine :=
  { initMachine .zero ⟨[Build.fsave 0 1, Build.fload 2 1], by decide⟩ with
    iregisters := Function.update (fun _ => 0) reg1 100
    fregisters := Function.update (fun _ => 0) reg0 0x3f800000 }

theorem saved_float_lost :
    ¬ Around Host.integer (Build.fsave 0 1) (Build.fload 2 1) reg1 oneAt100
      (fun _ u => u.fregisters reg2 = oneAt100.fregisters reg0) := by
  intro h
  obtain ⟨s, hsaved, h⟩ := h rfl (by decide)
  cases hsaved
  obtain ⟨u, hloaded, hsame⟩ := h _ .refl rfl
  cases hloaded
  exact absurd hsame (by decide)

end SaveLoad

end CAt
