import CAt.Assembler.RegisterInstructions
import CAt.Assembler.RegisterOperands
import CAt.Vm.SaveLoad

namespace CAt

namespace MemoryInstructions

open RegisterInstructions (wordAt)
open RegisterOperands (readOperands_miscounted)

def dloadLine (a b : Fin intRegCount) : List Token :=
  [⟨some ['d', 'l', 'o', 'a', 'd'], .word⟩, registerToken a, registerToken b]

def dsaveLine (a b : Fin intRegCount) : List Token :=
  [⟨some ['d', 's', 'a', 'v', 'e'], .word⟩, registerToken a, registerToken b]

def loaded (a b : Fin intRegCount) (m : Machine) : Machine :=
  { m with
    pc := m.pc + 1
    iregisters := Function.update m.iregisters a (wordAt m.stackMemory (m.iregisters b).toNat) }

def saved (a b : Fin intRegCount) (m : Machine) : Machine :=
  { m with
    pc := m.pc + 1
    stackMemory := ByteMemory.store m.stackMemory (m.iregisters b).toNat (m.iregisters a) }

def Survives (host : Host) (junk : Nat → Reg) (labels : List Label) (line : List Token)
    (b : Fin intRegCount) (result : Machine → Machine) : Prop :=
  ∃ inst, assembleLine host junk labels line = .ok inst ∧
    ∀ m : Machine, m.fetched = some inst → (m.iregisters b).toNat ≤ stackSize - 4 →
      executeOp host m = .ok (result m)

section Assembled

variable (host : Host) (junk : Nat → Reg) (labels : List Label) (a b : Fin intRegCount)

-- get_instuction_count knows no operands of these mnemonics, so both registers stay zero.
theorem assembleLine_dload :
    assembleLine host junk labels (dloadLine a b) = .ok (Build.dload 0 0) := by
  have hcount : getInstuctionCount .iDload ≠ [registerToken a, registerToken b].length :=
    (Nat.succ_ne_zero 1).symm
  rw [dloadLine, assembleLine_of_keyword rfl rfl, readOperands_miscounted hcount]
  rfl

theorem assembleLine_dsave :
    assembleLine host junk labels (dsaveLine a b) = .ok (Build.dsave 0 0) := by
  have hcount : getInstuctionCount .iDsave ≠ [registerToken a, registerToken b].length :=
    (Nat.succ_ne_zero 1).symm
  rw [dsaveLine, assembleLine_of_keyword rfl rfl, readOperands_miscounted hcount]
  rfl

end Assembled

section Executed

variable {host : Host} {m : Machine}

theorem dload_zero (hf : m.fetched = some (Build.dload 0 0))
    (hroom : (m.iregisters reg0).toNat ≤ stackSize - 4) :
    executeOp host m = .ok (loaded reg0 reg0 m) := by
  have fits := SaveLoad.fits_of_le hroom
  have hword : wordAt m.stackMemory (m.iregisters reg0).toNat = ByteMemory.load _ _ fits :=
    dif_pos fits
  have hexec : executeOp host m = _ := SaveLoad.dload (x := reg0) (a := reg0) hf fits
  rw [hexec, loaded, hword]
  rfl

theorem dsave_zero (hf : m.fetched = some (Build.dsave 0 0))
    (hroom : (m.iregisters reg0).toNat ≤ stackSize - 4) :
    executeOp host m = .ok (saved reg0 reg0 m) :=
  SaveLoad.dsave (x := reg0) (a := reg0) hf (SaveLoad.fits_of_le hroom)

end Executed

def probeRegisters (r : Fin intRegCount) : Uint := if r.val = 0 then 0 else 4

def probeStack : Stack := fun i => if i.val < 4 then 1 else 0

def probe (inst : Instruction) : Machine :=
  { initMachine .zero ⟨[inst], length_lt_of_le (Nat.le_add_left 1 15)⟩ with
    iregisters := probeRegisters
    stackMemory := probeStack }

theorem wordAt_zero : wordAt probeStack 0 = 0x01010101 := by decide

theorem wordAt_four : wordAt probeStack 4 = 0 := by decide

theorem zero_lt_stackSize : 0 < stackSize := by decide

theorem probeStack_zero : probeStack ⟨0, zero_lt_stackSize⟩ = 1 := by decide

section Probe

variable (inst : Instruction) {a b r : Fin intRegCount}

theorem probe_zero (h : r.val = 0) : probeRegisters r = 0 := if_pos h

theorem probe_four (h : r.val ≠ 0) : probeRegisters r = 4 := if_neg h

theorem probe_room (r : Fin intRegCount) : (probeRegisters r).toNat ≤ stackSize - 4 := by
  unfold probeRegisters
  split <;> decide

theorem loaded_probe (h : loaded reg0 reg0 (probe inst) = loaded a b (probe inst)) :
    a.val = 0 ∧ b.val = 0 := by
  have hregister : 0x01010101 = Function.update probeRegisters a
      (wordAt probeStack (probeRegisters b).toNat) reg0 :=
    wordAt_zero.symm.trans (congrFun (congrArg Machine.iregisters h) reg0)
  by_cases ha : a.val = 0
  · refine ⟨ha, ?_⟩
    by_contra hb
    obtain rfl : a = reg0 := Fin.ext ha
    have hword : wordAt probeStack (probeRegisters b).toNat = 0 := by
      rw [probe_four hb]
      exact wordAt_four
    rw [Function.update_self, hword] at hregister
    cases hregister
  · have hne : reg0 ≠ a := fun heq => ha (heq ▸ rfl)
    rw [Function.update_of_ne hne, probe_zero rfl] at hregister
    cases hregister

theorem saved_probe (h : saved reg0 reg0 (probe inst) = saved a b (probe inst)) :
    a.val = 0 ∧ b.val = 0 := by
  have hbyte : ByteMemory.byteOf 0 0 = ByteMemory.store probeStack (probeRegisters b).toNat
      (probeRegisters a) ⟨0, zero_lt_stackSize⟩ :=
    congrFun (congrArg Machine.stackMemory h) ⟨0, zero_lt_stackSize⟩
  by_cases hb : b.val = 0
  · refine ⟨?_, hb⟩
    by_contra ha
    rw [probe_zero hb, probe_four ha] at hbyte
    cases hbyte
  · rw [probe_four hb, ByteMemory.store_apply_outside _ _ (.inl (Nat.zero_lt_succ 3)),
      probeStack_zero] at hbyte
    cases hbyte

end Probe

section Lines

variable {host : Host} {junk : Nat → Reg} {labels : List Label} {a b : Fin intRegCount}

theorem registers_of_dload (h : Survives host junk labels (dloadLine a b) b (loaded a b)) :
    a.val = 0 ∧ b.val = 0 := by
  obtain ⟨inst, hinst, hresult⟩ := h
  rw [assembleLine_dload] at hinst
  cases hinst
  have hexpected := hresult (probe _) rfl (probe_room b)
  rw [dload_zero rfl (probe_room reg0)] at hexpected
  exact loaded_probe _ (Except.ok.inj hexpected)

theorem registers_of_dsave (h : Survives host junk labels (dsaveLine a b) b (saved a b)) :
    a.val = 0 ∧ b.val = 0 := by
  obtain ⟨inst, hinst, hresult⟩ := h
  rw [assembleLine_dsave] at hinst
  cases hinst
  have hexpected := hresult (probe _) rfl (probe_room b)
  rw [dsave_zero rfl (probe_room reg0)] at hexpected
  exact saved_probe _ (Except.ok.inj hexpected)

end Lines

theorem memory_lines_iff (host : Host) (junk : Nat → Reg) (labels : List Label)
    (a b : Fin intRegCount) :
    (Survives host junk labels (dloadLine a b) b (loaded a b) ↔ a.val = 0 ∧ b.val = 0) ∧
      (Survives host junk labels (dsaveLine a b) b (saved a b) ↔ a.val = 0 ∧ b.val = 0) := by
  refine ⟨⟨registers_of_dload, ?_⟩, ⟨registers_of_dsave, ?_⟩⟩
  · rintro ⟨ha, hb⟩
    obtain rfl : a = reg0 := Fin.ext ha
    obtain rfl : b = reg0 := Fin.ext hb
    exact ⟨_, assembleLine_dload host junk labels reg0 reg0, fun m hf => dload_zero hf⟩
  · rintro ⟨ha, hb⟩
    obtain rfl : a = reg0 := Fin.ext ha
    obtain rfl : b = reg0 := Fin.ext hb
    exact ⟨_, assembleLine_dsave host junk labels reg0 reg0, fun m hf => dsave_zero hf⟩

theorem dload_r1_r2_lost :
    ¬ Survives Host.integer (fun _ => .zero) [] (dloadLine reg1 reg2) reg2 (loaded reg1 reg2) := by
  intro h
  exact absurd (registers_of_dload h).1 (by decide)

end MemoryInstructions

end CAt
