import CAt.Vm.DataStack
import CAt.Vm.Faults

namespace CAt

open GuardedLoop
open DataStack (Trace track trace)

namespace GuestMemory

-- The first byte of STACK that the next instruction reads or writes, and how many there are.
def accessed (m : Machine) (inst : Instruction) : Option Inst → Nat × Nat
  | some .iPush => ((m.stackTop + 4).toNat, 4)
  | some .iPop => (m.stackTop.toNat, 4)
  | some .iDload | some .iDsave | some .iFsave => ((m.operand Instruction.r1).toNat, 4)
  | some .iFload => ((inst.r1.signExtend 32).toNat, 4)
  | some .iPrint => ((m.iregisters ⟨1, one_lt_intRegCount⟩).toNat,
      (m.iregisters ⟨2, two_lt_intRegCount⟩).toNat)
  | _ => (0, 0)

def Touches (m : Machine) (b : Nat) : Prop :=
  ∃ inst, m.fetched = some inst ∧ (accessed m inst m.opcode).1 ≤ b ∧
    b < (accessed m inst m.opcode).1 + (accessed m inst m.opcode).2

structure MemorySafe (host : Host) (g : Globals) (p : Program) : Prop where
  bytes : ∀ n m, executeProgram host n (initMachine g p) = .ok m → (vmLoop host).guard m = true →
    ∀ b, Touches m b → b < stackSize
  noWrap : ∀ n m, executeProgram host n (initMachine g p) = .ok m → (vmLoop host).guard m = true →
    m.opcode = some .iPop → 4 ≤ m.stackTop.toNat
  stopped : ∀ n, executeProgram host n (initMachine g p) ≠ .error .stackOutOfBounds

structure Allowed (t : Trace) (m : Machine) : Prop where
  push : m.opcode = some .iPush → 4 * t.pushes + 8 ≤ 4 * t.pops + stackSize
  pop : m.opcode = some .iPop → t.pops < t.pushes
  address : m.opcode = some .iDload ∨ m.opcode = some .iDsave ∨ m.opcode = some .iFsave →
    (m.operand Instruction.r1).toNat ≤ stackSize - 4
  print : m.opcode = some .iPrint → (m.iregisters 1).toNat + (m.iregisters 2).toNat ≤ stackSize

def Contained (host : Host) (g : Globals) (p : Program) : Prop :=
  ∀ n m, executeProgram host n (initMachine g p) = .ok m → (vmLoop host).guard m = true →
    Allowed (trace host g p n) m

structure Balanced (t : Trace) (m : Machine) : Prop where
  top : m.stackTop.toNat + 4 * t.pops = 4 * t.pushes
  room : m.stackTop.toNat + 4 ≤ stackSize

theorem init (g : Globals) (p : Program) : Balanced ⟨[], 0, 0⟩ (initMachine g p) :=
  ⟨rfl, Nat.le_add_left _ _⟩

theorem signExtend_register {r : Byte} (h : r.toNat < intRegCount) :
    (r.signExtend 32).toNat = r.toNat := by
  simp only [intRegCount] at h
  have hmsb : r.msb = false := by
    rw [BitVec.msb_eq_false_iff_two_mul_lt]
    omega
  rw [BitVec.signExtend_eq_setWidth_of_msb_false hmsb, BitVec.toNat_setWidth]
  exact Nat.mod_eq_of_lt (by omega)

namespace Balanced

variable {host : Host} {t : Trace} {m m' : Machine}

theorem pop_iff (h : Balanced t m) : 4 ≤ m.stackTop.toNat ↔ t.pops < t.pushes := by
  have htop := h.top
  constructor <;> intro <;> omega

theorem push_iff (h : Balanced t m) :
    (m.stackTop + 4).toNat + 4 ≤ stackSize ↔ 4 * t.pushes + 8 ≤ 4 * t.pops + stackSize := by
  have htop := h.top
  have hroom := h.room
  simp only [stackSize] at *
  have hnext : (m.stackTop + 4).toNat = m.stackTop.toNat + 4 := by bv_omega
  rw [hnext]
  constructor <;> intro <;> omega

theorem push (h : Balanced t m) {inst : Instruction} (hop : m.opcode = some .iPush)
    (he : Effect inst m.advance (some .iPush) m') : Balanced (track m t) m' := by
  obtain ⟨i, -, fits, rfl⟩ := he.push_inv
  have htop := h.top
  have hroom := h.room
  have htrack : track m t = ⟨t.words ++ [m.operand Instruction.r0], t.pushes + 1, t.pops⟩ := by
    simp [track, hop]
  have hnext : (m.stackTop + 4).toNat = m.stackTop.toNat + 4 := by
    simp only [stackSize] at hroom
    bv_omega
  rw [htrack]
  refine ⟨?_, fits⟩
  change (m.stackTop + 4).toNat + 4 * t.pops = 4 * (t.pushes + 1)
  omega

theorem pop (h : Balanced t m) {inst : Instruction} (hop : m.opcode = some .iPop)
    (hp : t.pops < t.pushes) (he : Effect inst m.advance (some .iPop) m') :
    Balanced (track m t) m' := by
  obtain ⟨i, -, fits, rfl⟩ := he.pop_inv
  have htop := h.top
  have hroom := h.room
  have hlive := h.pop_iff.mpr hp
  have htrack : track m t = ⟨t.words.dropLast, t.pushes, t.pops + 1⟩ := by simp [track, hop]
  have hprev : (m.stackTop - 4).toNat = m.stackTop.toNat - 4 := by bv_omega
  rw [htrack]
  constructor
  · change (m.stackTop - 4).toNat + 4 * (t.pops + 1) = 4 * t.pushes
    omega
  · change (m.stackTop - 4).toNat + 4 ≤ stackSize
    omega

theorem step (h : Balanced t m) (hpop : m.opcode = some .iPop → t.pops < t.pushes)
    (hstep : executeOp host m = .ok m') : Balanced (track m t) m' := by
  obtain ⟨inst, -, hop, he⟩ := executeOp_opcode hstep
  rw [← hop] at he
  by_cases hpush : m.opcode = some .iPush
  · rw [hpush] at he
    exact h.push hpush he
  · by_cases hpopped : m.opcode = some .iPop
    · rw [hpopped] at he
      exact h.pop hpopped (hpop hpopped) he
    · have htop := he.stackTop_unchanged hpush hpopped
      rw [DataStack.track_of_not_push_pop hpush hpopped]
      exact ⟨htop ▸ h.top, htop ▸ h.room⟩

end Balanced

section Run

variable {host : Host} {g : Globals} {p : Program}

theorem run_balanced {n : Nat} {m : Machine}
    (hpop : ∀ k t, executeProgram host k (initMachine g p) = .ok t →
      (vmLoop host).guard t = true → Balanced (trace host g p k) t → t.opcode = some .iPop →
      (trace host g p k).pops < (trace host g p k).pushes)
    (h : executeProgram host n (initMachine g p) = .ok m) : Balanced (trace host g p n) m :=
  Loop.history_invariant Balanced (init g p)
    (fun k t _ _ hrun hg hstep hi => hi.step (hpop k t hrun hg hi) hstep) h

theorem MemorySafe.balanced (h : MemorySafe host g p) {n : Nat} {m : Machine}
    (hrun : executeProgram host n (initMachine g p) = .ok m) : Balanced (trace host g p n) m :=
  run_balanced (fun k t hk hg hb hop => hb.pop_iff.mp (h.noWrap k t hk hg hop)) hrun

theorem Contained.balanced (h : Contained host g p) {n : Nat} {m : Machine}
    (hrun : executeProgram host n (initMachine g p) = .ok m) : Balanced (trace host g p n) m :=
  run_balanced (fun k t hk hg _ hop => (h k t hk hg).pop hop) hrun

end Run

section Step

variable {host : Host} {t : Trace} {m : Machine}

theorem Allowed.touches_lt (ha : Allowed t m) (hb : Balanced t m)
    (hrange : RegistersInRange m.program.code) {b : Nat} (h : Touches m b) : b < stackSize := by
  obtain ⟨inst, hf, hle, hlt⟩ := h
  have hmem := Machine.fetched_mem hf
  cases hop : m.opcode with
  | none =>
    rw [hop] at hle hlt
    simp only [accessed] at hlt
    omega
  | some op =>
    rw [hop] at hle hlt
    cases op with
    | iPush =>
      have hfits := hb.push_iff.mpr (ha.push hop)
      simp only [accessed] at hlt
      omega
    | iPop =>
      have hroom := hb.room
      simp only [accessed] at hlt
      omega
    | iDload | iDsave | iFsave =>
      have haddress := ha.address (by simp [hop])
      simp only [accessed, stackSize] at *
      omega
    | iFload =>
      have hr : inst.r1.toNat < intRegCount := (Slot.r1 inst).inRange (hrange inst hmem)
      have hsign := signExtend_register hr
      simp only [accessed, stackSize, intRegCount] at *
      omega
    | iPrint =>
      exact Nat.lt_of_lt_of_le hlt (ha.print hop)
    | _ =>
      simp only [accessed] at hlt
      omega

theorem Allowed.not_stackOutOfBounds (ha : Allowed t m) (hb : Balanced t m)
    (hrange : RegistersInRange m.program.code) (hg : (vmLoop host).guard m = true) :
    executeOp host m ≠ .error .stackOutOfBounds := by
  intro h
  obtain ⟨inst, op, hf, hop, hcause⟩ := executeOp_fault (guard_iff.mp hg).1 h
  cases hcause with
  | push full =>
    have hfits := hb.push_iff.mpr (ha.push hop)
    exact absurd full (Nat.not_lt_of_le hfits)
  | pop outside => exact absurd outside (Nat.not_lt_of_le hb.room)
  | @address _ i kind register outside =>
    have haddress := ha.address (by rcases kind with rfl | rfl | rfl <;> simp [hop])
    rw [Machine.operand_eq hf register] at haddress
    change stackSize < (m.iregisters i).toNat + 4 at outside
    simp only [stackSize] at *
    omega
  | fload outside =>
    have hr : inst.r1.toNat < intRegCount :=
      (Slot.r1 inst).inRange (hrange inst (Machine.fetched_mem hf))
    have hsign := signExtend_register hr
    simp only [stackSize, intRegCount] at *
    omega
  | print outside => exact absurd outside (Nat.not_lt_of_le (ha.print hop))

theorem touches_of_opcode {op : Inst} (hop : m.opcode = some op) {base length b : Nat}
    (haccess : ∀ inst, accessed m inst (some op) = (base, length)) (hle : base ≤ b)
    (hlt : b < base + length) : Touches m b := by
  obtain ⟨inst, hf, -⟩ := Option.bind_eq_some_iff.mp hop
  refine ⟨inst, hf, ?_, ?_⟩
  · rw [hop, haccess]
    exact hle
  · rw [hop, haccess]
    exact hlt

theorem print_outside (hop : m.opcode = some .iPrint)
    (h : stackSize < (m.iregisters 1).toNat + (m.iregisters 2).toNat) :
    executeOp host m = .error .stackOutOfBounds := by
  obtain ⟨inst, -, hexec⟩ := executeOp_of_opcode host hop
  rw [hexec]
  change m.advance.print host = _
  exact dif_neg (Nat.not_le_of_lt h)

end Step

section Run

variable {host : Host} {g : Globals} {p : Program}

theorem MemorySafe.allowed (h : MemorySafe host g p) {n : Nat} {m : Machine}
    (hrun : executeProgram host n (initMachine g p) = .ok m)
    (hg : (vmLoop host).guard m = true) : Allowed (trace host g p n) m := by
  have hb := h.balanced hrun
  have hbytes := h.bytes n m hrun hg
  constructor
  · intro hop
    have hlast := hbytes _ (touches_of_opcode hop (fun _ => rfl) (Nat.le_add_right _ 3)
      (Nat.lt_succ_self _))
    exact hb.push_iff.mp hlast
  · intro hop
    exact hb.pop_iff.mp (h.noWrap n m hrun hg hop)
  · intro hop
    have hlast : (m.operand Instruction.r1).toNat + 3 < stackSize := by
      rcases hop with hop | hop | hop
      all_goals
        exact hbytes _ (touches_of_opcode hop (fun _ => rfl) (Nat.le_add_right _ 3)
          (Nat.lt_succ_self _))
    exact Nat.le_sub_of_add_le hlast
  · intro hop
    by_contra hlong
    have hstep : executeOp host m = .error .stackOutOfBounds :=
      print_outside hop (Nat.lt_of_not_le hlong)
    apply h.stopped (n + 1)
    rw [executeProgram, Loop.run_succ_last, ← executeProgram, hrun]
    exact (Loop.iterate_of_guard hg).trans hstep

theorem memorySafe_iff (host : Host) (g : Globals) (p : Program) (hp : RegistersInRange p.code) :
    MemorySafe host g p ↔ Contained host g p := by
  constructor
  · intro h n m hrun hg
    exact h.allowed hrun hg
  · intro h
    have hrange {n : Nat} {m : Machine} (hrun : executeProgram host n (initMachine g p) = .ok m) :
        RegistersInRange m.program.code := by
      rw [executeProgram_program hrun]
      exact hp
    refine ⟨?_, ?_, ?_⟩
    · intro n m hrun hg b hb
      exact (h n m hrun hg).touches_lt (h.balanced hrun) (hrange hrun) hb
    · intro n m hrun hg hop
      exact (h.balanced hrun).pop_iff.mpr ((h n m hrun hg).pop hop)
    · intro n herror
      obtain ⟨k, m, hrun, hg, hbody⟩ := Loop.run_error herror
      exact (h k m hrun hg).not_stackOutOfBounds (h.balanced hrun) (hrange hrun) hg hbody

theorem memorySafe_iff_push_pop :
    MemorySafe Host.integer .zero DataStack.pushPop ↔
      Contained Host.integer .zero DataStack.pushPop :=
  memorySafe_iff Host.integer .zero DataStack.pushPop (by decide)

def popFirst : Program := ⟨[Build.pop 0], by decide⟩

theorem popFirst_wraps :
    RegistersInRange popFirst.code ∧ ¬ MemorySafe Host.integer .zero popFirst := by
  refine ⟨by decide, fun h => ?_⟩
  have hlive := h.noWrap 0 _ rfl rfl rfl
  exact absurd hlive (by decide)

end Run

end GuestMemory

end CAt
