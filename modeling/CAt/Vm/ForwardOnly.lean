import CAt.Vm.Faults

namespace CAt

open GuardedLoop

def FrameSafe {α : Type} (c : Except Fault α) : Prop := c ≠ .error .frameOutOfBounds

theorem FaultCause.frame_inv {inst : Instruction} {m : Machine} {op : Inst}
    (h : FaultCause inst m op .frameOutOfBounds) :
    ((op = .iRec ∨ op = .iCall) ∧ frameCount ≤ m.frames.toNat) ∨
      (op = .iRet ∧ frameCount < m.frames.toNat) := by
  cases h with
  | frame kind full => exact .inl ⟨kind, full⟩
  | ret outside => exact .inr ⟨rfl, outside⟩

theorem executeOp_frameSafe (host : Host) {m : Machine}
    (hpc : m.pc.toNat < m.program.code.length)
    (hret : m.opcode = some .iRet → m.frames.toNat ≤ frameCount)
    (hroom : m.opcode = some .iRec ∨ m.opcode = some .iCall → m.frames.toNat < frameCount) :
    FrameSafe (executeOp host m) := by
  intro h
  obtain ⟨inst, op, -, hop, hcause⟩ := executeOp_fault hpc h
  rw [hop] at hret hroom
  rcases hcause.frame_inv with ⟨kind, full⟩ | ⟨kind, outside⟩
  · have hlt := hroom (kind.imp (congrArg some) (congrArg some))
    exact absurd hlt (Nat.not_lt_of_le full)
  · have hle := hret (congrArg some kind)
    exact absurd hle (Nat.not_le_of_lt outside)

def Instruction.target (inst : Instruction) (op : Inst) : SizeT :=
  if op = .iCall then inst.storage.asI32.signExtend 64 else inst.storage.asI32.setWidth 64

namespace ForwardOnly

def Forward (i : Nat) (inst : Instruction) : Prop :=
  ∀ op ∈ inst.decode, op.isRegisterJump = false ∧
    (op.isJump = true ∨ op = .iCall → i < (inst.target op).toNat)

instance (i : Nat) (inst : Instruction) : Decidable (Forward i inst) :=
  inferInstanceAs (Decidable (∀ op ∈ inst.decode, op.isRegisterJump = false ∧
    (op.isJump = true ∨ op = .iCall → i < (inst.target op).toNat)))

structure Holds (p : Program) : Prop where
  short : p.code.length ≤ frameCount
  forward : ∀ i : Fin p.code.length, Forward i.val p.code[i]

-- How many steps can still be taken from address `i` of an `n`-instruction program
-- before the frame it runs in is left.
def cost (n i : Nat) : Nat := 2 ^ (n - i) - 1

theorem cost_step {n i : Nat} (h : i < n) : 2 * cost n (i + 1) + 1 = cost n i := by
  have hsub : n - i = (n - (i + 1)) + 1 := by omega
  have hpos := Nat.one_le_two_pow (n := n - (i + 1))
  unfold cost
  rw [hsub, Nat.pow_succ]
  omega

theorem cost_antitone {n i j : Nat} (h : i ≤ j) : cost n j ≤ cost n i := by
  have : 2 ^ (n - j) ≤ 2 ^ (n - i) := Nat.pow_le_pow_right (by decide) (by omega)
  unfold cost
  omega

theorem cost_lt {n i j : Nat} (hi : i < n) (h : i < j) : cost n j < cost n i := by
  have h1 := cost_antitone (n := n) h
  have h2 := cost_step hi
  simp only [Nat.succ_eq_add_one] at h1
  omega

def returnAddress (frameMemory : Fin frameCount → CallFrame) (l : Nat) : Nat :=
  if h : l < frameCount then ((frameMemory ⟨l, h⟩).rip - 1).toNat else 0

def pending (n : Nat) (frameMemory : Fin frameCount → CallFrame) : Nat → Nat
  | 0 => 0
  | l + 1 => pending n frameMemory l + cost n (returnAddress frameMemory l)

def fuel (n : Nat) (frameMemory : Fin frameCount → CallFrame) (frames pc : Nat) : Nat :=
  cost n pc + pending n frameMemory frames

theorem returnAddress_update {fm : Fin frameCount → CallFrame} {i : Fin frameCount} {l : Nat}
    (h : l ≠ i.val) (frame : CallFrame) :
    returnAddress (Function.update fm i frame) l = returnAddress fm l := by
  unfold returnAddress
  split
  · rw [Function.update_of_ne (fun he => h (congrArg Fin.val he))]
  · rfl

theorem returnAddress_update_self (fm : Fin frameCount → CallFrame) (i : Fin frameCount)
    (frame : CallFrame) :
    returnAddress (Function.update fm i frame) i.val = (frame.rip - 1).toNat := by
  simp [returnAddress]

theorem pending_congr {n : Nat} {fm fm' : Fin frameCount → CallFrame} {k : Nat}
    (h : ∀ l, l < k → returnAddress fm' l = returnAddress fm l) :
    pending n fm' k = pending n fm k := by
  induction k with
  | zero => rfl
  | succ k ih => rw [pending, pending, ih fun l hl => h l (by omega), h k (by omega)]

-- The return addresses increase up the frame array, from at least 1, and never pass `pc`.
structure Increasing (frameMemory : Fin frameCount → CallFrame) (frames pc : Nat) : Prop where
  above : ∀ l, l < frames → l + 1 ≤ returnAddress frameMemory l
  below : ∀ l, l < frames → returnAddress frameMemory l ≤ pc
  increasing : ∀ l k, l < k → k < frames →
    returnAddress frameMemory l < returnAddress frameMemory k

namespace Increasing

variable {fm fm' : Fin frameCount → CallFrame} {n frames pc pc' : Nat}

theorem none (fm : Fin frameCount → CallFrame) (pc : Nat) : Increasing fm 0 pc where
  above l hl := absurd hl (Nat.not_lt_zero l)
  below l hl := absurd hl (Nat.not_lt_zero l)
  increasing _ k _ hk := absurd hk (Nat.not_lt_zero k)

theorem frames_le (h : Increasing fm frames pc) : frames ≤ pc := by
  by_cases hz : frames = 0
  · omega
  · have h1 := h.above (frames - 1) (by omega)
    have h2 := h.below (frames - 1) (by omega)
    omega

theorem forward (h : Increasing fm frames pc) (hlt : pc < pc')
    (hkept : ∀ l, l < frames → returnAddress fm' l = returnAddress fm l) :
    Increasing fm' frames pc' where
  above l hl := hkept l hl ▸ h.above l hl
  below l hl := by
    have := h.below l hl
    rw [hkept l hl]
    omega
  increasing l k hlk hk := by
    rw [hkept l (by omega), hkept k hk]
    exact h.increasing l k hlk hk

theorem push (h : Increasing fm frames pc) (hlt : pc < pc')
    (hkept : ∀ l, l < frames → returnAddress fm' l = returnAddress fm l)
    (hnew : returnAddress fm' frames = pc + 1) : Increasing fm' (frames + 1) pc' := by
  have hle := h.frames_le
  refine ⟨?_, ?_, ?_⟩
  · intro l hl
    rcases Nat.lt_succ_iff_lt_or_eq.mp hl with hl | rfl
    · exact hkept l hl ▸ h.above l hl
    · omega
  · intro l hl
    rcases Nat.lt_succ_iff_lt_or_eq.mp hl with hl | rfl
    · have := h.below l hl
      rw [hkept l hl]
      omega
    · omega
  · intro l k hlk hk
    rw [hkept l (by omega)]
    rcases Nat.lt_succ_iff_lt_or_eq.mp hk with hk | rfl
    · rw [hkept k hk]
      exact h.increasing l k hlk hk
    · have := h.below l hlk
      omega

theorem pop (h : Increasing fm (frames + 1) pc)
    (hkept : ∀ l, l < frames → returnAddress fm' l = returnAddress fm l) :
    Increasing fm' frames (returnAddress fm frames) where
  above l hl := hkept l hl ▸ h.above l (by omega)
  below l hl := by
    have := h.increasing l frames hl (by omega)
    rw [hkept l hl]
    omega
  increasing l k hlk hk := by
    rw [hkept l (by omega), hkept k hk]
    exact h.increasing l k hlk (by omega)

theorem fuel_forward (hn : pc < n) (hlt : pc < pc')
    (hkept : ∀ l, l < frames → returnAddress fm' l = returnAddress fm l) :
    fuel n fm' frames pc' < fuel n fm frames pc := by
  have := cost_lt hn hlt
  unfold fuel
  rw [pending_congr hkept]
  omega

theorem fuel_push (hn : pc < n) (hlt : pc < pc')
    (hkept : ∀ l, l < frames → returnAddress fm' l = returnAddress fm l)
    (hnew : returnAddress fm' frames = pc + 1) :
    fuel n fm' (frames + 1) pc' < fuel n fm frames pc := by
  have h1 := cost_step hn
  have h2 : cost n pc' ≤ cost n (pc + 1) := cost_antitone hlt
  unfold fuel
  rw [pending, pending_congr hkept, hnew]
  omega

theorem fuel_pop (hn : pc < n)
    (hkept : ∀ l, l < frames → returnAddress fm' l = returnAddress fm l) :
    fuel n fm' frames (returnAddress fm frames) < fuel n fm (frames + 1) pc := by
  have := cost_step hn
  unfold fuel
  rw [pending, pending_congr hkept]
  omega

end Increasing

structure Ordered (p : Program) (m : Machine) : Prop where
  program : m.program = p
  depth : m.frames.toNat ≤ frameCount
  increasing : Increasing m.frameMemory m.frames.toNat m.pc.toNat

theorem init (g : Globals) (p : Program) : Ordered p (initMachine g p) where
  program := rfl
  depth := Nat.zero_le _
  increasing := .none _ _

def remaining (p : Program) (m : Machine) : Nat :=
  fuel p.code.length m.frameMemory m.frames.toNat m.pc.toNat

theorem Ordered.forward {p : Program} {m m' : Machine} (h : Ordered p m)
    (hpc : m.pc.toNat < p.code.length) (hprogram : m'.program = m.program)
    (hframes : m'.frames = m.frames) (hlt : m.pc.toNat < m'.pc.toNat)
    (hkept : ∀ l, l < m.frames.toNat →
      returnAddress m'.frameMemory l = returnAddress m.frameMemory l) :
    Ordered p m' ∧ remaining p m' < remaining p m := by
  refine ⟨⟨hprogram.trans h.program, hframes ▸ h.depth, ?_⟩, ?_⟩
  · rw [hframes]
    exact h.increasing.forward hlt hkept
  · unfold remaining
    rw [hframes]
    exact Increasing.fuel_forward hpc hlt hkept

theorem Ordered.call {p : Program} {inst : Instruction} {m m' : Machine} (h : Ordered p m)
    (hpc : m.pc.toNat < p.code.length) (hshort : p.code.length ≤ frameCount)
    (hlt : m.pc.toNat < (inst.target .iCall).toNat)
    (he : Effect inst m.advance (some .iCall) m') :
    Ordered p m' ∧ remaining p m' < remaining p m := by
  obtain ⟨room, _, rfl⟩ := he.call_inv
  change m.frames.toNat < frameCount at room
  simp only [frameCount] at hshort
  have hsucc := frames_succ room
  have hnew : returnAddress (Function.update m.frameMemory ⟨m.frames.toNat, room⟩
      ⟨m.pc + 1 + 1, 0, m.stackTop.setWidth 32⟩) m.frames.toNat = m.pc.toNat + 1 := by
    refine (returnAddress_update_self m.frameMemory ⟨m.frames.toNat, room⟩ _).trans ?_
    rw [BitVec.add_sub_cancel]
    bv_omega
  have hkept : ∀ l, l < m.frames.toNat → returnAddress (Function.update m.frameMemory
      ⟨m.frames.toNat, room⟩ ⟨m.pc + 1 + 1, 0, m.stackTop.setWidth 32⟩) l =
      returnAddress m.frameMemory l :=
    fun l hl => returnAddress_update (Nat.ne_of_lt hl) _
  refine ⟨⟨h.program, ?_, ?_⟩, ?_⟩
  · change (m.frames + 1).toNat ≤ frameCount
    omega
  · change Increasing _ (m.frames + 1).toNat (inst.target .iCall).toNat
    rw [hsucc]
    exact h.increasing.push hlt hkept hnew
  · change fuel _ _ (m.frames + 1).toNat (inst.target .iCall).toNat < _
    rw [hsucc]
    exact Increasing.fuel_push hpc hlt hkept hnew

theorem Ordered.ret {p : Program} {inst : Instruction} {m m' : Machine} (h : Ordered p m)
    (hpc : m.pc.toNat < p.code.length) (hshort : p.code.length ≤ frameCount)
    (he : Effect inst m.advance (some .iRet) m') :
    Ordered p m' ∧ remaining p m' < remaining p m := by
  simp only [frameCount] at hshort
  obtain ⟨_, _, ⟨-, rfl⟩ | ⟨live, room, rfl⟩⟩ := he.ret_inv
  · have hnext : m.pc.toNat < (m.pc + 1).toNat := by bv_omega
    exact h.forward hpc rfl rfl hnext fun _ _ => rfl
  · change m.frames ≠ 0 at live
    change (m.frames - 1).toNat < frameCount at room
    have hpred := frames_pred live
    have hkept : ∀ l, l < (m.frames - 1).toNat → returnAddress (Function.update m.frameMemory
        ⟨(m.frames - 1).toNat, room⟩ .zero) l = returnAddress m.frameMemory l :=
      fun l hl => returnAddress_update (Nat.ne_of_lt hl) _
    have htarget : ((m.frameMemory ⟨(m.frames - 1).toNat, room⟩).rip - 1).toNat =
        returnAddress m.frameMemory (m.frames - 1).toNat := by
      simp only [returnAddress, room, dif_pos]
    have hincreasing := h.increasing
    rw [hpred] at hincreasing
    refine ⟨⟨h.program, ?_, ?_⟩, ?_⟩
    · exact Nat.le_of_lt room
    · change Increasing _ (m.frames - 1).toNat
        ((m.frameMemory ⟨(m.frames - 1).toNat, room⟩).rip - 1).toNat
      rw [htarget]
      exact hincreasing.pop hkept
    · change fuel _ _ (m.frames - 1).toNat
        ((m.frameMemory ⟨(m.frames - 1).toNat, room⟩).rip - 1).toNat < fuel _ _ _ _
      rw [htarget, hpred]
      exact Increasing.fuel_pop hpc hkept

theorem Holds.forward_at {p : Program} (hp : Holds p) {m : Machine} {inst : Instruction}
    (h : m.program = p) (hf : m.fetched = some inst) : Forward m.pc.toNat inst := by
  unfold Machine.fetched at hf
  rw [h] at hf
  obtain ⟨hi, rfl⟩ := List.getElem?_eq_some_iff.mp hf
  exact hp.forward ⟨m.pc.toNat, hi⟩

theorem kept_of_record {m m' : Machine} {inst : Instruction}
    (he : Effect inst m.advance (some .iRec) m') :
    m'.frames = m.frames ∧ ∀ l, l < m.frames.toNat →
      returnAddress m'.frameMemory l = returnAddress m.frameMemory l := by
  obtain ⟨room, rfl⟩ := he.record_inv
  exact ⟨rfl, fun l hl => returnAddress_update (Nat.ne_of_lt hl) _⟩

theorem Ordered.step {host : Host} {p : Program} (hp : Holds p) {m m' : Machine}
    (h : Ordered p m) (hpc : m.pc.toNat < p.code.length) (hstep : executeOp host m = .ok m') :
    Ordered p m' ∧ remaining p m' < remaining p m := by
  obtain ⟨inst, hf, hop, he⟩ := executeOp_opcode hstep
  have hforward := hp.forward_at h.program hf
  have hshort := hp.short
  by_cases hcall : inst.decode = some .iCall
  · rw [hcall] at he
    exact h.call hpc hshort ((hforward .iCall hcall).2 (.inr rfl)) he
  · by_cases hret : inst.decode = some .iRet
    · rw [hret] at he
      exact h.ret hpc hshort he
    · have hkept : m'.frames = m.frames ∧ ∀ l, l < m.frames.toNat →
          returnAddress m'.frameMemory l = returnAddress m.frameMemory l := by
        by_cases hrec : inst.decode = some .iRec
        · rw [hrec] at he
          exact kept_of_record he
        · obtain ⟨hframes, hmemory⟩ := he.frames_unchanged hrec hcall hret
          exact ⟨hframes, fun l _ => by rw [hmemory]; rfl⟩
      have hlt : m.pc.toNat < m'.pc.toNat := by
        rcases he.pc_cases hcall hret with hnext | ⟨op, hd, hjump, htarget⟩ | ⟨op, hd, hjump⟩
        · rw [hnext]
          change m.pc.toNat < (m.pc + 1).toNat
          simp only [frameCount] at hshort
          bv_omega
        · have ht := (hforward op hd).2 (.inl hjump)
          have hne : op ≠ .iCall := fun heq => hcall (heq ▸ hd)
          rw [Instruction.target, if_neg hne] at ht
          exact htarget ▸ ht
        · exact absurd hjump (by simp [(hforward op hd).1])
      exact h.forward hpc he.program_unchanged hkept.1 hlt hkept.2

theorem run_ordered {host : Host} {g : Globals} {p : Program} (hp : Holds p) {n : Nat}
    {m : Machine} (h : executeProgram host n (initMachine g p) = .ok m) : Ordered p m := by
  refine Loop.run_invariant (Ordered p) ?_ (init g p) h
  intro s t hs hg hstep
  have hpc := (guard_iff.mp hg).1
  rw [hs.program] at hpc
  exact (hs.step hp hpc hstep).1

theorem run_frameSafe {host : Host} {g : Globals} {p : Program} (hp : Holds p) (n : Nat) :
    FrameSafe (executeProgram host n (initMachine g p)) := by
  intro h
  obtain ⟨k, m, hrun, hg, hbody⟩ := Loop.run_error h
  have hm := run_ordered hp hrun
  have hpc := (guard_iff.mp hg).1
  have hle := hm.increasing.frames_le
  have hshort := hp.short
  have hprogram := congrArg (fun q : Program => q.code.length) hm.program
  exact executeOp_frameSafe host hpc (fun _ => hm.depth) (fun _ => by omega) hbody

theorem forward_only_terminates (host : Host) (g : Globals) (p : Program) (hp : Holds p) :
    (∀ n m, executeProgram host n (initMachine g p) = .ok m → m.frames.toNat ≤ frameCount) ∧
    (∀ n, executeProgram host n (initMachine g p) ≠ .error .frameOutOfBounds) ∧
    ((∀ n e, executeProgram host n (initMachine g p) = .error e → e = .frameOutOfBounds) →
      ∃ n m, n ≤ 2 ^ p.code.length - 1 ∧ executeProgram host n (initMachine g p) = .ok m ∧
        (vmLoop host).guard m = false) := by
  refine ⟨fun n m h => (run_ordered hp h).depth, run_frameSafe hp, fun hother => ?_⟩
  have hrun := Loop.run_variant (L := vmLoop host) (Ordered p) (remaining p)
    (fun s t hs hg hstep => by
      have hpc := (guard_iff.mp hg).1
      rw [hs.program] at hpc
      exact hs.step hp hpc hstep)
    (init g p)
  rcases hrun with ⟨n, m, hn, hm, hg⟩ | ⟨n, e, he⟩
  · exact ⟨n, m, hn, hm, hg⟩
  · have hframe := hother n e he
    subst hframe
    exact absurd he (run_frameSafe hp n)

theorem oneCall_holds : Holds .oneCall := ⟨by decide, by decide⟩

theorem oneCall_run (n : Nat) :
    ∃ m, executeProgram Host.integer n (initMachine .zero .oneCall) = .ok m := by
  have hstop : ∃ m, (vmLoop Host.integer).run 3 (initMachine .zero .oneCall) = .ok m ∧
      (vmLoop Host.integer).guard m = false := ⟨_, rfl, rfl⟩
  obtain ⟨m, hm, hg⟩ := hstop
  match n with
  | 0 | 1 | 2 => exact ⟨_, rfl⟩
  | n + 3 => exact ⟨m, Nat.add_comm n 3 ▸ Loop.run_finished hm hg n⟩

theorem forward_only_terminates_one_call :
    ∃ n m, n ≤ 7 ∧ executeProgram Host.integer n (initMachine .zero .oneCall) = .ok m ∧
      (vmLoop Host.integer).guard m = false := by
  refine (forward_only_terminates Host.integer .zero .oneCall oneCall_holds).2.2 ?_
  intro n e h
  obtain ⟨m, hm⟩ := oneCall_run n
  rw [hm] at h
  cases h

end ForwardOnly

end CAt
