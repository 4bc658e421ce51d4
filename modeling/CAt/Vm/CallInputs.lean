import CAt.Vm.InstructionTraces

namespace CAt

open GuardedLoop

abbrev Steps (host : Host) : List (Option Inst) → Machine → Machine → Prop :=
  (Loop.mk (fun _ => true) (executeOp host)).Traced Machine.opcode

namespace CallInputs

def isOrdinary : Option Inst → Bool
  | some op => op != .iRec && op != .iCall && op != .iRet && op != .iHalt && !op.isJump &&
      !op.isRegisterJump
  | none => true

-- `s` is the state at REC, `t` the state at CALL and `u` the one CALL leaves.
def UsesRecord (s t u : Machine) : Prop :=
  ∀ i : Fin frameCount, i.val + 1 = u.frames.toNat →
    (u.frameMemory i).bfp.toNat = s.stackTop.toNat ∧
      (u.frameMemory i).lvp.toNat = t.stackTop.toNat

-- From an empty stack, POP gets at most four bytes below it before it leaves the array.
def Displaced (pushes pops : Nat) (top : SizeT) : Prop :=
  (top.toNat + 4 * pops = 4 * pushes ∧ top.toNat + 4 ≤ stackSize) ∨
    (top.toNat + 4 = 2 ^ 64 ∧ pops = pushes + 1)

section Displaced

variable {host : Host} {pushes pops : Nat} {m m' : Machine}

theorem displaced_zero : Displaced 0 0 0 := .inl ⟨rfl, by decide⟩

theorem Displaced.push {top : SizeT} (h : Displaced pushes pops top)
    (fits : (top + 4).toNat + 4 ≤ stackSize) : Displaced (pushes + 1) pops (top + 4) := by
  simp only [stackSize] at fits
  refine .inl ⟨?_, fits⟩
  rcases h with ⟨htop, hroom⟩ | ⟨htop, hpops⟩
  · simp only [stackSize] at hroom
    have hnext : (top + 4).toNat = top.toNat + 4 := by bv_omega
    omega
  · have hnext : (top + 4).toNat = 0 := by bv_omega
    omega

theorem Displaced.pop {top : SizeT} (h : Displaced pushes pops top)
    (fits : top.toNat + 4 ≤ stackSize) : Displaced pushes (pops + 1) (top - 4) := by
  simp only [stackSize] at fits
  rcases h with ⟨htop, -⟩ | ⟨htop, -⟩
  · by_cases hzero : top.toNat = 0
    · refine .inr ⟨?_, by omega⟩
      bv_omega
    · have hprev : (top - 4).toNat = top.toNat - 4 := by bv_omega
      refine .inl ⟨by omega, ?_⟩
      simp only [stackSize]
      omega
  · omega

theorem displaced_step (h : Displaced pushes pops m.stackTop)
    (hstep : executeOp host m = .ok m') :
    Displaced (pushes + [m.opcode].count (some .iPush)) (pops + [m.opcode].count (some .iPop))
      m'.stackTop := by
  obtain ⟨inst, -, hop, he⟩ := executeOp_opcode hstep
  rw [← hop] at he
  by_cases hpush : m.opcode = some .iPush
  · rw [hpush] at he ⊢
    obtain ⟨i, -, fits, rfl⟩ := he.push_inv
    exact h.push fits
  · by_cases hpop : m.opcode = some .iPop
    · rw [hpop] at he ⊢
      obtain ⟨i, -, fits, rfl⟩ := he.pop_inv
      exact h.pop fits
    · rw [List.count_singleton, List.count_singleton, he.stackTop_unchanged hpush hpop]
      simpa [hpush, hpop, Machine.advance] using h

theorem displaced_steps {trace : List (Option Inst)} {s t : Machine} (h : Steps host trace s t)
    (hs : Displaced pushes pops s.stackTop) :
    Displaced (pushes + trace.count (some .iPush)) (pops + trace.count (some .iPop))
      t.stackTop := by
  induction h generalizing pushes pops with
  | nil => exact hs
  | @cons s t u trace _ body _ ih =>
    have hrest := ih (displaced_step hs body)
    rw [Nat.add_assoc, Nat.add_assoc, ← List.count_append, ← List.count_append] at hrest
    exact hrest

theorem Displaced.fits_iff {top : SizeT} (h : Displaced pushes pops top) :
    (top.setWidth 32).toNat = top.toNat ↔ pops ≤ pushes := by
  rw [BitVec.toNat_setWidth]
  rcases h with ⟨htop, hroom⟩ | ⟨htop, hpops⟩
  · simp only [stackSize] at hroom
    omega
  · omega

end Displaced

section Frames

variable {host : Host} {m m' : Machine}

theorem ordinary_frames (h : isOrdinary m.opcode = true) (hstep : executeOp host m = .ok m') :
    m'.frames = m.frames := by
  obtain ⟨inst, -, hop, he⟩ := executeOp_opcode hstep
  rw [← hop] at he
  have hne (op : Inst) (hop : isOrdinary (some op) = false) : m.opcode ≠ some op := by
    intro heq
    rw [heq, hop] at h
    cases h
  exact (he.frames_unchanged (hne .iRec rfl) (hne .iCall rfl) (hne .iRet rfl)).1

theorem ordinary_steps {trace : List (Option Inst)} {s t : Machine} (h : Steps host trace s t)
    (hordinary : ∀ op ∈ trace, isOrdinary op = true) : t.frames = s.frames := by
  induction h with
  | nil => rfl
  | cons _ body _ ih =>
    obtain ⟨hop, hrest⟩ := List.forall_mem_cons.mp hordinary
    exact (ih hrest).trans (ordinary_frames hop body)

theorem rec_executes (host : Host) (hop : m.opcode = some .iRec) (room : m.frames.toNat < frameCount) :
    ∃ m', executeOp host m = .ok m' ∧ m'.frames = m.frames ∧ m'.stackTop = m.stackTop := by
  obtain ⟨inst, -, hexec⟩ := executeOp_of_opcode host hop
  have hindex : frameIndex m.advance.frames = .ok ⟨m.frames.toNat, room⟩ := frameIndex_of_toNat rfl
  have hrecord : executeOpcode host m.advance inst .iRec = .ok { m.advance with
      frameMemory := Function.update m.frameMemory ⟨m.frames.toNat, room⟩
        ⟨0, m.stackTop.setWidth 32, 0⟩ } := by
    change m.advance.startRecord = _
    rw [Machine.startRecord, record, hindex]
    rfl
  exact ⟨_, hexec.trans hrecord, rfl, rfl⟩

theorem call_executes (host : Host) (hop : m.opcode = some .iCall) (room : m.frames.toNat < frameCount) :
    ∃ m', executeOp host m = .ok m' ∧ m'.frames = m.frames + 1 ∧
      ∃ rip, m'.frameMemory ⟨m.frames.toNat, room⟩ = ⟨rip, 0, m.stackTop.setWidth 32⟩ := by
  obtain ⟨inst, -, hexec⟩ := executeOp_of_opcode host hop
  have hindex : frameIndex m.advance.frames = .ok ⟨m.frames.toNat, room⟩ := frameIndex_of_toNat rfl
  obtain ⟨m', hm⟩ : ∃ m', executeOpcode host m.advance inst .iCall = .ok m' := by
    change ∃ m', m.advance.enter inst = .ok m'
    rw [Machine.enter, call, hindex]
    exact ⟨_, rfl⟩
  obtain ⟨room', line, rfl⟩ := (executeOpcode_effect hm).call_inv
  exact ⟨_, hexec.trans hm, rfl, m.advance.pc + 1, Function.update_self _ _ _⟩

theorem usesRecord_iff {s t u : Machine} (hroom : t.frames.toNat < frameCount)
    (hnext : u.frames.toNat = t.frames.toNat + 1) {frame : CallFrame}
    (hframe : u.frameMemory ⟨t.frames.toNat, hroom⟩ = frame) : UsesRecord s t u ↔
      frame.bfp.toNat = s.stackTop.toNat ∧ frame.lvp.toNat = t.stackTop.toNat := by
  constructor
  · intro h
    have hcreated := h ⟨t.frames.toNat, hroom⟩ hnext.symm
    rwa [hframe] at hcreated
  · intro h i hi
    have hslot : i = ⟨t.frames.toNat, hroom⟩ := Fin.ext (Nat.succ.inj (hi.trans hnext))
    rwa [hslot, hframe]

end Frames

theorem call_uses_record_iff (host : Host) (s : Machine) (hrec : s.opcode = some .iRec)
    (room : s.frames.toNat < frameCount) :
    ∃ s', executeOp host s = .ok s' ∧
      ∀ (between : List (Option Inst)) (t : Machine), (∀ op ∈ between, isOrdinary op = true) →
        Steps host between s' t → t.opcode = some .iCall →
        ∃ u, executeOp host t = .ok u ∧
          (UsesRecord s t u ↔ s.stackTop = 0 ∧
            between.count (some .iPop) ≤ between.count (some .iPush)) := by
  obtain ⟨s', hstart, hframes, htop⟩ := rec_executes host hrec room
  refine ⟨s', hstart, fun between t hordinary hsteps hcall => ?_⟩
  have hdepth : t.frames = s.frames := (ordinary_steps hsteps hordinary).trans hframes
  have hroom : t.frames.toNat < frameCount := hdepth ▸ room
  obtain ⟨u, hcalled, hdeeper, rip, hframe⟩ := call_executes host hcall hroom
  refine ⟨u, hcalled, ?_⟩
  have hnext : u.frames.toNat = t.frames.toNat + 1 := hdeeper ▸ frames_succ hroom
  have huses : UsesRecord s t u ↔
      0 = s.stackTop.toNat ∧ (t.stackTop.setWidth 32).toNat = t.stackTop.toNat :=
    usesRecord_iff hroom hnext hframe
  have hzero : s.stackTop = 0 ↔ 0 = s.stackTop.toNat := by
    constructor
    · intro h
      rw [h]
      rfl
    · intro h
      exact BitVec.eq_of_toNat_eq h.symm
  rw [huses, hzero]
  refine and_congr_right fun hempty => ?_
  have hinit : Displaced 0 0 s'.stackTop := by
    rw [htop, hzero.mpr hempty]
    exact displaced_zero
  have hdisplaced := displaced_steps hsteps hinit
  rw [Nat.zero_add, Nat.zero_add] at hdisplaced
  exact hdisplaced.fits_iff

def pushedCall : Program :=
  ⟨[Build.push 0, Build.rec, Build.call 4, Build.halt, Build.ret 0], by decide⟩

def atRec : Machine := { initMachine .zero pushedCall with pc := 1, stackTop := 4 }

theorem call_uses_record_iff_pushedCall :
    ∃ s', executeOp Host.integer atRec = .ok s' ∧
      ∀ t, Steps Host.integer [] s' t → t.opcode = some .iCall →
        ∃ u, executeOp Host.integer t = .ok u ∧
          (UsesRecord atRec t u ↔ atRec.stackTop = 0 ∧
            ([] : List (Option Inst)).count (some .iPop) ≤
              ([] : List (Option Inst)).count (some .iPush)) := by
  obtain ⟨s', hstart, h⟩ := call_uses_record_iff Host.integer atRec rfl (by decide)
  exact ⟨s', hstart, fun t => h [] t (List.forall_mem_nil _)⟩

theorem record_lost :
    ∃ s s' t u, executeProgram Host.integer 1 (initMachine .zero pushedCall) = .ok s ∧
      s.opcode = some .iRec ∧ s.frames.toNat < frameCount ∧ executeOp Host.integer s = .ok s' ∧
      Steps Host.integer [] s' t ∧ t.opcode = some .iCall ∧ executeOp Host.integer t = .ok u ∧
      ¬ UsesRecord s t u := by
  refine ⟨_, _, _, _, rfl, rfl, by decide, rfl, .nil _, rfl, rfl, ?_⟩
  intro h
  have hframe := (h 0 rfl).1
  cases hframe

end CallInputs

end CAt
