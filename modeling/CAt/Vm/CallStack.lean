import CAt.Vm.Effects

namespace CAt

open GuardedLoop

namespace CallStack

-- The abstract return stack: the machines whose CALL has not been returned from, innermost first.
def track (m : Machine) (callers : List Machine) : List Machine :=
  match m.opcode with
  | some .iCall => m :: callers
  | some .iRet => callers.tail
  | _ => callers

def openCalls (host : Host) (g : Globals) (p : Program) (n : Nat) : List Machine :=
  (vmLoop host).history track [] (initMachine g p) n

def Represents (frameMemory : Fin frameCount → CallFrame) : List Machine → Prop
  | [] => True
  | caller :: outer =>
    (caller.opcode = some .iCall ∧ caller.frames.toNat = outer.length ∧
      ∃ room : outer.length < frameCount,
        (frameMemory ⟨outer.length, room⟩).rip = caller.pc + 1 + 1 ∧
        ∀ l : Fin frameCount, l.val < outer.length → frameMemory l = caller.frameMemory l) ∧
    Represents frameMemory outer

theorem Represents.congr {fm fm' : Fin frameCount → CallFrame} {callers : List Machine}
    (h : Represents fm callers)
    (he : ∀ l : Fin frameCount, l.val < callers.length → fm' l = fm l) :
    Represents fm' callers := by
  induction callers with
  | nil => trivial
  | cons caller outer ih =>
    obtain ⟨⟨hc, hf, room, hrip, houter⟩, hrest⟩ := h
    have hlt (l : Fin frameCount) (hl : l.val < outer.length) : fm' l = fm l :=
      he l (Nat.lt_succ_of_lt hl)
    refine ⟨⟨hc, hf, room, ?_, fun l hl => (hlt l hl).trans (houter l hl)⟩, ih hrest hlt⟩
    rw [he ⟨outer.length, room⟩ (Nat.lt_succ_self _), hrip]

theorem Represents.update {fm : Fin frameCount → CallFrame} {callers : List Machine}
    (h : Represents fm callers) {i : Fin frameCount} (hi : callers.length ≤ i.val)
    (frame : CallFrame) : Represents (Function.update fm i frame) callers := by
  apply h.congr
  intro l hl
  apply Function.update_of_ne
  intro he
  subst he
  omega

theorem Represents.live {fm : Fin frameCount → CallFrame} {callers : List Machine}
    (h : Represents fm callers) (l : Nat) (hl : l < callers.reverse.length) :
    ∃ room : l < frameCount, callers.reverse[l].opcode = some .iCall ∧
      (fm ⟨l, room⟩).rip - 1 = callers.reverse[l].pc + 1 := by
  induction callers with
  | nil => simp at hl
  | cons caller outer ih =>
    obtain ⟨⟨hc, hf, room, hrip, houter⟩, hrest⟩ := h
    simp only [List.reverse_cons, List.length_append, List.length_reverse,
      List.length_singleton] at hl
    by_cases hlt : l < outer.reverse.length
    · simpa only [List.reverse_cons, List.getElem_append_left hlt] using ih hrest hlt
    · have he : l = outer.length := by
        rw [List.length_reverse] at hlt
        omega
      subst he
      have hlast : (caller :: outer).reverse[outer.length] = caller := by simp
      refine ⟨room, ?_, ?_⟩
      · rw [hlast, hc]
      · rw [hlast, hrip, BitVec.add_sub_cancel]

structure Holds (callers : List Machine) (m : Machine) : Prop where
  depth : m.frames.toNat = callers.length
  represents : Represents m.frameMemory callers

theorem init (g : Globals) (p : Program) : Holds [] (initMachine g p) :=
  ⟨rfl, trivial⟩

theorem track_of_not_call {m : Machine} {callers : List Machine}
    (hcall : m.opcode ≠ some .iCall) (hret : m.opcode ≠ some .iRet) :
    track m callers = callers := by
  unfold track
  split
  · exact absurd ‹_› hcall
  · exact absurd ‹_› hret
  · rfl

theorem Holds.call {inst : Instruction} {callers : List Machine} {m m' : Machine}
    (h : Holds callers m) (hop : m.opcode = some .iCall)
    (he : Effect inst m.advance (some .iCall) m') : Holds (m :: callers) m' := by
  obtain ⟨room, _, rfl⟩ := he.call_inv
  change m.frames.toNat < frameCount at room
  have hroom : callers.length < frameCount := h.depth ▸ room
  have hslot : (⟨m.frames.toNat, room⟩ : Fin frameCount) = ⟨callers.length, hroom⟩ :=
    Fin.ext h.depth
  have hkept : ∀ l : Fin frameCount, l.val < callers.length → ∀ frame,
      Function.update m.frameMemory ⟨m.frames.toNat, room⟩ frame l = m.frameMemory l := by
    intro l hl frame
    apply Function.update_of_ne
    intro heq
    rw [heq, hslot] at hl
    exact Nat.lt_irrefl _ hl
  refine ⟨?_, ⟨hop, h.depth, hroom, ?_, fun l hl => hkept l hl _⟩, ?_⟩
  · rw [List.length_cons, ← h.depth]
    exact frames_succ room
  · change (Function.update m.frameMemory ⟨m.frames.toNat, room⟩ _ _).rip = _
    rw [hslot, Function.update_self]
    rfl
  · exact h.represents.update (Nat.le_of_eq h.depth.symm) _

theorem Holds.ret {inst : Instruction} {callers : List Machine} {m m' : Machine}
    (h : Holds callers m) (he : Effect inst m.advance (some .iRet) m') :
    Holds callers.tail m' := by
  have hdepth := h.depth
  obtain ⟨_, _, ⟨root, rfl⟩ | ⟨live, room, rfl⟩⟩ := he.ret_inv
  · change m.frames = 0 at root
    rw [root] at hdepth
    have hnil : callers = [] := List.length_eq_zero_iff.mp hdepth.symm
    subst hnil
    exact ⟨h.depth, trivial⟩
  · change m.frames ≠ 0 at live
    have hpred := frames_pred live
    cases callers with
    | nil =>
      rw [List.length_nil] at hdepth
      omega
    | cons caller outer =>
      rw [List.length_cons] at hdepth
      have htop : (m.frames - 1).toNat = outer.length := by omega
      exact ⟨htop, h.represents.2.update (Nat.le_of_eq htop.symm) _⟩

theorem Holds.step {host : Host} {callers : List Machine} {m m' : Machine}
    (h : Holds callers m) (hstep : executeOp host m = .ok m') : Holds (track m callers) m' := by
  obtain ⟨inst, -, hop, he⟩ := executeOp_opcode hstep
  rw [← hop] at he
  by_cases hcall : m.opcode = some .iCall
  · rw [hcall] at he
    have htrack : track m callers = m :: callers := by simp [track, hcall]
    exact htrack ▸ h.call hcall he
  · by_cases hret : m.opcode = some .iRet
    · rw [hret] at he
      have htrack : track m callers = callers.tail := by simp [track, hret]
      exact htrack ▸ h.ret he
    · rw [track_of_not_call hcall hret]
      by_cases hrec : m.opcode = some .iRec
      · rw [hrec] at he
        obtain ⟨room, rfl⟩ := he.record_inv
        exact ⟨h.depth, h.represents.update (Nat.le_of_eq h.depth.symm) _⟩
      · obtain ⟨hf, hm⟩ := he.frames_unchanged hrec hcall hret
        exact ⟨(congrArg BitVec.toNat hf).trans h.depth, hm ▸ h.represents⟩

theorem run_holds {host : Host} {g : Globals} {p : Program} {n : Nat} {m : Machine}
    (h : executeProgram host n (initMachine g p) = .ok m) : Holds (openCalls host g p n) m :=
  Loop.history_invariant Holds (init g p) (fun _ _ _ _ _ _ hstep hi => hi.step hstep) h

theorem executeOp_keeps_live {host : Host} {m m' : Machine} (hstep : executeOp host m = .ok m')
    (hcall : m.opcode ≠ some .iCall) (hret : m.opcode ≠ some .iRet) :
    m'.frames = m.frames ∧
      ∀ l : Fin frameCount, l.val < m.frames.toNat → m'.frameMemory l = m.frameMemory l := by
  obtain ⟨inst, -, hop, he⟩ := executeOp_opcode hstep
  rw [← hop] at he
  by_cases hrec : m.opcode = some .iRec
  · rw [hrec] at he
    obtain ⟨room, rfl⟩ := he.record_inv
    refine ⟨rfl, fun l hl => Function.update_of_ne (fun heq => ?_) _ _⟩
    rw [heq] at hl
    exact Nat.lt_irrefl _ hl
  · obtain ⟨hf, hm⟩ := he.frames_unchanged hrec hcall hret
    exact ⟨hf, fun l _ => congrFun hm l⟩

theorem Holds.returns {host : Host} {callers : List Machine} {m m' : Machine}
    (h : Holds callers m) (hstep : executeOp host m = .ok m') (hret : m.opcode = some .iRet)
    (live : m.frames ≠ 0) : ∃ caller outer, callers = caller :: outer ∧
      caller.opcode = some .iCall ∧ m'.pc = caller.pc + 1 ∧ m'.frames = caller.frames ∧
      ∀ l : Fin frameCount, l.val < m'.frames.toNat → m'.frameMemory l = caller.frameMemory l := by
  obtain ⟨inst, -, hop, he⟩ := executeOp_opcode hstep
  rw [← hop, hret] at he
  obtain ⟨_, _, ⟨root, -⟩ | ⟨-, room, rfl⟩⟩ := he.ret_inv
  · exact absurd root live
  · change (m.frames - 1).toNat < frameCount at room
    have hdepth := h.depth
    have hpred := frames_pred live
    cases callers with
    | nil =>
      rw [List.length_nil] at hdepth
      omega
    | cons caller outer =>
      obtain ⟨⟨hc, hf, hroom, hrip, houter⟩, -⟩ := h.represents
      rw [List.length_cons] at hdepth
      have htop : (m.frames - 1).toNat = outer.length := by omega
      have hslot : (⟨(m.frames - 1).toNat, room⟩ : Fin frameCount) = ⟨outer.length, hroom⟩ :=
        Fin.ext htop
      refine ⟨caller, outer, rfl, hc, ?_, BitVec.eq_of_toNat_eq (htop.trans hf.symm), ?_⟩
      · change (m.frameMemory ⟨(m.frames - 1).toNat, room⟩).rip - 1 = _
        rw [hslot, hrip, BitVec.add_sub_cancel]
      · intro l hl
        change l.val < (m.frames - 1).toNat at hl
        change Function.update m.frameMemory ⟨(m.frames - 1).toNat, room⟩ _ l = _
        rw [Function.update_of_ne (fun heq => by rw [heq] at hl; exact Nat.lt_irrefl _ hl)]
        exact houter l (htop ▸ hl)

theorem call_return_discipline (host : Host) (g : Globals) (p : Program) (n : Nat) (m : Machine)
    (hrun : executeProgram host n (initMachine g p) = .ok m) :
    m.frames.toNat = (openCalls host g p n).length ∧
    (∀ (l : Nat) (hl : l < (openCalls host g p n).reverse.length), ∃ room : l < frameCount,
      (openCalls host g p n).reverse[l].opcode = some .iCall ∧
      (m.frameMemory ⟨l, room⟩).rip - 1 = (openCalls host g p n).reverse[l].pc + 1) ∧
    (∀ m', executeOp host m = .ok m' → m.opcode ≠ some .iCall → m.opcode ≠ some .iRet →
      m'.frames = m.frames ∧
        ∀ l : Fin frameCount, l.val < m.frames.toNat → m'.frameMemory l = m.frameMemory l) ∧
    (∀ m', executeOp host m = .ok m' → m.opcode = some .iRet → m.frames ≠ 0 →
      ∃ caller outer, openCalls host g p n = caller :: outer ∧ caller.opcode = some .iCall ∧
        m'.pc = caller.pc + 1 ∧ m'.frames = caller.frames ∧
        ∀ l : Fin frameCount, l.val < m'.frames.toNat →
          m'.frameMemory l = caller.frameMemory l) := by
  have h := run_holds hrun
  exact ⟨h.depth, h.represents.live, fun m' hstep => executeOp_keeps_live hstep,
    fun m' hstep => h.returns hstep⟩

theorem call_return_discipline_one_call :
    ∃ m, executeProgram Host.integer 1 (initMachine .zero .oneCall) = .ok m ∧
      m.opcode = some .iRet ∧
      m.frames.toNat = (openCalls Host.integer .zero .oneCall 1).length := by
  refine ⟨_, rfl, rfl, ?_⟩
  exact (call_return_discipline Host.integer .zero .oneCall 1 _ rfl).1

end CallStack

end CAt
