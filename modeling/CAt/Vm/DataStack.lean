import CAt.Vm.Effects

namespace CAt

open GuardedLoop

def Machine.operand (m : Machine) (slot : Instruction → Byte) : Uint :=
  match m.fetched with
  | none => 0
  | some inst =>
    match regIndex (slot inst) with
    | .ok i => m.iregisters i
    | .error _ => 0

theorem Machine.operand_eq {m : Machine} {slot : Instruction → Byte} {inst : Instruction}
    {i : Fin intRegCount} (hf : m.fetched = some inst) (hi : regIndex (slot inst) = .ok i) :
    m.operand slot = m.iregisters i := by
  simp [Machine.operand, hf, hi]

namespace DataStack

structure Trace where
  words : List Uint
  pushes : Nat
  pops : Nat

-- The abstract stack, bottom first, and how often PUSH and POP have been executed.
def track (m : Machine) (t : Trace) : Trace :=
  match m.opcode with
  | some .iPush => ⟨t.words ++ [m.operand Instruction.r0], t.pushes + 1, t.pops⟩
  | some .iPop => ⟨t.words.dropLast, t.pushes, t.pops + 1⟩
  | _ => t

def trace (host : Host) (g : Globals) (p : Program) (n : Nat) : Trace :=
  (vmLoop host).history track ⟨[], 0, 0⟩ (initMachine g p) n

theorem track_of_not_push_pop {m : Machine} (hpush : m.opcode ≠ some .iPush)
    (hpop : m.opcode ≠ some .iPop) (t : Trace) : track m t = t := by
  unfold track
  split
  · exact absurd ‹_› hpush
  · exact absurd ‹_› hpop
  · rfl

structure Allowed (t : Trace) (m : Machine) : Prop where
  push : m.opcode = some .iPush → m.stackTop.toNat ≤ stackSize - 8
  pop : m.opcode = some .iPop → t.pops < t.pushes
  save : m.opcode = some .iDsave ∨ m.opcode = some .iFsave →
    m.operand Instruction.r1 = 0 ∨
      (m.stackTop.toNat + 4 ≤ (m.operand Instruction.r1).toNat ∧
        (m.operand Instruction.r1).toNat ≤ stackSize - 4)

def Disciplined (host : Host) (g : Globals) (p : Program) (n : Nat) : Prop :=
  ∀ j m, j < n → executeProgram host j (initMachine g p) = .ok m →
    (vmLoop host).guard m = true → Allowed (trace host g p j) m

structure Holds (t : Trace) (m : Machine) : Prop where
  depth : t.pushes = t.pops + t.words.length
  top : m.stackTop.toNat = 4 * t.words.length
  room : 4 * t.words.length + 4 ≤ stackSize
  words : ByteMemory.Holds m.stackMemory 4 t.words

theorem init (g : Globals) (p : Program) : Holds ⟨[], 0, 0⟩ (initMachine g p) :=
  ⟨rfl, rfl, by decide, ByteMemory.holds_nil _ _⟩

theorem Holds.words_ne_nil {t : Trace} {m : Machine} (h : Holds t m) (hpop : t.pops < t.pushes) :
    t.words ≠ [] := by
  intro hnil
  have := h.depth
  rw [hnil, List.length_nil] at this
  omega

theorem Holds.push {inst : Instruction} {t : Trace} {m m' : Machine} (h : Holds t m)
    (hf : m.fetched = some inst) (hop : m.opcode = some .iPush)
    (ht : m.stackTop.toNat ≤ stackSize - 8) (he : Effect inst m.advance (some .iPush) m') :
    Holds (track m t) m' := by
  obtain ⟨i, hi, -, rfl⟩ := he.push_inv
  have htrack : track m t = ⟨t.words ++ [m.iregisters i], t.pushes + 1, t.pops⟩ := by
    simp [track, hop, Machine.operand_eq hf hi]
  have htop := h.top
  have hnext : (m.stackTop + 4).toNat = 4 + 4 * t.words.length := by
    simp only [stackSize] at ht
    bv_omega
  rw [htrack]
  refine ⟨?_, ?_, ?_, ?_⟩
  · have := h.depth
    simp only [List.length_append, List.length_singleton]
    omega
  · change (m.stackTop + 4).toNat = _
    simp only [List.length_append, List.length_singleton]
    omega
  · simp only [List.length_append, List.length_singleton, stackSize] at *
    omega
  · change ByteMemory.Holds (ByteMemory.store m.stackMemory (m.stackTop + 4).toNat
      (m.iregisters i)) 4 _
    rw [hnext]
    exact h.words.push _ (by simp only [stackSize] at *; omega)

theorem Holds.pop {inst : Instruction} {t : Trace} {m m' : Machine} (h : Holds t m)
    (hop : m.opcode = some .iPop) (hp : t.pops < t.pushes)
    (he : Effect inst m.advance (some .iPop) m') : Holds (track m t) m' := by
  obtain ⟨i, -, fits, rfl⟩ := he.pop_inv
  have htrack : track m t = ⟨t.words.dropLast, t.pushes, t.pops + 1⟩ := by simp [track, hop]
  have htop := h.top
  have hdepth := h.depth
  have hroom := h.room
  rw [htrack]
  refine ⟨?_, ?_, ?_, h.words.dropLast⟩
  · simp only [List.length_dropLast]
    omega
  · change (m.stackTop - 4).toNat = _
    simp only [List.length_dropLast]
    bv_omega
  · simp only [List.length_dropLast]
    omega

theorem Holds.save {inst : Instruction} {t : Trace} {m m' : Machine} {op : Inst} (h : Holds t m)
    (hf : m.fetched = some inst) (kind : op = .iDsave ∨ op = .iFsave)
    (ha : m.operand Instruction.r1 = 0 ∨
      (m.stackTop.toNat + 4 ≤ (m.operand Instruction.r1).toNat ∧
        (m.operand Instruction.r1).toNat ≤ stackSize - 4))
    (he : Effect inst m.advance (some op) m') : Holds t m' := by
  obtain ⟨i, hi, -, value, rfl⟩ := he.save_inv kind
  rw [Machine.operand_eq hf hi] at ha
  refine ⟨h.depth, h.top, h.room, h.words.store_outside value ?_⟩
  have htop := h.top
  change (m.iregisters i).toNat + 4 ≤ 4 ∨ 4 + 4 * t.words.length ≤ (m.iregisters i).toNat
  rcases ha with hzero | ⟨habove, -⟩
  · left
    rw [hzero]
    decide
  · right
    omega

theorem Holds.step {host : Host} {t : Trace} {m m' : Machine} (h : Holds t m)
    (ha : Allowed t m) (hstep : executeOp host m = .ok m') : Holds (track m t) m' := by
  obtain ⟨inst, hf, hop, he⟩ := executeOp_opcode hstep
  rw [← hop] at he
  by_cases hpush : m.opcode = some .iPush
  · rw [hpush] at he
    exact h.push hf hpush (ha.push hpush) he
  · by_cases hpop : m.opcode = some .iPop
    · rw [hpop] at he
      exact h.pop hpop (ha.pop hpop) he
    · rw [track_of_not_push_pop hpush hpop]
      by_cases hdsave : m.opcode = some .iDsave
      · rw [hdsave] at he
        exact h.save hf (.inl rfl) (ha.save (.inl hdsave)) he
      · by_cases hfsave : m.opcode = some .iFsave
        · rw [hfsave] at he
          exact h.save hf (.inr rfl) (ha.save (.inr hfsave)) he
        · obtain ⟨htop, hmem⟩ := he.stack_unchanged hpush hpop hdsave hfsave
          exact ⟨h.depth, htop ▸ h.top, h.room, hmem ▸ h.words⟩

theorem run_holds {host : Host} {g : Globals} {p : Program} {n : Nat} {m : Machine}
    (hd : Disciplined host g p n) (h : executeProgram host n (initMachine g p) = .ok m) :
    Holds (trace host g p n) m :=
  Loop.history_invariant Holds (init g p)
    (fun j t _ hj hrun hg hstep hi => hi.step (hd j t hj hrun hg) hstep) h

theorem Holds.pop_delivers {host : Host} {t : Trace} {m m' : Machine} (h : Holds t m)
    (hstep : executeOp host m = .ok m') (hop : m.opcode = some .iPop) (hp : t.pops < t.pushes) :
    ∃ inst i, m.fetched = some inst ∧ regIndex inst.r0 = .ok i ∧
      t.words.getLast? = some (m'.iregisters i) := by
  obtain ⟨inst, hf, hd, he⟩ := executeOp_opcode hstep
  rw [← hd, hop] at he
  obtain ⟨i, hi, fits, rfl⟩ := he.pop_inv
  refine ⟨inst, i, hf, hi, ?_⟩
  have hlen := List.length_pos_iff.mpr (h.words_ne_nil hp)
  obtain ⟨hb, hload⟩ := h.words (t.words.length - 1) (by omega)
  have htop : 4 + 4 * (t.words.length - 1) = m.stackTop.toNat := by
    have := h.top
    omega
  change t.words.getLast? = some (Function.update m.iregisters i
    (ByteMemory.load m.stackMemory m.stackTop.toNat fits) i)
  rw [Function.update_self, List.getLast?_eq_getElem?, List.getElem?_eq_getElem (by omega), ← hload]
  simp only [htop]

theorem Holds.dload_delivers {host : Host} {t : Trace} {m m' : Machine} (h : Holds t m)
    (hstep : executeOp host m = .ok m') (hop : m.opcode = some .iDload) {k : Nat}
    (hk : 1 ≤ k) (hle : k ≤ t.words.length)
    (ha : (m.operand Instruction.r1).toNat = 4 * k) :
    ∃ inst i, m.fetched = some inst ∧ regIndex inst.r0 = .ok i ∧
      t.words[k - 1]? = some (m'.iregisters i) := by
  obtain ⟨inst, hf, hexec⟩ := executeOp_of_opcode host hop
  rw [hexec] at hstep
  obtain ⟨i, j, hi, hj, fits, rfl⟩ := dload_ok hstep
  refine ⟨inst, i, hf, hi, ?_⟩
  obtain ⟨hb, hload⟩ := h.words (k - 1) (by omega)
  have haddress : 4 + 4 * (k - 1) = (m.advance.iregisters j).toNat := by
    have hreg : m.operand Instruction.r1 = m.advance.iregisters j := Machine.operand_eq hf hj
    rw [← hreg, ha]
    omega
  rw [List.getElem?_eq_getElem (by omega), ← hload]
  simp only [haddress, Function.update_self]
  rfl

theorem data_stack_refinement (host : Host) (g : Globals) (p : Program) (n : Nat) (m : Machine)
    (hd : Disciplined host g p n) (hrun : executeProgram host n (initMachine g p) = .ok m) :
    (trace host g p n).pushes = (trace host g p n).pops + (trace host g p n).words.length ∧
    m.stackTop.toNat = 4 * (trace host g p n).words.length ∧
    (∀ m', executeOp host m = .ok m' → m.opcode = some .iPop →
      (trace host g p n).pops < (trace host g p n).pushes →
      ∃ inst i, m.fetched = some inst ∧ regIndex inst.r0 = .ok i ∧
        (trace host g p n).words.getLast? = some (m'.iregisters i)) ∧
    (∀ m' k, executeOp host m = .ok m' → m.opcode = some .iDload → 1 ≤ k →
      k ≤ (trace host g p n).words.length → (m.operand Instruction.r1).toNat = 4 * k →
      ∃ inst i, m.fetched = some inst ∧ regIndex inst.r0 = .ok i ∧
        (trace host g p n).words[k - 1]? = some (m'.iregisters i)) := by
  have h := run_holds hd hrun
  exact ⟨h.depth, h.top, fun m' hstep => h.pop_delivers hstep,
    fun m' k hstep hop hk hle => h.dload_delivers hstep hop hk hle⟩

def pushPop : Program := ⟨[Build.set 1 7, Build.push 1, Build.pop 2], by decide⟩

theorem pushPop_disciplined : Disciplined Host.integer .zero pushPop 2 := by
  intro j m hj hrun hg
  rcases (by omega : j = 0 ∨ j = 1) with rfl | rfl
  · cases hrun
    exact ⟨fun h => (nomatch h), fun h => (nomatch h), fun h => h.elim (nomatch ·) (nomatch ·)⟩
  · cases hrun
    refine ⟨fun _ => ?_, fun h => (nomatch h), fun h => h.elim (nomatch ·) (nomatch ·)⟩
    decide

theorem data_stack_refinement_push_pop :
    ∃ m, executeProgram Host.integer 2 (initMachine .zero pushPop) = .ok m ∧
      m.opcode = some .iPop ∧
      m.stackTop.toNat = 4 * (trace Host.integer .zero pushPop 2).words.length := by
  refine ⟨_, rfl, rfl, ?_⟩
  exact (data_stack_refinement Host.integer .zero pushPop 2 _ pushPop_disciplined rfl).2.1

end DataStack

end CAt
