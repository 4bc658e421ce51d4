import CAt.Assembler.Disassembler
import CAt.Vm.Faults

namespace CAt

open Printf (Piece decimal render delimited render_inj)
open GuardedLoop.Loop (ok_bind)

namespace HiddenOperands

def SameEffect (host : Host) (i j : Instruction) : Prop :=
  ∀ m : Machine, executeInst host m i = executeInst host m j

section Printed

variable {formatFloat : Float32Bits → List Char} {i j : Instruction} {p q : Inst}
  {ps qs : List (Piece Operand)}

def mnemonic (text : List Char) : List Char := (text.drop 2).takeWhile (· != ' ')

def mnemonicOf (op : Inst) : List Char :=
  mnemonic (render (fun _ => []) ((asmFormat op).getD []))

def printedOps : List Inst := Inst.all.filter fun op => (asmFormat op).isSome

theorem mnemonics_nodup : (printedOps.map mnemonicOf).Nodup := by decide +kernel

theorem mem_printedOps (h : asmFormat p = some ps) : p ∈ printedOps := by
  refine List.mem_filter.mpr ⟨?_, by rw [h]; rfl⟩
  have hget := Inst.ofCode_code p
  exact List.mem_of_getElem? hget

theorem mnemonic_render (h : asmFormat p = some ps) (print : Operand → List Char) :
    mnemonic (render print ps) = mnemonicOf p := by
  cases p <;> cases h <;> rfl

theorem render_ne_nil (h : asmFormat p = some ps) (print : Operand → List Char) :
    render print ps ≠ [] := by
  cases p <;> cases h <;> exact List.cons_ne_nil _ _

theorem format_delimited (h : asmFormat p = some ps) : delimited ps = true := by
  cases p <;> cases h <;> rfl

theorem format_noFloat (h : asmFormat p = some ps) (hp : p ≠ .iFset) : .arg .asF32 ∉ ps := by
  cases p with
  | iFset => exact absurd rfl hp
  | _ => cases h <;> decide

theorem stdout_of_format (hi : i.decode = some p) (h : asmFormat p = some ps) (hp : p ≠ .iFset) :
    (printInstructionAsm formatFloat i).stdout = render (fun a => decimal (a.value i)) ps := by
  simp only [printInstructionAsm, hi, Option.bind_some, h]
  apply Printf.render_congr
  intro a ha
  cases a with
  | asF32 => exact absurd ha (format_noFloat h hp)
  | _ => rfl

theorem stdout_of_no_format (hi : i.decode = some p) (h : asmFormat p = none) :
    (printInstructionAsm formatFloat i).stdout = [] := by
  simp only [printInstructionAsm, hi, Option.bind_some, h]

theorem printed_alike (hi : i.decode = some p) (hj : j.decode = some q) (hp : p ≠ .iFset)
    (hq : q ≠ .iFset) (h : printInstructionAsm formatFloat i = printInstructionAsm formatFloat j) :
    (asmFormat p = none ∧ asmFormat q = none) ∨
      (p = q ∧ ∃ ps, asmFormat p = some ps ∧ ∀ a, .arg a ∈ ps → a.value i = a.value j) := by
  have hstdout := congrArg Printed.stdout h
  cases hps : asmFormat p with
  | none =>
    cases hqs : asmFormat q with
    | none => exact .inl ⟨rfl, rfl⟩
    | some qs =>
      rw [stdout_of_no_format hi hps, stdout_of_format hj hqs hq] at hstdout
      exact absurd hstdout.symm (render_ne_nil hqs _)
  | some ps =>
    cases hqs : asmFormat q with
    | none =>
      rw [stdout_of_format hi hps hp, stdout_of_no_format hj hqs] at hstdout
      exact absurd hstdout (render_ne_nil hps _)
    | some qs =>
      rw [stdout_of_format hi hps hp, stdout_of_format hj hqs hq] at hstdout
      have hmnemonic := congrArg mnemonic hstdout
      rw [mnemonic_render hps, mnemonic_render hqs] at hmnemonic
      obtain rfl := List.inj_on_of_nodup_map mnemonics_nodup (mem_printedOps hps)
        (mem_printedOps hqs) hmnemonic
      rw [hps] at hqs
      cases hqs
      exact .inr ⟨rfl, ps, rfl, render_inj (format_delimited hps) hstdout⟩

end Printed

section Executed

variable {host : Host} {m : Machine} {i j : Instruction} {op : Inst}

def reads : Inst → List Operand
  | .iHalt | .iEntry | .iRec | .iPrint | .iNop => []
  | .iPush | .iPop | .iGetac | .iInc | .iDec | .iRegDump | .iRet | .iRjmp => [.r0]
  | .iDload | .iFload | .iDsave | .iFsave
  | .iCu2i | .iCi2u | .iCf2i | .iCi2f | .iCu2f | .iCf2u => [.r0, .r1]
  | .iSet => [.r0, .asI32]
  | .iFset => [.r0, .asF32]
  | .iCall | .iJmp => [.asI32]
  | .iEjmp | .iNejmp => [.asI32, .r1, .r2]
  | _ => [.r0, .r1, .r2]

def kept {w : Nat} (op : Inst) (a : Operand) (v : BitVec w) : BitVec w :=
  if a ∈ reads op then v else 0

def restrict (op : Inst) (i : Instruction) : Instruction :=
  Build.operands op (kept op .r0 i.r0) (kept op .r1 i.r1) (kept op .r2 i.r2)
    (if .asI32 ∈ reads op then .ofI32 i.storage.asI32
      else .ofI32 (kept op .asF32 i.storage.asF32))

theorem executeOpcode_restrict (host : Host) (m : Machine) (i : Instruction) (op : Inst) :
    executeOpcode host m i op = executeOpcode host m (restrict op i) op := by
  have hi32 (s : UniformStrg) : UniformStrg.asI32 (.ofI32 s.asI32) = s.asI32 :=
    UniformStrg.asI32_ofI32 _
  cases op with
  | iSet => exact congrArg (m.setDReg i.r0) (hi32 i.storage).symm
  | iFset => exact congrArg (m.setFReg i.r0) (UniformStrg.asI32_ofI32 i.storage.asF32).symm
  | iCall =>
    have himmediate : (restrict .iCall i).storage.asI32 = i.storage.asI32 := hi32 i.storage
    change m.enter i = m.enter (restrict .iCall i)
    rw [Machine.enter, Machine.enter, himmediate]
  | iJmp =>
    have himmediate : (restrict .iJmp i).storage.asI32 = i.storage.asI32 := hi32 i.storage
    change _ = Except.ok { m with pc := (restrict .iJmp i).storage.asI32.setWidth 64 }
    rw [himmediate]
    rfl
  | iEjmp =>
    have himmediate : (restrict .iEjmp i).storage.asI32 = i.storage.asI32 := hi32 i.storage
    change m.jumpImmediateIf i _ = m.jumpImmediateIf (restrict .iEjmp i) _
    rw [Machine.jumpImmediateIf, Machine.jumpImmediateIf, himmediate]
    rfl
  | iNejmp =>
    have himmediate : (restrict .iNejmp i).storage.asI32 = i.storage.asI32 := hi32 i.storage
    change m.jumpImmediateIf i _ = m.jumpImmediateIf (restrict .iNejmp i) _
    rw [Machine.jumpImmediateIf, Machine.jumpImmediateIf, himmediate]
    rfl
  | _ => rfl

theorem kept_congr {w : Nat} {a : Operand} {v v' : BitVec w}
    (h : a ∈ reads op → v.toInt = v'.toInt) : kept op a v = kept op a v' := by
  unfold kept
  split
  · exact BitVec.eq_of_toInt_eq (h ‹_›)
  · rfl

theorem restrict_congr (h : ∀ a ∈ reads op, a.value i = a.value j) :
    restrict op i = restrict op j := by
  rw [restrict, restrict, kept_congr (h .r0), kept_congr (h .r1), kept_congr (h .r2),
    kept_congr (h .asF32)]
  split
  · rw [BitVec.eq_of_toInt_eq (h .asI32 ‹_›)]
  · rfl

theorem sameEffect_of_reads (hi : i.decode = some op) (hj : j.decode = some op)
    (h : ∀ a ∈ reads op, a.value i = a.value j) : SameEffect host i j := by
  intro m
  rw [executeInst, executeInst, hi, hj]
  change executeOpcode host m i op = executeOpcode host m j op
  rw [executeOpcode_restrict, restrict_congr h, ← executeOpcode_restrict]

theorem asI32_of_sizeT (h : Operand.sizeT.value i = Operand.sizeT.value j) :
    Operand.asI32.value i = Operand.asI32.value j := by
  have hwide : i.storage.asI32.signExtend 64 = j.storage.asI32.signExtend 64 :=
    BitVec.eq_of_toNat_eq (Int.ofNat.inj h)
  have hint := congrArg BitVec.toInt hwide
  rwa [BitVec.toInt_signExtend_of_le (by decide), BitVec.toInt_signExtend_of_le (by decide)] at hint

theorem reads_of_printed {ps : List (Piece Operand)} (hps : asmFormat op = some ps)
    (hejmp : op ≠ .iEjmp) (hnejmp : op ≠ .iNejmp)
    (h : ∀ a, .arg a ∈ ps → a.value i = a.value j) : ∀ a ∈ reads op, a.value i = a.value j := by
  have hprinted (hcall : op ≠ .iCall) : ∀ a ∈ reads op, .arg a ∈ ps := by
    cases op with
    | iEjmp => exact absurd rfl hejmp
    | iNejmp => exact absurd rfl hnejmp
    | iCall => exact absurd rfl hcall
    | _ => cases hps <;> decide
  by_cases hcall : op = .iCall
  · subst hcall
    cases hps
    intro a ha
    rw [List.mem_singleton.mp ha]
    exact asI32_of_sizeT (h .sizeT (by decide))
  · exact fun a ha => h a (hprinted hcall a ha)

end Executed

section Jumps

variable {host : Host} {m : Machine} {i j : Instruction} {op p q : Inst}

def file (m : Machine) (r : Byte) : Uint :=
  if h : r.toNat < intRegCount then m.iregisters ⟨r.toNat, h⟩ else 0

theorem dReg_file {r : Byte} (h : r.toNat < intRegCount) : m.dReg r = .ok (file m r) := by
  have hindex : regIndex r = .ok ⟨r.toNat, h⟩ := dif_pos h
  rw [Machine.dReg, hindex, file, dif_pos h]
  rfl

def target (op : Inst) (i : Instruction) (f : Byte → Uint) : Option Uint :=
  match op with
  | .iEjmp => if f i.r1 = f i.r2 then some i.storage.asI32 else none
  | .iNejmp => if f i.r1 = f i.r2 then none else some i.storage.asI32
  | .iErjmp => if f i.r1 = f i.r2 then some (f i.r0) else none
  | .iNerjmp => if f i.r1 = f i.r2 then none else some (f i.r0)
  | _ => some (f i.r0)

def landed (m : Machine) : Option Uint → Machine
  | none => m
  | some t => { m with pc := t.setWidth 64 }

theorem jumpImmediateIf_eq {x y : Uint} (h1 : m.dReg i.r1 = .ok x) (h2 : m.dReg i.r2 = .ok y)
    (compare : Uint → Uint → Bool) :
    m.jumpImmediateIf i compare =
      .ok (landed m (if compare x y then some i.storage.asI32 else none)) := by
  rw [Machine.jumpImmediateIf, h1, h2, ok_bind, ok_bind]
  split <;> rfl

theorem jumpRegisterIf_eq {x y z : Uint} (h0 : m.dReg i.r0 = .ok z) (h1 : m.dReg i.r1 = .ok x)
    (h2 : m.dReg i.r2 = .ok y) (compare : Uint → Uint → Bool) :
    m.jumpRegisterIf i compare = .ok (landed m (if compare x y then some z else none)) := by
  rw [Machine.jumpRegisterIf, h0, h1, h2, ok_bind, ok_bind]
  split <;> rfl

theorem executeOpcode_jump (host : Host) (m : Machine) (hrange : i.RegistersInRange)
    (hop : op.isRegisterJump = true ∨ op = .iEjmp ∨ op = .iNejmp) :
    executeOpcode host m i op = .ok (landed m (target op i (file m))) := by
  have h0 := dReg_file (m := m) ((Slot.r0 i).inRange hrange)
  have h1 := dReg_file (m := m) ((Slot.r1 i).inRange hrange)
  have h2 := dReg_file (m := m) ((Slot.r2 i).inRange hrange)
  cases op with
  | iEjmp =>
    refine (jumpImmediateIf_eq h1 h2 _).trans ?_
    simp only [beq_iff_eq, target]
  | iNejmp =>
    refine (jumpImmediateIf_eq h1 h2 _).trans ?_
    simp only [bne_iff_ne, ite_not, target]
  | iRjmp =>
    simp only [executeOpcode, h0, ok_bind]
    rfl
  | iErjmp =>
    refine (jumpRegisterIf_eq h0 h1 h2 _).trans ?_
    simp only [beq_iff_eq, target]
  | iNerjmp =>
    refine (jumpRegisterIf_eq h0 h1 h2 _).trans ?_
    simp only [bne_iff_ne, ite_not, target]
  | _ => rcases hop with h | h | h <;> cases h

def probe (f : Byte → Uint) : Machine :=
  { initMachine .zero .empty with
    pc := 4294967296
    iregisters := fun x => f (BitVec.ofNat 8 x.val) }

theorem file_probe (f : Byte → Uint) {r : Byte} (h : r.toNat < intRegCount) :
    file (probe f) r = f r := by
  rw [file, dif_pos h]
  exact congrArg f (BitVec.ofNat_toNat 8 r)

theorem target_congr {f g : Byte → Uint} (h : ∀ r, Slot i r → f r = g r) :
    target op i f = target op i g := by
  have h0 := h i.r0 (.r0 i)
  have h1 := h i.r1 (.r1 i)
  have h2 := h i.r2 (.r2 i)
  cases op with
  | iEjmp | iNejmp => simp only [target, h1, h2]
  | iErjmp | iNerjmp => simp only [target, h0, h1, h2]
  | _ => exact congrArg some h0

theorem landed_probe_injective (f : Byte → Uint) : Function.Injective (landed (probe f)) := by
  have hpc (t : Uint) : (4294967296 : SizeT) ≠ t.setWidth 64 := by
    intro h
    have hnat := congrArg BitVec.toNat h
    have hlt := t.isLt
    rw [BitVec.toNat_setWidth_of_le (by decide)] at hnat
    have hconst : (4294967296 : SizeT).toNat = 4294967296 := rfl
    omega
  intro t u h
  have hlanded := congrArg Machine.pc h
  cases t with
  | none =>
    cases u with
    | none => rfl
    | some u => exact absurd hlanded (hpc u)
  | some t =>
    cases u with
    | none => exact absurd hlanded.symm (hpc t)
    | some u =>
      have hnat := congrArg BitVec.toNat hlanded
      simp only [landed, BitVec.toNat_setWidth_of_le (show 32 ≤ 64 by decide)] at hnat
      rw [BitVec.eq_of_toNat_eq hnat]

theorem sameEffect_iff_target (hi : i.decode = some p) (hj : j.decode = some q)
    (hri : i.RegistersInRange) (hrj : j.RegistersInRange)
    (hp : p.isRegisterJump = true ∨ p = .iEjmp ∨ p = .iNejmp)
    (hq : q.isRegisterJump = true ∨ q = .iEjmp ∨ q = .iNejmp) :
    SameEffect host i j ↔ ∀ f, target p i f = target q j f := by
  have hstep (m : Machine) : executeInst host m i = executeInst host m j ↔
      landed m (target p i (file m)) = landed m (target q j (file m)) := by
    rw [executeInst, executeInst, hi, hj]
    change executeOpcode host m i p = executeOpcode host m j q ↔ _
    rw [executeOpcode_jump host m hri hp, executeOpcode_jump host m hrj hq]
    exact ⟨fun h => Except.ok.inj h, congrArg Except.ok⟩
  constructor
  · intro h f
    have hprobe := landed_probe_injective f ((hstep (probe f)).mp (h (probe f)))
    rwa [target_congr fun r hr => file_probe f (hr.inRange hri),
      target_congr fun r hr => file_probe f (hr.inRange hrj)] at hprobe
  · intro h m
    exact (hstep m).mpr (congrArg (landed m) (h (file m)))

end Jumps

section Compared

variable {i j : Instruction} {p q : Inst}

def distinct (r : Byte) : Uint := r.setWidth 32

def merge (x y r : Byte) : Uint := distinct (if r = y then x else r)

theorem distinct_inj {r s : Byte} : distinct r = distinct s ↔ r = s := by
  refine ⟨fun h => BitVec.eq_of_toNat_eq ?_, congrArg distinct⟩
  have hnat := congrArg BitVec.toNat h
  rwa [distinct, distinct, BitVec.toNat_setWidth_of_le (by decide),
    BitVec.toNat_setWidth_of_le (by decide)] at hnat

theorem merge_eq_iff {x y r s : Byte} :
    merge x y r = merge x y s ↔ r = s ∨ ((r = x ∨ r = y) ∧ (s = x ∨ s = y)) := by
  rw [merge, merge, distinct_inj]
  split <;> split <;> grind

theorem merge_self (x y : Byte) : merge x y x = merge x y y :=
  merge_eq_iff.mpr (.inr ⟨.inl rfl, .inr rfl⟩)

inductive Taken where
  | always | never | ifEqual | ifDifferent
deriving DecidableEq, Repr

def Taken.onEqual : Taken → Bool
  | .always | .ifEqual => true
  | .never | .ifDifferent => false

def Taken.onDifferent : Taken → Bool
  | .always | .ifDifferent => true
  | .never | .ifEqual => false

theorem Taken.eq_of_on {t u : Taken} (hequal : t.onEqual = u.onEqual)
    (hdifferent : t.onDifferent = u.onDifferent) : t = u := by
  cases t <;> cases u <;>
    first | rfl | exact absurd hequal (by decide) | exact absurd hdifferent (by decide)

-- ERJMP on one register twice jumps on every state, and NERJMP on none.
def taken (op : Inst) (i : Instruction) : Taken :=
  match op with
  | .iErjmp => if i.r1 = i.r2 then .always else .ifEqual
  | .iNerjmp => if i.r1 = i.r2 then .never else .ifDifferent
  | _ => .always

def SamePair (i j : Instruction) : Prop :=
  (i.r1 = j.r1 ∧ i.r2 = j.r2) ∨ (i.r1 = j.r2 ∧ i.r2 = j.r1)

def Compares (i : Instruction) (r : Byte) : Prop := r = i.r1 ∨ r = i.r2

def RegisterJumpsAlike (p q : Inst) (i j : Instruction) : Prop :=
  taken p i = taken q j ∧
    match taken p i with
    | .always => i.r0 = j.r0
    | .never => True
    | .ifEqual => SamePair i j ∧ (i.r0 = j.r0 ∨ (Compares i i.r0 ∧ Compares i j.r0))
    | .ifDifferent => SamePair i j ∧ i.r0 = j.r0

def registerTarget (t : Taken) (i : Instruction) (f : Byte → Uint) : Option Uint :=
  match t with
  | .always => some (f i.r0)
  | .never => none
  | .ifEqual => if f i.r1 = f i.r2 then some (f i.r0) else none
  | .ifDifferent => if f i.r1 = f i.r2 then none else some (f i.r0)

theorem target_registerJump (hp : p.isRegisterJump = true) (f : Byte → Uint) :
    target p i f = registerTarget (taken p i) i f := by
  cases p with
  | iRjmp => rfl
  | iErjmp | iNerjmp =>
    by_cases h : i.r1 = i.r2
    · simp [target, taken, registerTarget, h]
    · simp [target, taken, registerTarget, h]
  | _ => cases hp

theorem ne_of_taken (h : taken p i = .ifEqual ∨ taken p i = .ifDifferent) : i.r1 ≠ i.r2 := by
  intro heq
  cases p <;> simp [taken, heq] at h

theorem samePair_of_merge (hne : j.r1 ≠ j.r2)
    (h : merge i.r1 i.r2 j.r1 = merge i.r1 i.r2 j.r2) : SamePair i j := by
  rcases merge_eq_iff.mp h with heq | ⟨h1, h2⟩
  · exact absurd heq hne
  · unfold SamePair
    grind

theorem SamePair.compare (h : SamePair i j) (f : Byte → Uint) :
    f i.r1 = f i.r2 ↔ f j.r1 = f j.r2 := by
  rcases h with ⟨h1, h2⟩ | ⟨h1, h2⟩
  · rw [h1, h2]
  · rw [h1, h2]
    exact eq_comm

theorem registerTarget_congr (h : RegisterJumpsAlike p q i j) (f : Byte → Uint) :
    registerTarget (taken p i) i f = registerTarget (taken q j) j f := by
  obtain ⟨htaken, hoperands⟩ := h
  rw [← htaken]
  cases ht : taken p i with
  | always =>
    rw [ht] at hoperands
    exact congrArg (some ∘ f) hoperands
  | never => rfl
  | ifEqual =>
    rw [ht] at hoperands
    obtain ⟨hpair, hr0⟩ := hoperands
    simp only [registerTarget, hpair.compare f]
    split
    · rename_i heq
      have heqi := (hpair.compare f).mpr heq
      rcases hr0 with hr0 | ⟨hi, hj⟩
      · rw [hr0]
      · rcases hi with hi | hi <;> rcases hj with hj | hj <;> rw [hi, hj]
        · rw [heqi]
        · rw [heqi]
    · rfl
  | ifDifferent =>
    rw [ht] at hoperands
    obtain ⟨hpair, hr0⟩ := hoperands
    simp only [registerTarget, hpair.compare f, hr0]

theorem zero_isSome (t : Taken) (i : Instruction) :
    (registerTarget t i fun _ => 0).isSome = t.onEqual := by
  cases t <;> rfl

theorem distinct_isSome (p : Inst) (i : Instruction) :
    (registerTarget (taken p i) i distinct).isSome = (taken p i).onDifferent := by
  cases h : taken p i with
  | always | never => rfl
  | ifEqual =>
    have hne := ne_of_taken (.inl h)
    rw [registerTarget, if_neg (mt distinct_inj.mp hne)]
    rfl
  | ifDifferent =>
    have hne := ne_of_taken (.inr h)
    rw [registerTarget, if_neg (mt distinct_inj.mp hne)]
    rfl

theorem taken_eq_of_registerTarget
    (h : ∀ f, registerTarget (taken p i) i f = registerTarget (taken q j) j f) :
    taken p i = taken q j := by
  have hzero := congrArg Option.isSome (h fun _ => 0)
  have hdistinct := congrArg Option.isSome (h distinct)
  rw [zero_isSome, zero_isSome] at hzero
  rw [distinct_isSome, distinct_isSome] at hdistinct
  exact Taken.eq_of_on hzero hdistinct

theorem alike_of_registerTarget
    (h : ∀ f, registerTarget (taken p i) i f = registerTarget (taken q j) j f) :
    RegisterJumpsAlike p q i j := by
  have htaken := taken_eq_of_registerTarget h
  refine ⟨htaken, ?_⟩
  have hdistinct := h distinct
  have hmerge := h (merge i.r1 i.r2)
  rw [← htaken] at hdistinct hmerge
  cases hi : taken p i with
  | always =>
    rw [hi] at hdistinct
    exact distinct_inj.mp (Option.some.inj hdistinct)
  | never => trivial
  | ifEqual =>
    have hne := ne_of_taken (.inl (htaken ▸ hi))
    rw [hi, registerTarget, registerTarget, if_pos (merge_self _ _)] at hmerge
    by_cases hpair : merge i.r1 i.r2 j.r1 = merge i.r1 i.r2 j.r2
    · rw [if_pos hpair] at hmerge
      exact ⟨samePair_of_merge hne hpair, merge_eq_iff.mp (Option.some.inj hmerge)⟩
    · rw [if_neg hpair] at hmerge
      cases hmerge
  | ifDifferent =>
    have hnei := ne_of_taken (.inr hi)
    have hnej := ne_of_taken (.inr (htaken ▸ hi))
    rw [hi, registerTarget, registerTarget, if_neg (mt distinct_inj.mp hnei),
      if_neg (mt distinct_inj.mp hnej)] at hdistinct
    rw [hi, registerTarget, registerTarget, if_pos (merge_self _ _)] at hmerge
    by_cases hpair : merge i.r1 i.r2 j.r1 = merge i.r1 i.r2 j.r2
    · exact ⟨samePair_of_merge hnej hpair, distinct_inj.mp (Option.some.inj hdistinct)⟩
    · rw [if_neg hpair] at hmerge
      cases hmerge

theorem registerJumps_iff (hp : p.isRegisterJump = true) (hq : q.isRegisterJump = true) :
    (∀ f, target p i f = target q j f) ↔ RegisterJumpsAlike p q i j := by
  simp only [target_registerJump hp, target_registerJump hq]
  exact ⟨alike_of_registerTarget, registerTarget_congr⟩

theorem compared_iff {x y z : Byte} :
    (∀ f : Byte → Uint, f x = f y ↔ f x = f z) ↔ y = z := by
  constructor
  · intro h
    have hy := merge_eq_iff.mp ((h (merge x y)).mp (merge_self x y))
    have hz := merge_eq_iff.mp ((h (merge x z)).mpr (merge_self x z))
    grind
  · rintro rfl f
    rfl

theorem immediateJumps_iff (hp : p = .iEjmp ∨ p = .iNejmp)
    (himmediate : i.storage.asI32 = j.storage.asI32) (hr1 : i.r1 = j.r1) :
    (∀ f, target p i f = target p j f) ↔ i.r2 = j.r2 := by
  have htarget (f : Byte → Uint) :
      target p i f = target p j f ↔ (f i.r1 = f i.r2 ↔ f i.r1 = f j.r2) := by
    rcases hp with rfl | rfl
    · simp only [target, himmediate, ← hr1]
      by_cases h : f i.r1 = f i.r2 <;> by_cases h' : f i.r1 = f j.r2 <;> simp [h, h']
    · simp only [target, himmediate, ← hr1]
      by_cases h : f i.r1 = f i.r2 <;> by_cases h' : f i.r1 = f j.r2 <;> simp [h, h']
  simp only [htarget, compared_iff]

end Compared

-- RJMP, ERJMP and NERJMP are not printed at all, and EJMP and NEJMP without their second
-- compared register.
def Alike (p q : Inst) (i j : Instruction) : Prop :=
  match p with
  | .iEjmp | .iNejmp => i.r2 = j.r2
  | .iRjmp | .iErjmp | .iNerjmp => RegisterJumpsAlike p q i j
  | _ => True

theorem isRegisterJump_of_no_format {op : Inst} (h : asmFormat op = none) :
    op.isRegisterJump = true := by
  cases op with
  | iRjmp | iErjmp | iNerjmp => rfl
  | _ => cases h

theorem decode_of_operation {i : Instruction} {op : Inst}
    (h : i.operation = BitVec.ofNat 32 op.code) : i.decode = some op := by
  have hlt := op.code_lt
  have hcode : (i.operation.setWidth 8).toNat = op.code := by
    rw [h, BitVec.toNat_setWidth, BitVec.toNat_ofNat]
    omega
  rw [Instruction.decode, hcode, Inst.ofCode_code]

variable {host : Host} {formatFloat : Float32Bits → List Char} {i j : Instruction} {p q : Inst}

theorem alike_of_registerJump (hp : p.isRegisterJump = true) :
    Alike p q i j ↔ RegisterJumpsAlike p q i j := by
  cases p with
  | iRjmp | iErjmp | iNerjmp => exact Iff.rfl
  | _ => cases hp

theorem alike_of_immediateJump (hp : p = .iEjmp ∨ p = .iNejmp) :
    Alike p q i j ↔ i.r2 = j.r2 := by
  rcases hp with rfl | rfl <;> exact Iff.rfl

theorem alike_of_printed {ps : List (Piece Operand)} (hps : asmFormat p = some ps)
    (hp : ¬ (p = .iEjmp ∨ p = .iNejmp)) : Alike p q i j := by
  cases p with
  | iEjmp => exact absurd (.inl rfl) hp
  | iNejmp => exact absurd (.inr rfl) hp
  | iRjmp | iErjmp | iNerjmp => cases hps
  | _ => trivial

theorem immediateJump_shows {ps : List (Piece Operand)} (hps : asmFormat p = some ps)
    (hp : p = .iEjmp ∨ p = .iNejmp) : .arg .asI32 ∈ ps ∧ .arg .r1 ∈ ps := by
  rcases hp with rfl | rfl <;> cases hps <;> decide

theorem sameEffect_iff_alike (hi : i.operation = BitVec.ofNat 32 p.code)
    (hj : j.operation = BitVec.ofNat 32 q.code) (hp : p ≠ .iFset) (hq : q ≠ .iFset)
    (hri : i.RegistersInRange) (hrj : j.RegistersInRange)
    (hprinted : printInstructionAsm formatFloat i = printInstructionAsm formatFloat j) :
    SameEffect host i j ↔ Alike p q i j := by
  have hdi := decode_of_operation hi
  have hdj := decode_of_operation hj
  rcases printed_alike hdi hdj hp hq hprinted with ⟨hpn, hqn⟩ | ⟨rfl, ps, hps, hvalues⟩
  · have hjp := isRegisterJump_of_no_format hpn
    have hjq := isRegisterJump_of_no_format hqn
    rw [sameEffect_iff_target hdi hdj hri hrj (.inl hjp) (.inl hjq), registerJumps_iff hjp hjq,
      alike_of_registerJump hjp]
  · by_cases hjump : p = .iEjmp ∨ p = .iNejmp
    · obtain ⟨hshown, hshown'⟩ := immediateJump_shows hps hjump
      have himmediate : i.storage.asI32 = j.storage.asI32 :=
        BitVec.eq_of_toInt_eq (hvalues .asI32 hshown)
      have hr1 : i.r1 = j.r1 := BitVec.eq_of_toInt_eq (hvalues .r1 hshown')
      rw [sameEffect_iff_target hdi hdj hri hrj (.inr hjump) (.inr hjump),
        immediateJumps_iff hjump himmediate hr1, alike_of_immediateJump hjump]
    · exact iff_of_true (sameEffect_of_reads hdi hdj
        (reads_of_printed hps (mt Or.inl hjump) (mt Or.inr hjump) hvalues))
        (alike_of_printed hps hjump)

def showBits (f : Float32Bits) : List Char := decimal f.toInt

def rjmp (r : Byte) : Instruction := Build.operands .iRjmp r 0 0 0

def erjmp (r0 r1 r2 : Byte) : Instruction := Build.operands .iErjmp r0 r1 r2 0

theorem sameEffect_iff_alike_rjmp :
    SameEffect Host.integer (rjmp 5) (erjmp 5 7 7) ↔
      Alike .iRjmp .iErjmp (rjmp 5) (erjmp 5 7 7) :=
  @sameEffect_iff_alike Host.integer showBits (rjmp 5) (erjmp 5 7 7) .iRjmp .iErjmp rfl rfl
    (by decide) (by decide) (by decide) (by decide) rfl

theorem rjmp_hidden :
    (rjmp 1).RegistersInRange ∧ (rjmp 2).RegistersInRange ∧
      printInstructionAsm showBits (rjmp 1) = printInstructionAsm showBits (rjmp 2) ∧
      ¬ SameEffect Host.integer (rjmp 1) (rjmp 2) := by
  refine ⟨by decide, by decide, rfl, fun h => ?_⟩
  have htarget := (sameEffect_iff_target (Build.decode_operands ..) (Build.decode_operands ..)
    (by decide) (by decide) (.inl rfl) (.inl rfl)).mp h distinct
  exact absurd (distinct_inj.mp (Option.some.inj htarget)) (by decide)

end HiddenOperands

end CAt
