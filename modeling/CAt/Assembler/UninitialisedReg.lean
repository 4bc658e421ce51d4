import CAt.Assembler.LineErrors

namespace CAt

open Faults (Only)

-- What an operand does whatever the uninitialised structure of parse_reg holds: `fault` ends the
-- line at once, `leftover` stores a number the structure held, or may do so, and `missing` does
-- that or fails its lookup.
inductive OperandRole where
  | fault (e : LineFault)
  | register (n : Uint)
  | floatRegister
  | number (v : Uint)
  | missing
  | leftover
deriving DecidableEq, Repr

def operandRole (labels : List Label) (token : Token) : OperandRole :=
  match token.literall with
  | none => .fault .nullString
  | some text =>
    if 4 < text.length then .fault .prefixOverflow
    else if text = ['L'] then .fault (.assertion ("You trying to reference a label? " ++
      "Label has to have at least one character in a name!"))
    else if text = ['f', 'r'] then .floatRegister
    else if text.head? = some 'r' then .register ((BitVec.ofInt 8 (atoi text.tail)).signExtend 32)
    else if text.head? = some 'L' then
      if labelOutcome text.tail labels = .stored then .leftover else .missing
    else if isDecimal text then .number (getDecimalValue text)
    else .leftover

def lookupFault (labels : List Label) : LineFault :=
  if labels.any (·.name.isNone) then .nullString else .assertion "Label was not found!"

inductive Immediate where
  | none | decimal | float
deriving DecidableEq, Repr

def immediateOf : Inst → Immediate
  | .iFset => .float
  | .iSet | .iCall | .iJmp | .iEjmp | .iNejmp => .decimal
  | _ => .none

namespace OperandRole

def sureFault : OperandRole → Option LineFault
  | .fault e => some e
  | _ => none

def keepsKnown (imm : Immediate) (known : Bool) : OperandRole → Bool
  | .number _ => true
  | .leftover | .missing => false
  | .floatRegister => known && imm != .float
  | .register _ | .fault _ => known

end OperandRole

def immediateKnown (imm : Immediate) (roles : List OperandRole) : Bool :=
  roles.foldl (OperandRole.keepsKnown imm) true

def faultOf (roles : List OperandRole) : Option LineFault :=
  roles.findSome? OperandRole.sureFault

def LooksUp (roles : List OperandRole) : Prop :=
  .missing ∈ roles.takeWhile (·.sureFault.isNone)

instance (roles : List OperandRole) : Decidable (LooksUp roles) :=
  inferInstanceAs (Decidable (_ ∈ _))

-- An operand that ends the line does so at an assertion, no lookup fails before it, and no number
-- that the structure held may be the last one stored in the immediate.
structure Determined (type : Inst) (roles : List OperandRole) : Prop where
  faults : ∀ e, faultOf roles = some e → e.isAssertion = true
  lookups : ¬ LooksUp roles
  immediate : faultOf roles = none → immediateOf type ≠ .none →
    immediateKnown (immediateOf type) roles = true

def LineDetermined (labels : List Label) : List Token → Prop
  | [] => False
  | first :: operands => ∀ type, lineInst first = some type →
      getInstuctionCount type = operands.length →
      Determined type (operands.map (operandRole labels))

-- Undefined behaviour gives no result that could be the same.
def SameOutcome {α : Type} (c d : Except LineFault α) : Prop :=
  AssertsOnly c ∧ c = d

def Independent (host : Host) (labels : List Label) (line : List Token) : Prop :=
  ∀ junk junk' : Nat → Reg,
    SameOutcome (assembleLine host junk labels line) (assembleLine host junk' labels line)

namespace UninitialisedReg

def storeValue (host : Host) (type : Inst) (acc : Operands) (v : Uint) : Operands :=
  if isFloatInstr type then { acc with fvalue := host.uintToFloat v } else { acc with dvalue := v }

section Operand

variable {host : Host} {labels : List Label} {type : Inst} {acc : Operands} {t : Nat}

def Reads (host : Host) (labels : List Label) (type : Inst) (acc : Operands) (t : Fin 4) (r : Reg) :
    OperandRole → Except LineFault Operands → Prop
  | .fault e, x => x = .error e
  | .register n, x => x = .ok { acc with regs := Function.update acc.regs t n }
  | .floatRegister, x => x = .ok (if r.isValue then
      { acc with fvalue := host.uintToFloat r.valueLiterall }
      else { acc with regs := Function.update acc.regs t 0 })
  | .number v, x => x = .ok (storeValue host type acc v)
  | .missing, x => x = if r.isValue then .ok (storeValue host type acc r.valueLiterall)
      else .error (lookupFault labels)
  | .leftover, x => ∃ f d, x = .ok { acc with fvalue := f, dvalue := d } ∧
      (r.isValue = true → r.isFloat = false → x = .ok (storeValue host type acc r.valueLiterall))

theorem searchLabel_missing {name : List Char} (h : labelOutcome name labels ≠ .stored) :
    (searchLabel name labels = .error .nullString ∧ lookupFault labels = .nullString) ∨
      (searchLabel name labels = .ok none ∧
        lookupFault labels = .assertion "Label was not found!") := by
  induction labels with
  | nil => exact .inr ⟨rfl, rfl⟩
  | cons l ls ih =>
    cases hname : l.name with
    | none => simp [searchLabel, lookupFault, hname]
    | some other =>
      by_cases heq : other = name
      · simp [labelOutcome, hname, heq] at h
      · simp only [labelOutcome, hname, heq, if_false] at h
        simpa [searchLabel, lookupFault, hname, heq] using ih h

theorem storeOperand_value {r : Reg} (hvalue : r.isValue = true) (hfloat : r.isFloat = false) :
    storeOperand host labels type acc t r = .ok (storeValue host type acc r.valueLiterall) := by
  cases htype : isFloatInstr type <;>
    simp [storeOperand, storeValue, hvalue, hfloat, htype] <;> rfl

theorem storeOperand_register {r : Reg} (hvalue : r.isValue = false) (hreg : r.isRegN = true)
    (ht : t < 4) :
    storeOperand host labels type acc t r =
      .ok { acc with regs := Function.update acc.regs ⟨t, ht⟩ (r.regN.signExtend 32) } := by
  simp [storeOperand, hvalue, hreg, ht]
  rfl

theorem storeOperand_lookup (host : Host) (labels : List Label) (type : Inst) (acc : Operands)
    (t : Nat) {r : Reg} {name : List Char} (named : name ≠ [])
    (hvalue : r.isValue = false) (hreg : r.isRegN = false) (hlabel : r.isLabel = true)
    (htext : r.valueLabel = some ('L' :: name)) :
    if labelOutcome name labels = .stored then
      ∃ address, storeOperand host labels type acc t r = .ok { acc with dvalue := address }
    else storeOperand host labels type acc t r = .error (lookupFault labels) := by
  have hfind : findLabel r labels = searchLabel name labels :=
    LineErrors.findLabel_named named htext labels
  split
  · rename_i hstored
    have hfound := LineErrors.searchLabel_outcome name labels
    rw [hstored, ← hfind] at hfound
    obtain ⟨address, hfound⟩ := hfound
    simp only [storeOperand, hvalue, hreg, hlabel, hfound]
    exact ⟨address, rfl⟩
  · rename_i hmissing
    rcases searchLabel_missing hmissing with ⟨hsearch, hfault⟩ | ⟨hsearch, hfault⟩ <;>
    · rw [← hfind] at hsearch
      simp only [storeOperand, hvalue, hreg, hlabel, hsearch, hfault]
      rfl

theorem operandRole_text {token : Token} {text : List Char} (htext : token.literall = some text)
    (hshort : text.length ≤ 4) (hlone : text ≠ ['L']) (hfr : text ≠ ['f', 'r']) :
    operandRole labels token =
      if text.head? = some 'r' then .register ((BitVec.ofInt 8 (atoi text.tail)).signExtend 32)
      else if text.head? = some 'L' then
        if labelOutcome text.tail labels = .stored then .leftover else .missing
      else if isDecimal text then .number (getDecimalValue text)
      else .leftover := by
  simp only [operandRole, htext, Nat.not_lt_of_le hshort, hlone, hfr, if_false]

theorem parseReg_floatRegister (r : Reg) :
    parseReg host r ['f', 'r'] = .ok { r with isFloat := true, isRegN := true, regN := 0 } := rfl

section Reads

variable {r r' : Reg} (ht : t < 4)

theorem reads_register {n : Byte} (hvalue : r'.isValue = false) (hreg : r'.isRegN = true)
    (hregN : r'.regN = n) :
    Reads host labels type acc ⟨t, ht⟩ r (.register (n.signExtend 32))
      (storeOperand host labels type acc t r') :=
  hregN ▸ storeOperand_register hvalue hreg ht

theorem reads_floatRegister (hvalue : r'.isValue = r.isValue) (hfloat : r'.isFloat = true)
    (hreg : r'.isRegN = true) (hregN : r'.regN = 0)
    (hliterall : r'.valueLiterall = r.valueLiterall) :
    Reads host labels type acc ⟨t, ht⟩ r .floatRegister
      (storeOperand host labels type acc t r') := by
  simp only [Reads, ← hvalue, ← hliterall]
  cases h : r'.isValue with
  | true =>
    simp [storeOperand, h, hfloat]
    rfl
  | false =>
    rw [storeOperand_register h hreg ht, hregN]
    rfl

theorem storeValue_fields (host : Host) (type : Inst) (acc : Operands) (v : Uint) :
    ∃ f d, storeValue host type acc v = { acc with fvalue := f, dvalue := d } := by
  unfold storeValue
  split
  · exact ⟨_, acc.dvalue, rfl⟩
  · exact ⟨acc.fvalue, _, rfl⟩

theorem reads_leftover_value :
    Reads host labels type acc ⟨t, ht⟩ r .leftover
      (.ok (storeValue host type acc r.valueLiterall)) := by
  obtain ⟨f, d, h⟩ := storeValue_fields host type acc r.valueLiterall
  exact ⟨f, d, congrArg Except.ok h, fun _ _ => rfl⟩

theorem reads_label {name : List Char} (named : name ≠ []) (hvalue : r'.isValue = r.isValue)
    (hfloat : r'.isFloat = false) (hreg : r'.isRegN = false) (hlabel : r'.isLabel = true)
    (htext : r'.valueLabel = some ('L' :: name))
    (hliterall : r'.valueLiterall = r.valueLiterall) :
    Reads host labels type acc ⟨t, ht⟩ r
      (if labelOutcome name labels = .stored then .leftover else .missing)
      (storeOperand host labels type acc t r') := by
  cases h : r'.isValue with
  | true =>
    rw [storeOperand_value h hfloat, hliterall]
    split
    · exact reads_leftover_value ht
    · simp [Reads, ← hvalue, h]
  | false =>
    have hlookup := storeOperand_lookup host labels type acc t named h hreg hlabel htext
    split at hlookup
    · rename_i hstored
      obtain ⟨address, hlookup⟩ := hlookup
      rw [hlookup, if_pos hstored]
      exact ⟨acc.fvalue, address, rfl, fun hset => by rw [← hvalue, h] at hset; cases hset⟩
    · rename_i hmissing
      rw [hlookup, if_neg hmissing]
      simp [Reads, ← hvalue, h]

theorem reads_other (hvalue : r'.isValue = true) (hfloat : r'.isFloat = r.isFloat)
    (hliterall : r'.valueLiterall = r.valueLiterall) :
    Reads host labels type acc ⟨t, ht⟩ r .leftover (storeOperand host labels type acc t r') := by
  cases h : r'.isFloat || isFloatInstr type with
  | true =>
    have hstore : storeOperand host labels type acc t r' =
        .ok { acc with fvalue := host.uintToFloat r'.valueLiterall } := by
      simp only [storeOperand, hvalue, h]
      rfl
    refine ⟨_, acc.dvalue, hstore, fun _ hr => ?_⟩
    rw [storeOperand_value hvalue (hfloat.trans hr), hliterall]
  | false =>
    have hdecimal : r'.isFloat = false := (Bool.or_eq_false_iff.mp h).1
    rw [storeOperand_value hvalue hdecimal, hliterall]
    exact reads_leftover_value ht

end Reads

theorem readOperand_reads (host : Host) (labels : List Label) (type : Inst) (acc : Operands)
    (junk : Nat → Reg) (token : Token) (ht : t < 4) :
    Reads host labels type acc ⟨t, ht⟩ (junk t) (operandRole labels token)
      (readOperand host junk labels type acc (token, t)) := by
  cases htext : token.literall with
  | none => simp [operandRole, htext, Reads, readOperand]
  | some text =>
    rw [readOperand_eq host junk labels acc t htext]
    by_cases hlong : 4 < text.length
    · rw [parseReg_long hlong]
      simp only [operandRole, htext, hlong, if_true]
      rfl
    by_cases hlone : text = ['L']
    · subst hlone
      simp only [operandRole, htext]
      rfl
    by_cases hfr : text = ['f', 'r']
    · subst hfr
      rw [parseReg_floatRegister]
      simp only [operandRole, htext]
      exact reads_floatRegister ht rfl rfl rfl rfl rfl
    have hshort := Nat.le_of_not_lt hlong
    rw [operandRole_text htext hshort hlone hfr]
    obtain ⟨r, hparse, hparsed⟩ := parseReg_eq host (junk t) hshort hlone
    rw [hparse]
    change Reads _ _ _ _ _ _ _ (storeOperand host labels type acc t r)
    cases hparsed with
    | floatRegister => exact absurd rfl hfr
    | register =>
      rw [if_pos List.head?_cons]
      exact reads_register ht rfl rfl rfl
    | label _ named => exact reads_label ht named rfl rfl rfl rfl rfl rfl
    | decimal _ digits =>
      have hr : text.head? ≠ some 'r' := fun h => by cases head_of_isDecimal digits h
      have hl : text.head? ≠ some 'L' := fun h => by cases head_of_isDecimal digits h
      rw [if_neg hr, if_neg hl, if_pos digits]
      exact storeOperand_value rfl rfl
    | other _ named digits =>
      rw [if_neg named.1, if_neg named.2, digits]
      exact reads_other ht rfl rfl rfl

end Operand

section Step

variable {host : Host} {labels : List Label} {type : Inst} {acc acc' : Operands} {t : Fin 4}
  {r r' : Reg} {role : OperandRole} {known : Bool} {x x' : Except LineFault Operands}

def immediate (type : Inst) (acc : Operands) : Uint :=
  match immediateOf type with
  | .none => 0
  | .decimal => acc.dvalue
  | .float => acc.fvalue

def convert (host : Host) (type : Inst) (v : Uint) : Uint :=
  if isFloatInstr type then host.uintToFloat v else v

theorem immediate_storeValue (h : immediateOf type ≠ .none) (v : Uint) :
    immediate type (storeValue host type acc v) = convert host type v := by
  cases type <;> first | rfl | exact absurd rfl h

theorem storeValue_congr (host : Host) (type : Inst) (acc acc' : Operands) (v : Uint) :
    immediate type (storeValue host type acc v) = immediate type (storeValue host type acc' v) := by
  by_cases h : immediateOf type = .none
  · simp only [immediate, h]
  · rw [immediate_storeValue h, immediate_storeValue h]

theorem immediate_fvalue (h : immediateOf type ≠ .float) (f : Float32Bits) :
    immediate type { acc with fvalue := f } = immediate type acc := by
  unfold immediate
  cases himm : immediateOf type with
  | none => rfl
  | decimal => rfl
  | float => exact absurd himm h

theorem immediate_float (h : immediateOf type = .float) (v : Uint) :
    immediate type { acc with fvalue := host.uintToFloat v } = convert host type v := by
  cases type <;> first | rfl | cases h

theorem floatRegister_fields (hzero : acc.regs t = 0)
    (hx : Reads host labels type acc t r .floatRegister x) :
    ∃ f, x = .ok { acc with fvalue := f } := by
  have hsame : Function.update acc.regs t 0 = acc.regs := by
    rw [← hzero, Function.update_eq_self]
  simp only [Reads, hsame] at hx
  cases hvalue : r.isValue with
  | true => exact ⟨_, by rw [hx, hvalue]; rfl⟩
  | false => exact ⟨acc.fvalue, by rw [hx, hvalue]; rfl⟩

theorem assemble_congr (hcount : getInstuctionCount type ≠ 0) (hregs : acc.regs = acc'.regs)
    (himmediate : immediate type acc = immediate type acc') :
    assemble type (acc.regs 0) (acc.regs 1) (acc.regs 2) (acc.regs 3) acc.fvalue acc.dvalue =
      assemble type (acc'.regs 0) (acc'.regs 1) (acc'.regs 2) (acc'.regs 3) acc'.fvalue
        acc'.dvalue := by
  rw [hregs]
  cases type <;> first
    | rfl
    | exact absurd rfl hcount
    | simp only [assemble, show acc.dvalue = acc'.dvalue from himmediate]
    | simp only [assemble, show acc.fvalue = acc'.fvalue from himmediate]

theorem assemble_storage (h : immediateOf type ≠ .none) (a b c d : Uint) :
    (assemble type a b c d acc.fvalue acc.dvalue).storage.asI32 = immediate type acc := by
  cases type <;> first | exact absurd rfl h | exact UniformStrg.asI32_ofI32 _

structure Agree (type : Inst) (t : Nat) (known : Bool) (acc acc' : Operands) : Prop where
  regs : acc.regs = acc'.regs
  unread : ∀ i : Fin 4, t ≤ i.val → acc.regs i = 0
  immediate : known = true → immediate type acc = immediate type acc'

theorem Agree.store {f f' : Float32Bits} {d d' : Uint} (h : Agree type t known acc acc')
    {known' : Bool} (himmediate : known' = true → UninitialisedReg.immediate type
      { acc with fvalue := f, dvalue := d } =
        UninitialisedReg.immediate type { acc' with fvalue := f', dvalue := d' }) :
    Agree type (t + 1) known' { acc with fvalue := f, dvalue := d }
      { acc' with fvalue := f', dvalue := d' } where
  regs := h.regs
  unread i hi := h.unread i (Nat.le_of_succ_le hi)
  immediate := himmediate

theorem Agree.step (h : Agree type t known acc acc') (hx : Reads host labels type acc t r role x)
    (hx' : Reads host labels type acc' t r' role x') (hfault : role.sureFault = none)
    (hmissing : role ≠ .missing) :
    ∃ a a', x = .ok a ∧ x' = .ok a' ∧
      Agree type (t + 1) (role.keepsKnown (immediateOf type) known) a a' := by
  cases role with
  | fault e => cases hfault
  | missing => exact absurd rfl hmissing
  | register n =>
    refine ⟨_, _, hx, hx', ?_, ?_, h.immediate⟩
    · rw [h.regs]
    · intro i hi
      have hne : i ≠ t := fun he => by
        rw [he] at hi
        omega
      simpa [Function.update_of_ne hne] using h.unread i (Nat.le_of_succ_le hi)
  | floatRegister =>
    obtain ⟨f, rfl⟩ := floatRegister_fields (h.unread t (Nat.le_refl _)) hx
    obtain ⟨f', rfl⟩ := floatRegister_fields (h.regs ▸ h.unread t (Nat.le_refl _)) hx'
    refine ⟨_, _, rfl, rfl, h.store fun hknown => ?_⟩
    simp only [OperandRole.keepsKnown, Bool.and_eq_true, bne_iff_ne] at hknown
    exact (immediate_fvalue hknown.2 f).trans
      ((h.immediate hknown.1).trans (immediate_fvalue hknown.2 f').symm)
  | number v =>
    obtain ⟨f, d, hstore⟩ := storeValue_fields host type acc v
    obtain ⟨f', d', hstore'⟩ := storeValue_fields host type acc' v
    have heq := storeValue_congr host type acc acc' v
    rw [hstore, hstore'] at heq
    exact ⟨_, _, hstore ▸ hx, hstore' ▸ hx', h.store fun _ => heq⟩
  | leftover =>
    obtain ⟨f, d, rfl, -⟩ := hx
    obtain ⟨f', d', rfl, -⟩ := hx'
    exact ⟨_, _, rfl, rfl, h.store fun hknown => by cases hknown⟩

def leftoverReg (w : Uint) : Reg := { Reg.zero with isValue := true, valueLiterall := w }

theorem leftover_step (known : Bool) {w : Uint} (hx : Reads host labels type acc t (leftoverReg w) role x)
    (hfault : role.sureFault = none) :
    ∃ a, x = .ok a ∧ (immediateOf type ≠ .none →
      role.keepsKnown (immediateOf type) known = false →
      (known = false → immediate type acc = convert host type w) →
      immediate type a = convert host type w) := by
  have hstore : immediateOf type ≠ .none →
      immediate type (storeValue host type acc w) = convert host type w :=
    fun h => immediate_storeValue h w
  cases role with
  | fault e => cases hfault
  | register n => exact ⟨_, hx, fun _ hknown h => h hknown⟩
  | missing => exact ⟨_, hx, fun himmediate _ _ => hstore himmediate⟩
  | number v => exact ⟨_, hx, fun _ hknown => by cases hknown⟩
  | leftover =>
    obtain ⟨f, d, -, hset⟩ := hx
    exact ⟨_, hset rfl rfl, fun himmediate _ _ => hstore himmediate⟩
  | floatRegister =>
    refine ⟨_, hx, fun _ hknown h => ?_⟩
    by_cases hfloat : immediateOf type = .float
    · exact immediate_float hfloat w
    · simp only [OperandRole.keepsKnown, Bool.and_eq_false_iff, bne_eq_false_iff_eq] at hknown
      exact (immediate_fvalue hfloat _).trans (h (hknown.resolve_right hfloat))

end Step

section Line

variable {host : Host} {labels : List Label} {type : Inst}

def readsFrom (host : Host) (junk : Nat → Reg) (labels : List Label) (type : Inst)
    (operands : List Token) (t : Nat) (acc : Operands) : Except LineFault Operands :=
  (operands.zipIdx t).foldlM (readOperand host junk labels type) acc

theorem readsFrom_cons (junk : Nat → Reg) (token : Token) (operands : List Token) (t : Nat)
    (acc : Operands) :
    readsFrom host junk labels type (token :: operands) t acc =
      (readOperand host junk labels type acc (token, t)) >>=
        readsFrom host junk labels type operands (t + 1) := by
  rw [readsFrom, List.zipIdx_cons, List.foldlM_cons]
  rfl

theorem faultOf_cons {role : OperandRole} (roles : List OperandRole)
    (h : role.sureFault = none) : faultOf (role :: roles) = faultOf roles := by
  simp only [faultOf, List.findSome?_cons, h]

theorem looksUp_cons {role : OperandRole} (roles : List OperandRole) (h : role.sureFault = none) :
    LooksUp (role :: roles) ↔ role = .missing ∨ LooksUp roles := by
  simp [LooksUp, h, eq_comm]

theorem operandRole_fault {token : Token} {e : LineFault} (h : operandRole labels token = .fault e) :
    e ≠ .assertion "Label was not found!" := by
  rintro rfl
  unfold operandRole at h
  cases hliterall : token.literall with
  | none => simp [hliterall] at h
  | some text =>
    simp only [hliterall] at h
    repeat' split at h
    all_goals simp at h

theorem faultOf_ne_lookupFault {operands : List Token} {e : LineFault}
    (hfault : faultOf (operands.map (operandRole labels)) = some e)
    (hlookup : (lookupFault labels).isAssertion = true) : e ≠ lookupFault labels := by
  obtain ⟨role, hrole, hsure⟩ := List.exists_of_findSome?_eq_some hfault
  obtain ⟨token, -, rfl⟩ := List.mem_map.mp hrole
  have hne : e ≠ .assertion "Label was not found!" := by
    cases hcase : operandRole labels token with
    | fault e' =>
      rw [hcase] at hsure
      cases hsure
      exact operandRole_fault hcase
    | _ => simp [hcase, OperandRole.sureFault] at hsure
  unfold lookupFault at hlookup ⊢
  split at hlookup
  · cases hlookup
  · rename_i hnamed
    rwa [if_neg hnamed]

theorem looksUp_fault (e : LineFault) (roles : List OperandRole) :
    ¬ LooksUp (.fault e :: roles) := by
  simp [LooksUp, OperandRole.sureFault]

theorem Reads.outcome {acc : Operands} {t : Fin 4} {r : Reg} {role : OperandRole}
    {x : Except LineFault Operands} (h : Reads host labels type acc t r role x) :
    (∃ e, role = .fault e ∧ x = .error e) ∨
      (role = .missing ∧ r.isValue = false ∧ x = .error (lookupFault labels)) ∨
      (role.sureFault = none ∧ (role = .missing → r.isValue = true) ∧ ∃ a, x = .ok a) := by
  cases role with
  | fault e => exact .inl ⟨e, rfl, h⟩
  | register n => exact .inr (.inr ⟨rfl, by simp, _, h⟩)
  | floatRegister => exact .inr (.inr ⟨rfl, by simp, _, h⟩)
  | number v => exact .inr (.inr ⟨rfl, by simp, _, h⟩)
  | leftover =>
    obtain ⟨f, d, hx, -⟩ := h
    exact .inr (.inr ⟨rfl, by simp, _, hx⟩)
  | missing =>
    cases hvalue : r.isValue with
    | true => exact .inr (.inr ⟨rfl, fun _ => rfl, _, h.trans (if_pos hvalue)⟩)
    | false => exact .inr (.inl ⟨rfl, rfl, h.trans (if_neg (by simp [hvalue]))⟩)

section Runs

variable (host type) (operands : List Token) (t : Nat) (acc : Operands)

theorem readsFrom_fault {junk : Nat → Reg} {e : LineFault} (ht : t + operands.length ≤ 4)
    (hfault : faultOf (operands.map (operandRole labels)) = some e)
    (hmissing : LooksUp (operands.map (operandRole labels)) →
      (∀ t, (junk t).isValue = true) ∨ lookupFault labels = e) :
    readsFrom host junk labels type operands t acc = .error e := by
  induction operands generalizing t acc with
  | nil => cases hfault
  | cons token operands ih =>
    rw [List.length_cons] at ht
    rw [List.map_cons] at hfault hmissing
    have hlt : t < 4 := by omega
    have hreads := readOperand_reads host labels type acc junk token hlt
    rw [readsFrom_cons]
    rcases hreads.outcome with ⟨e', hrole, hx⟩ | ⟨hrole, hvalue, hx⟩ | ⟨hrole, -, a, hx⟩
    · rw [hrole] at hfault
      cases hfault
      rw [hx]
      rfl
    · rw [hrole, looksUp_cons _ rfl] at hmissing
      have hlookup := (hmissing (.inl rfl)).resolve_left fun h => by simp [h] at hvalue
      rw [hx, hlookup]
      rfl
    · rw [faultOf_cons _ hrole] at hfault
      rw [looksUp_cons _ hrole] at hmissing
      rw [hx]
      exact ih (t + 1) a (by omega) hfault fun h => hmissing (.inr h)

theorem readsFrom_missing {junk : Nat → Reg} (hzero : ∀ t, (junk t).isValue = false)
    (ht : t + operands.length ≤ 4) (hmissing : LooksUp (operands.map (operandRole labels))) :
    readsFrom host junk labels type operands t acc = .error (lookupFault labels) := by
  induction operands generalizing t acc with
  | nil => cases hmissing
  | cons token operands ih =>
    rw [List.length_cons] at ht
    rw [List.map_cons] at hmissing
    have hlt : t < 4 := by omega
    have hreads := readOperand_reads host labels type acc junk token hlt
    rw [readsFrom_cons]
    rcases hreads.outcome with ⟨e, hrole, -⟩ | ⟨-, -, hx⟩ | ⟨hrole, hvalue, a, hx⟩
    · rw [hrole] at hmissing
      exact absurd hmissing (looksUp_fault e _)
    · rw [hx]
      rfl
    · have hstored : operandRole labels token ≠ .missing := fun h => by
        simpa [hzero t] using hvalue h
      rw [hx]
      exact ih (t + 1) a (by omega)
        (((looksUp_cons _ hrole).mp hmissing).resolve_left hstored)

theorem readsFrom_agree (junk junk' : Nat → Reg) {known : Bool} {acc acc' : Operands}
    (ht : t + operands.length ≤ 4) (hfault : faultOf (operands.map (operandRole labels)) = none)
    (hmissing : ¬ LooksUp (operands.map (operandRole labels))) (h : Agree type t known acc acc') :
    ∃ a a', readsFrom host junk labels type operands t acc = .ok a ∧
      readsFrom host junk' labels type operands t acc' = .ok a' ∧
      Agree type (t + operands.length)
        ((operands.map (operandRole labels)).foldl (OperandRole.keepsKnown (immediateOf type))
          known) a a' := by
  induction operands generalizing t known acc acc' with
  | nil => exact ⟨acc, acc', rfl, rfl, h⟩
  | cons token operands ih =>
    rw [List.length_cons] at ht
    rw [List.map_cons] at hfault hmissing
    have hlt : t < 4 := by omega
    have hrole : (operandRole labels token).sureFault = none := by
      simpa using List.findSome?_eq_none_iff.mp hfault _ List.mem_cons_self
    rw [faultOf_cons _ hrole] at hfault
    rw [looksUp_cons _ hrole, not_or] at hmissing
    obtain ⟨a, a', hx, hx', hagree⟩ := h.step (t := ⟨t, hlt⟩)
      (readOperand_reads host labels type acc junk token hlt)
      (readOperand_reads host labels type acc' junk' token hlt) hrole
      hmissing.1
    rw [readsFrom_cons, readsFrom_cons, hx, hx']
    have hrest := ih (t + 1) (by omega) hfault hmissing.2 hagree
    rwa [Nat.add_right_comm, Nat.add_assoc] at hrest

theorem readsFrom_leftover (w : Uint) (known : Bool) (ht : t + operands.length ≤ 4) (hfault : faultOf (operands.map (operandRole labels)) = none) :
    ∃ a, readsFrom host (fun _ => leftoverReg w) labels type operands t acc = .ok a ∧
      (immediateOf type ≠ .none →
        (operands.map (operandRole labels)).foldl (OperandRole.keepsKnown (immediateOf type))
          known = false →
        (known = false → immediate type acc = convert host type w) →
        immediate type a = convert host type w) := by
  induction operands generalizing t known acc with
  | nil => exact ⟨acc, rfl, fun _ hknown h => h hknown⟩
  | cons token operands ih =>
    rw [List.length_cons] at ht
    rw [List.map_cons] at hfault
    have hlt : t < 4 := by omega
    have hrole : (operandRole labels token).sureFault = none := by
      simpa using List.findSome?_eq_none_iff.mp hfault _ List.mem_cons_self
    rw [faultOf_cons _ hrole] at hfault
    obtain ⟨a, hx, hstep⟩ := leftover_step known
      (readOperand_reads host labels type acc (fun _ => leftoverReg w) token hlt) hrole
    obtain ⟨b, hrun, hrest⟩ := ih (t + 1) a _ (by omega) hfault
    rw [readsFrom_cons, hx]
    refine ⟨b, hrun, fun himmediate hknown h => ?_⟩
    exact hrest himmediate hknown fun hfirst => hstep himmediate hfirst h

end Runs

def SameReads (host : Host) (labels : List Label) (type : Inst) (operands : List Token)
    (finish : Operands → Instruction) : Prop :=
  ∀ junk junk' : Nat → Reg,
    SameOutcome ((readsFrom host junk labels type operands 0 .zero).map finish)
      ((readsFrom host junk' labels type operands 0 .zero).map finish)

theorem Agree.zero : Agree type 0 true .zero .zero := ⟨rfl, fun _ _ => rfl, fun _ => rfl⟩

variable {operands : List Token}

theorem sameReads_of_determined (hcount : getInstuctionCount type = operands.length)
    (h : Determined type (operands.map (operandRole labels))) :
    SameReads host labels type operands fun acc => assemble type (acc.regs 0) (acc.regs 1)
      (acc.regs 2) (acc.regs 3) acc.fvalue acc.dvalue := by
  intro junk junk'
  have hroom : 0 + operands.length ≤ 4 := LineErrors.operands_room hcount
  cases hfault : faultOf (operands.map (operandRole labels)) with
  | some e =>
    rw [readsFrom_fault host type operands 0 .zero hroom hfault fun hlooks => absurd hlooks h.lookups,
      readsFrom_fault host type operands 0 .zero hroom hfault fun hlooks => absurd hlooks h.lookups]
    exact ⟨Only.error (h.faults e hfault), rfl⟩
  | none =>
    cases operands with
    | nil => exact ⟨Only.ok _, rfl⟩
    | cons token operands =>
      obtain ⟨a, a', hrun, hrun', hagree⟩ := readsFrom_agree host type _ 0 junk junk' hroom
        hfault h.lookups Agree.zero
      have himmediate : immediate type a = immediate type a' := by
        by_cases hnone : immediateOf type = .none
        · simp only [immediate, hnone]
        · exact hagree.immediate (h.immediate hfault hnone)
      have hpositive : getInstuctionCount type ≠ 0 := by
        rw [hcount]
        exact Nat.succ_ne_zero _
      rw [hrun, hrun']
      exact ⟨Only.ok _, congrArg Except.ok (assemble_congr hpositive hagree.regs himmediate)⟩

theorem determined_of_sameReads (hfloat : host.uintToFloat 0 ≠ host.uintToFloat 1)
    (hcount : getInstuctionCount type = operands.length)
    (h : SameReads host labels type operands fun acc => assemble type (acc.regs 0) (acc.regs 1)
      (acc.regs 2) (acc.regs 3) acc.fvalue acc.dvalue) :
    Determined type (operands.map (operandRole labels)) := by
  have hroom : 0 + operands.length ≤ 4 := LineErrors.operands_room hcount
  have hset : ∀ w (t : Nat), ((fun _ => leftoverReg w : Nat → Reg) t).isValue = true :=
    fun _ _ => rfl
  constructor
  · intro e hfault
    have hsame := h (fun _ => leftoverReg 0) (fun _ => leftoverReg 0)
    rw [readsFrom_fault host type operands 0 .zero hroom hfault fun _ => .inl (hset 0)] at hsame
    exact hsame.1 e rfl
  · intro hlooks
    have hsame := h (fun _ => .zero) (fun _ => leftoverReg 0)
    rw [readsFrom_missing host type operands 0 .zero (fun _ => rfl) hroom hlooks] at hsame
    cases hfault : faultOf (operands.map (operandRole labels)) with
    | some e =>
      rw [readsFrom_fault host type operands 0 .zero hroom hfault fun _ => .inl (hset 0)] at hsame
      exact faultOf_ne_lookupFault hfault (hsame.1 _ rfl) (Except.error.inj hsame.2).symm
    | none =>
      obtain ⟨a, hrun, -⟩ := readsFrom_leftover host type operands 0 .zero 0
        true hroom hfault
      rw [hrun] at hsame
      cases hsame.2
  · intro hfault himmediate
    by_contra hknown
    rw [Bool.not_eq_true] at hknown
    have hvalue : ∀ w, ∃ a, readsFrom host (fun _ => leftoverReg w) labels type operands 0 .zero =
        .ok a ∧ immediate type a = convert host type w := by
      intro w
      obtain ⟨a, hrun, hlast⟩ := readsFrom_leftover host type operands 0 .zero
        w true hroom hfault
      exact ⟨a, hrun, hlast himmediate hknown fun hstart => by cases hstart⟩
    obtain ⟨a, hrun, ha⟩ := hvalue 0
    obtain ⟨a', hrun', ha'⟩ := hvalue 1
    have hsame := h (fun _ => leftoverReg 0) (fun _ => leftoverReg 1)
    rw [hrun, hrun'] at hsame
    have hstorage := congrArg (fun inst : Instruction => inst.storage.asI32)
      (Except.ok.inj hsame.2)
    simp only [assemble_storage himmediate, ha, ha'] at hstorage
    cases htype : isFloatInstr type with
    | true =>
      simp only [convert, htype, if_true] at hstorage
      exact hfloat hstorage
    | false => simp [convert, htype] at hstorage

theorem bind_return_map {ε α β : Type} (x : Except ε α) (f : α → β) :
    (do let a ← x; return f a) = x.map f := by
  cases x <;> rfl

theorem independent_line (host : Host) (labels : List Label) (first : Token)
    (operands : List Token) :
    Independent host labels (first :: operands) ↔ ∀ type, lineInst first = some type →
      getInstuctionCount type = operands.length →
      SameReads host labels type operands fun acc => assemble type (acc.regs 0) (acc.regs 1)
        (acc.regs 2) (acc.regs 3) acc.fvalue acc.dvalue := by
  cases hinst : lineInst first with
  | none =>
    obtain ⟨message, hline⟩ := LineErrors.assembleLine_unknown operands hinst
    refine iff_of_true (fun junk junk' => ?_) nofun
    rw [hline, hline]
    exact ⟨Only.error rfl, rfl⟩
  | some type =>
    simp only [Option.some.injEq, forall_eq', Independent,
      LineErrors.assembleLine_of_inst operands hinst, readOperands]
    by_cases hcount : getInstuctionCount type = operands.length
    · simp only [hcount, if_true, forall_const, bind_return_map]
      rfl
    · simp only [hcount, if_false, false_imp_iff, iff_true]
      exact fun _ _ => ⟨Only.ok _, rfl⟩

end Line

theorem independent_iff {host : Host} (hfloat : host.uintToFloat 0 ≠ host.uintToFloat 1)
    (labels : List Label) (line : List Token) :
    Independent host labels line ↔ LineDetermined labels line := by
  cases line with
  | nil =>
    refine iff_of_false (fun h => ?_) id
    exact Bool.false_ne_true ((h (fun _ => .zero) fun _ => .zero).1 _ rfl)
  | cons first operands =>
    rw [independent_line]
    refine forall_congr' fun type => imp_congr_right fun _ => imp_congr_right fun hcount => ?_
    exact ⟨determined_of_sameReads hfloat hcount, sameReads_of_determined hcount⟩

def castingHost : Host :=
  { Host.integer with uintToFloat := fun v => if v = 0 then 0 else 0x3f800000 }

def setLine : List Token :=
  [⟨some ['s', 'e', 't'], .word⟩, ⟨some ['r', '1'], .word⟩, ⟨some ['5'], .wordLiterallNumber⟩]

theorem setLine_independent : Independent castingHost [] setLine := by
  refine (independent_iff (by decide) [] setLine).mpr fun type htype _ => ?_
  obtain rfl : .iSet = type := Option.some.inj htype
  exact ⟨nofun, by decide, fun _ _ => rfl⟩

def jumpLine : List Token := [⟨some ['j', 'm', 'p'], .word⟩, ⟨some ['L', 'a'], .word⟩]

theorem jumpLine_dependent : ¬ Independent Host.integer [⟨some ['a'], 5⟩] jumpLine := by
  intro h
  cases (h (fun _ => .zero) (fun _ => leftoverReg 0)).2

end UninitialisedReg

end CAt
