import CAt.Assembler.LinePasses
import CAt.Language.Syntax

namespace CAt

open LineErrors (findLabel_named)

namespace Language

open RegisterInstructions (built assembleLine_line)

namespace Statement

def encode (host : Host) (place : LabelName → Nat) : Statement → Instruction
  | halt => Build.halt
  | record => Build.rec
  | print => Build.print
  | registers mn r => built mn r
  | computeFloats op x y z =>
    Build.operands op.op (registerByte x) (registerByte y) (registerByte z) 0
  | compareFloats op x y z =>
    Build.operands op.op (registerByte x) (registerByte y) (registerByte z) 0
  | cast op x y => Build.operands op.op (registerByte x) (registerByte y) 0 0
  | regDump x => Build.regDump (registerByte x)
  | set x v => Build.set (registerByte x) (BitVec.ofNat 32 v.val)
  | fset x v => Build.fset (registerByte x) (host.uintToFloat (BitVec.ofNat 32 v.val))
  | jump target => Build.jmp (BitVec.ofNat 32 (target.resolve place))
  | call target => Build.call (BitVec.ofNat 32 (target.resolve place))
  | branch equal target x =>
    Build.operands (if equal then .iEjmp else .iNejmp) 0 (registerByte x) 0
      (.ofI32 (BitVec.ofNat 32 (target.resolve place)))

end Statement

namespace Source

def code (host : Host) (p : Source) : List Instruction := p.statements.map (·.encode host p.position)

end Source

def labelTable : Nat → List Line → List Label
  | _, [] => []
  | n, .label name :: ls => ⟨some name.text, BitVec.ofNat 32 n⟩ :: labelTable n ls
  | n, .statement _ :: ls => labelTable (n + 1) ls

structure Spells (ts : List Token) (p : Source) : Prop where
  lines : items ts = p.lines.map Line.tokens
  terminated : lastLine ts = []

theorem searchLabel_labelTable (name : LabelName) (n : Nat) (ls : List Line) :
    searchLabel name.text (labelTable n ls) = .ok ((findFrom name n ls).map (BitVec.ofNat 32)) := by
  induction ls generalizing n with
  | nil => rfl
  | cons l ls ih =>
    cases l with
    | label other =>
      by_cases h : other = name
      · subst h
        simp [labelTable, findFrom, searchLabel]
      · have htext : other.text ≠ name.text := fun he => h (LabelName.text_injective he)
        simpa [labelTable, findFrom, searchLabel, h, htext] using ih n
    | statement s => exact ih (n + 1)

section Arguments

variable {host : Host} {junk : Nat → Reg} {labels : List Label} {place : LabelName → Nat}
  {type : Inst}

def Argument.store (host : Host) (place : LabelName → Nat) (type : Inst) (acc : Operands) (t : Nat) :
    Argument → Operands
  | register x =>
    { acc with regs := fun i => if i.val = t then BitVec.ofNat 32 x.val else acc.regs i }
  | number v =>
    if isFloatInstr type then
      { acc with fvalue := host.uintToFloat (BitVec.ofNat 32 v.val) }
    else { acc with dvalue := BitVec.ofNat 32 v.val }
  | label name => { acc with dvalue := BitVec.ofNat 32 (place name) }

def storeAll (host : Host) (place : LabelName → Nat) (type : Inst) (arguments : List Argument) :
    Operands :=
  arguments.zipIdx.foldl (fun acc a => a.1.store host place type acc a.2) .zero

def Resolves (junk : Nat → Reg) (labels : List Label) (place : LabelName → Nat) (name : LabelName) :
    Prop :=
  (∀ t, (junk t).isValue = false) ∧
    searchLabel name.text labels = .ok (some (BitVec.ofNat 32 (place name)))

theorem label_inv {r r' : Reg} {name : List Char} (h : Parsed r ('L' :: name) r') :
    r'.isRegN = false ∧ r'.isValue = r.isValue ∧ r'.isLabel = true ∧
      r'.valueLabel = some ('L' :: name) := by
  generalize htext : 'L' :: name = text at h
  have hhead : text.head? = some 'L' := htext ▸ rfl
  cases h with
  | floatRegister => cases hhead
  | register => cases hhead
  | label =>
    cases htext
    exact ⟨rfl, rfl, rfl, rfl⟩
  | decimal _ digits => cases head_of_isDecimal digits hhead
  | other _ named => exact absurd hhead named.2

theorem readOperand_label {name : LabelName} (h : Resolves junk labels place name) (acc : Operands)
    (t : Nat) : readOperand host junk labels type acc ((Argument.label name).token, t) =
      .ok { acc with dvalue := BitVec.ofNat 32 (place name) } := by
  obtain ⟨hjunk, hsearch⟩ := h
  have htext : (Argument.label name).token.literall = some ('L' :: name.text) := rfl
  have hlone : 'L' :: name.text ≠ ['L'] := fun he => nomatch (List.cons.inj he).2
  obtain ⟨r, hr, hparsed⟩ := parseReg_eq host (junk t) name.length_reference hlone
  obtain ⟨hreg, hvalue, hlabel, hname⟩ := label_inv hparsed
  have hfind : findLabel r labels = searchLabel name.text labels :=
    findLabel_named (List.cons_ne_nil _ _) hname labels
  rw [readOperand_eq host junk labels acc t htext]
  change parseReg host (junk t) name.reference >>= _ = _
  rw [hr]
  change storeOperand host labels type acc t r = _
  simp only [storeOperand, hvalue, hjunk, hreg, hlabel, hfind, hsearch]
  rfl

theorem readOperand_argument {a : Argument}
    (h : ∀ name ∈ a.names, Resolves junk labels place name) (acc : Operands) {t : Nat}
    (ht : t < 4) :
    readOperand host junk labels type acc (a.token, t) = .ok (a.store host place type acc t) := by
  cases a with
  | register x =>
    rw [Argument.token, registerToken, readOperand_register host junk labels acc _ x.isLt ht,
      Argument.store]
    congr 2
    funext i
    simp only [Function.update_apply, Fin.ext_iff]
  | number v =>
    rw [Argument.store]
    cases hfloat : isFloatInstr type with
    | false =>
      rw [Argument.token, readOperand_decimal host junk labels acc _ v.isLt hfloat]
      rfl
    | true =>
      have htext : (Argument.number v).token.literall = some (Nat.toDigits 10 v.val) := rfl
      obtain ⟨r, hr, hvalue, -, hn⟩ := parseReg_decimal host (junk t) v.isLt
      rw [readOperand_eq host junk labels acc t htext, hr]
      change storeOperand host labels type acc t r = _
      simp only [storeOperand, hvalue, hfloat, hn, Bool.or_true, Bool.and_true, if_true]
      rfl
  | label name => exact readOperand_label (h name List.mem_cons_self) acc t

theorem foldlM_arguments (arguments : List Argument) (acc : Operands) (t : Nat)
    (h : ∀ a ∈ arguments, ∀ name ∈ a.names, Resolves junk labels place name)
    (hroom : t + arguments.length ≤ 4) :
    ((arguments.map Argument.token).zipIdx t).foldlM (readOperand host junk labels type) acc =
      .ok ((arguments.zipIdx t).foldl (fun acc a => a.1.store host place type acc a.2) acc) := by
  induction arguments generalizing acc t with
  | nil => rfl
  | cons a arguments ih =>
    obtain ⟨ha, harguments⟩ := List.forall_mem_cons.mp h
    rw [List.length_cons] at hroom
    rw [List.map_cons, List.zipIdx_cons, List.foldlM_cons, readOperand_argument ha acc (by omega),
      List.zipIdx_cons, List.foldl_cons]
    exact ih _ (t + 1) harguments (by omega)

end Arguments

namespace Statement

section Assemble

variable {host : Host} {junk : Nat → Reg} {labels : List Label} {place : LabelName → Nat}

theorem count_arguments (s : Statement) : getInstuctionCount s.op = s.arguments.length := by
  cases s with
  | registers mn r =>
    rcases mn with c | _ | _ | _
    · cases c <;> rfl
    all_goals rfl
  | computeFloats op | compareFloats op | cast op => cases op <;> rfl
  | branch equal => cases equal <;> rfl
  | _ => rfl

theorem length_arguments (s : Statement) : s.arguments.length ≤ 3 := by
  rw [← s.count_arguments]
  exact LineErrors.count_le s.op

theorem lineInst_mnemonic (s : Statement) :
    lineInst ⟨some (mnemonic s.op), .word⟩ = some s.op := by
  change (isKeyword (mnemonic s.op)).bind Inst.ofCode = _
  rw [Completeness.isKeyword_mnemonic]
  exact Inst.ofCode_code s.op

theorem assembleLine_eq (s : Statement) (h : ∀ name ∈ s.names, Resolves junk labels place name) :
    assembleLine host junk labels s.tokens =
      let acc := storeAll host place s.op s.arguments
      .ok (assemble s.op (acc.regs 0) (acc.regs 1) (acc.regs 2) (acc.regs 3) acc.fvalue
        acc.dvalue) := by
  have harguments : ∀ a ∈ s.arguments, ∀ name ∈ a.names, Resolves junk labels place name :=
    fun a ha name hname => h name (List.mem_flatMap.mpr ⟨a, ha, hname⟩)
  have hroom : 0 + s.arguments.length ≤ 4 := by
    have := s.length_arguments
    omega
  have hcount : getInstuctionCount s.op = (s.arguments.map Argument.token).length := by
    rw [List.length_map, s.count_arguments]
  rw [tokens, LineErrors.assembleLine_of_inst _ s.lineInst_mnemonic, readOperands, if_pos hcount,
    foldlM_arguments s.arguments .zero 0 harguments hroom]
  rfl

theorem line_registers (mn : RegisterInstructions.Mnemonic) (r : Fin 3 → Fin intRegCount) :
    (registers mn r).tokens = RegisterInstructions.line mn r := by
  have htext : mnemonic mn.op = mn.text := by
    rcases mn with c | _ | _ | _
    · cases c <;> rfl
    all_goals rfl
  rw [tokens, RegisterInstructions.line, op, htext, arguments, List.map_map]
  rfl

theorem assembleLine_tokens (s : Statement)
    (h : ∀ name ∈ s.names, Resolves junk labels place name) :
    assembleLine host junk labels s.tokens = .ok (s.encode host place) := by
  cases s with
  | registers mn r => rw [line_registers, assembleLine_line, encode]
  | computeFloats op | compareFloats op | cast op =>
    rw [assembleLine_eq _ h]
    simp only [encode, ← toReg_ofNat]
    cases op <;> rfl
  | jump target | call target =>
    rw [assembleLine_eq _ h]
    cases target <;> rfl
  | branch equal target =>
    rw [assembleLine_eq _ h]
    simp only [encode, ← toReg_ofNat]
    cases equal <;> cases target <;> rfl
  | regDump | set | fset =>
    rw [assembleLine_eq _ h]
    simp only [encode, ← toReg_ofNat]
    rfl
  | halt | record | print =>
    rw [assembleLine_eq _ h]
    rfl

end Assemble

end Statement

section Lines

variable {labelled : Bool} {s : Statement} {ls : List Line}

def Line.isLabel : Line → Bool
  | label _ => true
  | statement _ => false

theorem Line.length_tokens (l : Line) : l.tokens.length ≤ lineSize := by
  cases l with
  | label name => exact Nat.le_of_ble_eq_true rfl
  | statement s =>
    have := s.length_arguments
    simp only [Line.tokens, Statement.tokens, List.length_cons, List.length_map, lineSize]
    omega

theorem Line.tokens_ne_nil (l : Line) : l.tokens ≠ [] := by
  cases l <;> exact List.cons_ne_nil _ _

theorem Argument.token_not_colon (a : Argument) : (a.token.type == .symbolColon) = false := by
  cases a <;> rfl

theorem secondColon_statement (h : apart labelled (.statement s :: ls) = true) :
    secondColon labelled s.tokens = false := by
  have halone : (labelled && s.arguments.isEmpty) = false :=
    Bool.not_eq_true' _ ▸ (Bool.and_eq_true_iff.mp h).1
  rw [Statement.tokens]
  cases harguments : s.arguments with
  | nil => simpa [secondColon, harguments] using halone
  | cons a arguments => exact a.token_not_colon

theorem looksLikeLabel_statement (h : apart labelled (.statement s :: ls) = true) :
    looksLikeLabel labelled s.tokens = false := by
  rw [looksLikeLabel, secondColon_statement h, Bool.and_false]

theorem apart_tail {l : Line} (h : apart labelled (l :: ls) = true) : apart l.isLabel ls = true := by
  cases l with
  | label name => exact h
  | statement s => exact (Bool.and_eq_true_iff.mp h).2

end Lines

section Run

variable {σ β : Type} {P : LinePass σ β} (carry : Bool → σ) (act : Line → β → β)
  (inv : List Line → β → Prop)

structure Follows (P : LinePass σ β) : Prop where
  carried : ∀ labelled, P.carried (carry labelled) = 0
  empty : ∀ labelled out, P.lineEnd (carry labelled) [] out = .ok (carry labelled, out)
  line : ∀ labelled l ls out, inv (l :: ls) out → apart labelled (l :: ls) = true →
    P.lineEnd (carry labelled) l.tokens out = .ok (carry l.isLabel, act l out)
  next : ∀ l ls out, inv (l :: ls) out → inv ls (act l out)

variable {carry act inv}

theorem Follows.runLines (h : Follows carry act inv P) {tokens : List (List Token)}
    {lines : List Line} {labelled : Bool} {out : β} (hinv : inv lines out)
    (hapart : apart labelled lines = true)
    (hlines : tokens.filter (fun l => !l.isEmpty) = lines.map Line.tokens) :
    ∃ labelled', P.runLines (carry labelled, out) tokens =
      .ok (carry labelled', lines.foldl (fun out l => act l out) out) := by
  induction tokens generalizing lines labelled out with
  | nil =>
    have hnil : lines = [] := List.map_eq_nil_iff.mp hlines.symm
    subst hnil
    exact ⟨labelled, rfl⟩
  | cons l tokens ih =>
    rw [LinePass.runLines_cons]
    by_cases hempty : l = []
    · subst hempty
      have hfits : P.carried (carry labelled) + ([] : List Token).length ≤ lineSize := by
        rw [h.carried]
        exact Nat.zero_le _
      rw [LinePass.step_of_fits hfits, h.empty]
      exact ih hinv hapart (by simpa using hlines)
    · have hkept : (!l.isEmpty) = true := by simpa using hempty
      rw [List.filter_cons, if_pos hkept] at hlines
      cases lines with
      | nil => cases hlines
      | cons line lines =>
        obtain ⟨rfl, hrest⟩ := List.cons.inj hlines
        have hfits : P.carried (carry labelled) + line.tokens.length ≤ lineSize := by
          rw [h.carried, Nat.zero_add]
          exact line.length_tokens
        rw [LinePass.step_of_fits hfits, h.line labelled line lines out hinv hapart]
        exact ih (h.next line lines out hinv) (apart_tail hapart) hrest

theorem Follows.result (h : Follows carry act inv P) {ts : List Token} {p : Source} {out : β}
    (hinv : inv p.lines out) (hspells : Spells ts p) :
    P.result (carry false, out) ts = .ok (p.lines.foldl (fun out l => act l out) out) := by
  have hlines : (completedLines ts).filter (fun l => !l.isEmpty) = p.lines.map Line.tokens := by
    have hitems := hspells.lines
    rw [items, lines_eq, hspells.terminated, List.filter_append] at hitems
    simpa using hitems
  obtain ⟨labelled, hrun⟩ := h.runLines hinv p.apart hlines
  rw [LinePass.result, hrun, hspells.terminated]
  have hfits : P.carried (carry labelled) + ([] : List Token).length ≤ lineSize := by
    rw [h.carried]
    exact Nat.zero_le _
  exact if_pos hfits

end Run

section Index

def indexLine (l : Line) (out : LabelIndex) : LabelIndex :=
  match l with
  | .label name => { out with labels := out.labels ++ [⟨some name.text, BitVec.ofNat 32 out.lc⟩] }
  | .statement _ => { out with lc := out.lc + 1 }

def LabelRoom (ls : List Line) (out : LabelIndex) : Prop :=
  out.labels.length + (definitions ls).length ≤ labelsSize

theorem indexPass_follows :
    Follows (fun labelled => ⟨[], labelled⟩) indexLine LabelRoom indexPass where
  carried _ := rfl
  empty _ _ := indexPass_empty rfl
  line labelled l ls out hroom hapart := by
    cases l with
    | label name =>
      have hlt : out.labels.length < labelsSize := by
        rw [LabelRoom, definitions, List.length_cons] at hroom
        omega
      have hdefines : indexPass.lineEnd ⟨[], labelled⟩ (Line.label name).tokens out = _ :=
        indexPass_defines (List.nil_append _) rfl (List.cons_ne_nil _ _)
      rw [hdefines, if_pos hlt]
      rfl
    | statement s =>
      have hpasses : indexPass.lineEnd ⟨[], labelled⟩ s.tokens out = _ :=
        indexPass_passes (List.nil_append _) (looksLikeLabel_statement hapart)
      have hsecond : secondColon labelled s.tokens = false := secondColon_statement hapart
      rw [Statement.tokens] at hsecond
      rw [Line.tokens, hpasses, hsecond, if_neg Bool.false_ne_true]
      rfl
  next l ls out hroom := by
    cases l with
    | label name =>
      rw [LabelRoom, definitions, List.length_cons] at hroom
      rw [LabelRoom, indexLine, List.length_append, List.length_singleton]
      omega
    | statement s => exact hroom

theorem foldl_indexLine (ls : List Line) (out : LabelIndex) :
    (ls.foldl (fun out l => indexLine l out) out).labels =
      out.labels ++ labelTable out.lc ls := by
  induction ls generalizing out with
  | nil => exact (List.append_nil _).symm
  | cons l ls ih =>
    rw [List.foldl_cons, ih]
    cases l with
    | label name => simp [indexLine, labelTable]
    | statement s => rfl

theorem indexLabels_spelled {ts : List Token} {p : Source} (h : Spells ts p) :
    indexLabels ts = .ok (labelTable 0 p.lines) := by
  have hroom : LabelRoom p.lines ⟨[], 0⟩ := by
    rw [LabelRoom, List.length_nil, Nat.zero_add]
    exact p.labelsFit
  rw [indexLabels_result, indexPass_follows.result hroom h]
  exact congrArg Except.ok (foldl_indexLine p.lines ⟨[], 0⟩)

end Index

section Emit

variable {host : Host} {junk : Junk} {labels : List Label} {place : LabelName → Nat}

def emitLine (host : Host) (place : LabelName → Nat) (l : Line) (program : List Instruction) :
    List Instruction :=
  match l with
  | .label _ => program
  | .statement s => program ++ [s.encode host place]

structure Emits (junk : Junk) (labels : List Label) (place : LabelName → Nat) (ls : List Line)
    (program : List Instruction) : Prop where
  room : program.length + (statements ls).length ≤ programSize
  resolves : ∀ s ∈ statements ls, ∀ name ∈ s.names, ∀ n, Resolves (junk n) labels place name

theorem assemblePass_follows :
    Follows id (emitLine host place) (Emits junk labels place) (assemblePass host junk labels) where
  carried _ := rfl
  empty labelled program := by
    have hkeep : keepsLine labelled [] = false := by simp [keepsLine]
    exact assemblePass_drops hkeep program
  line labelled l ls program hemits hapart := by
    cases l with
    | label name =>
      have hkeep : keepsLine labelled (Line.label name).tokens = false := rfl
      exact assemblePass_drops hkeep program
    | statement s =>
      have hlabel : looksLikeLabel labelled s.tokens = false := looksLikeLabel_statement hapart
      have hkeep : keepsLine labelled s.tokens = true := by
        rw [keepsLine, hlabel]
        rfl
      have hroom : program.length < programSize := by
        have := hemits.room
        rw [statements, List.length_cons] at this
        omega
      have hline : assembleLine host (junk program.length) labels s.tokens =
          .ok (s.encode host place) :=
        s.assembleLine_tokens fun name hname =>
          hemits.resolves s List.mem_cons_self name hname program.length
      have hemit : emitInstruction host junk labels s.tokens program =
          .ok (program ++ [s.encode host place]) := by
        rw [emitInstruction, hline]
        exact if_pos hroom
      have hcarry : (decide (s.tokens.length = 1) && labelled) = false := by
        rw [looksLikeLabel, Statement.tokens] at hlabel
        rw [Statement.tokens]
        cases harguments : s.arguments with
        | nil =>
          rw [harguments] at hlabel
          exact hlabel
        | cons a arguments => rfl
      have hkeeps : (assemblePass host junk labels).lineEnd labelled s.tokens program = _ :=
        assemblePass_keeps hkeep program
      rw [id, Line.tokens, hkeeps, hemit, hcarry]
      rfl
  next l ls program hemits := by
    cases l with
    | label name => exact ⟨hemits.room, hemits.resolves⟩
    | statement s =>
      refine ⟨?_, fun t ht => hemits.resolves t (List.mem_cons_of_mem s ht)⟩
      have hroom := hemits.room
      rw [statements, List.length_cons] at hroom
      rw [emitLine, List.length_append, List.length_singleton]
      omega

theorem foldl_emitLine (ls : List Line) (program : List Instruction) :
    ls.foldl (fun out l => emitLine host place l out) program =
      program ++ (statements ls).map (·.encode host place) := by
  induction ls generalizing program with
  | nil => exact (List.append_nil _).symm
  | cons l ls ih =>
    rw [List.foldl_cons, ih]
    cases l with
    | label name => rfl
    | statement s => simp [emitLine, statements]

-- A label operand is looked up only where the is_value that parse_reg leaves is 0.
def Quiet (junk : Junk) (p : Source) : Prop :=
  p.namesLabels → ∀ n t, (junk n t).isValue = false

theorem resolves_position {p : Source} (hquiet : Quiet junk p) {s : Statement}
    (hs : s ∈ p.statements) {name : LabelName} (hname : name ∈ s.names) (n : Nat) :
    Resolves (junk n) (labelTable 0 p.lines) p.position name := by
  refine ⟨hquiet ⟨s, hs, List.ne_nil_of_mem hname⟩ n, ?_⟩
  obtain ⟨position, hposition⟩ := Option.isSome_iff_exists.mp (p.defined s hs name hname)
  rw [searchLabel_labelTable, Source.position, hposition]
  rfl

theorem assembleProgram_spelled {ts : List Token} {p : Source} (h : Spells ts p)
    (hquiet : Quiet junk p) :
    assembleProgram host junk ts (labelTable 0 p.lines) = .ok (p.code host) := by
  have hemits : Emits junk (labelTable 0 p.lines) p.position p.lines [] := by
    refine ⟨?_, fun s hs name hname n => resolves_position hquiet hs hname n⟩
    rw [List.length_nil, Nat.zero_add]
    exact p.statementsFit
  have hresult : (assemblePass host junk (labelTable 0 p.lines)).result (false, []) ts = _ :=
    assemblePass_follows.result hemits h
  rw [assembleProgram_result, hresult]
  exact congrArg Except.ok (foldl_emitLine p.lines [])

end Emit

end Language

end CAt
