import CAt.Assembler.LineErrors
import CAt.Assembler.OpcodePreservation
import CAt.Assembler.TokenSpans
import Mathlib.Data.List.Forall2

namespace CAt

open GuardedLoop

def mnemonic (op : Inst) : List Char := keywords.getD op.code []

-- The opcodes no source line leads to. `fadd ` stands in KEYWORDS with a blank at its end.
def unassemblable : List Inst := [.iEntry, .iFadd, .iGetac, .iRjmp, .iErjmp, .iNerjmp, .iNop]

def isLineEndChar (c : Char) : Bool := c == '\n' || c == ';'

def OperandKind.sample : OperandKind → List Char
  | .register => ['r', '1']
  | .number | .address => ['1']

def OperandKind.sampleToken : OperandKind → Token
  | .register => ⟨some ['r', '1'], .word⟩
  | .number | .address => ⟨some ['1'], .wordLiterallNumber⟩

def sampleText (kinds : List OperandKind) : List Char := kinds.flatMap fun k => ' ' :: k.sample

def sampleLine (op : Inst) : List Char := mnemonic op ++ sampleText (signature op)

def sampleTokens (op : Inst) : List Token :=
  ⟨some (mnemonic op), .word⟩ :: (signature op).map OperandKind.sampleToken

def Assemblable (host : Host) (junk : Nat → Reg) (labels : List Label) (op : Inst) : Prop :=
  ∃ source tokens inst, (∀ c ∈ source, isLineEndChar c = false) ∧
    Tokenizes zeroJunk source tokens ∧ assembleLine host junk labels tokens = .ok inst ∧
    inst.operation = BitVec.ofNat 32 op.code

namespace Completeness

theorem tokenNext_literall {buffer : List Char} {bp bp' : Nat} {t : Token} {text : List Char}
    (h : tokenNext .zero buffer bp = .ok (t, bp')) (htext : t.literall = some text) :
    ∀ c ∈ text, isAlphanumeric c = true := by
  rcases Nat.lt_or_ge bp buffer.length with hlt | hge
  · obtain ⟨before, c, cs, rfl, rfl⟩ := TokenSpans.split_at hlt
    rw [tokenNext_lexeme] at h
    cases hrun : (firstLexeme c cs).isRun with
    | true =>
      have hnul := firstLexeme_run_ne_nul c cs hrun
      rw [lexemeLiterall_run .zero hrun] at h
      cases hlit : WordBuffer.literall .zero (firstLexeme c cs).text with
      | error e =>
        rw [hlit] at h
        cases h
      | ok literall =>
        rw [hlit] at h
        cases h
        cases htext
        rw [WordBuffer.eq_of_literall_zero hnul hlit]
        exact firstLexeme_run_alphanumeric c cs hrun
    | false =>
      rw [lexemeLiterall_not_run .zero hrun] at h
      cases h
      cases htext
  · rw [tokenNext, if_pos hge] at h
    cases h
    cases htext

def AlphanumericLiteralls (list : List Token) : Prop :=
  ∀ t ∈ list, ∀ text, t.literall = some text → ∀ c ∈ text, isAlphanumeric c = true

theorem AlphanumericLiteralls.step {buffer : List Char} {s s' : Scan}
    (h : AlphanumericLiteralls s.list) (hb : (tokenLoop zeroJunk buffer).body s = .ok s') :
    AlphanumericLiteralls s'.list := by
  obtain ⟨⟨t, filePos⟩, hcall, hb⟩ := Loop.bind_ok hb
  have ht : ∀ text, t.literall = some text → ∀ c ∈ text, isAlphanumeric c = true :=
    fun _ htext => tokenNext_literall hcall htext
  change (if t.type = .eob then .ok _ else if t.type = .space then .ok _
    else if s.list.length < tokensBlockSize then .ok _ else .error _) = Except.ok s' at hb
  split at hb
  · cases hb
    exact h
  · split at hb
    · cases hb
      exact h
    · split at hb
      · cases hb
        intro t' ht'
        rcases List.mem_append.mp ht' with hold | hnew
        · exact h t' hold
        · rw [List.mem_singleton.mp hnew]
          exact ht
      · cases hb

theorem tokenizes_alphanumeric {source : List Char} {tokens : List Token}
    (h : Tokenizes zeroJunk source tokens) : AlphanumericLiteralls tokens := by
  obtain ⟨s, ⟨n, hrun, -⟩, rfl⟩ := h
  refine Loop.run_invariant (fun s : Scan => AlphanumericLiteralls s.list)
    (fun s s' hs _ hb => hs.step hb) ?_ hrun
  rintro t ⟨⟩

theorem keyword_of_isKeyword {keyword : List Char} {t : Nat} (h : isKeyword keyword = some t) :
    keyword = keywords.getD t [] := by
  obtain ⟨ht, heq, -⟩ := List.findIdx?_eq_some_iff_getElem.mp h
  rw [List.getD_eq_getElem?_getD, List.getElem?_eq_getElem ht, Option.getD_some, eq_of_beq heq]

theorem not_assemblable {host : Host} {junk : Nat → Reg} {labels : List Label} {op : Inst}
    (h : op ∈ unassemblable) : ¬ Assemblable host junk labels op := by
  rintro ⟨source, tokens, inst, -, htokens, hline, hop⟩
  have halphanumeric := tokenizes_alphanumeric htokens
  cases tokens with
  | nil => cases hline
  | cons first operands =>
    cases hfirst : first.literall with
    | none =>
      simp only [assembleLine, hfirst] at hline
      cases hline
    | some keyword =>
      obtain ⟨t, i, acc, hkeyword, hcode, rfl⟩ := OpcodePreservation.assembleLine_inv hfirst hline
      rw [OpcodePreservation.assemble_operation, OpcodePreservation.ofNat_code_inj] at hop
      subst hop
      cases i
      case iFadd =>
        obtain rfl := Inst.code_of_ofCode hcode
        have hblank : ' ' ∈ keyword := by
          rw [keyword_of_isKeyword hkeyword]
          decide
        cases halphanumeric first List.mem_cons_self keyword hfirst ' ' hblank
      all_goals
        revert h
        decide

theorem isKeyword_mnemonic (op : Inst) : isKeyword (mnemonic op) = some op.code := by
  cases op <;> rfl

theorem scanned_samples (kinds : List OperandKind) {before : List Char} {list : List Token}
    (h : Scanned before (sampleText kinds) list)
    (hroom : list.length + kinds.length < tokensBlockSize) :
    Tokenizes zeroJunk (before ++ sampleText kinds)
      (list ++ kinds.map OperandKind.sampleToken) := by
  induction kinds generalizing before list with
  | nil => simpa [sampleText] using h.finish
  | cons k kinds ih =>
    rw [List.length_cons] at hroom
    have hcons : sampleText (k :: kinds) = ' ' :: (k.sample ++ sampleText kinds) := by
      simp [sampleText]
    have hend : ∀ isPart : Char → Bool, isPart ' ' = false → isPart '\x00' = false →
        isPart ((sampleText kinds).headD '\x00') = false := by
      intro isPart hspace hnul
      cases kinds with
      | nil => exact hnul
      | cons k kinds => exact hspace
    have hlist : list.length < tokensBlockSize := by omega
    rw [hcons] at h ⊢
    have hspace := h.space rfl
    have hnext : Scanned (before ++ [' '] ++ k.sample) (sampleText kinds)
        (list ++ [k.sampleToken]) := by
      cases k with
      | register =>
        exact hspace.word rfl (List.all_eq_true.mp rfl) (hend isAlphanumeric rfl rfl) (by decide)
          hlist
      | number =>
        exact hspace.number (List.all_eq_true.mp rfl) (hend isNumber rfl rfl) (by decide) hlist
      | address =>
        exact hspace.number (List.all_eq_true.mp rfl) (hend isNumber rfl rfl) (by decide) hlist
    have hlength : (list ++ [k.sampleToken]).length + kinds.length < tokensBlockSize := by
      rw [List.length_append, List.length_singleton]
      omega
    simpa using ih hnext hlength

theorem inst_mnemonic (op : Inst) : (isKeyword (mnemonic op)).bind Inst.ofCode = some op := by
  rw [isKeyword_mnemonic]
  exact Inst.ofCode_code op

theorem mnemonic_word {op : Inst} (h : op ∉ unassemblable) :
    ∃ c cs, mnemonic op = c :: cs ∧ isCharacter c = true ∧
      (∀ d ∈ cs, isAlphanumeric d = true) ∧ (c :: cs).length < defaultLiteralSize := by
  cases op
  case iFadd => exact absurd (by decide) h
  all_goals exact ⟨_, _, rfl, rfl, List.all_eq_true.mp rfl, by decide⟩

theorem signature_length (op : Inst) : (signature op).length ≤ 3 := by
  cases op <;> decide

theorem tokenizes_sample {op : Inst} (h : op ∉ unassemblable) :
    Tokenizes zeroJunk (sampleLine op) (sampleTokens op) := by
  obtain ⟨c, cs, hmnemonic, hc, hcs, hlen⟩ := mnemonic_word h
  have hend : isAlphanumeric ((sampleText (signature op)).headD '\x00') = false := by
    cases signature op with
    | nil => rfl
    | cons k kinds => rfl
  have hword : Scanned (c :: cs) (sampleText (signature op)) [⟨some (c :: cs), .word⟩] :=
    (Scanned.start _).word hc hcs hend hlen (by decide)
  have hroom : 1 + (signature op).length < tokensBlockSize := by
    have := signature_length op
    simp only [tokensBlockSize]
    omega
  rw [sampleLine, sampleTokens, hmnemonic]
  exact scanned_samples (signature op) hword hroom

section Assemble

variable (host : Host) (junk : Nat → Reg) (labels : List Label)

theorem foldlM_samples (type : Inst) (kinds : List OperandKind) (acc : Operands) (t : Nat)
    (h : t + kinds.length ≤ 4) :
    ∃ acc', ((kinds.map OperandKind.sampleToken).zipIdx t).foldlM
      (readOperand host junk labels type) acc = .ok acc' := by
  induction kinds generalizing acc t with
  | nil => exact ⟨acc, rfl⟩
  | cons k kinds ih =>
    rw [List.length_cons] at h
    have ht : t < 4 := by omega
    have hread : LineErrors.Yields (operandOutcome (junk t) labels k.sampleToken)
        (readOperand host junk labels type acc (k.sampleToken, t)) :=
      LineErrors.readOperand_outcome junk k.sampleToken ht
    have hstored : operandOutcome (junk t) labels k.sampleToken = .stored := by
      cases k <;> rfl
    rw [hstored] at hread
    obtain ⟨acc', hacc⟩ := hread
    rw [List.map_cons, List.zipIdx_cons, List.foldlM_cons, hacc]
    exact ih acc' (t + 1) (by omega)

theorem readOperands_samples (op : Inst) : ∃ acc, readOperands host junk labels op
    ((signature op).map OperandKind.sampleToken) = .ok acc := by
  unfold readOperands
  split
  · have hlength := signature_length op
    exact foldlM_samples host junk labels op (signature op) .zero 0 (by omega)
  · exact ⟨.zero, rfl⟩

theorem assembleLine_sample (op : Inst) : ∃ inst,
    assembleLine host junk labels (sampleTokens op) = .ok inst ∧
      inst.operation = BitVec.ofNat 32 (OpcodePreservation.emitted op).code := by
  obtain ⟨acc, hacc⟩ := readOperands_samples host junk labels op
  refine ⟨_, ?_, OpcodePreservation.assemble_operation op (acc.regs 0) (acc.regs 1) (acc.regs 2)
    (acc.regs 3) acc.fvalue acc.dvalue⟩
  rw [sampleTokens, assembleLine_of_keyword rfl (inst_mnemonic op), hacc]
  rfl

theorem accepts_sample (k : OperandKind) : k.Accepts k.sampleToken := by
  have hone : ∀ c ∈ ['1'], isNumber c = true := List.all_eq_true.mp rfl
  have hnumber : NamesNumber ['1'] := ⟨List.cons_ne_nil _ _, hone⟩
  cases k with
  | register => exact ⟨_, rfl, ['1'], .inl rfl, List.cons_ne_nil _ _, hone, by decide⟩
  | number => exact ⟨_, rfl, hnumber⟩
  | address => exact ⟨_, rfl, .inl hnumber⟩

theorem wellFormed_sample (op : Inst) : WellFormedLine (sampleTokens op) := by
  refine ⟨rfl, op, inst_mnemonic op, List.forall₂_map_right_iff.mpr (List.forall₂_same.mpr ?_)⟩
  exact fun k _ => accepts_sample k

theorem assemblable_iff (op : Inst) :
    Assemblable host junk labels op ↔ op ∉ unassemblable := by
  constructor
  · exact fun h hop => not_assemblable hop h
  · intro h
    obtain ⟨inst, hline, hop⟩ := assembleLine_sample host junk labels op
    have hemitted : OpcodePreservation.emitted op = op := by
      cases op <;> first
        | rfl
        | exact absurd (by decide) h
    have hsource : (sampleLine op).all (fun c => !isLineEndChar c) = true := by
      cases op <;> rfl
    refine ⟨sampleLine op, sampleTokens op, inst, ?_, tokenizes_sample h, hline, ?_⟩
    · intro c hc
      simpa using List.all_eq_true.mp hsource c hc
    · rw [hop, hemitted]

end Assemble

theorem getac_not_assemblable : ¬ Assemblable Host.integer (fun _ => .zero) [] .iGetac :=
  not_assemblable (by decide)

end Completeness

end CAt
