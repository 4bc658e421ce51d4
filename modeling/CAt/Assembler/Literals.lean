import CAt.Assembler.OperandText
import CAt.Vm.Effects

namespace CAt

namespace Literals

def decimalText : Int → List Char
  | .ofNat n => Nat.toDigits 10 n
  | .negSucc n => '-' :: Nat.toDigits 10 (n + 1)

def setLine (n : Nat) (v : Int) : List Char :=
  ['s', 'e', 't', ' '] ++ registerText n ++ ' ' :: decimalText v

def valueTokens : Int → List Token
  | .ofNat n => [⟨some (Nat.toDigits 10 n), .wordLiterallNumber⟩]
  | .negSucc n => [⟨none, .binaryOperatorMinus⟩,
      ⟨some (Nat.toDigits 10 (n + 1)), .wordLiterallNumber⟩]

def setTokens (n : Nat) (v : Int) : List Token :=
  [⟨some ['s', 'e', 't'], .word⟩, ⟨some (registerText n), .word⟩] ++ valueTokens v

def Survives (n : Fin intRegCount) (v : Int) : Prop :=
  ∃ tokens inst, Tokenizes zeroJunk (setLine n.val v) tokens ∧
    (∀ host junk labels, assembleLine host junk labels tokens = .ok inst) ∧
    ∀ host m, m.fetched = some inst → executeOp host m = .ok { m with
      pc := m.pc + 1
      iregisters := Function.update m.iregisters n (BitVec.ofInt 32 v) }

theorem length_toDigits_lt {n k : Nat} (h : n < 10 ^ k) (hk : 0 < k)
    (hle : k < defaultLiteralSize) : (Nat.toDigits 10 n).length < defaultLiteralSize :=
  Nat.lt_of_le_of_lt ((length_toDigits_le hk).mpr h) hle

theorem scanned_digits {before : List Char} {list : List Token} {n : Nat}
    (h : Scanned before (Nat.toDigits 10 n) list)
    (hlen : (Nat.toDigits 10 n).length < defaultLiteralSize)
    (hroom : list.length < tokensBlockSize) :
    Scanned (before ++ Nat.toDigits 10 n) []
      (list ++ [⟨some (Nat.toDigits 10 n), .wordLiterallNumber⟩]) := by
  have hnumber : ∀ c ∈ Nat.toDigits 10 n, isNumber c = true :=
    fun c hc => isNumber_of_mem_toDigits hc
  cases hdigits : Nat.toDigits 10 n with
  | nil => exact absurd hdigits Nat.toDigits_ne_nil
  | cons c cs =>
    rw [hdigits] at h hnumber hlen
    have h' : Scanned before (c :: cs ++ []) list := by
      rw [List.append_nil]
      exact h
    exact h'.number hnumber rfl hlen hroom

theorem scanned_operands (n : Nat) (hn : n < 16) (text : List Char) :
    Scanned (['s', 'e', 't', ' '] ++ registerText n ++ [' ']) text
      [⟨some ['s', 'e', 't'], .word⟩, ⟨some (registerText n), .word⟩] := by
  have hset : Scanned ['s', 'e', 't'] (' ' :: (registerText n ++ ' ' :: text))
      [⟨some ['s', 'e', 't'], .word⟩] :=
    (Scanned.start _).word rfl (List.all_eq_true.mp rfl) rfl (by decide) (by decide)
  have hspace := hset.space rfl
  have hdigits : ∀ d ∈ Nat.toDigits 10 n, (isNumber d || isCharacter d) = true := by
    intro d hd
    rw [isNumber_of_mem_toDigits hd, Bool.true_or]
  have hlen : (registerText n).length < defaultLiteralSize := by
    have hshort := (length_toDigits_le (n := n) (k := 2) (by decide)).mpr (by omega)
    simp only [registerText, List.length_cons, defaultLiteralSize]
    omega
  have hregister := hspace.word rfl hdigits rfl hlen (by decide)
  exact hregister.space rfl

theorem scanned_minus {before rest : List Char} {list : List Token}
    (h : Scanned before ('-' :: rest) list) (hrest : rest.headD '\x00' ≠ '-')
    (hroom : list.length < tokensBlockSize) :
    Scanned (before ++ ['-']) rest (list ++ [⟨none, .binaryOperatorMinus⟩]) := by
  have hminus : symbolType (before ++ '-' :: rest) before.length '-' =
      .ok .binaryOperatorMinus := by
    simp only [symbolType, nextSymbol_append]
    change Except.ok (if rest.headD '\x00' = '-' then _ else _) = _
    rw [if_neg hrest]
  have hnext := tokenNext_symbol before rest '-' .zero rfl rfl rfl hminus
  have hsplit : before ++ '-' :: rest = before ++ ['-'] ++ rest := by simp
  rw [hsplit] at hnext
  exact Scanned.next ['-'] h hnext nofun nofun hroom

theorem tokenizes_setLine (n : Nat) (hn : n < 16) (v : Int) (hlo : -2 ^ 31 ≤ v) (hhi : v < 2 ^ 31) :
    Tokenizes zeroJunk (setLine n v) (setTokens n v) := by
  have hoperands := scanned_operands n hn (decimalText v)
  have htwo : 2 < tokensBlockSize := by decide
  have hthree : 3 < tokensBlockSize := by decide
  have hline : setLine n v =
      ['s', 'e', 't', ' '] ++ registerText n ++ [' '] ++ decimalText v := by simp [setLine]
  rw [hline]
  cases v with
  | ofNat v =>
    have hv : (v : Int) < 2 ^ 31 := hhi
    have hlen : (Nat.toDigits 10 v).length < defaultLiteralSize :=
      length_toDigits_lt (k := 10) (by omega) (by decide) (by decide)
    exact (scanned_digits hoperands hlen htwo).finish
  | negSucc v =>
    rw [Int.negSucc_eq] at hlo
    have hlen : (Nat.toDigits 10 (v + 1)).length < defaultLiteralSize :=
      length_toDigits_lt (k := 10) (by omega) (by decide) (by decide)
    have hdigit : (Nat.toDigits 10 (v + 1)).headD '\x00' ≠ '-' := by
      cases hdigits : Nat.toDigits 10 (v + 1) with
      | nil => exact absurd hdigits Nat.toDigits_ne_nil
      | cons c cs =>
        have hc : isNumber c = true := by
          apply isNumber_of_mem_toDigits (n := v + 1)
          rw [hdigits]
          exact List.mem_cons_self
        rintro rfl
        cases hc
    have hminus := scanned_minus hoperands hdigit htwo
    have hscanned := (scanned_digits hminus hlen hthree).finish
    rw [List.append_assoc _ ['-']] at hscanned
    exact hscanned

section Assemble

variable (host : Host) (junk : Nat → Reg) (labels : List Label)

theorem readOperands_setTokens (n : Fin intRegCount) (v : Nat) :
    readOperands host junk labels .iSet (setTokens n.val (.ofNat v)).tail =
      readOperand host junk labels .iSet
        { Operands.zero with regs := Function.update (fun _ => 0) 0 (BitVec.ofNat 32 n.val) }
        (⟨some (Nat.toDigits 10 v), .wordLiterallNumber⟩, 1) := by
  have hcount : getInstuctionCount .iSet = (setTokens n.val (.ofNat v)).tail.length := rfl
  have hzip : (setTokens n.val (.ofNat v)).tail.zipIdx =
      [((⟨some (registerText n.val), .word⟩ : Token), 0),
        (⟨some (Nat.toDigits 10 v), .wordLiterallNumber⟩, 1)] := rfl
  rw [readOperands, if_pos hcount, hzip, List.foldlM_cons,
    readOperand_register host junk labels _ _ n.isLt (by decide)]
  change List.foldlM _ _ _ = _
  rw [List.foldlM_cons]
  exact bind_pure _

theorem readOperands_set (n : Fin intRegCount) {v : Nat} (hv : v < 10000) :
    readOperands host junk labels .iSet (setTokens n.val (.ofNat v)).tail = .ok
      { regs := Function.update (fun _ => 0) 0 (BitVec.ofNat 32 n.val)
        fvalue := 0
        dvalue := BitVec.ofNat 32 v } := by
  rw [readOperands_setTokens, readOperand_decimal host junk labels _ _ hv rfl]
  rfl

theorem readOperands_set_long (n : Fin intRegCount) {v : Nat} (hv : 10000 ≤ v) :
    readOperands host junk labels .iSet (setTokens n.val (.ofNat v)).tail =
      .error .prefixOverflow := by
  have hlong : 4 < (Nat.toDigits 10 v).length := by
    rw [← Nat.not_le, length_toDigits_le (by decide)]
    omega
  rw [readOperands_setTokens, readOperand_long host junk labels _ _ hlong]

theorem set_keyword : (isKeyword ['s', 'e', 't']).bind Inst.ofCode = some .iSet := rfl

theorem assembleLine_setTokens (n : Nat) (v : Int) :
    assembleLine host junk labels (setTokens n v) = (do
      let acc ← readOperands host junk labels .iSet (setTokens n v).tail
      return Build.set (toReg (acc.regs 0)) acc.dvalue) :=
  assembleLine_of_keyword rfl set_keyword

theorem assembleLine_set (n : Fin intRegCount) {v : Nat} (hv : v < 10000) :
    assembleLine host junk labels (setTokens n.val (.ofNat v)) =
      .ok (Build.set (registerByte n) (BitVec.ofNat 32 v)) := by
  rw [assembleLine_setTokens, readOperands_set host junk labels n hv]
  exact congrArg (fun r => Except.ok (Build.set r _)) (toReg_ofNat n)

theorem assembleLine_set_long (n : Fin intRegCount) {v : Nat} (hv : 10000 ≤ v) :
    assembleLine host junk labels (setTokens n.val (.ofNat v)) = .error .prefixOverflow := by
  rw [assembleLine_setTokens, readOperands_set_long host junk labels n hv]
  rfl

-- The sign is a token of its own: three operands, so the message is printed and none is read.
theorem assembleLine_set_negative (n v : Nat) :
    assembleLine host junk labels (setTokens n (.negSucc v)) = .ok (Build.set 0 0) := rfl

end Assemble

theorem executeOp_set (host : Host) {m : Machine} (n : Fin intRegCount) (v : Uint)
    (hf : m.fetched = some (Build.set (registerByte n) v)) :
    executeOp host m = .ok { m with
      pc := m.pc + 1
      iregisters := Function.update m.iregisters n v } := by
  have hstorage : (Build.set (registerByte n) v).storage.asI32 = v := UniformStrg.asI32_ofI32 v
  rw [executeOp_of_fetched hf, executeInst, Build.set, Build.decode_operands]
  change m.advance.setDReg (registerByte n) (Build.set (registerByte n) v).storage.asI32 = _
  rw [hstorage, registerByte, Machine.setDReg_ofNat]
  rfl

def setMachine (inst : Instruction) (v : Uint) : Machine :=
  initMachine { Globals.zero with dRegisters := fun _ => v } ⟨[inst], by simp⟩

theorem executeOp_setMachine (host : Host) (w : Uint) :
    executeOp host (setMachine (Build.set 0 0) w) = .ok { setMachine (Build.set 0 0) w with
      pc := 1
      iregisters := Function.update (fun _ => w) 0 0 } :=
  executeOp_set host (m := setMachine (Build.set 0 0) w) 0 0 rfl

theorem not_survives_negative (n : Fin intRegCount) (v : Nat)
    (hlo : -2 ^ 31 ≤ Int.negSucc v) : ¬ Survives n (.negSucc v) := by
  have hneg : Int.negSucc v < 0 := Int.negSucc_lt_zero v
  rintro ⟨tokens, inst, htokens, hassembles, hexecutes⟩
  have hline := tokenizes_setLine n.val n.isLt (.negSucc v) hlo (by omega)
  obtain rfl := tokenizes_unique htokens hline
  have hinst := hassembles Host.integer (fun _ => .zero) []
  rw [assembleLine_set_negative] at hinst
  obtain rfl := Except.ok.inj hinst
  generalize hw : BitVec.ofInt 32 (Int.negSucc v) = w at hexecutes
  have hzero : w ≠ 0 := by
    rintro rfl
    have hint := congrArg BitVec.toInt hw
    rw [BitVec.toInt_ofInt_eq_self (by decide) (by omega) (by omega)] at hint
    simp at hint
  have hrun := hexecutes Host.integer (setMachine (Build.set 0 0) (w + 1)) rfl
  rw [executeOp_setMachine] at hrun
  have hregisters := congrFun (congrArg Machine.iregisters (Except.ok.inj hrun)) n
  change Function.update (fun _ => w + 1) 0 0 n = Function.update (fun _ => w + 1) n w n
    at hregisters
  rw [Function.update_self] at hregisters
  by_cases hn : n = 0
  · subst hn
    rw [Function.update_self] at hregisters
    exact hzero hregisters.symm
  · rw [Function.update_of_ne hn] at hregisters
    bv_omega

theorem not_survives_long (n : Fin intRegCount) (v : Nat) (hlong : 10000 ≤ v)
    (hhi : Int.ofNat v < 2 ^ 31) : ¬ Survives n (.ofNat v) := by
  have hnonneg : 0 ≤ Int.ofNat v := Int.natCast_nonneg v
  rintro ⟨tokens, inst, htokens, hassembles, -⟩
  have hline := tokenizes_setLine n.val n.isLt (.ofNat v) (by omega) hhi
  obtain rfl := tokenizes_unique htokens hline
  have hinst := hassembles Host.integer (fun _ => .zero) []
  rw [assembleLine_set_long _ _ _ n hlong] at hinst
  cases hinst

theorem survives_iff (n : Fin intRegCount) (v : Int) (hlo : -2 ^ 31 ≤ v) (hhi : v < 2 ^ 31) :
    Survives n v ↔ 0 ≤ v ∧ v ≤ 9999 := by
  cases v with
  | negSucc v =>
    have hneg : Int.negSucc v < 0 := Int.negSucc_lt_zero v
    constructor
    · intro h
      exact absurd h (not_survives_negative n v hlo)
    · rintro ⟨hnonneg, -⟩
      omega
  | ofNat v =>
    have hline := tokenizes_setLine n.val n.isLt (.ofNat v) hlo hhi
    have hcast : (Int.ofNat v : Int) = (v : Int) := rfl
    constructor
    · intro h
      refine ⟨Int.natCast_nonneg v, ?_⟩
      by_contra hlong
      exact not_survives_long n v (by omega) hhi h
    · rintro ⟨-, hshort⟩
      have hvalue : BitVec.ofInt 32 (Int.ofNat v) = BitVec.ofNat 32 v := BitVec.ofInt_natCast 32 v
      refine ⟨_, _, hline, fun host junk labels => assembleLine_set host junk labels n (by omega),
        fun host m hf => ?_⟩
      rw [hvalue]
      exact executeOp_set host n _ hf

theorem survives_iff_five : Survives 3 5 ↔ (0 : Int) ≤ 5 ∧ (5 : Int) ≤ 9999 :=
  survives_iff 3 5 (by decide) (by decide)

theorem minus_one_and_ten_thousand_lost : ¬ Survives 1 (-1) ∧ ¬ Survives 1 10000 :=
  ⟨not_survives_negative 1 0 (by decide), not_survives_long 1 10000 (by decide) (by decide)⟩

end Literals

end CAt
