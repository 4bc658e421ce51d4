import CAt.Assembler.AssembleLine

namespace CAt

def registerText (n : Nat) : List Char := 'r' :: Nat.toDigits 10 n

def registerByte (x : Fin intRegCount) : Byte := BitVec.ofNat 8 x.val

theorem toReg_ofNat (x : Fin intRegCount) : toReg (BitVec.ofNat 32 x.val) = registerByte x := by
  have hx : x.val < 16 := x.isLt
  apply BitVec.eq_of_toNat_eq
  simp only [toReg, registerByte, BitVec.toNat_setWidth, BitVec.toNat_ofNat]
  omega

theorem isNumber_of_mem_toDigits {n : Nat} {c : Char} (h : c ∈ Nat.toDigits 10 n) :
    isNumber c = true := by
  have hdigit := Nat.isDigit_of_mem_toDigits (by decide) (by decide) h
  rw [Char.isDigit_iff_toNat] at hdigit
  exact isNumber_iff.mpr hdigit

theorem atoiDigits_eq_ofDigitChars {str : List Char} (h : ∀ c ∈ str, isNumber c = true)
    (acc : Nat) : atoiDigits acc str = Nat.ofDigitChars 10 str acc := by
  induction str generalizing acc with
  | nil => simp [atoiDigits]
  | cons c cs ih =>
    have hc : isNumber c = true := h c List.mem_cons_self
    rw [atoiDigits, if_pos hc, ih (fun d hd => h d (List.mem_cons_of_mem c hd)),
      Nat.ofDigitChars_cons, Nat.mul_comm]

theorem atoi_eq_atoiDigits {c : Char} {cs : List Char} (hc : isNumber c = true) :
    atoi (c :: cs) = atoiDigits 0 (c :: cs) := by
  have hblank : isBlank c = false := by
    rw [isNumber_iff] at hc
    simp only [isBlank, Bool.or_eq_false_iff, beq_eq_false_iff_ne]
    refine ⟨⟨⟨⟨⟨?_, ?_⟩, ?_⟩, ?_⟩, ?_⟩, ?_⟩ <;> rintro rfl <;> revert hc <;> decide
  have hminus : c ≠ '-' := by
    rintro rfl
    cases hc
  have hplus : c ≠ '+' := by
    rintro rfl
    cases hc
  rw [atoi, List.dropWhile_cons_of_neg (by simp [hblank])]
  split
  · rename_i h
    exact absurd (List.cons.inj h).1 hminus
  · rename_i h
    exact absurd (List.cons.inj h).1 hplus
  · rfl

theorem atoi_toDigits (n : Nat) : atoi (Nat.toDigits 10 n) = n := by
  have hnumber : ∀ c ∈ Nat.toDigits 10 n, isNumber c = true :=
    fun c hc => isNumber_of_mem_toDigits hc
  have hvalue := Nat.ofDigitChars_ten_toDigits (n := n)
  cases hdigits : Nat.toDigits 10 n with
  | nil => exact absurd hdigits Nat.toDigits_ne_nil
  | cons c cs =>
    rw [hdigits] at hnumber hvalue
    rw [atoi_eq_atoiDigits (hnumber c List.mem_cons_self), atoiDigits_eq_ofDigitChars hnumber,
      hvalue]

theorem length_toDigits_le {n k : Nat} (hk : 0 < k) :
    (Nat.toDigits 10 n).length ≤ k ↔ n < 10 ^ k :=
  Nat.length_toDigits_le_iff (by decide) hk

theorem parseReg_long {host : Host} {r : Reg} {str : List Char} (h : 4 < str.length) :
    parseReg host r str = .error .prefixOverflow := by
  have hlong : str.length > prefixSize + 1 := h
  rw [parseReg, if_pos hlong]

theorem parseNumber_short (r : Reg) {number : List Char} (h : number.length < numberSize) :
    parseNumber r number = .ok { r with regN := BitVec.ofInt 8 (atoi number) } := by
  rw [parseNumber, if_pos h]

inductive Parsed (r : Reg) : List Char → Reg → Prop
  | floatRegister (errorId : Byte) :
      Parsed r ['f', 'r'] { r with errorId, isFloat := true, isRegN := true, regN := 0 }
  | register (errorId : Byte) (number : List Char) :
      Parsed r ('r' :: number) { r with
        errorId
        isRegN := true
        isFloat := false
        isValue := false
        regN := BitVec.ofInt 8 (atoi number) }
  | label (errorId : Byte) {name : List Char} (named : name ≠ []) :
      Parsed r ('L' :: name) { r with
        errorId
        isRegN := false
        isFloat := false
        isLabel := true
        valueLabel := some ('L' :: name)
        regN := 0 }
  | decimal (errorId : Byte) {str : List Char} (digits : isDecimal str = true) :
      Parsed r str { r with
        errorId
        isRegN := false
        isValue := true
        isFloat := false
        valueLiterall := getDecimalValue str
        regN := 0 }
  | other (errorId : Byte) {str : List Char} (named : str.head? ≠ some 'r' ∧ str.head? ≠ some 'L')
      (digits : isDecimal str = false) :
      Parsed r str { r with errorId, isRegN := false, isValue := true, regN := 0 }

theorem isDecimal_of_isFloat {str : List Char} (h : isFloat str = true) : isDecimal str = true := by
  rw [isFloat, List.all_eq_true] at h
  rw [isDecimal, List.all_eq_true]
  intro c hc
  have hnumber := h c hc
  simp only [Bool.and_eq_true] at hnumber
  rw [hnumber.1.1, Bool.true_or]

theorem head_of_isDecimal {str : List Char} {c : Char} (h : isDecimal str = true)
    (hc : str.head? = some c) : (isNumber c || c == '-') = true :=
  List.all_eq_true.mp h c (List.mem_of_head? hc)

def tooShortOrLong (r : Reg) (str : List Char) : Byte :=
  if str.length < 2 then -1 else if str.length ≥ prefixSize then -2 else r.errorId

theorem parseReg_eq (host : Host) (r : Reg) {str : List Char} (hlen : str.length ≤ 4)
    (hlabel : str ≠ ['L']) : ∃ r', parseReg host r str = .ok r' ∧ Parsed r str r' := by
  have hshort : ¬ str.length > prefixSize + 1 := Nat.not_lt_of_le hlen
  have hempty : ([] : List Char).length < numberSize := by decide
  have herror : (if str.length < 2 then { r with errorId := -1 }
      else if str.length ≥ prefixSize then { r with errorId := -2 } else r) =
      { r with errorId := tooShortOrLong r str } := by
    unfold tooShortOrLong
    split
    · rfl
    · split
      · rfl
      · rfl
  rw [parseReg, herror, if_neg hshort]
  by_cases hfr : str = ['f', 'r']
  · subst hfr
    exact ⟨_, rfl, .floatRegister _⟩
  rw [if_neg hfr]
  by_cases hr : str.head? = some 'r'
  · obtain ⟨number, rfl⟩ := List.head?_eq_some_iff.mp hr
    have hnumber : number.length < numberSize := by
      rw [List.length_cons] at hlen
      simp only [numberSize]
      omega
    rw [if_pos hr]
    exact ⟨_, parseNumber_short _ hnumber, .register _ number⟩
  rw [if_neg hr]
  by_cases hl : str.head? = some 'L'
  · obtain ⟨name, rfl⟩ := List.head?_eq_some_iff.mp hl
    have hname : name ≠ [] := fun hnil => hlabel (by rw [hnil])
    have hlong : ('L' :: name).length > 1 := by
      have hpos := List.length_pos_iff.mpr hname
      rw [List.length_cons]
      omega
    rw [if_pos hl, if_pos hlong]
    exact ⟨_, parseNumber_short _ hempty, .label _ hname⟩
  rw [if_neg hl]
  by_cases hdecimal : isDecimal str = true
  · rw [if_pos hdecimal]
    exact ⟨_, parseNumber_short _ hempty, .decimal _ hdecimal⟩
  · have hfloat : ¬ isFloat str = true := fun h => hdecimal (isDecimal_of_isFloat h)
    rw [if_neg hdecimal, if_neg hfloat]
    exact ⟨_, parseNumber_short _ hempty, .other _ ⟨hr, hl⟩ (Bool.eq_false_iff.mpr hdecimal)⟩

theorem parseReg_loneL (host : Host) (r : Reg) :
    parseReg host r ['L'] = .error (.assertion ("You trying to reference a label? " ++
      "Label has to have at least one character in a name!")) := rfl

theorem parseReg_ok {host : Host} {r r' : Reg} {str : List Char}
    (h : parseReg host r str = .ok r') : Parsed r str r' := by
  by_cases hlen : str.length ≤ 4
  · by_cases hlabel : str = ['L']
    · rw [hlabel, parseReg_loneL] at h
      cases h
    · obtain ⟨r'', hr, hparsed⟩ := parseReg_eq host r hlen hlabel
      rw [hr] at h
      exact Except.ok.inj h ▸ hparsed
  · rw [parseReg_long (Nat.lt_of_not_le hlen)] at h
    cases h

theorem Parsed.register_inv {r r' : Reg} {number : List Char} (h : Parsed r ('r' :: number) r') :
    r'.isRegN = true ∧ r'.isValue = false ∧ r'.regN = BitVec.ofInt 8 (atoi number) := by
  generalize htext : 'r' :: number = text at h
  have hhead : text.head? = some 'r' := htext ▸ rfl
  cases h with
  | floatRegister => cases hhead
  | register =>
    cases htext
    exact ⟨rfl, rfl, rfl⟩
  | label => cases hhead
  | decimal _ digits => cases head_of_isDecimal digits hhead
  | other _ named => exact absurd hhead named.1

theorem Parsed.decimal_inv {r r' : Reg} {text : List Char} (h : Parsed r text r')
    (hdecimal : isDecimal text = true) :
    r'.isValue = true ∧ r'.isFloat = false ∧ r'.valueLiterall = getDecimalValue text := by
  cases h with
  | floatRegister => cases hdecimal
  | register => cases head_of_isDecimal hdecimal rfl
  | label => cases head_of_isDecimal hdecimal rfl
  | decimal => exact ⟨rfl, rfl, rfl⟩
  | other _ _ digits =>
    rw [digits] at hdecimal
    cases hdecimal

theorem parseReg_register (host : Host) (r : Reg) {n : Nat} (h : n < 16) :
    ∃ r', parseReg host r (registerText n) = .ok r' ∧ r'.isRegN = true ∧ r'.isValue = false ∧
      r'.regN = BitVec.ofNat 8 n := by
  have hdigits : (Nat.toDigits 10 n).length ≤ 2 := (length_toDigits_le (by decide)).mpr (by omega)
  have hlen : (registerText n).length ≤ 4 := by
    rw [registerText, List.length_cons]
    omega
  have hlabel : registerText n ≠ ['L'] := fun he => absurd (List.cons.inj he).1 (by decide)
  obtain ⟨r', hr, hparsed⟩ := parseReg_eq host r hlen hlabel
  obtain ⟨hreg, hvalue, hn⟩ := hparsed.register_inv
  rw [atoi_toDigits, BitVec.ofInt_natCast] at hn
  exact ⟨r', hr, hreg, hvalue, hn⟩

theorem parseReg_decimal (host : Host) (r : Reg) {n : Nat} (h : n < 10000) :
    ∃ r', parseReg host r (Nat.toDigits 10 n) = .ok r' ∧ r'.isValue = true ∧
      r'.isFloat = false ∧ r'.valueLiterall = BitVec.ofNat 32 n := by
  have hlen : (Nat.toDigits 10 n).length ≤ 4 := (length_toDigits_le (by decide)).mpr h
  have hdecimal : isDecimal (Nat.toDigits 10 n) = true := by
    rw [isDecimal, List.all_eq_true]
    intro c hc
    rw [isNumber_of_mem_toDigits hc, Bool.true_or]
  have hlabel : Nat.toDigits 10 n ≠ ['L'] := by
    intro he
    rw [he] at hdecimal
    cases hdecimal
  obtain ⟨r', hr, hparsed⟩ := parseReg_eq host r hlen hlabel
  obtain ⟨hvalue, hfloat, hliterall⟩ := hparsed.decimal_inv hdecimal
  rw [getDecimalValue, atoi_toDigits, BitVec.ofInt_natCast] at hliterall
  exact ⟨r', hr, hvalue, hfloat, hliterall⟩

def storeOperand (host : Host) (labels : List Label) (type : Inst) (acc : Operands) (t : Nat)
    (r : Reg) : Except LineFault Operands :=
  if r.isValue && (r.isFloat || isFloatInstr type) then
    return { acc with fvalue := host.uintToFloat r.valueLiterall }
  else if r.isValue && !r.isFloat then
    return { acc with dvalue := r.valueLiterall }
  else if r.isLabel && !r.isValue && !r.isRegN then do
    match ← findLabel r labels with
    | some address => return { acc with dvalue := address }
    | none => .error (.assertion "Label was not found!")
  else if h : t < 4 then
    return { acc with regs := Function.update acc.regs ⟨t, h⟩ (r.regN.signExtend 32) }
  else .error .regsOverflow

theorem readOperand_eq (host : Host) (junk : Nat → Reg) (labels : List Label) {type : Inst}
    (acc : Operands) {token : Token} (t : Nat) {word : List Char}
    (h : token.literall = some word) :
    readOperand host junk labels type acc (token, t) =
      parseReg host (junk t) word >>= storeOperand host labels type acc t := by
  simp only [readOperand, h]
  rfl

section ReadOperand

variable (host : Host) (junk : Nat → Reg) (labels : List Label) {type : Inst} (acc : Operands)
  (tokenType : TokenType) {t : Nat}

theorem readOperand_register {n : Nat} (h : n < 16) (ht : t < 4) :
    readOperand host junk labels type acc (⟨some (registerText n), tokenType⟩, t) =
      .ok { acc with regs := Function.update acc.regs ⟨t, ht⟩ (BitVec.ofNat 32 n) } := by
  obtain ⟨r, hr, hreg, hvalue, hn⟩ := parseReg_register host (junk t) h
  have hsign : (BitVec.ofNat 8 n).signExtend 32 = BitVec.ofNat 32 n := by
    rw [BitVec.signExtend_eq_setWidth_of_msb_false, BitVec.setWidth_ofNat_of_le_of_lt]
    · decide
    · omega
    · rw [BitVec.msb_eq_false_iff_two_mul_lt, BitVec.toNat_ofNat]
      omega
  simp only [readOperand]
  rw [hr]
  change (if (r.isValue && (r.isFloat || isFloatInstr type)) = true then _ else _) = _
  simp [hvalue, hreg, ht, hn, hsign]
  rfl

theorem readOperand_decimal {n : Nat} (h : n < 10000) (hfloat : isFloatInstr type = false) :
    readOperand host junk labels type acc (⟨some (Nat.toDigits 10 n), tokenType⟩, t) =
      .ok { acc with dvalue := BitVec.ofNat 32 n } := by
  obtain ⟨r, hr, hvalue, hnofloat, hn⟩ := parseReg_decimal host (junk t) h
  simp only [readOperand]
  rw [hr]
  change (if (r.isValue && (r.isFloat || isFloatInstr type)) = true then _ else _) = _
  simp [hvalue, hnofloat, hfloat, hn]
  rfl

theorem readOperand_long {str : List Char} (h : 4 < str.length) :
    readOperand host junk labels type acc (⟨some str, tokenType⟩, t) = .error .prefixOverflow := by
  simp only [readOperand]
  rw [parseReg_long h]
  rfl

end ReadOperand

def registerToken (x : Fin intRegCount) : Token := ⟨some (registerText x.val), .word⟩

def registerSlots (xs : List (Fin intRegCount)) : Fin 4 → Uint :=
  fun i => (xs[i.val]?).elim 0 fun x => BitVec.ofNat 32 x.val

theorem registerSlots_snoc (xs : List (Fin intRegCount)) (x : Fin intRegCount)
    (h : xs.length < 4) :
    Function.update (registerSlots xs) ⟨xs.length, h⟩ (BitVec.ofNat 32 x.val) =
      registerSlots (xs ++ [x]) := by
  funext i
  unfold registerSlots
  rcases Nat.lt_trichotomy i.val xs.length with hi | hi | hi
  · have hne : i ≠ ⟨xs.length, h⟩ := fun he => Nat.ne_of_lt hi (congrArg Fin.val he)
    rw [Function.update_of_ne hne, List.getElem?_append_left hi]
  · have he : i = ⟨xs.length, h⟩ := Fin.ext hi
    subst he
    simp
  · have hne : i ≠ ⟨xs.length, h⟩ := fun he => Nat.ne_of_gt hi (congrArg Fin.val he)
    have hlen : (xs ++ [x]).length ≤ i.val := by
      rw [List.length_append, List.length_singleton]
      exact hi
    rw [Function.update_of_ne hne, List.getElem?_eq_none (Nat.le_of_lt hi),
      List.getElem?_eq_none hlen]

section ReadRegisters

variable (host : Host) (junk : Nat → Reg) (labels : List Label) {type : Inst}

theorem foldlM_registers (done xs : List (Fin intRegCount)) (h : (done ++ xs).length ≤ 4) :
    ((xs.map registerToken).zipIdx done.length).foldlM (readOperand host junk labels type)
      ⟨registerSlots done, 0, 0⟩ = .ok ⟨registerSlots (done ++ xs), 0, 0⟩ := by
  induction xs generalizing done with
  | nil =>
    rw [List.append_nil]
    rfl
  | cons x xs ih =>
    have hroom : done.length < 4 := by
      rw [List.length_append, List.length_cons] at h
      omega
    have hshift : done ++ x :: xs = (done ++ [x]) ++ xs := by simp
    have hlen : (done ++ [x]).length = done.length + 1 := by simp
    rw [List.map_cons, List.zipIdx_cons, List.foldlM_cons, registerToken,
      readOperand_register host junk labels _ _ x.isLt hroom, hshift]
    change List.foldlM _ _ _ = _
    rw [registerSlots_snoc done x hroom, ← hlen]
    exact ih (done ++ [x]) (hshift ▸ h)

theorem readOperands_registers (xs : List (Fin intRegCount))
    (hcount : getInstuctionCount type = xs.length) (h : xs.length ≤ 4) :
    readOperands host junk labels type (xs.map registerToken) = .ok ⟨registerSlots xs, 0, 0⟩ := by
  have hlength : getInstuctionCount type = (xs.map registerToken).length := by
    rw [List.length_map, hcount]
  rw [readOperands, if_pos hlength]
  exact foldlM_registers host junk labels [] xs h

end ReadRegisters

end CAt
