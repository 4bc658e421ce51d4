import CAt.Library.GuardedLoop
import Mathlib.Data.List.OfFn
import Mathlib.Data.List.TakeWhile
import Mathlib.Logic.Function.Basic

namespace CAt

open GuardedLoop

inductive TokenType where
  | binaryOperatorPlus | binaryOperatorPlusPlus | binaryOperatorMinus | binaryOperatorMinusMinus
  | binaryOperatorMultiply | binaryOperatorDevide | binaryOperatorMod | binaryOperatorAsign
  | binaryOperatorEqual | binaryOperatorEqualOrLess | binaryOperatorEqualOrMore
  | binaryOperatorMore | binaryOperatorLess | binaryOperatorAnd | binaryOperatorOr
  | binaryOperatorNot
  | symbolCurlyOpen | symbolCurlyClose | symbolParenOpen | symbolParenClose | symbolSquareOpen
  | symbolSquareClose | symbolDot | symbolColon | symbolComma | symbolAt | symbolDollar
  | symbolPercent | symbolQuestionMark | symbolExpressionEnd | symbolHash
  | word | wordLiterallNumber | wordLiterallString
  | null | space | eob
deriving DecidableEq, Repr

-- A C string is the list of its characters up to the terminator; `none` is NULL.
structure Token where
  literall : Option (List Char)
  type : TokenType
deriving DecidableEq, Repr

def Token.zero : Token := ⟨none, .binaryOperatorPlus⟩

inductive TokenFault where
  | bufferOverread
  | literalOverflow
  | literalUnterminated
  | listOverflow
deriving DecidableEq, Repr

def isCharacter (c : Char) : Bool := ('A' ≤ c && c ≤ 'Z') || ('a' ≤ c && c ≤ 'z')

def isSpace (c : Char) : Bool := c == ' ' || c == '\t'

def isNumber (c : Char) : Bool := '0' ≤ c && c ≤ '9'

def noneSymbol : Char := '\xff'

def readChar (buffer : List Char) (pos : Nat) : Except TokenFault Char :=
  if h : pos < buffer.length then .ok buffer[pos]
  else if pos = buffer.length then .ok '\x00'
  else .error .bufferOverread

def nextSymbol (buffer : List Char) (pos : Nat) : Except TokenFault Char :=
  if buffer.length ≤ pos then .ok noneSymbol else readChar buffer (pos + 1)

def defaultLiteralSize : Nat := 1024

abbrev WordBuffer := Fin defaultLiteralSize → Char

def WordBuffer.zero : WordBuffer := fun _ => '\x00'

def copyLiterall (wordBuffer : WordBuffer) : Except TokenFault (List Char) :=
  let chars := (List.ofFn wordBuffer).takeWhile (· != '\x00')
  if chars.length < defaultLiteralSize then .ok chars else .error .literalUnterminated

-- The two `while` loops of token_next; `room` is what is left of word_buffer.
def readRun (isPart : Char → Bool) (buffer : List Char) (bp : Nat) :
    Nat → WordBuffer → Char → Except TokenFault (List Char × Nat)
  | 0, _, _ => .error .literalOverflow
  | room + 1, wordBuffer, c => do
    let readIndex : Fin defaultLiteralSize :=
      ⟨defaultLiteralSize - (room + 1), Nat.sub_lt (by decide) (Nat.succ_pos room)⟩
    let wordBuffer := Function.update wordBuffer readIndex c
    let c ← nextSymbol buffer (bp + readIndex.val)
    if isPart c then readRun isPart buffer bp room wordBuffer c
    else return (← copyLiterall wordBuffer, bp + (readIndex.val + 1))

def symbolType (buffer : List Char) (bp : Nat) (c : Char) : Except TokenFault TokenType :=
  match c with
  | '\n' | ';' => return .symbolExpressionEnd
  | '+' => return if (← nextSymbol buffer bp) = '+' then .binaryOperatorPlusPlus
      else .binaryOperatorPlus
  | '-' => return if (← nextSymbol buffer bp) = '-' then .binaryOperatorMinusMinus
      else .binaryOperatorMinus
  | '=' => return if (← nextSymbol buffer bp) = '=' then .binaryOperatorEqual
      else .binaryOperatorAsign
  | '(' => return .symbolParenOpen
  | ')' => return .symbolParenClose
  | '{' => return .symbolCurlyOpen
  | '}' => return .symbolCurlyClose
  | '.' => return .symbolDot
  | ':' => return .symbolColon
  | ',' => return .symbolComma
  | '#' => return .symbolHash
  | _ => return .null

def TokenType.width : TokenType → Nat
  | .binaryOperatorPlusPlus | .binaryOperatorMinusMinus | .binaryOperatorEqual => 2
  | _ => 1

-- `wordBuffer` is what the uninitialised local array holds when the call starts.
def tokenNext (wordBuffer : WordBuffer) (buffer : List Char) (bp : Nat) :
    Except TokenFault (Token × Nat) :=
  if buffer.length ≤ bp then .ok (⟨none, .eob⟩, bp)
  else do
    let c ← readChar buffer bp
    if isSpace c then return (⟨none, .space⟩, bp + 1)
    else if isNumber c then
      let (literall, bp) ← readRun isNumber buffer bp defaultLiteralSize wordBuffer c
      return (⟨some literall, .wordLiterallNumber⟩, bp)
    else if isCharacter c then
      let (literall, bp) ←
        readRun (fun c => isNumber c || isCharacter c) buffer bp defaultLiteralSize wordBuffer c
      return (⟨some literall, .word⟩, bp)
    else
      let type ← symbolType buffer bp c
      return (⟨none, type⟩, bp + type.width)

def tokensBlockSize : Nat := 1024

structure Scan where
  filePos : Nat
  list : List Token
  atEnd : Bool

def tokenLoop (junk : Nat → WordBuffer) (buffer : List Char) : Loop Scan TokenFault where
  guard := fun s => !s.atEnd
  body := fun s => do
    let (t, filePos) ← tokenNext (junk s.filePos) buffer s.filePos
    if t.type = .eob then return { s with filePos, atEnd := true }
    else if t.type = .space then return { s with filePos }
    else if s.list.length < tokensBlockSize then
      return { s with filePos, list := s.list ++ [t] }
    else .error .listOverflow

def Tokenizes (junk : Nat → WordBuffer) (buffer : List Char) (list : List Token) : Prop :=
  ∃ s, (tokenLoop junk buffer).Finishes ⟨0, [], false⟩ s ∧ s.list = list

theorem tokenizes_unique {junk : Nat → WordBuffer} {buffer : List Char} {list list' : List Token}
    (h : Tokenizes junk buffer list) (h' : Tokenizes junk buffer list') : list = list' := by
  obtain ⟨s, hs, rfl⟩ := h
  obtain ⟨s', hs', rfl⟩ := h'
  rw [Loop.finishes_unique hs hs']

namespace WordBuffer

def fill (chars : List Char) (wordBuffer : WordBuffer) : WordBuffer :=
  fun i => chars.getD i.val (wordBuffer i)

theorem fill_nil (wordBuffer : WordBuffer) : fill [] wordBuffer = wordBuffer := by
  funext i
  simp [fill]

theorem update_fill (chars : List Char) (wordBuffer : WordBuffer) (c : Char)
    {i : Fin defaultLiteralSize} (h : i.val = chars.length) :
    Function.update (fill chars wordBuffer) i c = fill (chars ++ [c]) wordBuffer := by
  funext j
  by_cases hj : j = i
  · subst hj
    simp [fill, h]
  · have hne : j.val ≠ chars.length := fun he => hj (Fin.ext (he.trans h.symm))
    rw [Function.update_of_ne hj, fill, fill, List.getD_eq_getElem?_getD,
      List.getD_eq_getElem?_getD]
    rcases Nat.lt_or_gt_of_ne hne with hlt | hgt
    · rw [List.getElem?_append_left hlt]
    · have hlen : (chars ++ [c]).length ≤ j.val := by
        rw [List.length_append, List.length_singleton]
        omega
      rw [List.getElem?_eq_none hlen, List.getElem?_eq_none (by omega)]

-- What strlen and strcpy still find behind the first `n` characters.
def leftover (wordBuffer : WordBuffer) (n : Nat) : List Char :=
  ((List.ofFn wordBuffer).drop n).takeWhile (· != '\x00')

def NulAfter (wordBuffer : WordBuffer) (n : Nat) : Prop :=
  ∃ i : Fin defaultLiteralSize, n ≤ i.val ∧ wordBuffer i = '\x00'

instance (wordBuffer : WordBuffer) (n : Nat) : Decidable (NulAfter wordBuffer n) :=
  inferInstanceAs (Decidable (∃ i : Fin defaultLiteralSize, n ≤ i.val ∧ wordBuffer i = '\x00'))

theorem mem_drop_iff (wordBuffer : WordBuffer) (n : Nat) (c : Char) :
    c ∈ (List.ofFn wordBuffer).drop n ↔
      ∃ i : Fin defaultLiteralSize, n ≤ i.val ∧ wordBuffer i = c := by
  constructor
  · intro h
    obtain ⟨k, hk, rfl⟩ := List.getElem_of_mem h
    rw [List.length_drop, List.length_ofFn] at hk
    refine ⟨⟨n + k, by omega⟩, Nat.le_add_right n k, ?_⟩
    rw [List.getElem_drop, List.getElem_ofFn]
  · rintro ⟨i, hle, rfl⟩
    have hk : i.val - n < ((List.ofFn wordBuffer).drop n).length := by
      rw [List.length_drop, List.length_ofFn]
      omega
    have hget : ((List.ofFn wordBuffer).drop n)[i.val - n] = wordBuffer i := by
      rw [List.getElem_drop, List.getElem_ofFn]
      exact congrArg wordBuffer (Fin.ext (by simp only; omega))
    exact hget ▸ List.getElem_mem hk

theorem leftover_short_iff (wordBuffer : WordBuffer) (n : Nat) :
    (leftover wordBuffer n).length < defaultLiteralSize - n ↔ NulAfter wordBuffer n := by
  have hlen : ((List.ofFn wordBuffer).drop n).length = defaultLiteralSize - n := by
    rw [List.length_drop, List.length_ofFn]
  have hprefix : leftover wordBuffer n <+: (List.ofFn wordBuffer).drop n :=
    List.takeWhile_prefix _
  have hwhole : (leftover wordBuffer n).length = defaultLiteralSize - n ↔
      ¬ NulAfter wordBuffer n := by
    rw [← hlen]
    constructor
    · intro h hnul
      obtain ⟨i, hle, hi⟩ := hnul
      have hself := hprefix.eq_of_length h
      have hall := List.takeWhile_eq_self_iff.mp hself '\x00' ((mem_drop_iff _ _ _).mpr ⟨i, hle, hi⟩)
      exact absurd hall (by decide)
    · intro h
      have hall : ∀ c ∈ (List.ofFn wordBuffer).drop n, (c != '\x00') = true := by
        intro c hc
        rw [bne_iff_ne]
        rintro rfl
        exact h ((mem_drop_iff _ _ _).mp hc)
      exact congrArg List.length (List.takeWhile_eq_self_iff.mpr hall)
  have hle := hprefix.length_le
  rw [hlen] at hle
  rw [← not_iff_not, ← hwhole]
  omega

theorem leftover_eq_nil_iff (wordBuffer : WordBuffer) {n : Nat} (h : n < defaultLiteralSize) :
    leftover wordBuffer n = [] ↔ wordBuffer ⟨n, h⟩ = '\x00' := by
  have hpos : 0 < ((List.ofFn wordBuffer).drop n).length := by
    rw [List.length_drop, List.length_ofFn]
    omega
  have hget : ((List.ofFn wordBuffer).drop n).get ⟨0, hpos⟩ = wordBuffer ⟨n, h⟩ := by
    rw [List.get_eq_getElem, List.getElem_drop, List.getElem_ofFn]
    rfl
  rw [leftover, List.takeWhile_eq_nil_iff]
  simp only [hpos, forall_true_left, hget, bne_iff_ne, not_not]

theorem ofFn_fill {chars : List Char} (h : chars.length ≤ defaultLiteralSize)
    (wordBuffer : WordBuffer) :
    List.ofFn (fill chars wordBuffer) = chars ++ (List.ofFn wordBuffer).drop chars.length := by
  apply List.ext_getElem
  · rw [List.length_ofFn, List.length_append, List.length_drop, List.length_ofFn]
    omega
  · intro i hi hi'
    rw [List.getElem_ofFn, fill, List.getD_eq_getElem?_getD]
    by_cases hlt : i < chars.length
    · simp [hlt]
    · have hsub : chars.length + (i - chars.length) = i := by omega
      simp [List.getElem_append_right (Nat.le_of_not_lt hlt), Nat.le_of_not_lt hlt, hsub]

theorem copyLiterall_fill {chars : List Char} (hnul : ∀ c ∈ chars, c ≠ '\x00')
    (hlen : chars.length ≤ defaultLiteralSize) (wordBuffer : WordBuffer) :
    copyLiterall (fill chars wordBuffer) =
      if NulAfter wordBuffer chars.length then .ok (chars ++ leftover wordBuffer chars.length)
      else .error .literalUnterminated := by
  have htake : (List.ofFn (fill chars wordBuffer)).takeWhile (· != '\x00') =
      chars ++ leftover wordBuffer chars.length := by
    rw [ofFn_fill hlen, List.takeWhile_append_of_pos (by simpa using hnul)]
    rfl
  have hfits : (chars ++ leftover wordBuffer chars.length).length < defaultLiteralSize ↔
      NulAfter wordBuffer chars.length := by
    rw [← leftover_short_iff, List.length_append]
    omega
  simp only [copyLiterall, htake, hfits]

theorem copyLiterall_fill_zero {chars : List Char} (hnul : ∀ c ∈ chars, c ≠ '\x00')
    (hlen : chars.length < defaultLiteralSize) : copyLiterall (fill chars zero) = .ok chars := by
  have hafter : NulAfter zero chars.length := ⟨⟨chars.length, hlen⟩, Nat.le_refl _, rfl⟩
  rw [copyLiterall_fill hnul (Nat.le_of_lt hlen), if_pos hafter,
    (leftover_eq_nil_iff zero hlen).mpr rfl, List.append_nil]

def literall (wordBuffer : WordBuffer) (run : List Char) : Except TokenFault (List Char) :=
  if run.length ≤ defaultLiteralSize then copyLiterall (wordBuffer.fill run)
  else .error .literalOverflow

theorem literall_zero {run : List Char} (hnul : ∀ c ∈ run, c ≠ '\x00')
    (hlen : run.length < defaultLiteralSize) : literall zero run = .ok run := by
  rw [literall, if_pos (Nat.le_of_lt hlen), copyLiterall_fill_zero hnul hlen]

theorem literall_of_nulAfter {wordBuffer : WordBuffer} {run : List Char}
    (hnul : ∀ c ∈ run, c ≠ '\x00') (h : NulAfter wordBuffer run.length) :
    literall wordBuffer run = .ok (run ++ leftover wordBuffer run.length) := by
  obtain ⟨i, hle, -⟩ := id h
  have hlen : run.length ≤ defaultLiteralSize := Nat.le_of_lt (Nat.lt_of_le_of_lt hle i.isLt)
  rw [literall, if_pos hlen, copyLiterall_fill hnul hlen, if_pos h]

theorem literall_of_not_nulAfter {wordBuffer : WordBuffer} {run : List Char}
    (hnul : ∀ c ∈ run, c ≠ '\x00') (h : ¬ NulAfter wordBuffer run.length) :
    ∃ e, literall wordBuffer run = .error e ∧ e ≠ .bufferOverread := by
  unfold literall
  split
  · rename_i hlen
    rw [copyLiterall_fill hnul hlen, if_neg h]
    exact ⟨_, rfl, nofun⟩
  · exact ⟨_, rfl, nofun⟩

theorem eq_of_literall_zero {run text : List Char} (hnul : ∀ c ∈ run, c ≠ '\x00')
    (h : literall zero run = .ok text) : text = run := by
  by_cases hlen : run.length < defaultLiteralSize
  · rw [literall_zero hnul hlen] at h
    exact (Except.ok.inj h).symm
  · have hafter : ¬ NulAfter zero run.length := fun ⟨i, hle, _⟩ =>
      hlen (Nat.lt_of_le_of_lt hle i.isLt)
    obtain ⟨e, he, -⟩ := literall_of_not_nulAfter hnul hafter
    rw [he] at h
    cases h

def NulAt (wordBuffer : WordBuffer) (n : Nat) : Prop :=
  ∃ h : n < defaultLiteralSize, wordBuffer ⟨n, h⟩ = '\x00'

theorem literall_eq_self_iff {wordBuffer : WordBuffer} {run : List Char}
    (hnul : ∀ c ∈ run, c ≠ '\x00') :
    literall wordBuffer run = .ok run ↔ NulAt wordBuffer run.length := by
  constructor
  · intro h
    by_cases hafter : NulAfter wordBuffer run.length
    · obtain ⟨i, hle, -⟩ := id hafter
      have hlen : run.length < defaultLiteralSize := Nat.lt_of_le_of_lt hle i.isLt
      rw [literall_of_nulAfter hnul hafter] at h
      have hnil : leftover wordBuffer run.length = [] := by simpa using Except.ok.inj h
      exact ⟨hlen, (leftover_eq_nil_iff wordBuffer hlen).mp hnil⟩
    · obtain ⟨e, he, -⟩ := literall_of_not_nulAfter hnul hafter
      rw [he] at h
      cases h
  · rintro ⟨hlen, hi⟩
    have hafter : NulAfter wordBuffer run.length := ⟨_, Nat.le_refl _, hi⟩
    rw [literall_of_nulAfter hnul hafter, (leftover_eq_nil_iff wordBuffer hlen).mpr hi,
      List.append_nil]

end WordBuffer

theorem nextSymbol_append (before : List Char) (c : Char) (rest : List Char) :
    nextSymbol (before ++ c :: rest) before.length = .ok (rest.headD '\x00') := by
  have hlen : (before ++ c :: rest).length = before.length + 1 + rest.length := by
    simp
    omega
  rw [nextSymbol, if_neg (by omega), readChar]
  cases rest with
  | nil => simp
  | cons d rest => simp

section Run

variable {isPart : Char → Bool} {rest : List Char}

theorem readRun_step (buffer : List Char) (bp : Nat) (wordBuffer : WordBuffer) (c : Char)
    {done : List Char} {room : Nat} (h : done.length + (room + 1) = defaultLiteralSize) :
    readRun isPart buffer bp (room + 1) (wordBuffer.fill done) c = (do
      let d ← nextSymbol buffer (bp + done.length)
      if isPart d then readRun isPart buffer bp room (wordBuffer.fill (done ++ [c])) d
      else return (← copyLiterall (wordBuffer.fill (done ++ [c])), bp + (done.length + 1))) := by
  have hindex : defaultLiteralSize - (room + 1) = done.length := by omega
  have hupdate (hlt : done.length < defaultLiteralSize) :
      Function.update (wordBuffer.fill done) ⟨done.length, hlt⟩ c = wordBuffer.fill (done ++ [c]) :=
    WordBuffer.update_fill done wordBuffer c rfl
  simp only [readRun, hindex, hupdate]

theorem readRun_loop (wordBuffer : WordBuffer) (before : List Char)
    (hrest : isPart (rest.headD '\x00') = false) (todo : List Char) (done : List Char) (c : Char)
    {room : Nat} (hpart : ∀ d ∈ todo, isPart d = true)
    (hroom : done.length + (room + 1) = defaultLiteralSize) :
    readRun isPart (before ++ (done ++ c :: todo) ++ rest) before.length (room + 1)
        (wordBuffer.fill done) c =
      if todo.length ≤ room then do
        let literall ← copyLiterall (wordBuffer.fill (done ++ c :: todo))
        return (literall, before.length + (done ++ c :: todo).length)
      else .error .literalOverflow := by
  induction todo generalizing done c room with
  | nil =>
    have hnext : nextSymbol (before ++ (done ++ [c]) ++ rest) (before.length + done.length) =
        .ok (rest.headD '\x00') := by
      have hsplit : before ++ (done ++ [c]) ++ rest = (before ++ done) ++ c :: rest := by simp
      rw [← List.length_append, hsplit]
      exact nextSymbol_append _ _ _
    have hfits : ([] : List Char).length ≤ room := Nat.zero_le room
    rw [readRun_step _ _ _ _ hroom, hnext, if_pos hfits]
    change (if isPart (rest.headD '\x00') = true then _ else _) = _
    rw [if_neg (Bool.eq_false_iff.mp hrest), List.length_append]
    rfl
  | cons d todo ih =>
    have hnext : nextSymbol (before ++ (done ++ c :: d :: todo) ++ rest)
        (before.length + done.length) = .ok d := by
      have hsplit : before ++ (done ++ c :: d :: todo) ++ rest =
          (before ++ done) ++ c :: (d :: todo ++ rest) := by simp
      rw [← List.length_append, hsplit]
      exact nextSymbol_append _ _ _
    have hd : isPart d = true := hpart d List.mem_cons_self
    have hshift : done ++ c :: d :: todo = (done ++ [c]) ++ d :: todo := by simp
    rw [readRun_step _ _ _ _ hroom, hnext]
    change (if isPart d = true then _ else _) = _
    rw [if_pos hd]
    cases room with
    | zero => rfl
    | succ room =>
      have hroom' : (done ++ [c]).length + (room + 1) = defaultLiteralSize := by
        rw [List.length_append, List.length_singleton]
        omega
      have hloop := ih (done ++ [c]) d (fun e he => hpart e (List.mem_cons_of_mem d he)) hroom'
      rw [hshift, hloop]
      simp only [List.length_cons, Nat.add_le_add_iff_right]

theorem readRun_eq (wordBuffer : WordBuffer) (before cs : List Char) (c : Char)
    (hrest : isPart (rest.headD '\x00') = false) (hpart : ∀ d ∈ cs, isPart d = true) :
    readRun isPart (before ++ c :: cs ++ rest) before.length defaultLiteralSize wordBuffer c = (do
      let literall ← wordBuffer.literall (c :: cs)
      return (literall, before.length + (c :: cs).length)) := by
  have hroom : ([] : List Char).length + (defaultLiteralSize - 1 + 1) = defaultLiteralSize := rfl
  have hloop := readRun_loop wordBuffer before hrest cs [] c hpart hroom
  have hfits : (c :: cs).length ≤ defaultLiteralSize ↔ cs.length ≤ defaultLiteralSize - 1 :=
    Nat.add_le_add_iff_right
  rw [WordBuffer.fill_nil, List.nil_append] at hloop
  rw [WordBuffer.literall]
  simp only [hfits]
  refine hloop.trans ?_
  split
  · rfl
  · rfl

end Run

theorem isNumber_iff {c : Char} : isNumber c = true ↔ 48 ≤ c.toNat ∧ c.toNat ≤ 57 := by
  simp [isNumber, Char.le_def, UInt32.le_iff_toNat_le]

theorem isCharacter_iff {c : Char} : isCharacter c = true ↔
    (65 ≤ c.toNat ∧ c.toNat ≤ 90) ∨ (97 ≤ c.toNat ∧ c.toNat ≤ 122) := by
  simp [isCharacter, Char.le_def, UInt32.le_iff_toNat_le]

theorem isSpace_iff {c : Char} : isSpace c = true ↔ c.toNat = 32 ∨ c.toNat = 9 := by
  simp [isSpace, ← Char.toNat_inj]

theorem isSpace_of_number {c : Char} (h : isNumber c = true) : isSpace c = false := by
  rw [isNumber_iff] at h
  rw [Bool.eq_false_iff, Ne, isSpace_iff]
  omega

theorem isSpace_of_character {c : Char} (h : isCharacter c = true) : isSpace c = false := by
  rw [isCharacter_iff] at h
  rw [Bool.eq_false_iff, Ne, isSpace_iff]
  omega

theorem isNumber_of_character {c : Char} (h : isCharacter c = true) : isNumber c = false := by
  rw [isCharacter_iff] at h
  rw [Bool.eq_false_iff, Ne, isNumber_iff]
  omega

theorem isNumber_ne_nul {c : Char} (h : isNumber c = true) : c ≠ '\x00' := by
  rintro rfl
  cases h

theorem isCharacter_ne_nul {c : Char} (h : isCharacter c = true) : c ≠ '\x00' := by
  rintro rfl
  cases h

section Next

variable (before rest : List Char) (c : Char)

theorem readChar_append : readChar (before ++ c :: rest) before.length = .ok c := by
  simp [readChar]

theorem tokenNext_end (wordBuffer : WordBuffer) (buffer : List Char) :
    tokenNext wordBuffer buffer buffer.length = .ok (⟨none, .eob⟩, buffer.length) := by
  simp [tokenNext]

theorem tokenNext_of_read (wordBuffer : WordBuffer) :
    tokenNext wordBuffer (before ++ c :: rest) before.length =
      if isSpace c then .ok (⟨none, .space⟩, before.length + 1)
      else if isNumber c then do
        let (literall, bp) ←
          readRun isNumber (before ++ c :: rest) before.length defaultLiteralSize wordBuffer c
        return (⟨some literall, .wordLiterallNumber⟩, bp)
      else if isCharacter c then do
        let (literall, bp) ← readRun (fun c => isNumber c || isCharacter c) (before ++ c :: rest)
          before.length defaultLiteralSize wordBuffer c
        return (⟨some literall, .word⟩, bp)
      else do
        let type ← symbolType (before ++ c :: rest) before.length c
        return (⟨none, type⟩, before.length + type.width) := by
  have hlt : ¬ (before ++ c :: rest).length ≤ before.length := by simp
  rw [tokenNext, if_neg hlt, readChar_append]
  rfl

theorem tokenNext_space (wordBuffer : WordBuffer) (h : isSpace c = true) :
    tokenNext wordBuffer (before ++ c :: rest) before.length =
      .ok (⟨none, .space⟩, before.length + 1) := by
  rw [tokenNext_of_read, if_pos h]

theorem tokenNext_numberRun (wordBuffer : WordBuffer) {cs : List Char}
    (hcs : ∀ d ∈ c :: cs, isNumber d = true) (hrest : isNumber (rest.headD '\x00') = false) :
    tokenNext wordBuffer (before ++ c :: cs ++ rest) before.length = (do
      let literall ← wordBuffer.literall (c :: cs)
      return (⟨some literall, .wordLiterallNumber⟩, before.length + (c :: cs).length)) := by
  have hc : isNumber c = true := hcs c List.mem_cons_self
  have hspace : ¬ isSpace c = true := Bool.eq_false_iff.mp (isSpace_of_number hc)
  have hrun := readRun_eq wordBuffer before cs c hrest
    (fun d hd => hcs d (List.mem_cons_of_mem c hd))
  have hsplit : before ++ c :: cs ++ rest = before ++ c :: (cs ++ rest) := by simp
  rw [hsplit] at hrun ⊢
  rw [tokenNext_of_read, if_neg hspace, if_pos hc, hrun]
  cases wordBuffer.literall (c :: cs) with
  | ok literall => rfl
  | error e => rfl

theorem tokenNext_wordRun (wordBuffer : WordBuffer) {cs : List Char} (hc : isCharacter c = true)
    (hcs : ∀ d ∈ cs, (isNumber d || isCharacter d) = true)
    (hrest : (isNumber (rest.headD '\x00') || isCharacter (rest.headD '\x00')) = false) :
    tokenNext wordBuffer (before ++ c :: cs ++ rest) before.length = (do
      let literall ← wordBuffer.literall (c :: cs)
      return (⟨some literall, .word⟩, before.length + (c :: cs).length)) := by
  have hnumber : ¬ isNumber c = true := Bool.eq_false_iff.mp (isNumber_of_character hc)
  have hspace : ¬ isSpace c = true := Bool.eq_false_iff.mp (isSpace_of_character hc)
  have hrun : readRun (fun c => isNumber c || isCharacter c) (before ++ c :: cs ++ rest)
      before.length defaultLiteralSize wordBuffer c = _ :=
    readRun_eq wordBuffer before cs c hrest hcs
  have hsplit : before ++ c :: cs ++ rest = before ++ c :: (cs ++ rest) := by simp
  rw [hsplit] at hrun ⊢
  rw [tokenNext_of_read, if_neg hspace, if_neg hnumber, if_pos hc, hrun]
  cases wordBuffer.literall (c :: cs) with
  | ok literall => rfl
  | error e => rfl

theorem number_ne_nul {run : List Char} (h : ∀ d ∈ run, isNumber d = true) :
    ∀ d ∈ run, d ≠ '\x00' :=
  fun d hd => isNumber_ne_nul (h d hd)

theorem word_ne_nul {run : List Char} (h : ∀ d ∈ run, (isNumber d || isCharacter d) = true) :
    ∀ d ∈ run, d ≠ '\x00' := by
  intro d hd
  rcases Bool.or_eq_true_iff.mp (h d hd) with h | h
  · exact isNumber_ne_nul h
  · exact isCharacter_ne_nul h

theorem tokenNext_number {cs : List Char} (hcs : ∀ d ∈ c :: cs, isNumber d = true)
    (hrest : isNumber (rest.headD '\x00') = false) (hlen : (c :: cs).length < defaultLiteralSize) :
    tokenNext .zero (before ++ c :: cs ++ rest) before.length =
      .ok (⟨some (c :: cs), .wordLiterallNumber⟩, before.length + (c :: cs).length) := by
  rw [tokenNext_numberRun before rest c .zero hcs hrest,
    WordBuffer.literall_zero (number_ne_nul hcs) hlen]
  rfl

theorem tokenNext_word {cs : List Char} (hc : isCharacter c = true)
    (hcs : ∀ d ∈ cs, (isNumber d || isCharacter d) = true)
    (hrest : (isNumber (rest.headD '\x00') || isCharacter (rest.headD '\x00')) = false)
    (hlen : (c :: cs).length < defaultLiteralSize) :
    tokenNext .zero (before ++ c :: cs ++ rest) before.length =
      .ok (⟨some (c :: cs), .word⟩, before.length + (c :: cs).length) := by
  have hpart : ∀ d ∈ c :: cs, (isNumber d || isCharacter d) = true :=
    List.forall_mem_cons.mpr ⟨by rw [hc, Bool.or_true], hcs⟩
  rw [tokenNext_wordRun before rest c .zero hc hcs hrest,
    WordBuffer.literall_zero (word_ne_nul hpart) hlen]
  rfl

theorem tokenNext_symbol (wordBuffer : WordBuffer) {type : TokenType} (hspace : isSpace c = false)
    (hnumber : isNumber c = false) (hcharacter : isCharacter c = false)
    (h : symbolType (before ++ c :: rest) before.length c = .ok type) :
    tokenNext wordBuffer (before ++ c :: rest) before.length =
      .ok (⟨none, type⟩, before.length + type.width) := by
  rw [tokenNext_of_read, if_neg (Bool.eq_false_iff.mp hspace),
    if_neg (Bool.eq_false_iff.mp hnumber), if_neg (Bool.eq_false_iff.mp hcharacter), h]
  rfl

end Next

def zeroJunk : Nat → WordBuffer := fun _ => .zero

def Scanned (before rest : List Char) (list : List Token) : Prop :=
  (tokenLoop zeroJunk (before ++ rest)).Reaches ⟨0, [], false⟩ ⟨before.length, list, false⟩

namespace Scanned

variable {before rest cs : List Char} {c : Char} {list : List Token}

theorem start (rest : List Char) : Scanned [] rest [] := Loop.Reaches.refl _ _

theorem next (chars : List Char) {t : Token} (h : Scanned before (chars ++ rest) list)
    (ht : tokenNext .zero (before ++ chars ++ rest) before.length =
      .ok (t, before.length + chars.length))
    (heob : t.type ≠ .eob) (hspace : t.type ≠ .space) (hroom : list.length < tokensBlockSize) :
    Scanned (before ++ chars) rest (list ++ [t]) := by
  unfold Scanned at h ⊢
  rw [← List.append_assoc] at h
  refine h.step rfl ?_
  rw [List.length_append]
  simp only [tokenLoop, zeroJunk, ht]
  change (if t.type = .eob then _ else _) = _
  rw [if_neg heob, if_neg hspace, if_pos hroom]
  rfl

theorem space (h : Scanned before (c :: rest) list) (hc : isSpace c = true) :
    Scanned (before ++ [c]) rest list := by
  unfold Scanned at h ⊢
  have hsplit : before ++ [c] ++ rest = before ++ c :: rest := by simp
  rw [hsplit]
  refine h.step rfl ?_
  rw [List.length_append]
  simp only [tokenLoop, zeroJunk, tokenNext_space before rest c _ hc]
  rfl

theorem word (h : Scanned before (c :: cs ++ rest) list) (hc : isCharacter c = true)
    (hcs : ∀ d ∈ cs, (isNumber d || isCharacter d) = true)
    (hrest : (isNumber (rest.headD '\x00') || isCharacter (rest.headD '\x00')) = false)
    (hlen : (c :: cs).length < defaultLiteralSize) (hroom : list.length < tokensBlockSize) :
    Scanned (before ++ c :: cs) rest (list ++ [⟨some (c :: cs), .word⟩]) :=
  h.next _ (tokenNext_word before rest c hc hcs hrest hlen) nofun nofun hroom

theorem number (h : Scanned before (c :: cs ++ rest) list)
    (hcs : ∀ d ∈ c :: cs, isNumber d = true)
    (hrest : isNumber (rest.headD '\x00') = false)
    (hlen : (c :: cs).length < defaultLiteralSize) (hroom : list.length < tokensBlockSize) :
    Scanned (before ++ c :: cs) rest (list ++ [⟨some (c :: cs), .wordLiterallNumber⟩]) :=
  h.next _ (tokenNext_number before rest c hcs hrest hlen) nofun nofun hroom

theorem finish (h : Scanned before [] list) : Tokenizes zeroJunk before list := by
  unfold Scanned at h
  rw [List.append_nil] at h
  refine ⟨⟨before.length, list, true⟩, ?_, rfl⟩
  refine (h.step rfl ?_).finishes rfl
  simp only [tokenLoop, tokenNext_end]
  rfl

end Scanned

end CAt
