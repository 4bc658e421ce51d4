import CAt.Language.Layout
import CAt.Toolchain.Assembling

namespace CAt

open CAt.Language (Source Line Row Quiet addOne pageText laysOut_rows layout_spells)
open TokenLists (keptLexemes)

namespace Language

namespace Source

def page (p : Source) : List Char := pageText (p.lines.map Line.row)

end Source

end Language

namespace Toolchain

def textBytes (text : List Char) : List Byte := text.map fun c => BitVec.ofNat 8 c.toNat

-- A character that fgetc hands on as it is: neither NUL nor, read as a char, EOF.
def PlainChar (c : Char) : Prop := 0 < c.toNat ∧ c.toNat < 255

section Bytes

theorem byteChar_plain {c : Char} (h : PlainChar c) :
    byteChar (UInt8.ofBitVec (BitVec.ofNat 8 c.toNat)) = c := by
  have hvalue : (UInt8.ofBitVec (BitVec.ofNat 8 c.toNat)).toNat = c.toNat := by
    change (BitVec.ofNat 8 c.toNat).toNat = c.toNat
    rw [BitVec.toNat_ofNat]
    exact Nat.mod_eq_of_lt (Nat.lt_succ_of_lt h.2)
  rw [byteChar, hvalue, Char.ofNat_toNat]

theorem byte_plain {c : Char} (h : PlainChar c) :
    UInt8.ofBitVec (BitVec.ofNat 8 c.toNat) ≠ 0 ∧
      UInt8.ofBitVec (BitVec.ofNat 8 c.toNat) ≠ eofByte := by
  have hback := congrArg Char.toNat (byteChar_plain h)
  obtain ⟨hpos, hlt⟩ := h
  constructor
  · intro hzero
    rw [hzero] at hback
    change 0 = c.toNat at hback
    omega
  · intro heof
    rw [heof] at hback
    change 255 = c.toNat at hback
    omega

variable {text : List Char}

theorem chars_textBytes (h : ∀ c ∈ text, PlainChar c) :
    ReadSource.chars (fileBytes (textBytes text)) = fileBytes (textBytes text) := by
  apply List.takeWhile_eq_self_iff.mpr
  intro b hb
  simp only [fileBytes, textBytes, List.map_map, List.mem_map] at hb
  obtain ⟨c, hc, rfl⟩ := hb
  exact bne_iff_ne.mpr (byte_plain (h c hc)).2

theorem length_textBytes (h : ∀ c ∈ text, PlainChar c) :
    (ReadSource.chars (fileBytes (textBytes text))).length = text.length := by
  rw [chars_textBytes h, fileBytes, textBytes, List.length_map, List.length_map]

theorem sourceText_textBytes (h : ∀ c ∈ text, PlainChar c) :
    ReadSource.sourceText (fileBytes (textBytes text)) = text := by
  rw [ReadSource.sourceText, chars_textBytes h, ReadSource.stringOf]
  induction text with
  | nil => rfl
  | cons c text ih =>
    obtain ⟨hc, htext⟩ := List.forall_mem_cons.mp h
    have hkept : (UInt8.ofBitVec (BitVec.ofNat 8 c.toNat) != 0) = true :=
      bne_iff_ne.mpr (byte_plain hc).1
    change (List.filter _
      (UInt8.ofBitVec (BitVec.ofNat 8 c.toNat) :: fileBytes (textBytes text))).map byteChar = _
    rw [List.filter_cons, if_pos hkept, List.map_cons, byteChar_plain hc, ih htext]

end Bytes

section Page

theorem plain_of_alphanumeric {c : Char} (h : isAlphanumeric c = true) : PlainChar c := by
  rcases isAlphanumeric_iff.mp h with hnumber | hcharacter
  · obtain ⟨hlow, hhigh⟩ := isNumber_iff.mp hnumber
    exact ⟨by omega, by omega⟩
  · rcases isCharacter_iff.mp hcharacter with ⟨hlow, hhigh⟩ | ⟨hlow, hhigh⟩ <;>
      exact ⟨by omega, by omega⟩

theorem plain_spelling {l : Lexeme} (h : IsSpelling l) : ∀ c ∈ l.text, PlainChar c := by
  cases h with
  | word first rest =>
    refine List.forall_mem_cons.mpr
      ⟨plain_of_alphanumeric (isAlphanumeric_iff.mpr (.inr first)), ?_⟩
    exact fun c hc => plain_of_alphanumeric (rest c hc)
  | number first rest =>
    refine List.forall_mem_cons.mpr
      ⟨plain_of_alphanumeric (isAlphanumeric_iff.mpr (.inl first)), ?_⟩
    exact fun c hc => plain_of_alphanumeric (isAlphanumeric_iff.mpr (.inl (rest c hc)))
  | operator h =>
    have hplain : ∀ l ∈ operators, ∀ c ∈ l.text, 0 < c.toNat ∧ c.toNat < 255 := by
      simp [operators]
    exact hplain l h

theorem shortRun_spelling {l : Lexeme} (h : IsSpelling l) : TokenLists.shortRun l := by
  cases h with
  | word first rest short => exact fun _ => Nat.lt_succ_of_le short
  | number first rest short => exact fun _ => Nat.lt_succ_of_le short
  | operator h =>
    have hruns : ∀ l ∈ operators, l.isRun = false := by decide
    intro hrun
    rw [hruns l h] at hrun
    cases hrun

theorem row_text (l : Line) : l.row.text = Printing.render l.row.items [] := by
  rw [Row.text]
  exact List.append_nil _

theorem plain_row (l : Line) : ∀ c ∈ l.row.text, PlainChar c := by
  intro c hc
  rw [row_text, Printing.render, List.append_nil, List.mem_flatMap] at hc
  obtain ⟨i, hi, hc⟩ := hc
  rcases List.mem_append.mp hc with hc | hc
  · have hspace : c = ' ' ∨ c = '\t' := by simpa [isSpace] using i.blank c hc
    rcases hspace with rfl | rfl <;> exact ⟨by decide, by decide⟩
  · exact plain_spelling i.valid c hc

theorem plain_page (p : Source) : ∀ c ∈ p.page, PlainChar c := by
  intro c hc
  rw [Source.page, pageText, List.mem_flatMap] at hc
  obtain ⟨row, hrow, hc⟩ := hc
  obtain ⟨l, -, rfl⟩ := List.mem_map.mp hrow
  rcases List.mem_append.mp hc with hc | hc
  · exact plain_row l c hc
  · rw [List.mem_singleton.mp hc]
    exact ⟨by decide, by decide⟩

theorem lexemes_page (ls : List Line) :
    lexemes (pageText (ls.map Line.row)) =
      ls.flatMap fun l => Printing.printed l.row.items [] ++ [⟨['\n'], .symbolExpressionEnd⟩] := by
  induction ls with
  | nil => exact lexemes_nil
  | cons l ls ih =>
    have hsplit : pageText ((l :: ls).map Line.row) =
        l.row.text ++ '\n' :: pageText (ls.map Line.row) := by simp [pageText]
    have hrow : lexemes l.row.text = Printing.printed l.row.items [] := by
      rw [row_text]
      exact Printing.lexemes_render l.row.blank l.row.items l.row.separated
    rw [hsplit, LineWise.lexemes_newline, ih, hrow, List.flatMap_cons, List.append_assoc]
    rfl

theorem shortRuns_page (p : Source) : ∀ l ∈ lexemes p.page, TokenLists.shortRun l := by
  intro l hl
  rw [Source.page, lexemes_page, List.mem_flatMap] at hl
  obtain ⟨line, -, hl⟩ := hl
  rcases List.mem_append.mp hl with hl | hl
  · rw [Printing.printed, blanks, List.map_nil, List.append_nil, List.mem_flatMap] at hl
    obtain ⟨i, -, hl⟩ := hl
    rcases List.mem_append.mp hl with hl | hl
    · obtain ⟨c, -, rfl⟩ := List.mem_map.mp hl
      exact fun hrun => absurd hrun Bool.false_ne_true
    · rw [List.mem_singleton.mp hl]
      exact shortRun_spelling i.valid
  · rw [List.mem_singleton.mp hl]
    exact fun hrun => absurd hrun Bool.false_ne_true

theorem length_page (ls : List Line) :
    (sourceTokens (pageText (ls.map Line.row))).length ≤
      5 * (Language.statements ls).length + 3 * (Language.definitions ls).length := by
  induction ls with
  | nil =>
    rw [List.map_nil, pageText, List.flatMap_nil, sourceTokens, lexemes_nil]
    exact Nat.zero_le _
  | cons l ls ih =>
    have hsplit : pageText ((l :: ls).map Line.row) =
        l.row.text ++ '\n' :: pageText (ls.map Line.row) := by simp [pageText]
    have htokens : sourceTokens l.row.text = l.tokens := by
      rw [Row.sourceTokens_text, l.tokens_row]
      exact List.append_nil _
    rw [hsplit, SourceComments.sourceTokens_newline, htokens, List.length_append, List.length_cons]
    cases l with
    | label name =>
      rw [Language.definitions, Language.statements, List.length_cons]
      change 2 + _ ≤ _
      omega
    | statement s =>
      have := s.length_arguments
      rw [Language.definitions, Language.statements, List.length_cons, Line.tokens,
        Language.Statement.tokens, List.length_cons, List.length_map]
      omega

theorem wordsExact_zero {ls : List Lexeme} (h : ∀ l ∈ ls, TokenLists.shortRun l) (bp : Nat) :
    WordsExact zeroJunk bp ls := by
  induction ls generalizing bp with
  | nil => trivial
  | cons l ls ih =>
    obtain ⟨hl, hls⟩ := List.forall_mem_cons.mp h
    exact ⟨fun hrun => ⟨hl hrun, rfl⟩, ih hls _⟩

theorem holds_page {p : Source} (hshort : p.page.length < maxSize) {leftovers : Leftovers}
    (hwords : leftovers.words = zeroJunk) (hquiet : Quiet leftovers.regs p) :
    Holds leftovers (textBytes p.page) p := by
  have htext := sourceText_textBytes (plain_page p)
  refine ⟨?_, ?_, ?_, ?_, hquiet⟩
  · rw [htext]
    exact layout_spells (laysOut_rows p)
  · rw [length_textBytes (plain_page p)]
    exact hshort
  · rw [htext, hwords]
    exact wordsExact_zero (shortRuns_page p) 0
  · have hlength := length_page p.lines
    have hstatements := p.statementsFit
    have hlabels := p.labelsFit
    rw [htext]
    simp only [programSize, labelsSize, tokensBlockSize] at hstatements hlabels ⊢
    exact Nat.le_trans hlength (by omega)

theorem assembleSource_page {host : Host} {leftovers : Leftovers} {p : Source}
    (hshort : p.page.length < maxSize) (hwords : leftovers.words = zeroJunk)
    (hquiet : Quiet leftovers.regs p) :
    assembleSource host leftovers (textBytes p.page) = .ok (p.code host) :=
  assembleSource_holds (holds_page hshort hwords hquiet)

theorem assembleSource_page_addOne :
    assembleSource Host.integer ⟨zeroJunk, fun _ _ => .zero, fun _ => 0⟩ (textBytes addOne.page) =
      .ok (addOne.code Host.integer) := by
  have hshort : addOne.page.length < maxSize := by decide
  have hquiet : Quiet (fun _ _ => .zero) addOne := fun _ _ _ => rfl
  exact assembleSource_page hshort rfl hquiet

end Page

end Toolchain

end CAt
