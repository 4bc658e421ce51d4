import CAt.Assembler.Printing
import CAt.Assembler.SourceComments
import CAt.Language.Assembly

namespace CAt

namespace Language

open SourceComments (sourceTokens_newline sourceTokens_hash lineEnd hash)

structure Row where
  items : List PrintedItem
  trailing : List Char
  comment : Option (List Char)
  separated : ∀ i ∈ items.tail, i.gap ≠ []
  blank : ∀ c ∈ trailing, isSpace c = true
  plain : ∀ i ∈ items, i.spelling.type ≠ .symbolExpressionEnd ∧ i.spelling.type ≠ .symbolHash
  oneLine : ∀ text ∈ comment, ∀ c ∈ text, isLineEndChar c = false

namespace Row

def tokens (row : Row) : List Token := row.items.map fun i => i.spelling.token

def text (row : Row) : List Char :=
  Printing.render row.items row.trailing ++ row.comment.elim [] ('#' :: ·)

end Row

def pageText (rows : List Row) : List Char := rows.flatMap fun row => row.text ++ ['\n']

-- The rows hold the lines of the source in order; the others are blank or hold comments only.
def LaysOut (rows : List Row) (p : Source) : Prop :=
  (rows.map Row.tokens).filter (fun l => !l.isEmpty) = p.lines.map Line.tokens

section Tokens

theorem sourceTokens_render {items : List PrintedItem} {trailing : List Char}
    (separated : ∀ i ∈ items.tail, i.gap ≠ []) (blank : ∀ c ∈ trailing, isSpace c = true) :
    sourceTokens (Printing.render items trailing) = items.map fun i => i.spelling.token := by
  have hkept : (Printing.printed items trailing).filter (fun l => !l.isSpace) =
      items.map PrintedItem.spelling := Printing.filter_printed items trailing
  rw [sourceTokens, Printing.lexemes_render blank items separated, hkept, List.map_map]
  rfl

theorem operatorType_not_end {c : Char} (h : isLineEndChar c = false) (next : Char) :
    operatorType c next ≠ .symbolExpressionEnd := by
  obtain ⟨hnewline, hsemicolon⟩ : c ≠ '\n' ∧ c ≠ ';' := by
    simpa [isLineEndChar] using h
  fun_cases operatorType c next <;> simp_all

theorem firstLexeme_not_end {c : Char} (h : isLineEndChar c = false) (cs : List Char) :
    (firstLexeme c cs).type ≠ .symbolExpressionEnd := by
  rcases char_cases c with hc | hc | hc | ⟨hspace, hnumber, hcharacter⟩
  · simp [firstLexeme_space cs hc]
  · simp [firstLexeme_number cs hc]
  · simp [firstLexeme_word cs hc]
  · rw [firstLexeme_symbol cs hspace hnumber hcharacter]
    exact operatorType_not_end h _

theorem lexemes_oneLine {text : List Char} (h : ∀ c ∈ text, isLineEndChar c = false) :
    ∀ l ∈ lexemes text, l.type ≠ .symbolExpressionEnd := by
  induction text using lexemes.induct with
  | case1 => simp [lexemes_nil]
  | case2 c cs ih =>
    rw [lexemes_cons]
    refine List.forall_mem_cons.mpr ⟨firstLexeme_not_end (h c List.mem_cons_self) cs, ?_⟩
    exact ih fun d hd => h d (List.mem_of_mem_drop hd)

theorem sourceTokens_oneLine {text : List Char} (h : ∀ c ∈ text, isLineEndChar c = false) :
    ∀ t ∈ sourceTokens text, isLineEnd t = false := by
  intro t ht
  obtain ⟨l, hl, rfl⟩ := List.mem_map.mp ht
  exact beq_eq_false_iff_ne.mpr (lexemes_oneLine h l (List.mem_of_mem_filter hl))

namespace Row

variable (row : Row)

theorem sourceTokens_text : sourceTokens row.text =
    row.tokens ++ row.comment.elim [] (hash :: sourceTokens ·) := by
  have hrender : sourceTokens (Printing.render row.items row.trailing) = row.tokens :=
    sourceTokens_render row.separated row.blank
  rw [text]
  cases row.comment with
  | none => rw [Option.elim_none, Option.elim_none, List.append_nil, List.append_nil, hrender]
  | some comment => rw [Option.elim_some, Option.elim_some, sourceTokens_hash, hrender]

theorem inside : ∀ t ∈ sourceTokens row.text, isLineEnd t = false := by
  rw [sourceTokens_text]
  intro t ht
  rcases List.mem_append.mp ht with ht | ht
  · obtain ⟨i, hi, rfl⟩ := List.mem_map.mp ht
    exact beq_eq_false_iff_ne.mpr (row.plain i hi).1
  · have honeLine := row.oneLine
    revert ht honeLine
    cases row.comment with
    | none => nofun
    | some comment =>
      intro ht honeLine
      rcases List.mem_cons.mp ht with rfl | ht
      · rfl
      · exact sourceTokens_oneLine (honeLine comment rfl) t ht

theorem stripComment_text : stripComment (sourceTokens row.text) = row.tokens := by
  have hplain : ∀ t ∈ row.tokens, (t.type != .symbolHash) = true := by
    intro t ht
    obtain ⟨i, hi, rfl⟩ := List.mem_map.mp ht
    exact bne_iff_ne.mpr (row.plain i hi).2
  rw [sourceTokens_text, stripComment, List.takeWhile_append_of_pos hplain]
  cases row.comment with
  | none => exact List.append_nil _
  | some comment => exact List.append_nil _

end Row

theorem spells_rows (rows : List Row) :
    items (sourceTokens (pageText rows)) =
        (rows.map Row.tokens).filter (fun l => !l.isEmpty) ∧
      lastLine (sourceTokens (pageText rows)) = [] := by
  induction rows with
  | nil =>
    have hempty : sourceTokens (pageText []) = [] := by
      rw [pageText, List.flatMap_nil, sourceTokens, lexemes_nil]
      rfl
    rw [hempty]
    exact ⟨rfl, rfl⟩
  | cons row rows ih =>
    have hsplit : pageText (row :: rows) = row.text ++ '\n' :: pageText rows := by
      simp [pageText]
    obtain ⟨hitems, hlast⟩ := ih
    rw [hsplit, sourceTokens_newline, items_append row.inside rfl, lastLine_append row.inside rfl,
      row.stripComment_text, hitems, List.map_cons, List.filter_cons]
    refine ⟨?_, hlast⟩
    cases row.tokens with
    | nil => rfl
    | cons t ts => rfl

theorem layout_spells {rows : List Row} {p : Source} (h : LaysOut rows p) :
    Spells (sourceTokens (pageText rows)) p :=
  ⟨(spells_rows rows).1.trans h, (spells_rows rows).2⟩

end Tokens

section Canonical

theorem spelling_of_digits {n : Nat} (h : n < 10000) :
    IsSpelling ⟨Nat.toDigits 10 n, .wordLiterallNumber⟩ := by
  have hdigits : ∀ c ∈ Nat.toDigits 10 n, isNumber c = true :=
    fun c hc => isNumber_of_mem_toDigits hc
  have hlen : (Nat.toDigits 10 n).length ≤ 4 := (length_toDigits_le (by decide)).mpr h
  cases htext : Nat.toDigits 10 n with
  | nil => exact absurd htext Nat.toDigits_ne_nil
  | cons c cs =>
    rw [htext] at hdigits hlen
    obtain ⟨hc, hcs⟩ := List.forall_mem_cons.mp hdigits
    exact .number hc hcs (Nat.le_trans hlen (by decide))

theorem spelling_register (x : Fin intRegCount) : IsSpelling ⟨registerText x.val, .word⟩ := by
  have hlen : (Nat.toDigits 10 x.val).length ≤ 2 :=
    (length_toDigits_le (by decide)).mpr (Nat.lt_trans x.isLt (by decide))
  refine .word rfl (fun d hd => isAlphanumeric_iff.mpr (.inl (isNumber_of_mem_toDigits hd))) ?_
  rw [List.length_cons]
  omega

theorem spelling_name (name : LabelName) : IsSpelling ⟨name.text, .word⟩ := by
  have := name.short
  refine .word name.letter name.alphanumeric ?_
  rw [List.length_cons]
  omega

theorem spelling_reference (name : LabelName) : IsSpelling ⟨name.reference, .word⟩ := by
  have hletter : isAlphanumeric name.first = true := isAlphanumeric_iff.mpr (.inr name.letter)
  have hlen := name.length_reference
  refine .word rfl (List.forall_mem_cons.mpr ⟨hletter, name.alphanumeric⟩) ?_
  exact Nat.le_trans hlen (by decide)

def Argument.spelling : Argument → Lexeme
  | register x => ⟨registerText x.val, .word⟩
  | number v => ⟨Nat.toDigits 10 v.val, .wordLiterallNumber⟩
  | label name => ⟨name.reference, .word⟩

def Line.spellings : Line → List Lexeme
  | label name => [⟨name.text, .word⟩, ⟨[':'], .symbolColon⟩]
  | statement s => ⟨mnemonic s.op, .word⟩ :: s.arguments.map Argument.spelling

theorem Argument.isSpelling (a : Argument) : IsSpelling a.spelling := by
  cases a with
  | register x => exact spelling_register x
  | number v => exact spelling_of_digits v.isLt
  | label name => exact spelling_reference name

theorem Statement.op_assemblable (s : Statement) : s.op ∉ unassemblable := by
  cases s with
  | registers mn =>
    change mn.op ∉ unassemblable
    rcases mn with c | _ | _ | _
    · change c.op ∉ unassemblable
      cases c <;> decide
    all_goals decide
  | computeFloats op | compareFloats op | cast op =>
    change op.op ∉ unassemblable
    cases op <;> decide
  | branch equal =>
    change (if equal then Inst.iEjmp else .iNejmp) ∉ unassemblable
    cases equal <;> decide
  | _ => exact of_decide_eq_true rfl

theorem Line.isSpelling (l : Line) : ∀ spelling ∈ l.spellings, IsSpelling spelling := by
  cases l with
  | label name =>
    refine List.forall_mem_cons.mpr ⟨spelling_name name, List.forall_mem_singleton.mpr ?_⟩
    exact .operator (by simp [operators])
  | statement s =>
    obtain ⟨c, cs, htext, hc, hcs, hlen⟩ := Completeness.mnemonic_word s.op_assemblable
    refine List.forall_mem_cons.mpr ⟨?_, ?_⟩
    · rw [htext]
      exact .word hc hcs (Nat.le_of_lt_succ hlen)
    · intro spelling hspelling
      obtain ⟨a, -, rfl⟩ := List.mem_map.mp hspelling
      exact a.isSpelling

theorem Line.plain (l : Line) : ∀ spelling ∈ l.spellings,
    spelling.type ≠ .symbolExpressionEnd ∧ spelling.type ≠ .symbolHash := by
  have hargument (a : Argument) :
      a.spelling.type ≠ .symbolExpressionEnd ∧ a.spelling.type ≠ .symbolHash := by
    cases a <;> exact ⟨nofun, nofun⟩
  intro spelling hspelling
  cases l with
  | label name =>
    rcases List.mem_cons.mp hspelling with rfl | hspelling
    · exact ⟨nofun, nofun⟩
    · rw [List.mem_singleton.mp hspelling]
      exact ⟨nofun, nofun⟩
  | statement s =>
    rcases List.mem_cons.mp hspelling with rfl | hspelling
    · exact ⟨nofun, nofun⟩
    · obtain ⟨a, -, rfl⟩ := List.mem_map.mp hspelling
      exact hargument a

theorem Line.tokens_spellings (l : Line) : l.spellings.map Lexeme.token = l.tokens := by
  cases l with
  | label name => rfl
  | statement s =>
    rw [spellings, List.map_cons, List.map_map, Line.tokens, Statement.tokens]
    congr 1
    apply List.map_congr_left
    intro a _
    cases a <;> rfl

theorem blank_nil : ∀ c ∈ ([] : List Char), isSpace c = true :=
  fun _ hc => absurd hc List.not_mem_nil

def Line.row (l : Line) : Row where
  items := l.spellings.attach.map fun spelling =>
    ⟨[' '], spelling.val, List.forall_mem_singleton.mpr rfl, l.isSpelling _ spelling.property⟩
  trailing := []
  comment := none
  separated := by
    intro i hi
    obtain ⟨spelling, -, rfl⟩ := List.mem_map.mp (List.mem_of_mem_tail hi)
    exact List.cons_ne_nil _ _
  blank := blank_nil
  plain := by
    intro i hi
    obtain ⟨spelling, -, rfl⟩ := List.mem_map.mp hi
    exact l.plain _ spelling.property
  oneLine := nofun

theorem Line.tokens_row (l : Line) : l.row.tokens = l.tokens := by
  rw [← l.tokens_spellings, Row.tokens, row, List.map_map]
  change l.spellings.attach.map (fun spelling => Lexeme.token spelling.val) = _
  exact List.attach_map_val

theorem laysOut_rows (p : Source) : LaysOut (p.lines.map Line.row) p := by
  have htokens : (p.lines.map Line.row).map Row.tokens = p.lines.map Line.tokens := by
    rw [List.map_map]
    exact List.map_congr_left fun l _ => l.tokens_row
  rw [LaysOut, htokens, List.filter_eq_self]
  intro tokens hmem
  obtain ⟨l, -, rfl⟩ := List.mem_map.mp hmem
  simpa using l.tokens_ne_nil

end Canonical

section Assemble

variable {host : Host} {junk : Junk} {rows : List Row} {p : Source}

theorem assembled_layout (h : LaysOut rows p) (hquiet : Quiet junk p) :
    (do
      let labels ← indexLabels (sourceTokens (pageText rows))
      assembleProgram host junk (sourceTokens (pageText rows)) labels) = .ok (p.code host) := by
  have hspells := layout_spells h
  rw [indexLabels_spelled hspells]
  exact assembleProgram_spelled hspells hquiet

-- set r0 20, call Lf, ret r0, f: inc r0, ret r0
def addOne : Source where
  lines :=
    let f : LabelName := .ofLetter 'f' rfl
    [.statement (.set reg0 ⟨20, by decide⟩), .statement (.call (.label f)),
      .statement (.registers .ret fun _ => reg0), .label f,
      .statement (.registers (.compute .inc) fun _ => reg0),
      .statement (.registers .ret fun _ => reg0)]
  apart := rfl
  statementsFit := by decide
  labelsFit := by decide
  defined := by decide

theorem assembled_layout_addOne :
    let ts := sourceTokens (" # entry\n".toList ++ pageText (addOne.lines.map Line.row))
    (do assembleProgram Host.integer (fun _ _ => .zero) ts (← indexLabels ts)) =
      .ok (addOne.code Host.integer) := by
  let entry : Row :=
    ⟨[], [' '], some " entry".toList, nofun, by simp [isSpace], nofun, by simp [isLineEndChar]⟩
  have hlayout : LaysOut (entry :: addOne.lines.map Line.row) addOne := laysOut_rows addOne
  have hquiet : Quiet (fun _ _ => .zero) addOne := fun _ _ _ => rfl
  exact assembled_layout hlayout hquiet

end Assemble

end Language

end CAt
