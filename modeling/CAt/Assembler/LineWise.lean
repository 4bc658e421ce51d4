import CAt.Assembler.TokenSpans

namespace CAt

open GuardedLoop

structure Span where
  type : TokenType
  before : Nat
  after : Nat
deriving DecidableEq, Repr

def Span.shift (n : Nat) (s : Span) : Span := ⟨s.type, s.before + n, s.after + n⟩

def Call.span (c : Call) : Span := ⟨c.token.type, c.before, c.after⟩

-- A character that neither continues a run nor makes two characters one operator.
def isBoundary (c : Char) : Bool := c == '\n' || c == '#'

namespace LineWise

section Boundary

variable {d : Char}

theorem boundary_cases (h : isBoundary d = true) : d = '\n' ∨ d = '#' := by
  simpa [isBoundary] using h

theorem boundary_not_number (h : isBoundary d = true) : isNumber d = false := by
  rcases boundary_cases h with rfl | rfl
  · rfl
  · rfl

theorem boundary_not_alphanumeric (h : isBoundary d = true) : isAlphanumeric d = false := by
  rcases boundary_cases h with rfl | rfl
  · rfl
  · rfl

theorem operatorType_boundary (h : isBoundary d = true) (c : Char) :
    operatorType c d = operatorType c '\x00' := by
  rcases boundary_cases h with rfl | rfl
  · rfl
  · rfl

theorem takeWhile_boundary {isPart : Char → Bool} (h : isPart d = false) (cs rest : List Char) :
    (cs ++ d :: rest).takeWhile isPart = cs.takeWhile isPart := by
  induction cs with
  | nil => simp [h]
  | cons c cs ih => cases hc : isPart c <;> simp [hc, ih]

theorem firstLexeme_append (h : isBoundary d = true) (c : Char) (cs rest : List Char) :
    firstLexeme c (cs ++ d :: rest) = firstLexeme c cs := by
  have hoperator : operatorType c ((cs ++ d :: rest).headD '\x00') =
      operatorType c (cs.headD '\x00') := by
    cases cs with
    | nil => exact operatorType_boundary h c
    | cons e cs => rfl
  rcases char_cases c with hc | hc | hc | ⟨hspace, hnumber, hcharacter⟩
  · rw [firstLexeme_space _ hc, firstLexeme_space _ hc]
  · rw [firstLexeme_number _ hc, firstLexeme_number _ hc,
      takeWhile_boundary (boundary_not_number h)]
  · rw [firstLexeme_word _ hc, firstLexeme_word _ hc,
      takeWhile_boundary (boundary_not_alphanumeric h)]
  · rw [firstLexeme_symbol _ hspace hnumber hcharacter,
      firstLexeme_symbol _ hspace hnumber hcharacter, hoperator]
    have hwidth := operatorType_text c cs
    rw [List.length_take] at hwidth
    congr 1
    rw [← List.cons_append]
    exact List.take_append_of_le_length (by omega)

theorem firstLexeme_boundary (h : isBoundary d = true) (rest : List Char) :
    firstLexeme d rest = ⟨[d], operatorType d '\x00'⟩ := by
  rcases boundary_cases h with rfl | rfl
  · rfl
  · rfl

theorem lexemes_boundary (h : isBoundary d = true) (a b : List Char) :
    lexemes (a ++ d :: b) = lexemes a ++ ⟨[d], operatorType d '\x00'⟩ :: lexemes b := by
  induction a using lexemes.induct with
  | case1 => rw [List.nil_append, lexemes_nil, lexemes_cons, firstLexeme_boundary h]; rfl
  | case2 c cs ih =>
    have hle := (firstLexeme_begins c cs).length_le
    rw [List.cons_append, lexemes_cons, firstLexeme_append h, lexemes_cons, ← List.cons_append,
      List.drop_append_of_le_length hle, ih, List.cons_append]

end Boundary

theorem lexemes_newline (a b : List Char) :
    lexemes (a ++ '\n' :: b) = lexemes a ++ ⟨['\n'], .symbolExpressionEnd⟩ :: lexemes b :=
  lexemes_boundary rfl a b

theorem lexemes_hash (a b : List Char) :
    lexemes (a ++ '#' :: b) = lexemes a ++ ⟨['#'], .symbolHash⟩ :: lexemes b :=
  lexemes_boundary rfl a b

def spansFrom : Nat → List Lexeme → List Span
  | _, [] => []
  | bp, l :: ls => ⟨l.type, bp, bp + l.text.length⟩ :: spansFrom (bp + l.text.length) ls

def spans (text : List Char) : List Span := spansFrom 0 (lexemes text)

theorem spansFrom_shift (ls : List Lexeme) (bp n : Nat) :
    spansFrom (bp + n) ls = (spansFrom bp ls).map (Span.shift n) := by
  induction ls generalizing bp with
  | nil => rfl
  | cons l ls ih =>
    have hcomm : bp + n + l.text.length = bp + l.text.length + n := by omega
    rw [spansFrom, spansFrom, List.map_cons, hcomm, ih]
    rfl

theorem spansFrom_append (ls ls' : List Lexeme) (bp : Nat) :
    spansFrom bp (ls ++ ls') =
      spansFrom bp ls ++ spansFrom (bp + (ls.flatMap Lexeme.text).length) ls' := by
  induction ls generalizing bp with
  | nil => rfl
  | cons l ls ih =>
    rw [List.cons_append, spansFrom, spansFrom, ih, List.flatMap_cons, List.length_append,
      Nat.add_assoc, List.cons_append]

theorem spans_newline (a b : List Char) :
    spans (a ++ '\n' :: b) = spans a ++
      ⟨.symbolExpressionEnd, a.length, a.length + 1⟩ :: (spans b).map (Span.shift (a.length + 1)) := by
  rw [spans, lexemes_newline, spansFrom_append, lexemes_flatten, spansFrom, spans, spans,
    ← spansFrom_shift, Nat.zero_add, Nat.zero_add]
  rfl

theorem expectedCalls_spans {junk : Nat → WordBuffer} {ls : List Lexeme} {bp : Nat}
    {calls : List Call} (h : TokenSpans.expectedCalls junk bp ls = .ok calls) :
    calls.map Call.span = spansFrom bp ls := by
  induction ls generalizing bp calls with
  | nil =>
    cases h
    rfl
  | cons l ls ih =>
    obtain ⟨literall, -, hcalls⟩ := Loop.bind_ok h
    obtain ⟨more, hmore, hcons⟩ := Loop.bind_ok hcalls
    cases hcons
    rw [List.map_cons, ih hmore]
    rfl

def Produces (junk : Nat → WordBuffer) (text : List Char) (s : List Span) : Prop :=
  ∃ r, (callLoop junk text).Finishes .start r ∧ r.calls.map Call.span = s

theorem produces_iff {junk : Nat → WordBuffer} {text : List Char} {s : List Span} :
    Produces junk text s ↔ TerminatedRuns junk 0 (lexemes text) ∧ s = spans text := by
  have hspans {r : Reading} (hr : (callLoop junk text).Finishes .start r) :
      r.calls.map Call.span = spans text := by
    obtain ⟨calls, hcalls, h⟩ :=
      Loop.bind_ok ((TokenSpans.reads_buffer junk text).finishes_iff.mp hr)
    cases h
    exact expectedCalls_spans hcalls
  constructor
  · rintro ⟨r, hr, rfl⟩
    exact ⟨(TokenSpans.finishes_iff junk text).mp ⟨r, hr⟩, hspans hr⟩
  · rintro ⟨hruns, rfl⟩
    obtain ⟨r, hr⟩ := (TokenSpans.finishes_iff junk text).mpr hruns
    exact ⟨r, hr, hspans hr⟩

end LineWise

structure ReadableText where
  chars : List Char
  shortRuns : ∀ run, run <:+: chars → (∀ c ∈ run, isAlphanumeric c = true) → run.length ≤ 1023

namespace LineWise

def ShortLexemes (ls : List Lexeme) : Prop :=
  ∀ l ∈ ls, l.isRun = true → l.text.length < defaultLiteralSize

theorem infix_of_mem_lexemes {text : List Char} {l : Lexeme} (h : l ∈ lexemes text) :
    l.text <:+: text := by
  obtain ⟨before, after, hsplit⟩ := List.append_of_mem h
  refine ⟨before.flatMap Lexeme.text, after.flatMap Lexeme.text, ?_⟩
  rw [← lexemes_flatten text, hsplit, List.flatMap_append, List.flatMap_cons, List.append_assoc]

theorem shortLexemes (text : ReadableText) : ShortLexemes (lexemes text.chars) := by
  intro l hl hrun
  have hruns : ∀ l ∈ lexemes text.chars, l.isRun = true →
      ∀ d ∈ l.text, isAlphanumeric d = true :=
    forall_mem_lexemes firstLexeme_run_alphanumeric text.chars
  exact Nat.lt_succ_of_le (text.shortRuns l.text (infix_of_mem_lexemes hl) (hruns l hl hrun))

theorem terminatedRuns_zero {ls : List Lexeme} (h : ShortLexemes ls) (bp : Nat) :
    TerminatedRuns zeroJunk bp ls := by
  induction ls generalizing bp with
  | nil => trivial
  | cons l ls ih =>
    obtain ⟨hl, hls⟩ := List.forall_mem_cons.mp h
    exact ⟨fun hrun => ⟨⟨l.text.length, hl hrun⟩, Nat.le_refl _, rfl⟩, ih hls _⟩

theorem shortLexemes_newline {a b : List Char} (ha : ShortLexemes (lexemes a))
    (hb : ShortLexemes (lexemes b)) : ShortLexemes (lexemes (a ++ '\n' :: b)) := by
  rw [lexemes_newline]
  intro l hl
  rcases List.mem_append.mp hl with hl | hl
  · exact ha l hl
  · rcases List.mem_cons.mp hl with rfl | hl
    · nofun
    · exact hb l hl

-- The sequence that a zero-filled word_buffer gives, and any other content as well when the calls
-- return at all.
def ReadsAs (text : List Char) (s : List Span) : Prop :=
  Produces zeroJunk text s ∧ ∀ junk s', Produces junk text s' → s' = s

theorem readsAs_spans {text : List Char} (h : ShortLexemes (lexemes text)) :
    ReadsAs text (spans text) :=
  ⟨produces_iff.mpr ⟨terminatedRuns_zero h 0, rfl⟩, fun _ _ hs => (produces_iff.mp hs).2⟩

theorem tokenizing_lineWise (a b : ReadableText) :
    ∃ sa sb, ReadsAs a.chars sa ∧ ReadsAs b.chars sb ∧
      ReadsAs (a.chars ++ '\n' :: b.chars)
        (sa ++ ⟨.symbolExpressionEnd, a.chars.length, a.chars.length + 1⟩ ::
          sb.map (Span.shift (a.chars.length + 1))) := by
  have ha := shortLexemes a
  have hb := shortLexemes b
  refine ⟨spans a.chars, spans b.chars, readsAs_spans ha, readsAs_spans hb, ?_⟩
  rw [← spans_newline]
  exact readsAs_spans (shortLexemes_newline ha hb)

end LineWise

end CAt
