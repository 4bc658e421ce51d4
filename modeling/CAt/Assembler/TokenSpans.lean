import CAt.Assembler.Lexemes

namespace CAt

open GuardedLoop

structure Call where
  token : Token
  before : Nat
  after : Nat
deriving DecidableEq, Repr

structure Reading where
  filePos : Nat
  calls : List Call
  atEnd : Bool
deriving DecidableEq, Repr

def callLoop (junk : Nat → WordBuffer) (buffer : List Char) : Loop Reading TokenFault where
  guard := fun s => !s.atEnd
  body := fun s => do
    let (t, filePos) ← tokenNext (junk s.filePos) buffer s.filePos
    if t.type = .eob then return { s with filePos, atEnd := true }
    else return { s with filePos, calls := s.calls ++ [⟨t, s.filePos, filePos⟩] }

def Call.lexeme (buffer : List Char) (c : Call) : Lexeme :=
  ⟨(buffer.drop c.before).take (c.after - c.before), c.token.type⟩

def keptCalls (calls : List Call) : List Call := calls.filter fun c => c.token.type != .space

def Reading.start : Reading := ⟨0, [], false⟩

def Tiles : Nat → Nat → List Call → Prop
  | a, b, [] => a = b
  | a, b, c :: cs => c.before = a ∧ a < c.after ∧ Tiles c.after b cs

-- token_next finds a NUL in word_buffer behind every word and number it reads.
def TerminatedRuns (junk : Nat → WordBuffer) : Nat → List Lexeme → Prop
  | _, [] => True
  | bp, l :: ls => (l.isRun = true → (junk bp).NulAfter l.text.length) ∧
      TerminatedRuns junk (bp + l.text.length) ls

namespace TokenSpans

def expectedCalls (junk : Nat → WordBuffer) : Nat → List Lexeme → Except TokenFault (List Call)
  | _, [] => .ok []
  | bp, l :: ls => do
    let literall ← lexemeLiterall (junk bp) l
    let calls ← expectedCalls junk (bp + l.text.length) ls
    return ⟨⟨literall, l.type⟩, bp, bp + l.text.length⟩ :: calls

variable (junk : Nat → WordBuffer)

theorem body_call (before : List Char) (c : Char) (cs : List Char) (calls : List Call) :
    (callLoop junk (before ++ c :: cs)).body ⟨before.length, calls, false⟩ = (do
      let literall ← lexemeLiterall (junk before.length) (firstLexeme c cs)
      let after := before.length + (firstLexeme c cs).text.length
      return ⟨after, calls ++ [⟨⟨literall, (firstLexeme c cs).type⟩, before.length, after⟩],
        false⟩) := by
  simp only [callLoop, tokenNext_lexeme]
  cases lexemeLiterall (junk before.length) (firstLexeme c cs) with
  | error e => rfl
  | ok literall => exact if_neg (firstLexeme_not_eob c cs)

theorem body_end (buffer : List Char) (calls : List Call) :
    (callLoop junk buffer).body ⟨buffer.length, calls, false⟩ =
      .ok ⟨buffer.length, calls, true⟩ := by
  simp only [callLoop, tokenNext_end]
  rfl

theorem reads (text before : List Char) (calls : List Call) :
    (callLoop junk (before ++ text)).Ends ⟨before.length, calls, false⟩ (do
      let more ← expectedCalls junk before.length (lexemes text)
      return ⟨(before ++ text).length, calls ++ more, true⟩) := by
  induction text using lexemes.induct generalizing before calls with
  | case1 =>
    rw [lexemes_nil, List.append_nil]
    change (callLoop junk before).Ends _ (.ok ⟨before.length, calls ++ [], true⟩)
    rw [List.append_nil]
    exact .of_finishes (((Loop.Reaches.refl _ _).step rfl (body_end junk before calls)).finishes rfl)
  | case2 c cs ih =>
    have hsplit : before ++ c :: cs =
        before ++ (firstLexeme c cs).text ++ (c :: cs).drop (firstLexeme c cs).text.length := by
      rw [List.append_assoc, List.prefix_iff_eq_append.mp (firstLexeme_begins c cs)]
    have hbody := body_call junk before c cs calls
    rw [lexemes_cons, expectedCalls]
    cases hlit : lexemeLiterall (junk before.length) (firstLexeme c cs) with
    | error e =>
      rw [hlit] at hbody
      exact .of_body_error rfl hbody
    | ok literall =>
      rw [hlit] at hbody
      have hrest := ih (before ++ (firstLexeme c cs).text) (calls ++ [⟨⟨literall,
        (firstLexeme c cs).type⟩, before.length,
        before.length + (firstLexeme c cs).text.length⟩])
      rw [← hsplit, List.length_append] at hrest
      have hends := hrest.of_head rfl hbody
      cases hmore : expectedCalls junk (before.length + (firstLexeme c cs).text.length)
          (lexemes ((c :: cs).drop (firstLexeme c cs).text.length)) with
      | ok more =>
        rw [hmore] at hends
        change (callLoop junk _).Ends _ (.ok ⟨_, calls ++ [_] ++ more, true⟩) at hends
        rw [List.append_assoc] at hends
        exact hends
      | error e =>
        rw [hmore] at hends
        exact hends

theorem reads_buffer (buffer : List Char) :
    (callLoop junk buffer).Ends .start (do
      let calls ← expectedCalls junk 0 (lexemes buffer)
      return ⟨buffer.length, calls, true⟩) :=
  reads junk buffer [] []

theorem expectedCalls_cases (bp : Nat) (ls : List Lexeme)
    (h : ∀ l ∈ ls, l.isRun = true → ∀ d ∈ l.text, d ≠ '\x00') :
    (TerminatedRuns junk bp ls ∧ ∃ calls, expectedCalls junk bp ls = .ok calls) ∨
      (¬ TerminatedRuns junk bp ls ∧
        ∃ e, expectedCalls junk bp ls = .error e ∧ e ≠ .bufferOverread) := by
  induction ls generalizing bp with
  | nil => exact .inl ⟨trivial, [], rfl⟩
  | cons l ls ih =>
    obtain ⟨hl, hls⟩ := List.forall_mem_cons.mp h
    rw [TerminatedRuns, expectedCalls]
    rcases lexemeLiterall_cases (junk bp) hl with ⟨hnul, literall, hlit⟩ | ⟨hnul, e, hlit, hne⟩
    · rw [hlit]
      rcases ih (bp + l.text.length) hls with ⟨hrest, calls, hcalls⟩ | ⟨hrest, e, hcalls, hne⟩
      · refine .inl ⟨⟨hnul, hrest⟩, ⟨⟨literall, l.type⟩, bp, bp + l.text.length⟩ :: calls, ?_⟩
        rw [hcalls]
        rfl
      · refine .inr ⟨fun hall => hrest hall.2, e, ?_, hne⟩
        rw [hcalls]
        rfl
    · refine .inr ⟨fun hall => hnul hall.1, e, ?_, hne⟩
      rw [hlit]
      rfl

theorem expectedCalls_lexemes {before : List Char} {ls : List Lexeme} {calls : List Call}
    (h : expectedCalls junk before.length ls = .ok calls) :
    calls.map (Call.lexeme (before ++ ls.flatMap Lexeme.text)) = ls := by
  induction ls generalizing before calls with
  | nil =>
    cases h
    rfl
  | cons l ls ih =>
    obtain ⟨literall, -, hcalls⟩ := Loop.bind_ok h
    obtain ⟨more, hmore, hcons⟩ := Loop.bind_ok hcalls
    cases hcons
    rw [← List.length_append] at hmore
    have hsplit : before ++ (l :: ls).flatMap Lexeme.text =
        before ++ l.text ++ ls.flatMap Lexeme.text := by simp
    rw [hsplit, List.map_cons, ih hmore]
    simp [Call.lexeme]

theorem finishes_iff (buffer : List Char) :
    (∃ s, (callLoop junk buffer).Finishes .start s) ↔ TerminatedRuns junk 0 (lexemes buffer) := by
  have hends := reads_buffer junk buffer
  rcases expectedCalls_cases junk 0 (lexemes buffer)
    (forall_mem_lexemes firstLexeme_run_ne_nul buffer) with ⟨hnul, calls, h⟩ | ⟨hnul, e, h, -⟩
  · rw [h] at hends
    exact iff_of_true ⟨_, hends.finishes_iff.mpr rfl⟩ hnul
  · rw [h] at hends
    refine iff_of_false ?_ hnul
    rintro ⟨s, hs⟩
    cases hends.finishes_iff.mp hs

theorem finished_lexemes {buffer : List Char} {s : Reading}
    (h : (callLoop junk buffer).Finishes .start s) :
    s.calls.map (Call.lexeme buffer) = lexemes buffer := by
  have hresult := (reads_buffer junk buffer).finishes_iff.mp h
  obtain ⟨calls, hcalls, hs⟩ := Loop.bind_ok hresult
  cases hs
  have hmap : calls.map (Call.lexeme ([] ++ (lexemes buffer).flatMap Lexeme.text)) =
      lexemes buffer := expectedCalls_lexemes junk hcalls
  rw [lexemes_flatten] at hmap
  exact hmap

structure Keeps (s : Scan) (r : Reading) : Prop where
  filePos : s.filePos = r.filePos
  atEnd : s.atEnd = r.atEnd
  list : s.list = (keptCalls r.calls).map Call.token

theorem Keeps.step {buffer : List Char} {s s' : Scan} {r : Reading} (h : Keeps s r)
    (hb : (tokenLoop junk buffer).body s = .ok s') :
    ∃ r', (callLoop junk buffer).body r = .ok r' ∧ Keeps s' r' := by
  obtain ⟨⟨t, filePos⟩, hcall, hb⟩ := Loop.bind_ok hb
  rw [h.filePos] at hcall
  simp only [callLoop, hcall]
  cases htype : decide (t.type = .eob) with
  | true =>
    have heob : t.type = .eob := of_decide_eq_true htype
    cases (if_pos heob).symm.trans hb
    exact ⟨_, if_pos heob, rfl, rfl, h.list⟩
  | false =>
    have heob : t.type ≠ .eob := of_decide_eq_false htype
    refine ⟨_, if_neg heob, ?_⟩
    replace hb := (if_neg heob).symm.trans hb
    by_cases hspace : t.type = .space
    · cases (if_pos hspace).symm.trans hb
      exact ⟨rfl, h.atEnd, by simp [keptCalls, hspace, h.list]⟩
    · replace hb := (if_neg hspace).symm.trans hb
      split at hb
      · cases hb
        exact ⟨rfl, h.atEnd, by simp [keptCalls, hspace, h.list]⟩
      · cases hb

theorem tokenizes_calls {buffer : List Char} {list : List Token}
    (h : Tokenizes junk buffer list) :
    ∃ r, (callLoop junk buffer).Finishes .start r ∧ list = (keptCalls r.calls).map Call.token := by
  obtain ⟨s, ⟨n, hrun, hg⟩, rfl⟩ := h
  have guards (s : Scan) (r : Reading) (hr : Keeps s r) :
      (tokenLoop junk buffer).guard s = (callLoop junk buffer).guard r :=
    congrArg (!·) hr.atEnd
  obtain ⟨r, hrun', hr⟩ := Loop.run_lockstep Keeps guards
    (fun s r s' hr _ hb => Keeps.step junk hr hb) (t := Reading.start) ⟨rfl, rfl, rfl⟩ hrun
  exact ⟨r, ⟨n, hrun', (guards s r hr).symm.trans hg⟩, hr.list⟩

theorem never_overreads (buffer : List Char) (n : Nat) :
    (callLoop junk buffer).run n .start ≠ .error .bufferOverread := by
  intro hn
  have herror := (reads_buffer junk buffer).eq_of_error hn
  rcases expectedCalls_cases junk 0 (lexemes buffer)
    (forall_mem_lexemes firstLexeme_run_ne_nul buffer) with ⟨-, calls, h⟩ | ⟨-, e, h, hne⟩
  · rw [h] at herror
    cases herror
  · rw [h] at herror
    cases herror
    exact hne rfl

end TokenSpans

theorem Tiles.snoc {a b : Nat} {calls : List Call} {c : Call} (h : Tiles a b calls)
    (hb : c.before = b) (hlt : b < c.after) : Tiles a c.after (calls ++ [c]) := by
  induction calls generalizing a with
  | nil =>
    cases h
    exact ⟨hb, hlt, rfl⟩
  | cons d calls ih => exact ⟨h.1, h.2.1, ih h.2.2⟩

theorem Tiles.add_length_le {a b : Nat} {calls : List Call} (h : Tiles a b calls) :
    a + calls.length ≤ b := by
  induction calls generalizing a with
  | nil => exact Nat.le_of_eq h
  | cons d calls ih =>
    have hrest := ih h.2.2
    have hlt := h.2.1
    rw [List.length_cons]
    omega

namespace TokenSpans

variable (junk : Nat → WordBuffer) (buffer : List Char)

structure Tiled (s : Reading) : Prop where
  tiles : Tiles 0 s.filePos s.calls
  inBuffer : s.filePos ≤ buffer.length
  atEnd : s.atEnd = true → s.filePos = buffer.length

theorem split_at {buffer : List Char} {filePos : Nat} (h : filePos < buffer.length) :
    ∃ before c cs, buffer = before ++ c :: cs ∧ before.length = filePos := by
  refine ⟨buffer.take filePos, buffer[filePos], buffer.drop (filePos + 1), ?_,
    List.length_take_of_le (Nat.le_of_lt h)⟩
  rw [← List.drop_eq_getElem_cons h, List.take_append_drop]

theorem Tiled.step {s s' : Reading} (h : Tiled buffer s) (hg : (callLoop junk buffer).guard s = true)
    (hb : (callLoop junk buffer).body s = .ok s') : Tiled buffer s' := by
  obtain ⟨filePos, calls, atEnd⟩ := s
  have hopen : atEnd = false := by simpa [callLoop] using hg
  subst hopen
  rcases Nat.lt_or_eq_of_le h.inBuffer with hlt | rfl
  · obtain ⟨before, c, cs, rfl, rfl⟩ := split_at hlt
    rw [body_call] at hb
    obtain ⟨literall, -, hs'⟩ := Loop.bind_ok hb
    cases hs'
    have hpos := firstLexeme_pos c cs
    have hfits := (firstLexeme_begins c cs).length_le
    let call : Call := ⟨⟨literall, (firstLexeme c cs).type⟩, before.length,
      before.length + (firstLexeme c cs).text.length⟩
    have hlt' : before.length < call.after := Nat.lt_add_of_pos_right hpos
    refine ⟨Tiles.snoc h.tiles (c := call) rfl hlt', ?_, ?_⟩
    · rw [List.length_append]
      exact Nat.add_le_add_left hfits _
    · rintro ⟨⟩
  · rw [body_end] at hb
    cases hb
    exact ⟨h.tiles, Nat.le_refl _, fun _ => rfl⟩

theorem Tiled.start : Tiled buffer .start := by
  refine ⟨rfl, Nat.zero_le _, ?_⟩
  rintro ⟨⟩

theorem run_tiled {n : Nat} {s : Reading} (h : (callLoop junk buffer).run n .start = .ok s) :
    Tiled buffer s :=
  Loop.run_invariant (Tiled buffer) (fun _ _ => Tiled.step junk buffer) (Tiled.start buffer) h

structure Partitions : Prop where
  reachesEnd : ∃ calls, (callLoop junk buffer).Finishes .start ⟨buffer.length, calls, true⟩ ∧
    calls.length ≤ buffer.length ∧ Tiles 0 buffer.length calls
  inBuffer : ∀ n, (callLoop junk buffer).run n .start ≠ .error .bufferOverread

theorem partitions_iff :
    Partitions junk buffer ↔ TerminatedRuns junk 0 (lexemes buffer) := by
  constructor
  · rintro ⟨⟨calls, hfinishes, -, -⟩, -⟩
    exact (finishes_iff junk buffer).mp ⟨_, hfinishes⟩
  · intro h
    obtain ⟨⟨filePos, calls, atEnd⟩, hfinishes⟩ := (finishes_iff junk buffer).mpr h
    obtain ⟨n, hrun, hg⟩ := id hfinishes
    have hend : atEnd = true := by simpa [callLoop] using hg
    subst hend
    have htiled := run_tiled junk buffer hrun
    have hpos : filePos = buffer.length := htiled.atEnd rfl
    subst hpos
    have hlen := htiled.tiles.add_length_le
    rw [Nat.zero_add] at hlen
    exact ⟨⟨calls, hfinishes, hlen, htiled.tiles⟩, never_overreads junk buffer⟩

def unterminated : Nat → WordBuffer := fun _ _ => 'x'

theorem one_letter_not_partitioned : ¬ Partitions unterminated ['a'] := by
  rintro ⟨⟨calls, hfinishes, -, -⟩, -⟩
  have hruns := (finishes_iff unterminated ['a']).mp ⟨_, hfinishes⟩
  rw [lexemes_cons] at hruns
  obtain ⟨i, -, hi⟩ := hruns.1 rfl
  cases hi

end TokenSpans

end CAt
