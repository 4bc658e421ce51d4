import CAt.Assembler.TokenSpans

namespace CAt

open GuardedLoop

def Scan.start : Scan := ⟨0, [], false⟩

namespace Lexeme

def token (l : Lexeme) : Token := ⟨if l.isRun then some l.text else none, l.type⟩

def isSpace (l : Lexeme) : Bool := l.type == .space

end Lexeme

def sourceTokens (text : List Char) : List Token :=
  ((lexemes text).filter fun l => !l.isSpace).map Lexeme.token

namespace TokenLists

def expectedList (junk : Nat → WordBuffer) :
    Nat → List Token → List Lexeme → Except TokenFault (List Token)
  | _, list, [] => .ok list
  | bp, list, l :: ls => do
    let literall ← lexemeLiterall (junk bp) l
    if l.isSpace then expectedList junk (bp + l.text.length) list ls
    else if list.length < tokensBlockSize then
      expectedList junk (bp + l.text.length) (list ++ [⟨literall, l.type⟩]) ls
    else .error .listOverflow

section Fills

variable (junk : Nat → WordBuffer)

theorem body_call (before : List Char) (c : Char) (cs : List Char) (list : List Token) :
    (tokenLoop junk (before ++ c :: cs)).body ⟨before.length, list, false⟩ = (do
      let literall ← lexemeLiterall (junk before.length) (firstLexeme c cs)
      let after := before.length + (firstLexeme c cs).text.length
      if (firstLexeme c cs).isSpace then return ⟨after, list, false⟩
      else if list.length < tokensBlockSize then
        return ⟨after, list ++ [⟨literall, (firstLexeme c cs).type⟩], false⟩
      else .error .listOverflow) := by
  simp only [tokenLoop, tokenNext_lexeme]
  cases lexemeLiterall (junk before.length) (firstLexeme c cs) with
  | error e => rfl
  | ok literall =>
    refine (if_neg (firstLexeme_not_eob c cs)).trans ?_
    simp only [Lexeme.isSpace, beq_iff_eq]
    rfl

theorem body_end (buffer : List Char) (list : List Token) :
    (tokenLoop junk buffer).body ⟨buffer.length, list, false⟩ =
      .ok ⟨buffer.length, list, true⟩ := by
  simp only [tokenLoop, tokenNext_end]
  rfl

theorem fills (text before : List Char) (list : List Token) :
    (tokenLoop junk (before ++ text)).Ends ⟨before.length, list, false⟩ (do
      let filled ← expectedList junk before.length list (lexemes text)
      return ⟨(before ++ text).length, filled, true⟩) := by
  induction text using lexemes.induct generalizing before list with
  | case1 =>
    rw [lexemes_nil, List.append_nil]
    exact .of_finishes (((Loop.Reaches.refl _ _).step rfl (body_end junk before list)).finishes rfl)
  | case2 c cs ih =>
    have hsplit : before ++ c :: cs =
        before ++ (firstLexeme c cs).text ++ (c :: cs).drop (firstLexeme c cs).text.length := by
      rw [List.append_assoc, List.prefix_iff_eq_append.mp (firstLexeme_begins c cs)]
    have hbody := body_call junk before c cs list
    rw [lexemes_cons, expectedList]
    cases hlit : lexemeLiterall (junk before.length) (firstLexeme c cs) with
    | error e =>
      rw [hlit] at hbody
      exact .of_body_error rfl hbody
    | ok literall =>
      rw [hlit] at hbody
      simp only [Loop.ok_bind] at hbody ⊢
      have hrest := ih (before ++ (firstLexeme c cs).text)
      rw [← hsplit, List.length_append] at hrest
      split
      · rename_i hspace
        rw [if_pos hspace] at hbody
        exact (hrest list).of_head rfl hbody
      · rename_i hspace
        rw [if_neg hspace] at hbody
        split
        · rename_i hroom
          rw [if_pos hroom] at hbody
          exact (hrest _).of_head rfl hbody
        · rename_i hroom
          rw [if_neg hroom] at hbody
          exact .of_body_error rfl hbody

theorem fills_buffer (buffer : List Char) :
    (tokenLoop junk buffer).Ends .start (do
      let filled ← expectedList junk 0 [] (lexemes buffer)
      return ⟨buffer.length, filled, true⟩) :=
  fills junk buffer [] []

theorem run_error_iff (buffer : List Char) (e : TokenFault) :
    (∃ n, (tokenLoop junk buffer).run n .start = .error e) ↔
      expectedList junk 0 [] (lexemes buffer) = .error e := by
  have hends := fills_buffer junk buffer
  cases hlist : expectedList junk 0 [] (lexemes buffer) with
  | error e' =>
    rw [hlist] at hends
    change (tokenLoop junk buffer).Ends .start (.error e') at hends
    constructor
    · rintro ⟨n, hn⟩
      cases hends.eq_of_error hn
      rfl
    · rintro ⟨⟩
      obtain ⟨n, hn, -⟩ := hends
      exact ⟨n, hn⟩
  | ok filled =>
    rw [hlist] at hends
    refine iff_of_false ?_ nofun
    rintro ⟨n, hn⟩
    cases hends.eq_of_error hn

theorem tokenizes_iff (buffer : List Char) (list : List Token) :
    Tokenizes junk buffer list ↔ expectedList junk 0 [] (lexemes buffer) = .ok list := by
  have hends := fills_buffer junk buffer
  constructor
  · rintro ⟨s, hs, rfl⟩
    obtain ⟨filled, hfilled, h⟩ := Loop.bind_ok (hends.finishes_iff.mp hs)
    cases h
    exact hfilled
  · intro h
    rw [h] at hends
    exact ⟨_, hends.finishes_iff.mpr rfl, rfl⟩

end Fills

def shortRun (l : Lexeme) : Prop := l.isRun = true → l.text.length < defaultLiteralSize

def keptLexemes (ls : List Lexeme) : List Lexeme := ls.filter fun l => !l.isSpace

-- The words and numbers leave room for a NUL in word_buffer, the tokens fit into the list.
structure Fits (ls : List Lexeme) : Prop where
  runs : ∀ l ∈ ls, shortRun l
  tokens : (keptLexemes ls).length ≤ tokensBlockSize

section Bounds

variable {l : Lexeme} {ls : List Lexeme} {list out : List Token}

def RunsNotNul (ls : List Lexeme) : Prop := ∀ l ∈ ls, l.isRun = true → ∀ d ∈ l.text, d ≠ '\x00'

theorem runsNotNul (text : List Char) : RunsNotNul (lexemes text) :=
  forall_mem_lexemes firstLexeme_run_ne_nul text

theorem keptLexemes_space (h : l.isSpace = true) : keptLexemes (l :: ls) = keptLexemes ls := by
  simp [keptLexemes, h]

theorem keptLexemes_token (h : l.isSpace = false) :
    keptLexemes (l :: ls) = l :: keptLexemes ls := by
  simp [keptLexemes, h]

theorem lexemeLiterall_zero_iff (hnul : l.isRun = true → ∀ d ∈ l.text, d ≠ '\x00')
    {literall : Option (List Char)} :
    lexemeLiterall .zero l = .ok literall ↔ shortRun l ∧ literall = l.token.literall := by
  rw [shortRun, Lexeme.token]
  cases hrun : l.isRun with
  | false =>
    rw [lexemeLiterall_not_run .zero hrun]
    exact ⟨fun h => ⟨nofun, (Except.ok.inj h).symm⟩, fun h => congrArg _ h.2.symm⟩
  | true =>
    rw [lexemeLiterall_run .zero hrun]
    by_cases hlen : l.text.length < defaultLiteralSize
    · rw [WordBuffer.literall_zero (hnul hrun) hlen]
      exact ⟨fun h => ⟨fun _ => hlen, (Except.ok.inj h).symm⟩, fun h => congrArg _ h.2.symm⟩
    · have hafter : ¬ WordBuffer.zero.NulAfter l.text.length := fun ⟨i, hle, _⟩ =>
        hlen (Nat.lt_of_le_of_lt hle i.isLt)
      obtain ⟨e, he, -⟩ := WordBuffer.literall_of_not_nulAfter (hnul hrun) hafter
      rw [he]
      exact iff_of_false nofun fun h => hlen (h.1 rfl)

theorem lexemeLiterall_short (wordBuffer : WordBuffer)
    (hnul : l.isRun = true → ∀ d ∈ l.text, d ≠ '\x00') (hshort : shortRun l) {e : TokenFault}
    (h : lexemeLiterall wordBuffer l = .error e) : e = .literalUnterminated := by
  cases hrun : l.isRun with
  | false =>
    rw [lexemeLiterall_not_run wordBuffer hrun] at h
    cases h
  | true =>
    have hle : l.text.length ≤ defaultLiteralSize := Nat.le_of_lt (hshort hrun)
    rw [lexemeLiterall_run wordBuffer hrun, WordBuffer.literall, if_pos hle,
      WordBuffer.copyLiterall_fill (hnul hrun) hle] at h
    split at h
    · cases h
    · cases h
      rfl

theorem expectedList_zero_iff (bp : Nat) (list : List Token) (hnul : RunsNotNul ls)
    (hroom : list.length ≤ tokensBlockSize) :
    expectedList zeroJunk bp list ls = .ok out ↔
      ((∀ l ∈ ls, shortRun l) ∧ list.length + (keptLexemes ls).length ≤ tokensBlockSize) ∧
        out = list ++ (keptLexemes ls).map Lexeme.token := by
  induction ls generalizing bp list with
  | nil => simp [expectedList, keptLexemes, hroom, eq_comm]
  | cons l ls ih =>
    obtain ⟨hl, hls⟩ := List.forall_mem_cons.mp hnul
    rw [expectedList, List.forall_mem_cons]
    cases hlit : lexemeLiterall (zeroJunk bp) l with
    | error e =>
      refine iff_of_false (fun h => by cases h) ?_
      rintro ⟨⟨⟨hshort, -⟩, -⟩, -⟩
      have hok := (lexemeLiterall_zero_iff hl).mpr ⟨hshort, rfl⟩
      rw [zeroJunk, hok] at hlit
      cases hlit
    | ok literall =>
      obtain ⟨hshort, rfl⟩ := (lexemeLiterall_zero_iff hl).mp hlit
      simp only [Loop.ok_bind, hshort, true_and]
      cases hspace : l.isSpace with
      | true =>
        rw [if_pos rfl, keptLexemes_space hspace]
        exact ih _ list hls hroom
      | false =>
        rw [if_neg Bool.false_ne_true, keptLexemes_token hspace, List.length_cons, List.map_cons]
        by_cases hlt : list.length < tokensBlockSize
        · have hrest := ih (bp + l.text.length) (list ++ [l.token]) hls
            (by rw [List.length_append]; exact hlt)
          rw [List.length_append, List.length_singleton, Nat.add_assoc, Nat.add_comm 1,
            List.append_assoc, List.singleton_append] at hrest
          rw [if_pos hlt]
          exact hrest
        · rw [if_neg hlt]
          refine iff_of_false (fun h => by cases h) ?_
          rintro ⟨⟨-, hcount⟩, -⟩
          omega

theorem expectedList_fits (junk : Nat → WordBuffer) (bp : Nat) (hnul : RunsNotNul ls)
    (hruns : ∀ l ∈ ls, shortRun l)
    (htokens : list.length + (keptLexemes ls).length ≤ tokensBlockSize) {e : TokenFault}
    (h : expectedList junk bp list ls = .error e) : e = .literalUnterminated := by
  induction ls generalizing bp list with
  | nil => cases h
  | cons l ls ih =>
    obtain ⟨hl, hls⟩ := List.forall_mem_cons.mp hnul
    obtain ⟨hshort, hruns⟩ := List.forall_mem_cons.mp hruns
    rw [expectedList] at h
    cases hlit : lexemeLiterall (junk bp) l with
    | error e' =>
      rw [hlit] at h
      cases h
      exact lexemeLiterall_short (junk bp) hl hshort hlit
    | ok literall =>
      rw [hlit, Loop.ok_bind] at h
      cases hspace : l.isSpace with
      | true =>
        rw [hspace, if_pos rfl] at h
        rw [keptLexemes_space hspace] at htokens
        exact ih _ hls hruns htokens h
      | false =>
        rw [keptLexemes_token hspace, List.length_cons] at htokens
        rw [hspace, if_neg Bool.false_ne_true, if_pos (by omega)] at h
        refine ih _ hls hruns ?_ h
        rw [List.length_append, List.length_singleton]
        omega

theorem expectedList_not_overread (junk : Nat → WordBuffer) (bp : Nat) (hnul : RunsNotNul ls) :
    expectedList junk bp list ls ≠ .error .bufferOverread := by
  induction ls generalizing bp list with
  | nil => nofun
  | cons l ls ih =>
    obtain ⟨hl, hls⟩ := List.forall_mem_cons.mp hnul
    rw [expectedList]
    rcases lexemeLiterall_cases (junk bp) hl with ⟨-, literall, hlit⟩ | ⟨-, e, hlit, hne⟩
    · rw [hlit, Loop.ok_bind]
      split
      · exact ih _ hls
      · split
        · exact ih _ hls
        · nofun
    · rw [hlit]
      intro h
      cases h
      exact hne rfl

end Bounds

theorem tokenizes_zero_iff (text : List Char) (list : List Token) :
    Tokenizes zeroJunk text list ↔ Fits (lexemes text) ∧ list = sourceTokens text := by
  rw [tokenizes_iff, expectedList_zero_iff 0 [] (runsNotNul text) (Nat.zero_le _),
    List.length_nil, Nat.zero_add, List.nil_append]
  exact ⟨fun h => ⟨⟨h.1.1, h.1.2⟩, h.2⟩, fun h => ⟨⟨h.1.runs, h.1.tokens⟩, h.2⟩⟩

end TokenLists

end CAt
