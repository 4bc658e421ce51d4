import CAt.Assembler.ReadSource
import CAt.Assembler.TokenLists

namespace CAt

open GuardedLoop
open ReadSource (Rejected chars stringOf sourceText extentAfter rejected_iff finishes_iff)
open TokenLists (Fits expectedList_fits expectedList_not_overread expectedList_zero_iff
  run_error_iff runsNotNul)

-- No write behind word_buffer or the token list, whatever word_buffer holds at first; and each
-- word leaves a slot for its NUL, which is what a zero-filled word_buffer needs to end there.
structure TokenizesInBounds (text : List Char) : Prop where
  wordBuffer : ∀ junk n, (tokenLoop junk text).run n .start ≠ .error .literalOverflow
  terminator : ∀ n, (tokenLoop zeroJunk text).run n .start ≠ .error .literalUnterminated
  list : ∀ junk n, (tokenLoop junk text).run n .start ≠ .error .listOverflow

def SourceInBounds (file : List UInt8) : Prop :=
  Rejected file ∨
    ∃ s, readLoop.Finishes (.start file) s ∧ s.extent ≤ maxSize ∧ TokenizesInBounds s.fb

namespace SourceBounds

theorem tokenizesInBounds_iff (text : List Char) :
    TokenizesInBounds text ↔ Fits (lexemes text) := by
  have hzero (list : List Token) : TokenLists.expectedList zeroJunk 0 [] (lexemes text) =
      .ok list ↔ _ :=
    expectedList_zero_iff 0 [] (runsNotNul text) (Nat.zero_le _)
  constructor
  · intro h
    cases hlist : TokenLists.expectedList zeroJunk 0 [] (lexemes text) with
    | ok list =>
      obtain ⟨⟨hruns, htokens⟩, -⟩ := (hzero list).mp hlist
      rw [List.length_nil, Nat.zero_add] at htokens
      exact ⟨hruns, htokens⟩
    | error e =>
      obtain ⟨n, hn⟩ := (run_error_iff zeroJunk text e).mpr hlist
      cases e with
      | bufferOverread =>
        exact absurd hlist (expectedList_not_overread zeroJunk 0 (runsNotNul text))
      | literalOverflow => exact absurd hn (h.wordBuffer zeroJunk n)
      | literalUnterminated => exact absurd hn (h.terminator n)
      | listOverflow => exact absurd hn (h.list zeroJunk n)
  · intro h
    have hjunk (junk : Nat → WordBuffer) (n : Nat) (e : TokenFault)
        (hn : (tokenLoop junk text).run n .start = .error e) : e = .literalUnterminated :=
      expectedList_fits junk 0 (runsNotNul text) h.runs (by simpa using h.tokens)
        ((run_error_iff junk text e).mp ⟨n, hn⟩)
    refine ⟨fun junk n hn => ?_, fun n hn => ?_, fun junk n hn => ?_⟩
    · cases hjunk junk n _ hn
    · have hlist := (run_error_iff zeroJunk text _).mp ⟨n, hn⟩
      rw [(hzero (sourceTokens text)).mpr ⟨⟨h.runs, by simpa using h.tokens⟩, rfl⟩] at hlist
      cases hlist
    · cases hjunk junk n _ hn

theorem extent_le_iff (bytes : List UInt8) :
    extentAfter 0 0 bytes ≤ maxSize ↔ (stringOf bytes.dropLast).length + 2 ≤ maxSize := by
  cases bytes with
  | nil => exact ⟨fun _ => by decide, fun _ => Nat.zero_le _⟩
  | cons b bytes =>
    rw [extentAfter, if_neg (List.cons_ne_nil b bytes), Nat.zero_max, Nat.zero_add]

theorem sourceInBounds_iff (file : List UInt8) :
    SourceInBounds file ↔
      maxSize < (chars file).length ∨
        (stringOf (chars file).dropLast).length + 2 ≤ maxSize ∧
          Fits (lexemes (sourceText file)) := by
  rw [SourceInBounds, rejected_iff]
  constructor
  · rintro (hrejected | ⟨s, hs, hextent, htokens⟩)
    · exact .inl hrejected
    · obtain ⟨-, rfl⟩ := (finishes_iff file s).mp hs
      exact .inr ⟨(extent_le_iff _).mp hextent, (tokenizesInBounds_iff _).mp htokens⟩
  · intro h
    by_cases hlong : maxSize < (chars file).length
    · exact .inl hlong
    · obtain ⟨hextent, hfits⟩ := h.resolve_left hlong
      exact .inr ⟨_, (finishes_iff file _).mpr ⟨Nat.le_of_not_lt hlong, rfl⟩,
        (extent_le_iff _).mpr hextent, (tokenizesInBounds_iff _).mpr hfits⟩

def blanks : List UInt8 := List.replicate 2048 0x20

theorem chars_blanks : chars blanks = blanks := by
  apply List.takeWhile_eq_self_iff.mpr
  intro b hb
  rw [List.eq_of_mem_replicate hb]
  rfl

theorem stringOf_blanks (n : Nat) : (stringOf (List.replicate n 0x20)).length = n := by
  induction n with
  | zero => rfl
  | succ n ih =>
    rw [List.replicate_succ, ReadSource.stringOf_cons, List.length_append, ih]
    exact Nat.add_comm 1 n

theorem extent_blanks : ¬ extentAfter 0 0 blanks ≤ maxSize := by
  rw [extent_le_iff, blanks, List.dropLast_replicate, stringOf_blanks]
  decide

theorem last_nul_outside : ¬ SourceInBounds blanks := by
  rintro (hrejected | ⟨s, hs, hextent, -⟩)
  · rw [rejected_iff, chars_blanks, blanks, List.length_replicate] at hrejected
    exact Nat.lt_irrefl _ hrejected
  · obtain ⟨-, rfl⟩ := (finishes_iff blanks s).mp hs
    rw [chars_blanks] at hextent
    exact extent_blanks hextent

end SourceBounds

end CAt
