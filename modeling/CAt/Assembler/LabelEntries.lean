import CAt.Assembler.LineModes

namespace CAt

namespace LabelAgreement

def SafeAfter (rest : List (List Token)) : Prop :=
  (∀ next ∈ rest.head?, next.length < lineSize) ∧
    ((∃ l ∈ rest, isLabelLine l = true) →
      ∃ next ∈ rest.head?, isInstructionLine next = true ∧ next.length ≠ 1)

def Agreeable (ls : List (List Token)) : Prop :=
  ∀ before label one rest, ls = before ++ label :: one :: rest → isLabelLine label = true →
    one.length = 1 → SafeAfter rest

abbrev Entry := Option (List Char) × Nat

def recorded : Mode → Nat → List (List Token) → Except PassFault (List Entry)
  | _, _, [] => .ok []
  | .clean, n, l :: ls =>
    if isLabelLine l then ((lineName l, n) :: ·) <$> recorded .stale n ls
    else recorded .clean (n + 1) ls
  | .stale, n, l :: ls =>
    if isLabelLine l then ((lineName l, n) :: ·) <$> recorded .stale n ls
    else if l.length = 1 then recorded .held n ls
    else recorded .clean (n + 1) ls
  | .held, n, l :: ls =>
    if l.length < lineSize then recorded .clean (n + 1) ls else .error .tkOverflow

def expected : Bool → Nat → List (List Token) → List Entry
  | _, _, [] => []
  | stale, n, l :: ls =>
    if isLabelLine l then (lineName l, n) :: expected true n ls
    else if stale && l.length == 1 then expected true n ls
    else expected false (n + 1) ls

section Equations

variable {mode : Mode} {stale : Bool} {n : Nat} {l : List Token} {ls : List (List Token)}

theorem recorded_label (hic : mode.ic = 0) (hl : isLabelLine l = true) :
    recorded mode n (l :: ls) = ((lineName l, n) :: ·) <$> recorded .stale n ls := by
  cases mode with
  | clean => rw [recorded, if_pos hl]
  | stale => rw [recorded, if_pos hl]
  | held => cases hic

theorem recorded_single (hl : isInstructionLine l = true) (hlen : l.length = 1) :
    recorded .stale n (l :: ls) = recorded .held n ls := by
  rw [recorded, if_neg (not_isLabelLine_of_instruction hl), if_pos hlen]

theorem recorded_instruction (hic : mode.ic = 0) (hl : isInstructionLine l = true)
    (hlen : mode = .clean ∨ l.length ≠ 1) :
    recorded mode n (l :: ls) = recorded .clean (n + 1) ls := by
  have hnot := not_isLabelLine_of_instruction hl
  cases mode with
  | clean => rw [recorded, if_neg hnot]
  | stale => rw [recorded, if_neg hnot, if_neg (hlen.resolve_left nofun)]
  | held => cases hic

theorem recorded_held (hlen : l.length < lineSize) :
    recorded .held n (l :: ls) = recorded .clean (n + 1) ls := by
  rw [recorded, if_pos hlen]

theorem recorded_overflow (hlen : ¬ l.length < lineSize) :
    recorded .held n (l :: ls) = .error .tkOverflow := by
  rw [recorded, if_neg hlen]

theorem expected_label (hl : isLabelLine l = true) :
    expected stale n (l :: ls) = (lineName l, n) :: expected true n ls := by
  rw [expected, if_pos hl]

theorem expected_single (hl : isInstructionLine l = true) (hlen : l.length = 1) :
    expected true n (l :: ls) = expected true n ls := by
  rw [expected, if_neg (not_isLabelLine_of_instruction hl), if_pos (by simp [hlen])]

theorem expected_instruction (hl : isInstructionLine l = true)
    (hlen : stale = false ∨ l.length ≠ 1) :
    expected stale n (l :: ls) = expected false (n + 1) ls := by
  rw [expected, if_neg (not_isLabelLine_of_instruction hl), if_neg]
  rcases hlen with rfl | hlen <;> simp [*]

end Equations

theorem agreeable_nil : Agreeable [] := by
  intro before label one rest h
  simp at h

theorem agreeable_cons {l : List Token} {ls : List (List Token)} :
    Agreeable (l :: ls) ↔ (isLabelLine l = true → ∀ one rest, ls = one :: rest → one.length = 1 →
      SafeAfter rest) ∧ Agreeable ls := by
  constructor
  · intro h
    refine ⟨?_, ?_⟩
    · rintro hl one rest rfl hone
      exact h [] l one rest rfl hl hone
    · rintro before label one rest rfl hlabel hone
      exact h (l :: before) label one rest rfl hlabel hone
  · rintro ⟨hhead, htail⟩ before label one rest heq hlabel hone
    cases before with
    | nil =>
      obtain ⟨rfl, hls⟩ := List.cons.inj heq
      exact hhead hlabel one rest hls hone
    | cons b before =>
      obtain ⟨-, hls⟩ := List.cons.inj heq
      exact htail before label one rest hls hlabel hone

theorem agreeable_instruction {l : List Token} {ls : List (List Token)}
    (hl : isInstructionLine l = true) : Agreeable (l :: ls) ↔ Agreeable ls := by
  rw [agreeable_cons]
  have hnot := not_isLabelLine_of_instruction hl
  exact ⟨fun h => h.2, fun h => ⟨fun hlabel => absurd hlabel hnot, h⟩⟩

theorem agreeable_of_no_label {ls : List (List Token)} (h : ¬ ∃ l ∈ ls, isLabelLine l = true) :
    Agreeable ls := by
  rintro before label one rest rfl hlabel -
  exact absurd ⟨label, by simp, hlabel⟩ h

def Agrees : Mode → List (List Token) → Prop
  | .clean, ls => Agreeable ls
  | .stale, ls => (∀ one rest, ls = one :: rest → one.length = 1 → SafeAfter rest) ∧ Agreeable ls
  | .held, ls => SafeAfter ls ∧ Agreeable ls

section Entries

variable {ls : List (List Token)}

def Lined (ls : List (List Token)) : Prop :=
  ∀ l ∈ ls, isLabelLine l = true ∨ isInstructionLine l = true

def Within (n k : Nat) (entries : List Entry) : Prop := ∀ x ∈ entries, n ≤ x.2 ∧ x.2 ≤ k

theorem Within.later {n n' k k' : Nat} {entries : List Entry} (h : Within n' k' entries)
    (hn : n ≤ n') (hk : k' ≤ k) : Within n k entries := by
  intro x hx
  obtain ⟨hlo, hhi⟩ := h x hx
  exact ⟨hn.trans hlo, hhi.trans hk⟩

theorem Within.label {c : Except PassFault (List Entry)} {x : Entry} {k : Nat}
    {entries : List Entry} (hc : ∀ {es}, c = .ok es → Within x.2 k es) (hx : x.2 ≤ k)
    (h : (x :: ·) <$> c = .ok entries) : Within x.2 k entries := by
  cases c with
  | error e => cases h
  | ok es =>
    cases h
    exact List.forall_mem_cons.mpr ⟨⟨Nat.le_refl _, hx⟩, hc rfl⟩

theorem recorded_within {mode : Mode} {n : Nat} {entries : List Entry}
    (h : recorded mode n ls = .ok entries) : Within n (n + ls.length) entries := by
  have hcons {n k : Nat} (l : List Token) (ls : List (List Token)) (hk : k ≤ n + 1) :
      k + ls.length ≤ n + (l :: ls).length := by
    rw [List.length_cons]
    omega
  fun_induction recorded mode n ls generalizing entries with
  | case1 =>
    cases h
    nofun
  | case2 n l ls hl ih =>
    exact .label (fun h => (ih h).later (Nat.le_refl n) (hcons l ls (Nat.le_succ n)))
      (Nat.le_add_right _ _) h
  | case3 n l ls hl ih => exact (ih h).later (Nat.le_succ n) (hcons l ls (Nat.le_refl _))
  | case4 n l ls hl ih =>
    exact .label (fun h => (ih h).later (Nat.le_refl n) (hcons l ls (Nat.le_succ n)))
      (Nat.le_add_right _ _) h
  | case5 n l ls hl hlen ih => exact (ih h).later (Nat.le_refl n) (hcons l ls (Nat.le_succ n))
  | case6 n l ls hl hlen ih => exact (ih h).later (Nat.le_succ n) (hcons l ls (Nat.le_refl _))
  | case7 n l ls hlen ih => exact (ih h).later (Nat.le_succ n) (hcons l ls (Nat.le_refl _))
  | case8 => cases h

theorem recorded_of_no_label (h : ¬ ∃ l ∈ ls, isLabelLine l = true) (n : Nat) :
    recorded .clean n ls = .ok [] := by
  induction ls generalizing n with
  | nil => rfl
  | cons l ls ih =>
    rw [recorded, if_neg fun hl => h ⟨l, List.mem_cons_self, hl⟩]
    exact ih (fun ⟨l', hmem, hl'⟩ => h ⟨l', List.mem_cons_of_mem l hmem, hl'⟩) _

theorem expected_of_no_label (h : ¬ ∃ l ∈ ls, isLabelLine l = true) (stale : Bool) (n : Nat) :
    expected stale n ls = [] := by
  induction ls generalizing stale n with
  | nil => rfl
  | cons l ls ih =>
    have hls := ih fun ⟨l', hmem, hl'⟩ => h ⟨l', List.mem_cons_of_mem l hmem, hl'⟩
    rw [expected, if_neg fun hl => h ⟨l, List.mem_cons_self, hl⟩]
    split
    · exact hls _ _
    · exact hls _ _

theorem map_cons_ok_iff {x y : Entry} {c : Except PassFault (List Entry)} {entries : List Entry} :
    (x :: ·) <$> c = .ok (y :: entries) ↔ x = y ∧ c = .ok entries := by
  cases c with
  | error e => exact ⟨nofun, fun h => nomatch h.2⟩
  | ok es =>
    constructor
    · intro h
      cases h
      exact ⟨rfl, rfl⟩
    · rintro ⟨rfl, h⟩
      cases h
      rfl

theorem recorded_ahead (hlined : Lined ls) (hlabel : ∃ l ∈ ls, isLabelLine l = true) {stale : Bool}
    {n n' : Nat} (hlt : n' < n) : recorded .clean n ls ≠ .ok (expected stale n' ls) := by
  induction ls generalizing stale n n' with
  | nil =>
    obtain ⟨l, hmem, -⟩ := hlabel
    cases hmem
  | cons l ls ih =>
    obtain ⟨hl, hls⟩ := List.forall_mem_cons.mp hlined
    rcases hl with hl | hl
    · rw [recorded_label rfl hl, expected_label hl, Ne, map_cons_ok_iff]
      rintro ⟨heq, -⟩
      have hn : n = n' := congrArg Prod.snd heq
      omega
    · have hrest : ∃ l ∈ ls, isLabelLine l = true := by
        obtain ⟨l', hmem, hl'⟩ := hlabel
        rcases List.mem_cons.mp hmem with rfl | hmem
        · exact absurd hl' (not_isLabelLine_of_instruction hl)
        · exact ⟨l', hmem, hl'⟩
      rw [recorded_instruction rfl hl (.inl rfl)]
      by_cases hlost : stale = true ∧ l.length = 1
      · obtain ⟨rfl, hlen⟩ := hlost
        rw [expected_single hl hlen]
        exact ih hls hrest (by omega)
      · rw [expected_instruction hl (not_stale_or hlost)]
        exact ih hls hrest (by omega)

theorem safeAfter_nil : SafeAfter [] := by
  refine ⟨nofun, ?_⟩
  rintro ⟨l, hmem, -⟩
  cases hmem

theorem safeAfter_label {l : List Token} (hl : isLabelLine l = true) : ¬ SafeAfter (l :: ls) := by
  rintro ⟨-, h⟩
  obtain ⟨next, hnext, hinst, -⟩ := h ⟨l, List.mem_cons_self, hl⟩
  cases hnext
  exact not_isLabelLine_of_instruction hinst hl

theorem safeAfter_instruction {l : List Token} (hl : isInstructionLine l = true) :
    SafeAfter (l :: ls) ↔ l.length < lineSize ∧
      (l.length = 1 → ¬ ∃ l' ∈ ls, isLabelLine l' = true) := by
  have hlabel : (∃ l' ∈ l :: ls, isLabelLine l' = true) ↔ ∃ l' ∈ ls, isLabelLine l' = true := by
    constructor
    · rintro ⟨l', hmem, hl'⟩
      rcases List.mem_cons.mp hmem with rfl | hmem
      · exact absurd hl' (not_isLabelLine_of_instruction hl)
      · exact ⟨l', hmem, hl'⟩
    · rintro ⟨l', hmem, hl'⟩
      exact ⟨l', List.mem_cons_of_mem l hmem, hl'⟩
  rw [SafeAfter, hlabel]
  constructor
  · rintro ⟨hwidth, hsafe⟩
    refine ⟨hwidth l rfl, fun hone hexists => ?_⟩
    obtain ⟨next, hnext, -, hlen⟩ := hsafe hexists
    cases hnext
    exact hlen hone
  · rintro ⟨hwidth, hsafe⟩
    refine ⟨?_, fun hexists => ⟨l, rfl, hl, fun hone => hsafe hone hexists⟩⟩
    intro next hnext
    cases hnext
    exact hwidth

theorem agrees_label {l : List Token} (hl : isLabelLine l = true) {mode : Mode} :
    Agrees mode (l :: ls) ↔ mode.ic = 0 ∧ Agrees .stale ls := by
  have hstale : Agreeable (l :: ls) ↔ Agrees .stale ls := by
    rw [agreeable_cons, Agrees]
    exact ⟨fun h => ⟨h.1 hl, h.2⟩, fun h => ⟨fun _ => h.1, h.2⟩⟩
  cases mode with
  | clean => exact ⟨fun h => ⟨rfl, hstale.mp h⟩, fun h => hstale.mpr h.2⟩
  | stale =>
    refine ⟨fun h => ⟨rfl, hstale.mp h.2⟩, fun h => ⟨?_, hstale.mpr h.2⟩⟩
    rintro one rest heq hone
    cases heq
    have htwo := length_of_label hl
    omega
  | held => exact ⟨fun h => absurd h.1 (safeAfter_label hl), fun h => nomatch h.1⟩

theorem agrees_instruction {l : List Token} (hl : isInstructionLine l = true) {mode : Mode}
    (hic : mode.ic = 0) (hlen : mode = .clean ∨ l.length ≠ 1) :
    Agrees mode (l :: ls) ↔ Agreeable ls := by
  cases mode with
  | clean => exact agreeable_instruction hl
  | stale =>
    rw [Agrees, agreeable_instruction hl]
    refine ⟨fun h => h.2, fun h => ⟨?_, h⟩⟩
    rintro one rest heq hone
    cases heq
    exact absurd hone (hlen.resolve_left nofun)
  | held => cases hic

theorem agrees_single {l : List Token} (hl : isInstructionLine l = true) (hlen : l.length = 1) :
    Agrees .stale (l :: ls) ↔ Agrees .held ls := by
  rw [Agrees, Agrees, agreeable_instruction hl]
  refine ⟨fun h => ⟨h.1 l ls rfl hlen, h.2⟩, fun h => ⟨?_, h.2⟩⟩
  rintro one rest heq -
  cases heq
  exact h.1

theorem agrees_held {l : List Token} (hl : isInstructionLine l = true) :
    Agrees .held (l :: ls) ↔ l.length < lineSize ∧
      (l.length = 1 → ¬ ∃ l' ∈ ls, isLabelLine l' = true) ∧ Agreeable ls := by
  rw [Agrees, safeAfter_instruction hl, agreeable_instruction hl, and_assoc]

theorem recorded_label_iff {l : List Token} (hl : isLabelLine l = true) {mode : Mode} {n : Nat}
    (hrest : recorded .stale n ls = .ok (expected true n ls) ↔ Agrees .stale ls) :
    recorded mode n (l :: ls) = .ok (expected mode.colon n (l :: ls)) ↔ Agrees mode (l :: ls) := by
  rw [agrees_label hl, expected_label hl, ← hrest]
  rcases mode.ic_cases with hic | rfl
  · rw [recorded_label hic hl, map_cons_ok_iff]
    exact ⟨fun h => ⟨hic, h.2⟩, fun h => ⟨rfl, h.2⟩⟩
  · constructor
    · intro h
      have hlt : l.length < lineSize := by
        have htwo := length_of_label hl
        simp only [lineSize]
        omega
      rw [recorded_held hlt] at h
      have hahead := (recorded_within h _ List.mem_cons_self).1
      simp only at hahead
      omega
    · rintro ⟨hic, -⟩
      cases hic

theorem recorded_held_iff {l : List Token} (hls : Lined ls) (hl : isInstructionLine l = true)
    {n : Nat} (hrest : recorded .clean (n + 1) ls = .ok (expected false (n + 1) ls) ↔
      Agreeable ls) :
    recorded .held n (l :: ls) = .ok (expected true n (l :: ls)) ↔ Agrees .held (l :: ls) := by
  rw [agrees_held hl]
  by_cases hlt : l.length < lineSize
  · rw [recorded_held hlt]
    by_cases hlen : l.length = 1
    · rw [expected_single hl hlen]
      by_cases hlabel : ∃ l' ∈ ls, isLabelLine l' = true
      · exact ⟨fun h => absurd h (recorded_ahead hls hlabel (Nat.lt_succ_self n)),
          fun h => absurd hlabel (h.2.1 hlen)⟩
      · rw [recorded_of_no_label hlabel, expected_of_no_label hlabel]
        exact ⟨fun _ => ⟨hlt, fun _ => hlabel, agreeable_of_no_label hlabel⟩, fun _ => rfl⟩
    · rw [expected_instruction hl (.inr hlen), hrest]
      exact ⟨fun h => ⟨hlt, fun hone => absurd hone hlen, h⟩, fun h => h.2.2⟩
  · rw [recorded_overflow hlt]
    constructor
    · intro h
      cases h
    · intro h
      exact absurd h.1 hlt

theorem recorded_eq_expected_iff (hlined : Lined ls) (mode : Mode) (n : Nat) :
    recorded mode n ls = .ok (expected mode.colon n ls) ↔ Agrees mode ls := by
  induction ls generalizing mode n with
  | nil =>
    cases mode with
    | clean => exact ⟨fun _ => agreeable_nil, fun _ => rfl⟩
    | stale => exact ⟨fun _ => ⟨nofun, agreeable_nil⟩, fun _ => rfl⟩
    | held => exact ⟨fun _ => ⟨safeAfter_nil, agreeable_nil⟩, fun _ => rfl⟩
  | cons l ls ih =>
    obtain ⟨hl, hls⟩ := List.forall_mem_cons.mp hlined
    have ih := ih hls
    rcases hl with hl | hl
    · exact recorded_label_iff hl (ih .stale n)
    · rcases mode.ic_cases with hic | rfl
      · by_cases hlost : mode = .stale ∧ l.length = 1
        · obtain ⟨rfl, hlen⟩ := hlost
          rw [agrees_single hl hlen, recorded_single hl hlen, Mode.colon, expected_single hl hlen]
          exact ih .held n
        · have hlen := Mode.clean_or_of_not hic hlost
          have hkept : mode.colon = false ∨ l.length ≠ 1 := by
            rcases hlen with rfl | hlen
            · exact .inl rfl
            · exact .inr hlen
          rw [agrees_instruction hl hic hlen, recorded_instruction hic hl hlen,
            expected_instruction hl hkept]
          exact ih .clean (n + 1)
      · exact recorded_held_iff hls hl (ih .clean (n + 1))

end Entries

end LabelAgreement

end CAt
