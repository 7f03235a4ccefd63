import Conveyor.Yaml.ScalarText

/-!
# Conveyor.Proofs.Yaml.Folding

Blanks and line breaks inside of texts that go on over several lines.

Between two words, a gap without a line break is read as it is, and one with line breaks is folded
(`folded`). A gap with line breaks that folds to itself consists of breaks only, and begins with
one that reads as itself even alone (`folded_eq_iff`). So whether a text stays what it is shows at
each of its line breaks (`KeptBreak`), and can be told from gap to gap.

* `KeptBreak`, `Unfolded`  — line breaks that are read as themselves.
* `folded`                 — what a gap is read as.
* `readGap_exact`          — a reader passes over all of a gap.
* `Segments.unfolded_iff`  — a text is kept if its gaps are.
-/

namespace Conveyor
namespace Yaml

/-! ## Texts that are kept -/

/-- At the start of a line, this ends the document or starts another one. -/
def StartsMarker (s : List Char) : Prop :=
  ∃ mark ∈ ['-', '.'], ∃ c rest, s = mark :: mark :: mark :: c :: rest ∧ isSpacing c = true

/-- A line break that always reads as itself: the line separator or the paragraph separator. -/
def IsSeparator (c : Char) : Prop := c.toNat = 0x2028 ∨ c.toNat = 0x2029

/-- A line break that is read as itself: a separator, or a line feed right behind another break,
without blanks around it. -/
structure KeptBreak (before : List Char) (b : Char) (after : List Char) : Prop where
  kind : IsSeparator b ∨ b = '\n' ∧ ∃ c, before.getLast? = some c ∧ isBreak c = true
  blankBefore : ∀ c, before.getLast? = some c → isBlank c = false
  blankAfter : ∀ c, after.head? = some c → isBlank c = false
  unmarked : ¬ StartsMarker after

/-- All line breaks of the text are read as themselves. -/
def Unfolded (s : List Char) : Prop :=
  ∀ before b after, s = before ++ b :: after → isBreak b = true → KeptBreak before b after

/-! ## Characters -/

theorem isBreak_iff {c : Char} : isBreak c = true ↔
    c = '\n' ∨ c = '\r' ∨ c.toNat = 0x85 ∨ c.toNat = 0x2028 ∨ c.toNat = 0x2029 := by
  simp [isBreak, or_assoc]

theorem isBlank_iff {c : Char} : isBlank c = true ↔ c = ' ' ∨ c = '\t' := by
  simp [isBlank]

theorem isSpacing_iff {c : Char} : isSpacing c = true ↔ isBlank c = true ∨ isBreak c = true := by
  simp [isSpacing]

theorem isBlank_eq_false {c : Char} (h : isSpacing c = false) : isBlank c = false :=
  (Bool.or_eq_false_iff.1 h).1

theorem not_isBreak {c : Char} (h : isSpacing c = false) : ¬ isBreak c = true :=
  Bool.eq_false_iff.1 (Bool.or_eq_false_iff.1 h).2

theorem isBreak_of_isBlank {c : Char} (h : isBlank c = true) : isBreak c = false := by
  rcases isBlank_iff.1 h with rfl | rfl <;> decide

theorem isSpacing_quote : isSpacing '"' = false := by decide

/-! ## Gaps -/

def breakAs (c : Char) : Char := if c.toNat = 0x2028 ∨ c.toNat = 0x2029 then c else '\n'

/-- The line breaks of a gap as they are read. -/
def breaksOf : List Char → List Char
  | [] => []
  | '\r' :: '\n' :: rest => '\n' :: breaksOf rest
  | c :: rest =>
    if isBreak c then breakAs c :: breaksOf rest else breaksOf rest

/-- A gap that goes on with more blanks and line breaks. -/
def Gap.pass (g : Gap) (ws : List Char) : Gap :=
  match g with
  | .blanks chars =>
    match breaksOf ws with
    | [] => .blanks (chars ++ ws)
    | b :: bs => .breaks [b] bs
  | .breaks first others => .breaks first (others ++ breaksOf ws)

/-- What blanks and line breaks between two words are read as. -/
def folded (ws : List Char) : List Char := (Gap.none.pass ws).text

/-- A line break that reads as itself behind another one. -/
def IsKept (c : Char) : Prop := IsSeparator c ∨ c = '\n'

theorem isBreak_of_isKept {c : Char} (h : IsKept c) : isBreak c = true := by
  rcases h with (h | h) | rfl
  · exact isBreak_iff.2 (.inr (.inr (.inr (.inl h))))
  · exact isBreak_iff.2 (.inr (.inr (.inr (.inr h))))
  · decide

theorem not_isSeparator_lineFeed : ¬ IsSeparator '\n' := by
  rintro (h | h) <;> exact absurd h (by decide)

theorem breakAs_eq_self_iff {c : Char} : breakAs c = c ↔ IsKept c := by
  rw [breakAs, IsKept, IsSeparator]
  split
  · rename_i hsep
    exact iff_of_true rfl (.inl hsep)
  · rename_i hsep
    rw [or_iff_right hsep, eq_comm]

theorem length_breaksOf_le (ws : List Char) : (breaksOf ws).length ≤ ws.length := by
  fun_induction breaksOf ws with
  | case1 => exact Nat.le_refl _
  | case2 rest ih => simp only [List.length_cons]; omega
  | case3 c rest _ _ ih => simp only [List.length_cons]; omega
  | case4 c rest _ _ ih => simp only [List.length_cons]; omega

theorem breaksOf_eq_nil_iff {ws : List Char} :
    breaksOf ws = [] ↔ ∀ c ∈ ws, isBreak c = false := by
  fun_induction breaksOf ws with
  | case1 => simp
  | case2 rest ih => simp [isBreak]
  | case3 c rest _ hc ih => simp [hc]
  | case4 c rest _ hc ih => simp [hc, ih]

theorem breaksOf_eq_self_iff {ws : List Char} : breaksOf ws = ws ↔ ∀ c ∈ ws, IsKept c := by
  fun_induction breaksOf ws with
  | case1 => simp
  | case2 rest ih => simp [IsKept, IsSeparator]
  | case3 c rest _ hc ih =>
    rw [List.cons.injEq, ih, List.forall_mem_cons, breakAs_eq_self_iff]
  | case4 c rest _ hc ih =>
    refine iff_of_false (fun heq => ?_) fun hkept => hc ?_
    · have hlength := congrArg List.length heq
      have hle := length_breaksOf_le rest
      rw [List.length_cons] at hlength
      omega
    · exact isBreak_of_isKept (hkept c (List.mem_cons_self ..))

theorem folded_eq_iff {ws : List Char} :
    folded ws = ws ↔ (∀ c ∈ ws, isBreak c = false) ∨
      ∃ b rest, ws = b :: rest ∧ IsSeparator b ∧ ∀ c ∈ rest, IsKept c := by
  rw [folded, Gap.none, Gap.pass]
  cases hread : breaksOf ws with
  | nil => exact iff_of_true rfl (.inl (breaksOf_eq_nil_iff.1 hread))
  | cons b bs =>
    have hbreak : ¬ ∀ c ∈ ws, isBreak c = false := fun hnone =>
      List.cons_ne_nil _ _ (hread.symm.trans (breaksOf_eq_nil_iff.2 hnone))
    rw [or_iff_right hbreak]
    have hlength := length_breaksOf_le ws
    rw [hread] at hlength
    by_cases hb : b = '\n'
    · refine iff_of_false ?_ ?_
      · subst hb
        simp only [Gap.text, if_true]
        rintro heq
        cases bs with
        | nil =>
          subst heq
          exact absurd hread (by decide)
        | cons d ds =>
          have hshorter := congrArg List.length heq
          have htext : (if (d :: ds).isEmpty then [' '] else d :: ds) = d :: ds := rfl
          rw [htext] at hshorter
          rw [List.length_cons] at hlength
          omega
      · rintro ⟨c, rest, rfl, hsep, hkept⟩
        have hself : breaksOf (c :: rest) = c :: rest :=
          breaksOf_eq_self_iff.2 (List.forall_mem_cons.2 ⟨.inl hsep, hkept⟩)
        rw [hread, List.cons.injEq] at hself
        exact not_isSeparator_lineFeed (hb ▸ hself.1 ▸ hsep)
    · have htext : (Gap.breaks [b] bs).text = breaksOf ws := by
        rw [Gap.text, if_neg (by simpa using hb), hread, List.singleton_append]
      rw [htext, breaksOf_eq_self_iff]
      constructor
      · intro hkept
        have hself := breaksOf_eq_self_iff.2 hkept
        rw [hread] at hself
        subst hself
        obtain ⟨hkept, hrest⟩ := List.forall_mem_cons.1 hkept
        exact ⟨b, bs, rfl, hkept.resolve_right hb, hrest⟩
      · rintro ⟨c, rest, rfl, hsep, hkept⟩
        exact List.forall_mem_cons.2 ⟨.inl hsep, hkept⟩

theorem length_folded_le (ws : List Char) : (folded ws).length ≤ ws.length := by
  have hlength := length_breaksOf_le ws
  rw [folded, Gap.none, Gap.pass]
  cases hread : breaksOf ws with
  | nil => exact Nat.le_refl _
  | cons b bs =>
    rw [hread, List.length_cons] at hlength
    dsimp only [Gap.text]
    split
    · cases bs with
      | nil => exact hlength
      | cons d ds => exact Nat.le_of_succ_le hlength
    · exact hlength

/-! ## Reading gaps -/

theorem Gap.pass_nil (g : Gap) : g.pass [] = g := by
  cases g <;> simp [Gap.pass, breaksOf]

theorem Gap.pass_blank (g : Gap) {c : Char} (hc : isBlank c = true) (ws : List Char) :
    (g.pushBlank c).pass ws = g.pass (c :: ws) := by
  have hread : breaksOf (c :: ws) = breaksOf ws := by
    rcases isBlank_iff.1 hc with rfl | rfl <;> simp [breaksOf, isBreak]
  cases g with
  | blanks chars =>
    rw [Gap.pushBlank, Gap.pass, Gap.pass, hread]
    cases breaksOf ws <;> simp
  | breaks first others => simp only [Gap.pushBlank, Gap.pass, hread]

theorem Gap.pass_breaks (g : Gap) {b : Char} {ws ws' : List Char}
    (hread : breaksOf ws' = b :: breaksOf ws) : (g.pushBreak b).pass ws = g.pass ws' := by
  cases g <;> simp [Gap.pushBreak, Gap.pass, hread]

theorem newline?_break {c : Cursor} {b : Char} {rest : List Char} (hc : c.rest = b :: rest)
    (hb : isBreak b = true) (hpair : ∀ more, b = '\r' → rest = '\n' :: more → False) :
    c.newline? = some (breakAs b, ⟨rest, c.line + 1, 0⟩) := by
  rw [Cursor.newline?, hc]
  split
  · rename_i more heq
    obtain ⟨rfl, rfl⟩ := List.cons.inj heq
    exact (hpair more rfl rfl).elim
  · rename_i heq
    obtain ⟨rfl, rfl⟩ := List.cons.inj heq
    rw [if_pos hb, breakAs]
  · rename_i heq
    exact absurd heq (List.cons_ne_nil _ _)

theorem newline?_pair {c : Cursor} {rest : List Char} (hc : c.rest = '\r' :: '\n' :: rest) :
    c.newline? = some ('\n', ⟨rest, c.line + 1, 0⟩) := by
  obtain ⟨_, line, column⟩ := c
  subst hc
  rfl

theorem newline?_none {c : Cursor} (hc : ∀ d, c.rest.head? = some d → ¬ isBreak d = true) :
    c.newline? = none := by
  rw [Cursor.newline?]
  split
  · rename_i heq
    exact absurd rfl (hc '\r' (by rw [heq]; rfl))
  · rename_i b rest _ heq
    exact if_neg (hc b (by rw [heq]; rfl))
  · rfl

theorem readGap_blank {fuel : Nat} {g : Gap} {c : Cursor} {b : Char} {rest : List Char}
    (hc : c.rest = b :: rest) (hb : isBlank b = true) :
    readGap 0 (fuel + 1) g c = readGap 0 fuel (g.pushBlank b) (c.skip 1) := by
  rw [readGap, Cursor.peek, hc]
  rcases isBlank_iff.1 hb with rfl | rfl
  · rfl
  · exact if_neg fun htab => absurd htab.2 (by omega)

section

variable {fuel : Nat} {g : Gap} {c : Cursor}
  (hc : ∀ d, c.rest.head? = some d → isBlank d = false)
include hc

theorem readGap_break {b : Char} {d : Cursor} (hnext : c.newline? = some (b, d)) :
    readGap 0 (fuel + 1) g c = readGap 0 fuel (g.pushBreak b) d := by
  rw [readGap, Cursor.peek, hnext]
  split
  · rename_i heq
    exact absurd (hc _ heq) (by decide)
  · rename_i heq
    exact absurd (hc _ heq) (by decide)
  · rfl

theorem readGap_stop (hnext : c.newline? = none) : readGap 0 (fuel + 1) g c = some (g, c) := by
  rw [readGap, Cursor.peek, hnext]
  split
  · rename_i heq
    exact absurd (hc _ heq) (by decide)
  · rename_i heq
    exact absurd (hc _ heq) (by decide)
  · rfl

end

theorem eq_or_getLast?_of_cons {b d : Char} {rest : List Char}
    (hd : (b :: rest).getLast? = some d) : rest = [] ∧ d = b ∨ rest.getLast? = some d := by
  cases rest with
  | nil => exact .inl ⟨rfl, by simpa using hd.symm⟩
  | cons c cs => exact .inr (by rwa [List.getLast?_cons_cons] at hd)

theorem readGap_exact {ws tail : List Char} (hws : ∀ c ∈ ws, isSpacing c = true)
    (htail : ∀ c, tail.head? = some c → isSpacing c = false) {fuel : Nat}
    (hfuel : ws.length < fuel) (g : Gap) {c : Cursor} (hc : c.rest = ws ++ tail) :
    ∃ line column, readGap 0 fuel g c = some (g.pass ws, ⟨tail, line, column⟩) ∧
      (ws = [] → column = c.column) ∧
      ∀ d, ws.getLast? = some d → (column = 0 ↔ isBreak d = true) := by
  fun_induction breaksOf ws generalizing fuel g c with
  | case1 =>
    rw [List.nil_append] at hc
    subst hc
    obtain ⟨fuel, rfl⟩ := Nat.exists_eq_add_one.2 hfuel
    refine ⟨c.line, c.column, ?_, fun _ => rfl, fun d hd => by simp at hd⟩
    have hnext : c.newline? = none := newline?_none fun d hd => not_isBreak (htail d hd)
    rw [readGap_stop (fun d hd => isBlank_eq_false (htail d hd)) hnext, Gap.pass_nil]
  | case2 rest ih =>
    obtain ⟨fuel, rfl⟩ := Nat.exists_eq_add_one.2 (Nat.zero_lt_of_lt hfuel)
    simp only [List.forall_mem_cons] at hws
    have hrest : rest.length < fuel := by simp only [List.length_cons] at hfuel; omega
    obtain ⟨line, column, hread, hnil, hlast⟩ :=
      ih hws.2.2 hrest (g.pushBreak '\n') (c := ⟨rest ++ tail, c.line + 1, 0⟩) rfl
    refine ⟨line, column, ?_, by simp, fun d hd => ?_⟩
    · rw [readGap_break (by rw [hc]; rintro d ⟨⟩; decide) (newline?_pair hc), ← g.pass_breaks rfl]
      exact hread
    · rw [List.getLast?_cons_cons] at hd
      rcases eq_or_getLast?_of_cons hd with ⟨hrest, rfl⟩ | hd
      · exact iff_of_true (hnil hrest) (by decide)
      · exact hlast d hd
  | case3 b rest hpair hb ih =>
    obtain ⟨fuel, rfl⟩ := Nat.exists_eq_add_one.2 (Nat.zero_lt_of_lt hfuel)
    rw [List.forall_mem_cons] at hws
    have hrest : rest.length < fuel := Nat.lt_of_succ_lt_succ hfuel
    obtain ⟨line, column, hread, hnil, hlast⟩ :=
      ih hws.2 hrest (g.pushBreak (breakAs b)) (c := ⟨rest ++ tail, c.line + 1, 0⟩) rfl
    have hfirst : ∀ d, c.rest.head? = some d → isBlank d = false := by
      rw [hc]
      rintro d ⟨⟩
      cases hd : isBlank b with
      | false => rfl
      | true => exact absurd hb (by rw [isBreak_of_isBlank hd]; decide)
    have hpass : (g.pushBreak (breakAs b)).pass rest = g.pass (b :: rest) :=
      g.pass_breaks (by rw [breaksOf, if_pos hb]; exact hpair)
    have halone : ∀ more, b = '\r' → rest ++ tail = '\n' :: more → False := by
      intro more hb heq
      cases rest with
      | nil => exact absurd (htail '\n' (congrArg List.head? heq)) (by decide)
      | cons d ds => exact hpair ds hb (by rw [(List.cons.inj heq).1])
    refine ⟨line, column, ?_, by simp, fun d hd => ?_⟩
    · rw [readGap_break hfirst (newline?_break hc hb halone), ← hpass]
      exact hread
    · rcases eq_or_getLast?_of_cons hd with ⟨hrest, rfl⟩ | hd
      · exact iff_of_true (hnil hrest) hb
      · exact hlast d hd
  | case4 b rest _ hb ih =>
    obtain ⟨fuel, rfl⟩ := Nat.exists_eq_add_one.2 (Nat.zero_lt_of_lt hfuel)
    rw [List.forall_mem_cons] at hws
    have hrest : rest.length < fuel := Nat.lt_of_succ_lt_succ hfuel
    have hblank : isBlank b = true := (isSpacing_iff.1 hws.1).resolve_right hb
    obtain ⟨line, column, hread, hnil, hlast⟩ :=
      ih hws.2 hrest (g.pushBlank b) (c := c.skip 1) (by rw [Cursor.skip, hc]; rfl)
    refine ⟨line, column, ?_, by simp, fun d hd => ?_⟩
    · rw [readGap_blank hc hblank, ← g.pass_blank hblank]
      exact hread
    · rcases eq_or_getLast?_of_cons hd with ⟨hrest, rfl⟩ | hd
      · refine iff_of_false ?_ hb
        rw [hnil hrest]
        exact Nat.succ_ne_zero _
      · exact hlast d hd

/-! ## Words and gaps -/

/-- A word, a gap behind it, and what begins with the next word. -/
structure Segments (w ws more : List Char) : Prop where
  word : ∀ c ∈ w, isSpacing c = false
  gap : ∀ c ∈ ws, isSpacing c = true
  next : ∀ c, more.head? = some c → isSpacing c = false

/-- If the gap ends in a line break, no marker stands behind it. -/
def Clear (ws more : List Char) : Prop :=
  ∀ b, ws.getLast? = some b → isBreak b = true → ¬ StartsMarker more

theorem eq_false_of_head?_dropWhile {p : Char → Bool} {s : List Char} {c : Char}
    (hc : (s.dropWhile p).head? = some c) : p c = false := by
  have := List.head?_dropWhile_not p s
  rwa [hc] at this

theorem exists_segments (s : List Char) :
    ∃ w ws more, s = w ++ (ws ++ more) ∧ Segments w ws more ∧ (ws = [] → more = []) := by
  let rest := s.dropWhile fun c => !isSpacing c
  refine ⟨s.takeWhile fun c => !isSpacing c, rest.takeWhile isSpacing, rest.dropWhile isSpacing,
    ?_, ⟨fun c hc => ?_, List.all_eq_true.1 List.all_takeWhile,
      fun c => eq_false_of_head?_dropWhile⟩, fun hws => ?_⟩
  · rw [List.takeWhile_append_dropWhile, List.takeWhile_append_dropWhile]
  · simpa using List.all_eq_true.1 (List.all_takeWhile (p := fun c => !isSpacing c)) c hc
  · cases hrest : rest with
    | nil => rfl
    | cons c cs =>
      have hc : (!isSpacing c) = false := eq_false_of_head?_dropWhile (congrArg List.head? hrest)
      rw [hrest, List.takeWhile_cons_of_pos (by simpa using hc)] at hws
      exact absurd hws (List.cons_ne_nil _ _)

theorem not_startsMarker_of_isBreak {c : Char} {rest : List Char} (hc : isBreak c = true) :
    ¬ StartsMarker (c :: rest) := by
  rintro ⟨mark, hmark, d, more, heq, -⟩
  obtain ⟨rfl, -⟩ := List.cons.inj heq
  simp only [List.mem_cons, List.not_mem_nil, or_false] at hmark
  rcases hmark with rfl | rfl <;> exact absurd hc (by decide)

/-- Behind a kept line break, what is left of its gap is kept. -/
theorem Unfolded.rest_kept {s before rest more : List Char} {b : Char} (hs : Unfolded s)
    (hsplit : s = before ++ b :: (rest ++ more)) (hb : isBreak b = true)
    (hrest : ∀ c ∈ rest, isSpacing c = true) :
    (∀ c ∈ rest, IsKept c) ∧ ¬ StartsMarker more := by
  have hkept := hs _ _ _ hsplit hb
  induction rest generalizing before b with
  | nil => exact ⟨by simp, hkept.unmarked⟩
  | cons c rest ih =>
    rw [List.forall_mem_cons] at hrest
    have hc : isBreak c = true :=
      (isSpacing_iff.1 hrest.1).resolve_left (by simp [hkept.blankAfter c rfl])
    have hsplit' : s = (before ++ [b]) ++ c :: (rest ++ more) := by simp [hsplit]
    have hnext := hs _ _ _ hsplit' hc
    obtain ⟨hothers, hmore⟩ := ih hsplit' hc hrest.2 hnext
    exact ⟨List.forall_mem_cons.2 ⟨hnext.kind.imp id And.left, hothers⟩, hmore⟩

theorem Unfolded.first_gap {w ws more : List Char} (h : Segments w ws more)
    (hs : Unfolded (w ++ (ws ++ more))) : folded ws = ws ∧ Clear ws more := by
  cases hfirst : ws.find? isBreak with
  | none =>
    have hnone : ∀ c ∈ ws, isBreak c = false := by simpa using hfirst
    refine ⟨folded_eq_iff.2 (.inl hnone), fun d hd hbreak => ?_⟩
    exact absurd hbreak (by simp [hnone d (List.mem_of_getLast? hd)])
  | some b =>
    obtain ⟨hb, blanks, rest, rfl, hblanks⟩ := List.find?_eq_some_iff_append.1 hfirst
    have hsplit : w ++ (blanks ++ b :: rest ++ more) = (w ++ blanks) ++ b :: (rest ++ more) := by
      simp
    have hkept := hs _ _ _ hsplit hb
    have hnone : blanks = [] := by
      rcases List.eq_nil_or_concat blanks with hnil | ⟨init, c, rfl⟩
      · exact hnil
      · rw [List.concat_eq_append] at *
        have hbreak : isBreak c = true := by
          refine (isSpacing_iff.1 (h.gap c (by simp))).resolve_left ?_
          rw [hkept.blankBefore c (by simp)]
          decide
        exact absurd hbreak (by simpa using hblanks c (by simp))
    subst hnone
    rw [List.append_nil] at hkept
    have hsep : IsSeparator b := by
      refine hkept.kind.resolve_right ?_
      rintro ⟨-, c, hlast, hc⟩
      exact not_isBreak (h.word c (List.mem_of_getLast? hlast)) hc
    have hrest := hs.rest_kept hsplit hb fun c hc => h.gap c (by simp [hc])
    exact ⟨folded_eq_iff.2 (.inr ⟨b, rest, rfl, hsep, hrest.1⟩), fun _ _ _ => hrest.2⟩

theorem keptBreak_append_iff {pre before after : List Char} {b : Char} (hbefore : before ≠ []) :
    KeptBreak (pre ++ before) b after ↔ KeptBreak before b after := by
  have hlast : (pre ++ before).getLast? = before.getLast? := by
    rw [List.getLast?_append, List.getLast?_eq_some_getLast hbefore, Option.some_or]
  constructor <;> rintro ⟨hkind, hblank, hafter, hmarker⟩
  · rw [hlast] at hkind hblank
    exact ⟨hkind, hblank, hafter, hmarker⟩
  · exact ⟨hlast ▸ hkind, hlast ▸ hblank, hafter, hmarker⟩

theorem ne_nil_of_head?_word {s before after : List Char} {b : Char}
    (hs : ∀ c, s.head? = some c → isSpacing c = false) (hsplit : s = before ++ b :: after)
    (hb : isBreak b = true) : before ≠ [] := by
  rintro rfl
  exact not_isBreak (hs b (by rw [hsplit]; rfl)) hb

theorem Unfolded.of_append {pre more : List Char} (hs : Unfolded (pre ++ more))
    (hmore : ∀ c, more.head? = some c → isSpacing c = false) : Unfolded more := by
  intro before b after hsplit hb
  have hkept := hs (pre ++ before) b after (by rw [hsplit, List.append_assoc]) hb
  exact (keptBreak_append_iff (ne_nil_of_head?_word hmore hsplit hb)).1 hkept

theorem Unfolded.of_word {w : List Char} (hw : ∀ c ∈ w, isSpacing c = false) : Unfolded w := by
  rintro before b after rfl hb
  exact absurd hb (not_isBreak (hw b (by simp)))

theorem isBlank_of_mem_kept {ws : List Char} (hws : ∀ c ∈ ws, IsKept c) {c : Char} (hc : c ∈ ws) :
    isBlank c = false := by
  cases hblank : isBlank c with
  | false => rfl
  | true =>
    exact absurd (isBreak_of_isKept (hws c hc)) (by rw [isBreak_of_isBlank hblank]; decide)

/-- A gap of line breaks that are kept, the first of them a separator. -/
theorem keptBreak_of_gap {w p q more : List Char} {b : Char} (hw : ∀ c ∈ w, isSpacing c = false)
    (hkept : ∀ c ∈ p ++ b :: q, IsKept c) (hsep : ∀ c, (p ++ b :: q).head? = some c → IsSeparator c)
    (hmarker : q = [] → ¬ StartsMarker more)
    (hfirst : ∀ c, more.head? = some c → isSpacing c = false) :
    KeptBreak (w ++ p) b (q ++ more) where
  kind := by
    rcases List.eq_nil_or_concat p with rfl | ⟨init, c, rfl⟩
    · exact .inl (hsep b rfl)
    · refine (hkept b (by simp)).imp id fun hb => ⟨hb, c, by simp, ?_⟩
      exact isBreak_of_isKept (hkept c (by simp))
  blankBefore c hc := by
    rcases List.mem_append.1 (List.mem_of_getLast? hc) with hc | hc
    · exact isBlank_eq_false (hw c hc)
    · exact isBlank_of_mem_kept hkept (List.mem_append_left _ hc)
  blankAfter c hc := by
    cases q with
    | nil => exact isBlank_eq_false (hfirst c hc)
    | cons d q =>
      obtain rfl : d = c := Option.some.inj hc
      exact isBlank_of_mem_kept hkept (by simp)
  unmarked := by
    cases q with
    | nil => exact hmarker rfl
    | cons d q => exact not_startsMarker_of_isBreak (isBreak_of_isKept (hkept d (by simp)))

theorem split_of_append_eq {a b before after : List Char} {x : Char}
    (h : a ++ b = before ++ x :: after) :
    (∃ q, a = before ++ x :: q ∧ after = q ++ b) ∨ ∃ q, before = a ++ q ∧ b = q ++ x :: after := by
  rcases List.append_eq_append_iff.1 h with ⟨q, rfl, hb⟩ | ⟨q, rfl, hq⟩
  · exact .inr ⟨q, rfl, hb⟩
  · cases q with
    | nil => exact .inr ⟨[], by simp, hq.symm⟩
    | cons c q =>
      obtain ⟨rfl, rfl⟩ := List.cons.inj hq
      exact .inl ⟨q, rfl, rfl⟩

theorem Unfolded.append {w ws more : List Char} (h : Segments w ws more) (hws : folded ws = ws)
    (hclear : Clear ws more) (hmore : Unfolded more) : Unfolded (w ++ (ws ++ more)) := by
  intro before b after hsplit hb
  rcases split_of_append_eq hsplit with ⟨q, rfl, -⟩ | ⟨p, rfl, hrest⟩
  · exact absurd hb (not_isBreak (h.word b (by simp)))
  rcases split_of_append_eq hrest with ⟨q, rfl, rfl⟩ | ⟨p, rfl, hmid⟩
  · rcases folded_eq_iff.1 hws with hnone | ⟨c, rest, hgap, hsep, hothers⟩
    · exact absurd hb (by simp [hnone b (by simp)])
    · have hkept : ∀ d ∈ p ++ b :: q, IsKept d := by
        rw [hgap]
        exact List.forall_mem_cons.2 ⟨.inl hsep, hothers⟩
      refine keptBreak_of_gap h.word hkept (fun d hd => ?_) (fun hq => ?_) h.next
      · rw [hgap] at hd
        exact Option.some.inj hd ▸ hsep
      · exact hclear b (by simp [hq]) hb
  · have hp := ne_nil_of_head?_word h.next hmid hb
    rw [← List.append_assoc, keptBreak_append_iff hp]
    exact hmore p b after hmid hb

theorem Segments.unfolded_iff {w ws more : List Char} (h : Segments w ws more) :
    Unfolded (w ++ (ws ++ more)) ↔ folded ws = ws ∧ Clear ws more ∧ Unfolded more := by
  constructor
  · intro hs
    obtain ⟨hgap, hclear⟩ := hs.first_gap h
    rw [← List.append_assoc] at hs
    exact ⟨hgap, hclear, hs.of_append h.next⟩
  · rintro ⟨hgap, hclear, hmore⟩
    exact .append h hgap hclear hmore

end Yaml
end Conveyor
