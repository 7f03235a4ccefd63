import Conveyor.Proofs.Yaml.Folding

/-!
# Conveyor.Proofs.Yaml.Quoted

Which texts are read from between double quotes as they stand there.

A quote ends the text and a backslash starts an escape, so neither may be in it. Of a text without
them, all that can change is its line breaks.

That no other text is read as itself follows by counting (`Passed`): what is read is not longer
than what stands there, and shorter behind an escape; and every quote that is passed over is read
as one. So the reading stops at the closing quote, without an escape.

* `readQuotedFrom_bare`, `readQuotedFrom_unfolded` — a bare text is read as it is exactly if its
  line breaks are kept.
* `readQuotedFrom_passed` — what is read of any text.
* `readQuoted_self`, `kept_of_readQuoted_self` — which texts are read as themselves.
-/

namespace Conveyor
namespace Yaml

def Bare (s : List Char) : Prop := ∀ c ∈ s, c ≠ '"' ∧ c ≠ '\\'

/-! ## Reading a bare text -/

theorem readStretch_word {w tail : List Char} (hw : ∀ c ∈ w, isSpacing c = false) (hbare : Bare w)
    (htail : ∀ d, tail.head? = some d → isSpacing d = true ∨ d = '"') {fuel : Nat}
    (hfuel : w.length < fuel) (acc : List Char) {c : Cursor} (hc : c.rest = w ++ tail) :
    readStretch false fuel acc c = some (w.reverse ++ acc, false, c.skip w.length) := by
  induction w generalizing fuel acc c with
  | nil =>
    obtain ⟨fuel, rfl⟩ := Nat.exists_eq_add_one.2 hfuel
    have hskip : c.skip 0 = c := by simp [Cursor.skip]
    rw [readStretch, hc, List.nil_append]
    cases tail with
    | nil => rw [List.length_nil, hskip]; rfl
    | cons d ds =>
      rw [List.length_nil, hskip]
      rcases htail d rfl with hd | rfl
      · exact if_pos hd
      · rfl
  | cons d w ih =>
    obtain ⟨fuel, rfl⟩ := Nat.exists_eq_add_one.2 (Nat.zero_lt_of_lt hfuel)
    rw [List.forall_mem_cons] at hw
    obtain ⟨⟨hquote, hescape⟩, hbare⟩ := List.forall_mem_cons.1 hbare
    have hrest : (c.skip 1).rest = w ++ tail := by rw [Cursor.skip, hc]; rfl
    rw [readStretch, hc, List.cons_append]
    simp only [hw.1, Bool.false_eq_true, if_false, if_neg hquote, if_neg hescape]
    rw [ih hw.2 hbare (Nat.lt_of_succ_lt_succ hfuel) _ hrest]
    simp [Cursor.skip, Nat.add_assoc, Nat.add_comm 1]

/-- A document ends inside of quotes where its marker stands at the start of a line. -/
theorem atDocumentMarker_iff {c : Cursor} {s rest : List Char} (hc : c.rest = s ++ '"' :: rest) :
    c.atDocumentMarker = true ↔ c.column = 0 ∧ StartsMarker s := by
  obtain ⟨_, line, column⟩ := c
  subst hc
  rw [Cursor.atDocumentMarker, Cursor.atMarker, Cursor.atMarker, Cursor.peekAt, StartsMarker]
  rcases s with - | ⟨a, - | ⟨b, - | ⟨c, - | ⟨d, s⟩⟩⟩⟩
  · simp
  · simp
  · simp
  · simp [isSpacingOrEnd, isSpacing_quote]
  · simp [isSpacingOrEnd]
    grind

theorem unmarked_of_readQuotedFrom {single : Bool} {fuel : Nat} {acc : List Char} {c : Cursor}
    {r : String × Cursor} (h : readQuotedFrom single fuel acc c = some r) :
    c.atDocumentMarker = false := by
  cases fuel with
  | zero => cases h
  | succ fuel =>
    rw [readQuotedFrom] at h
    split at h
    · cases h
    · rename_i hplace
      exact Bool.eq_false_iff.2 hplace

variable {u rest : List Char} {c : Cursor}

theorem readQuotedFrom_word (hu : ∀ c ∈ u, isSpacing c = false) (hbare : Bare u) (fuel : Nat)
    (acc : List Char) (hc : c.rest = u ++ '"' :: rest) (hplace : c.atDocumentMarker = false) :
    readQuotedFrom false (fuel + 1) acc c =
      some (String.ofList (acc.reverse ++ u), ⟨rest, c.line, c.column + u.length + 1⟩) := by
  have htail : ∀ d, ('"' :: rest).head? = some d → isSpacing d = true ∨ d = '"' := by
    rintro d ⟨⟩
    exact .inr rfl
  have hskip : c.skip u.length = ⟨'"' :: rest, c.line, c.column + u.length⟩ := by
    simp [Cursor.skip, hc]
  have hlength : u.length < c.rest.length + 1 := by
    rw [hc, List.length_append]
    omega
  rw [readQuotedFrom, readStretch_word hu hbare htail hlength acc hc, hskip, hplace]
  simp [Cursor.peek, Cursor.skip]

theorem readQuotedFrom_gap {w ws more : List Char} (h : Segments w ws more) (hgap : ws ≠ [])
    (hbare : Bare w) (fuel : Nat) (acc : List Char)
    (hc : c.rest = w ++ (ws ++ more) ++ '"' :: rest) (hplace : c.atDocumentMarker = false) :
    ∃ next : Cursor, next.rest = more ++ '"' :: rest ∧
      (next.atDocumentMarker = false ↔ Clear ws more) ∧
      readQuotedFrom false (fuel + 1) acc c =
        readQuotedFrom false fuel ((folded ws).reverse ++ (w.reverse ++ acc)) next := by
  obtain ⟨d, ds, rfl⟩ := List.exists_cons_of_ne_nil hgap
  have hd : isSpacing d = true := h.gap d (by simp)
  have hc' : c.rest = w ++ (d :: ds ++ (more ++ '"' :: rest)) := by simpa using hc
  let gap : Cursor := ⟨d :: ds ++ (more ++ '"' :: rest), c.line, c.column + w.length⟩
  have hskip : c.skip w.length = gap := by simp [Cursor.skip, hc', gap]
  have hspacing : ∀ e, (d :: ds ++ (more ++ '"' :: rest)).head? = some e →
      isSpacing e = true ∨ e = '"' := by
    rintro e ⟨⟩
    exact .inl hd
  have hlength : w.length < c.rest.length + 1 := by
    rw [hc', List.length_append]
    omega
  have hstretch := readStretch_word h.word hbare hspacing hlength acc hc'
  have hnext : ∀ e, (more ++ '"' :: rest).head? = some e → isSpacing e = false := by
    intro e he
    cases more with
    | nil => exact Option.some.inj he ▸ isSpacing_quote
    | cons m more => exact h.next e he
  have hfuel : (d :: ds).length < gap.rest.length + 1 := by
    rw [show gap.rest = d :: ds ++ (more ++ '"' :: rest) from rfl, List.length_append]
    omega
  obtain ⟨line, column, hread, -, hlast⟩ :=
    readGap_exact h.gap hnext hfuel .none (rfl : gap.rest = d :: ds ++ (more ++ '"' :: rest))
  refine ⟨⟨more ++ '"' :: rest, line, column⟩, rfl, ?_, ?_⟩
  · rw [← Bool.not_eq_true, atDocumentMarker_iff rfl, not_and, Clear]
    constructor
    · intro hcolumn b hb hbreak
      exact hcolumn ((hlast b hb).2 hbreak)
    · intro hclear hcolumn
      obtain ⟨b, hb⟩ := Option.isSome_iff_exists.1 (List.getLast?_isSome.2 hgap)
      exact hclear b hb ((hlast b hb).1 hcolumn)
  · have hopen : gap.peek ≠ some '"' := by
      rintro ⟨⟩
      exact absurd hd (by decide)
    rw [readQuotedFrom, hplace, hstretch, hskip]
    simp [hopen, hread, folded]

/-- One round of reading: the text ends with this word, or a gap comes. -/
theorem readQuotedFrom_bare_succ (hu : Bare u) (fuel : Nat) (acc : List Char)
    (hc : c.rest = u ++ '"' :: rest) (hplace : c.atDocumentMarker = false) :
    (Unfolded u ∧ readQuotedFrom false (fuel + 1) acc c =
      some (String.ofList (acc.reverse ++ u), ⟨rest, c.line, c.column + u.length + 1⟩)) ∨
    ∃ w ws more, ∃ next : Cursor, u = w ++ (ws ++ more) ∧ Segments w ws more ∧ ws ≠ [] ∧
      Bare more ∧ next.rest = more ++ '"' :: rest ∧
      (next.atDocumentMarker = false ↔ Clear ws more) ∧
      readQuotedFrom false (fuel + 1) acc c =
        readQuotedFrom false fuel ((folded ws).reverse ++ (w.reverse ++ acc)) next := by
  obtain ⟨w, ws, more, rfl, hsegments, hend⟩ := exists_segments u
  have hword : Bare w := fun c hc => hu c (by simp [hc])
  have hmore : Bare more := fun c hc => hu c (by simp [hc])
  by_cases hgap : ws = []
  · obtain rfl := hend hgap
    subst hgap
    simp only [List.append_nil] at hc ⊢
    exact .inl ⟨.of_word hsegments.word,
      readQuotedFrom_word hsegments.word hword fuel acc hc hplace⟩
  · obtain ⟨next, hnext⟩ := readQuotedFrom_gap hsegments hgap hword fuel acc hc hplace
    exact .inr ⟨w, ws, more, next, rfl, hsegments, hgap, hmore, hnext⟩

/-- What is read is not longer than what stands there, and the same only if it is kept. -/
theorem readQuotedFrom_bare (hu : Bare u) {fuel : Nat} {acc : List Char} {d : Cursor} {t : String}
    (hc : c.rest = u ++ '"' :: rest) (h : readQuotedFrom false fuel acc c = some (t, d)) :
    ∃ v, t = String.ofList (acc.reverse ++ v) ∧ v.length ≤ u.length ∧ (v = u → Unfolded u) := by
  induction fuel generalizing u acc c with
  | zero => cases h
  | succ fuel ih =>
    have hplace := unmarked_of_readQuotedFrom h
    rcases readQuotedFrom_bare_succ hu fuel acc hc hplace with ⟨hkept, hend⟩ |
      ⟨w, ws, more, next, rfl, hsegments, -, hmore, hnext, hclear, hstep⟩
    · obtain ⟨rfl, -⟩ := Prod.mk.inj (Option.some.inj (h.symm.trans hend))
      exact ⟨u, rfl, Nat.le_refl _, fun _ => hkept⟩
    · rw [hstep] at h
      obtain ⟨v, rfl, hlength, hkept⟩ := ih hmore hnext h
      have hfolded := length_folded_le ws
      refine ⟨w ++ (folded ws ++ v), by simp, ?_, fun heq => ?_⟩
      · simp only [List.length_append]
        omega
      -- neither part is longer than what it is read from, so each is the same
      have hrest : folded ws ++ v = ws ++ more := List.append_cancel_left heq
      have hlengths := congrArg List.length hrest
      simp only [List.length_append] at hlengths
      obtain ⟨hgap, rfl⟩ := List.append_inj hrest (by omega)
      exact hsegments.unfolded_iff.2
        ⟨hgap, hclear.1 (unmarked_of_readQuotedFrom h), hkept rfl⟩

theorem readQuotedFrom_unfolded (hu : Bare u) (hkept : Unfolded u) {fuel : Nat}
    (hfuel : u.length < fuel) {acc : List Char} (hc : c.rest = u ++ '"' :: rest)
    (hplace : c.atDocumentMarker = false) :
    ∃ line column, readQuotedFrom false fuel acc c =
      some (String.ofList (acc.reverse ++ u), ⟨rest, line, column⟩) := by
  induction fuel generalizing u acc c with
  | zero => exact absurd hfuel (Nat.not_lt_zero _)
  | succ fuel ih =>
    rcases readQuotedFrom_bare_succ hu fuel acc hc hplace with ⟨-, hend⟩ |
      ⟨w, ws, more, next, rfl, hsegments, hgap, hmore, hnext, hclear, hstep⟩
    · exact ⟨_, _, hend⟩
    · obtain ⟨hfolded, hunmarked, hrest⟩ := hsegments.unfolded_iff.1 hkept
      have hshorter : more.length < fuel := by
        have := List.length_pos_iff.2 hgap
        simp only [List.length_append] at hfuel
        omega
      obtain ⟨line, column, hread⟩ := ih hmore hrest hshorter hnext (hclear.2 hunmarked)
      exact ⟨line, column, by rw [hstep, hread, hfolded]; simp⟩

/-! ## Reading any text -/

/-- What is read of a stretch: not more than stands there, less behind an escape, every quote
among it, and one of them only behind an escape. -/
structure Passed (used read : List Char) : Prop where
  length : read.length ≤ used.length
  escapes : '\\' ∈ used → read.length < used.length
  quotes : used.count '"' ≤ read.count '"'
  bare : '\\' ∉ used → '"' ∉ used

namespace Passed

theorem append {used read used' read' : List Char} (h : Passed used read)
    (h' : Passed used' read') : Passed (used ++ used') (read ++ read') where
  length := by
    have := h.length
    have := h'.length
    simp only [List.length_append]
    omega
  escapes hmem := by
    have := h.length
    have := h'.length
    simp only [List.length_append]
    rcases List.mem_append.1 hmem with hmem | hmem
    · have := h.escapes hmem
      omega
    · have := h'.escapes hmem
      omega
  quotes := by
    have := h.quotes
    have := h'.quotes
    simp only [List.count_append]
    omega
  bare hmem := by
    rw [List.mem_append, not_or] at hmem ⊢
    exact ⟨h.bare hmem.1, h'.bare hmem.2⟩

theorem of_bare {used read : List Char} (hused : Bare used) (hlength : read.length ≤ used.length) :
    Passed used read := by
  have hquote : '"' ∉ used := fun h => (hused _ h).1 rfl
  refine ⟨hlength, fun h => absurd rfl (hused _ h).2, ?_, fun _ => hquote⟩
  rw [List.count_eq_zero_of_not_mem hquote]
  exact Nat.zero_le _

theorem of_escape {used read : List Char} (hlength : read.length ≤ used.length)
    (hquotes : used.count '"' ≤ read.count '"') : Passed ('\\' :: used) read := by
  refine ⟨Nat.le_succ_of_le hlength, fun _ => Nat.lt_succ_of_le hlength, ?_,
    fun h => absurd (List.mem_cons_self ..) h⟩
  rwa [List.count_cons_of_ne (by decide)]

/-- Two texts of the same length. The one is read as the other only if they are the same. -/
theorem bare_of_length {used read : List Char} (h : Passed used read)
    (hlength : read.length = used.length) : Bare used := by
  have hescape : '\\' ∉ used := fun hmem => Nat.ne_of_lt (h.escapes hmem) hlength
  have hquote := h.bare hescape
  exact fun c hc => ⟨fun heq => hquote (heq ▸ hc), fun heq => hescape (heq ▸ hc)⟩

end Passed

theorem bare_of_isSpacing {s : List Char} (hs : ∀ c ∈ s, isSpacing c = true) : Bare s := by
  intro c hc
  constructor <;> rintro rfl
  · exact absurd (hs _ hc) (by decide)
  · exact absurd (hs _ hc) (by decide)

theorem hexNumber?_digits {n acc : Nat} {s : List Char} {v : Nat}
    (h : hexNumber? n acc s = some v) :
    ∃ digits rest, s = digits ++ rest ∧ digits.length = n ∧ '"' ∉ digits := by
  induction n generalizing acc s with
  | zero => exact ⟨[], s, rfl, rfl, by simp⟩
  | succ n ih =>
    cases s with
    | nil => cases h
    | cons c cs =>
      rw [hexNumber?] at h
      split at h
      · rename_i d hd
        obtain ⟨digits, rest, rfl, hlength, hquote⟩ := ih h
        refine ⟨c :: digits, rest, rfl, by simp [hlength], ?_⟩
        rw [List.mem_cons, not_or]
        refine ⟨?_, hquote⟩
        rintro rfl
        cases (hd : none = some d)
      · cases h

/-- An escape is not empty, and has a quote only if it reads as one. -/
theorem readEscape_split {s : List Char} {e : Char} {width : Nat}
    (h : readEscape s = some (e, width)) :
    ∃ escape rest, s = escape ++ rest ∧ escape.length = width ∧ 0 < width ∧
      escape.count '"' ≤ [e].count '"' := by
  cases s with
  | nil => cases h
  | cons c cs =>
    rw [readEscape] at h
    split at h
    · rename_i d hd
      obtain ⟨rfl, rfl⟩ := Prod.mk.inj (Option.some.inj h)
      refine ⟨[c], cs, rfl, rfl, Nat.one_pos, ?_⟩
      by_cases hc : c = '"'
      · subst hc
        obtain rfl : '"' = d := Option.some.inj hd
        exact Nat.le_refl _
      · rw [List.count_singleton, if_neg (by simpa using hc)]
        exact Nat.zero_le _
    · rename_i hnone
      have hc : c ≠ '"' := by
        rintro rfl
        cases (hnone : some '"' = none)
      dsimp only at h
      split at h
      · cases h
      · split at h
        · cases h
        · rename_i n hn
          split at h
          · cases h
          · obtain ⟨rfl, rfl⟩ := Prod.mk.inj (Option.some.inj h)
            obtain ⟨digits, rest, rfl, hlength, hquote⟩ := hexNumber?_digits hn
            refine ⟨c :: digits, rest, rfl, by simp [hlength], Nat.succ_pos _, ?_⟩
            rw [List.count_cons_of_ne hc, List.count_eq_zero_of_not_mem hquote]
            exact Nat.zero_le _

theorem newline?_split {c d : Cursor} {b : Char} (h : c.newline? = some (b, d)) :
    ∃ breaks, c.rest = breaks ++ d.rest ∧ ∀ e ∈ breaks, isSpacing e = true := by
  rw [Cursor.newline?] at h
  split at h
  · rename_i rest hrest
    obtain ⟨-, rfl⟩ := Prod.mk.inj (Option.some.inj h)
    refine ⟨['\r', '\n'], hrest, ?_⟩
    rintro _ (_ | ⟨_, _ | ⟨_, ⟨⟩⟩⟩) <;> rfl
  · rename_i e rest _ hrest
    split at h
    · rename_i he
      obtain ⟨-, rfl⟩ := Prod.mk.inj (Option.some.inj h)
      refine ⟨[e], hrest, ?_⟩
      rintro _ (_ | ⟨_, ⟨⟩⟩)
      rw [isSpacing, he, Bool.or_true]
    · cases h
  · cases h

theorem readStretch_passed {fuel : Nat} {acc acc' : List Char} {escaped : Bool} {c d : Cursor}
    (h : readStretch false fuel acc c = some (acc', escaped, d)) :
    ∃ used read, c.rest = used ++ d.rest ∧ acc' = read.reverse ++ acc ∧ Passed used read := by
  induction fuel generalizing acc c with
  | zero => cases h
  | succ fuel ih =>
    have hstop : some (acc, false, c) = some (acc', escaped, d) →
        ∃ used read, c.rest = used ++ d.rest ∧ acc' = read.reverse ++ acc ∧ Passed used read := by
      rintro ⟨⟩
      exact ⟨[], [], rfl, rfl, .of_bare (by simp [Bare]) (Nat.le_refl _)⟩
    have hgo : ∀ (piece more : List Char) {e : Char} {n : Nat}, c.rest = piece ++ more →
        piece.length = n → Passed piece [e] →
        readStretch false fuel (e :: acc) (c.skip n) = some (acc', escaped, d) →
        ∃ used read, c.rest = used ++ d.rest ∧ acc' = read.reverse ++ acc ∧ Passed used read := by
      rintro piece more e _ hc rfl hpiece h
      obtain ⟨used, read, hrest, rfl, hpassed⟩ := ih h
      rw [Cursor.skip, hc, List.drop_left] at hrest
      have hmore : more = used ++ d.rest := hrest
      exact ⟨piece ++ used, [e] ++ read, by rw [hc, hmore, List.append_assoc], by simp,
        hpiece.append hpassed⟩
    rw [readStretch] at h
    split at h
    · exact hstop h
    · rename_i e es hrest
      split at h
      · exact hstop h
      · rename_i hspacing
        rw [if_neg (by decide)] at h
        split at h
        · exact hstop h
        · rename_i hquote
          split at h
          · rename_i hescape
            subst hescape
            split at h
            · rename_i b next hnext
              obtain ⟨breaks, hbreaks, hspacing⟩ := newline?_split hnext
              obtain ⟨rfl, rfl, rfl⟩ : acc = acc' ∧ true = escaped ∧ next = d := by simpa using h
              rw [Cursor.skip, hrest] at hbreaks
              refine ⟨'\\' :: breaks, [], by rw [hrest]; exact congrArg _ hbreaks, rfl, ?_⟩
              refine .of_escape (Nat.zero_le _) ?_
              rw [List.count_eq_zero_of_not_mem fun hmem => absurd (hspacing _ hmem) (by decide)]
              exact Nat.zero_le _
            · split at h
              · cases h
              · rename_i e width hread
                obtain ⟨escape, more, rfl, rfl, hpos, hcount⟩ := readEscape_split hread
                exact hgo ('\\' :: escape) more hrest rfl (.of_escape hpos hcount) h
          · rename_i hescape
            refine hgo [e] es hrest rfl (.of_bare ?_ (Nat.le_refl _)) h
            simp [Bare, hquote, hescape]

theorem readGap_passed {escaped : Bool} {g : Gap} {c d : Cursor}
    (h : readGap 0 (c.rest.length + 1) (if escaped then .breaks [] [] else .none) c = some (g, d)) :
    ∃ used, c.rest = used ++ d.rest ∧ Passed used g.text := by
  obtain ⟨line, column, hread, -⟩ := readGap_exact
    (List.all_eq_true.1 List.all_takeWhile)
    (fun e he => eq_false_of_head?_dropWhile he)
    (Nat.lt_succ_of_le (List.takeWhile_sublist isSpacing).length_le)
    (if escaped then .breaks [] [] else .none) List.takeWhile_append_dropWhile.symm
  obtain ⟨rfl, rfl⟩ := Prod.mk.inj (Option.some.inj (h.symm.trans hread))
  refine ⟨c.rest.takeWhile isSpacing, List.takeWhile_append_dropWhile.symm, .of_bare
    (bare_of_isSpacing (List.all_eq_true.1 List.all_takeWhile)) ?_⟩
  cases escaped with
  | true => exact length_breaksOf_le _
  | false => exact length_folded_le _

/-- Of what is read up to the closing quote, no quote is lost, and nothing is added. -/
theorem readQuotedFrom_passed {fuel : Nat} {acc : List Char} {c d : Cursor} {t : String}
    (h : readQuotedFrom false fuel acc c = some (t, d)) :
    ∃ used read, c.rest = used ++ '"' :: d.rest ∧ t = String.ofList (acc.reverse ++ read) ∧
      Passed used read := by
  induction fuel generalizing acc c with
  | zero => cases h
  | succ fuel ih =>
    rw [readQuotedFrom] at h
    split at h
    · cases h
    · split at h
      · cases h
      · rename_i acc' escaped next hstretch
        obtain ⟨used, read, hrest, rfl, hpassed⟩ := readStretch_passed hstretch
        simp only [Bool.false_eq_true, if_false] at h
        split at h
        · rename_i hclosed
          obtain ⟨rfl, rfl⟩ := Prod.mk.inj (Option.some.inj h)
          obtain ⟨-, hpeek⟩ : escaped = false ∧ next.peek = some '"' := by simpa using hclosed
          have hnext : next.rest = '"' :: (next.skip 1).rest := by
            obtain ⟨more, hmore⟩ := List.head?_eq_some_iff.1 hpeek
            rw [Cursor.skip, hmore]
            rfl
          exact ⟨used, read, by rw [hrest, ← hnext], by simp, hpassed⟩
        · split at h
          · cases h
          · rename_i g after hgap
            split at h
            · cases h
            · obtain ⟨gap, hsplit, hgap⟩ := readGap_passed hgap
              obtain ⟨used', read', hlater, rfl, hpassed'⟩ := ih h
              refine ⟨used ++ (gap ++ used'), read ++ (g.text ++ read'), ?_, by simp,
                hpassed.append (hgap.append hpassed')⟩
              rw [hrest, hsplit, hlater]
              simp

/-! ## Texts that are read as themselves -/

variable {s : List Char}

theorem readQuoted_self (hbare : Bare s) (hkept : Unfolded s)
    (hc : c.rest = '"' :: (s ++ '"' :: rest)) :
    ∃ line column, readQuoted false c = some (String.ofList s, ⟨rest, line, column⟩) := by
  have hopen : (c.skip 1).rest = s ++ '"' :: rest := by rw [Cursor.skip, hc]; rfl
  have hplace : (c.skip 1).atDocumentMarker = false := by
    simp [Cursor.atDocumentMarker, Cursor.atMarker, Cursor.skip]
  have hfuel : s.length < c.rest.length + 1 := by
    rw [hc, List.length_cons, List.length_append]
    omega
  exact readQuotedFrom_unfolded hbare hkept hfuel hopen hplace

/-- Between double quotes, no other text is read as itself. -/
theorem kept_of_readQuoted_self (hc : c.rest = '"' :: (s ++ '"' :: rest)) {d : Cursor}
    (h : readQuoted false c = some (String.ofList s, d)) : Bare s ∧ Unfolded s := by
  have hopen : (c.skip 1).rest = s ++ '"' :: rest := by rw [Cursor.skip, hc]; rfl
  obtain ⟨used, read, hrest, hread, hpassed⟩ := readQuotedFrom_passed h
  obtain rfl : s = read := by simpa using congrArg String.toList hread
  have hused : used = s := by
    rcases split_of_append_eq (hopen.symm.trans hrest) with ⟨q, hs, -⟩ | ⟨q, rfl, hq⟩
    · have := hpassed.length
      rw [hs, List.length_append, List.length_cons] at this
      omega
    · cases q with
      | nil => exact List.append_nil s
      | cons e q =>
        obtain ⟨rfl, -⟩ := List.cons.inj hq
        have := hpassed.quotes
        simp only [List.count_append, List.count_cons_self] at this
        omega
  subst hused
  have hbare := hpassed.bare_of_length rfl
  obtain ⟨v, hv, -, hkept⟩ := readQuotedFrom_bare hbare hopen h
  obtain rfl : used = v := by simpa using congrArg String.toList hv
  exact ⟨hbare, hkept rfl⟩

-- A quote inside of a text ends it.
example : (readQuoted false ⟨['"', 'a', '"', 'b', '"'], 0, 0⟩).map Prod.fst = some "a" := by decide

end Yaml
end Conveyor
