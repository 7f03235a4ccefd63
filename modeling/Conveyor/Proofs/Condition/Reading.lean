import Conveyor.Proofs.Condition.Grammar

/-!
# Conveyor.Proofs.Condition.Reading

The readers of conditions read exactly the phrases of the grammar.

A reader takes as many tokens as it can, so a phrase is read as it stands only in front of a token
that cannot continue it. The fuel that a phrase needs is six for each of its tokens, less one for
each looser reader that has been entered before.

* `Derives.reads`        — a phrase is read, with enough fuel and before a token that stops it.
* `derives_of_read`      — what a reader has used up is a phrase.
* `readAll_eq_ok_iff`    — tokens are read to exactly the trees of the conditions they are.
* `parse_eq_ok_iff`      — a text is parsed to exactly the trees of the tokens it spells.
-/

namespace Conveyor
namespace Condition

variable {level outer inner : Level} {ts us rest : List Token} {t op : Token} {e left : Expr}
  {fuel : Nat} {join : Expr → Expr → Expr} {more : Nat → Expr → List Token → Parsed Expr}
  {first : Phrase} {phrases : List Phrase}

def Level.read : Level → Nat → List Token → Parsed Expr
  | .alternative => readOr
  | .conjunction => readAnd
  | .negation => readUnary
  | .comparison => readCompare
  | .primary => readPrimary

/-! ## Where phrases end -/

/-- The place of the tightest kind of phrase that the token can continue. -/
def Token.joins? : Token → Option Nat
  | .opening => some Level.primary.rank
  | .same | .differs => some Level.comparison.rank
  | .both => some Level.conjunction.rank
  | .either => some Level.alternative.rank
  | _ => none

namespace Level

/-- No phrase of the kind goes on with these tokens. -/
def Stops (level : Level) (rest : List Token) : Prop :=
  ∀ t ∈ rest.head?, ∀ place ∈ t.joins?, place < level.rank

theorem Stops.tighten (h : outer.Stops rest) (hrank : outer.rank ≤ inner.rank) :
    inner.Stops rest :=
  fun t ht place hplace => Nat.lt_of_lt_of_le (h t ht place hplace) hrank

theorem Stops.head_ne (h : level.Stops rest) {place : Nat} (hjoins : t.joins? = some place)
    (hrank : level.rank ≤ place) : rest.head? ≠ some t :=
  fun ht => Nat.not_lt_of_le hrank (h t ht place hjoins)

theorem stops_cons {place : Nat} (hjoins : t.joins? = some place) (hrank : place < level.rank) :
    level.Stops (t :: rest) := by
  rintro u ⟨⟩ other hother
  rw [hjoins] at hother
  cases hother
  exact hrank

theorem rank_le (level : Level) : level.rank ≤ 4 := by cases level <;> decide

theorem stops_nil : level.Stops [] := nofun

theorem stops_of_none (h : t.joins? = none) : level.Stops (t :: rest) := by
  rintro u ⟨⟩ place hplace
  rw [h] at hplace
  cases hplace

end Level

/-- The reader of the kind reads the tokens as this tree, wherever they stand as a phrase. -/
def Reads (level : Level) (ts : List Token) (e : Expr) : Prop :=
  ∀ fuel rest, 6 * ts.length ≤ fuel + level.rank + 1 → level.Stops rest →
    level.read fuel (ts ++ rest) = .ok (e, rest)

/-- With this fuel, what a reader has used up is a phrase. -/
def Takes (fuel : Nat) : Prop :=
  ∀ {level : Level} {ts rest : List Token} {e : Expr}, level.read fuel ts = .ok (e, rest) →
    ∃ used, ts = used ++ rest ∧ Derives level used e

/-! ## Repetitions -/

/-- The outer reader reads an inner phrase, and then `more` reads the inner phrases that the
operator joins to it. -/
structure Loops (outer inner : Level) (op : Token) (join : Expr → Expr → Expr)
    (more : Nat → Expr → List Token → Parsed Expr) : Prop where
  rank : inner.rank = outer.rank + 1
  joins : op.joins? = some outer.rank
  start : ∀ {fuel ts}, outer.read (fuel + 1) ts =
    match inner.read fuel ts with
    | .error e => .error e
    | .ok (left, ts) => more fuel left ts
  zero : ∀ {left ts}, more 0 left ts = .error .empty
  step : ∀ {fuel left ts}, more (fuel + 1) left (op :: ts) =
    match inner.read fuel ts with
    | .error e => .error e
    | .ok (right, ts) => more fuel (join left right) ts
  stop : ∀ {fuel left ts}, ts.head? ≠ some op → more (fuel + 1) left ts = .ok (left, ts)

theorem loops_or : Loops .alternative .conjunction .either .or readOrRest where
  rank := rfl
  joins := rfl
  start := rfl
  zero := rfl
  step := rfl
  stop h := by
    rw [readOrRest]
    rintro us rfl
    exact h rfl

theorem loops_and : Loops .conjunction .negation .both .and readAndRest where
  rank := rfl
  joins := rfl
  start := rfl
  zero := rfl
  step := rfl
  stop h := by
    rw [readAndRest]
    rintro us rfl
    exact h rfl

namespace Loops

theorem stops (h : Loops outer inner op join more) (hrest : outer.Stops rest) :
    ∀ phrases : List Phrase, inner.Stops ((phrases.flatMap fun p => op :: p.tokens) ++ rest)
  | [] => hrest.tighten (h.rank ▸ Nat.le_succ _)
  | _ :: _ => Level.stops_cons h.joins (h.rank ▸ Nat.lt_succ_self _)

theorem reads_more (h : Loops outer inner op join more) (hrest : outer.Stops rest) :
    ∀ {phrases : List Phrase} {fuel : Nat} {left : Expr},
      (∀ p ∈ phrases, Reads inner p.tokens p.tree) →
      6 * (phrases.flatMap fun p => op :: p.tokens).length < fuel →
      more fuel left ((phrases.flatMap fun p => op :: p.tokens) ++ rest) =
        .ok (Phrase.joined join left phrases, rest) := by
  intro phrases
  induction phrases with
  | nil =>
    intro fuel left _ hfuel
    obtain ⟨fuel, rfl⟩ := Nat.exists_eq_add_one.2 hfuel
    exact h.stop (hrest.head_ne h.joins (Nat.le_refl _))
  | cons p phrases ih =>
    intro fuel left hreads hfuel
    obtain ⟨hp, hphrases⟩ := List.forall_mem_cons.1 hreads
    obtain ⟨fuel, rfl⟩ := Nat.exists_eq_add_one.2 (Nat.zero_lt_of_lt hfuel)
    simp only [List.flatMap_cons, List.cons_append, List.append_assoc, List.length_cons,
      List.length_append] at hfuel ⊢
    rw [h.step, hp fuel _ (by omega) (h.stops hrest phrases)]
    exact ih hphrases (by omega)

theorem reads (h : Loops outer inner op join more) (hne : first.tokens ≠ [])
    (hfirst : Reads inner first.tokens first.tree)
    (hphrases : ∀ p ∈ phrases, Reads inner p.tokens p.tree) :
    Reads outer (Phrase.chain op first phrases) (Phrase.joined join first.tree phrases) := by
  intro fuel rest hfuel hrest
  have hpos := List.length_pos_iff.2 hne
  have hle := inner.rank_le
  have hrank := h.rank
  simp only [Phrase.chain, List.length_append] at hfuel
  obtain ⟨fuel, rfl⟩ : ∃ n, fuel = n + 1 := Nat.exists_eq_add_one.2 (by omega)
  rw [h.start, Phrase.chain, List.append_assoc,
    hfirst fuel _ (by omega) (h.stops hrest phrases)]
  exact h.reads_more hrest hphrases (by omega)

/-- What `more` has used up is inner phrases with the operator in front of them. -/
theorem takes_more (h : Loops outer inner op join more) :
    ∀ {fuel : Nat} {left : Expr} {ts : List Token}, (∀ m < fuel, Takes m) →
      more fuel left ts = .ok (e, rest) →
      ∃ phrases : List Phrase, ts = (phrases.flatMap fun p => op :: p.tokens) ++ rest ∧
        e = Phrase.joined join left phrases ∧ ∀ p ∈ phrases, Derives inner p.tokens p.tree := by
  intro fuel
  induction fuel with
  | zero =>
    intro left ts _ hread
    rw [h.zero] at hread
    cases hread
  | succ fuel ih =>
    intro left ts htakes hread
    by_cases hop : ts.head? = some op
    · obtain ⟨us, rfl⟩ := List.head?_eq_some_iff.1 hop
      rw [h.step] at hread
      split at hread
      · cases hread
      · rename_i right out hright
        obtain ⟨used, rfl, hused⟩ := htakes fuel (Nat.lt_succ_self fuel) hright
        obtain ⟨phrases, rfl, rfl, hphrases⟩ :=
          ih (fun m hm => htakes m (Nat.lt_succ_of_lt hm)) hread
        refine ⟨⟨used, right⟩ :: phrases, ?_, rfl, List.forall_mem_cons.2 ⟨hused, hphrases⟩⟩
        rw [List.flatMap_cons, List.cons_append, List.cons_append, List.append_assoc]
    · rw [h.stop hop] at hread
      cases hread
      exact ⟨[], rfl, rfl, nofun⟩

theorem takes (h : Loops outer inner op join more) (htakes : ∀ m ≤ fuel, Takes m)
    (hread : outer.read (fuel + 1) ts = .ok (e, rest)) :
    ∃ (first : Phrase) (phrases : List Phrase), ts = Phrase.chain op first phrases ++ rest ∧
      e = Phrase.joined join first.tree phrases ∧ Derives inner first.tokens first.tree ∧
      ∀ p ∈ phrases, Derives inner p.tokens p.tree := by
  rw [h.start] at hread
  split at hread
  · cases hread
  · rename_i tree out hfirst
    obtain ⟨used, rfl, hused⟩ := htakes fuel (Nat.le_refl _) hfirst
    obtain ⟨phrases, rfl, rfl, hphrases⟩ :=
      h.takes_more (fun m hm => htakes m (Nat.le_of_lt hm)) hread
    refine ⟨⟨used, tree⟩, phrases, ?_, rfl, hused, hphrases⟩
    rw [Phrase.chain, List.append_assoc]

end Loops

/-! ## Arguments -/

theorem readArgs_last (h : readOr fuel ts = .ok (e, .closing :: rest)) :
    readArgs (fuel + 1) ts = .ok ([e], .closing :: rest) := by
  rw [readArgs, h]

theorem readArgs_next {args : List Expr} {out : List Token}
    (h : readOr fuel ts = .ok (e, .comma :: us)) (hmore : readArgs fuel us = .ok (args, out)) :
    readArgs (fuel + 1) ts = .ok (e :: args, out) := by
  simp only [readArgs, h, hmore]

theorem readArgs_chain :
    ∀ {phrases : List Phrase} {first : Phrase} {fuel : Nat},
      (∀ p ∈ first :: phrases, Reads .alternative p.tokens p.tree) →
      6 * (Phrase.chain .comma first phrases).length < fuel →
      readArgs fuel (Phrase.chain .comma first phrases ++ .closing :: rest) =
        .ok (first.tree :: phrases.map (·.tree), .closing :: rest) := by
  intro phrases
  induction phrases with
  | nil =>
    intro first fuel hreads hfuel
    obtain ⟨hfirst, _⟩ := List.forall_mem_cons.1 hreads
    obtain ⟨fuel, rfl⟩ := Nat.exists_eq_add_one.2 (Nat.zero_lt_of_lt hfuel)
    simp only [Phrase.chain, List.flatMap_nil, List.append_nil] at hfuel ⊢
    exact readArgs_last
      (hfirst fuel (.closing :: rest) (Nat.le_of_lt hfuel) (Level.stops_of_none rfl))
  | cons next phrases ih =>
    intro first fuel hreads hfuel
    obtain ⟨hfirst, hreads⟩ := List.forall_mem_cons.1 hreads
    obtain ⟨fuel, rfl⟩ := Nat.exists_eq_add_one.2 (Nat.zero_lt_of_lt hfuel)
    rw [Phrase.chain_cons] at hfuel ⊢
    simp only [List.length_append, List.length_cons, List.append_assoc, List.cons_append]
      at hfuel ⊢
    have hbound : 6 * first.tokens.length ≤ fuel + Level.alternative.rank + 1 := by omega
    exact readArgs_next (hfirst fuel (.comma :: _) hbound (Level.stops_of_none rfl))
      (ih hreads (by omega))

/-- What the reader of arguments has used up is phrases with commas between them. -/
theorem takes_args :
    ∀ {fuel : Nat} {ts : List Token} {args : List Expr}, (∀ m < fuel, Takes m) →
      readArgs fuel ts = .ok (args, rest) →
      ∃ (first : Phrase) (phrases : List Phrase), ts = Phrase.chain .comma first phrases ++ rest ∧
        args = first.tree :: phrases.map (·.tree) ∧
        ∀ p ∈ first :: phrases, Derives .alternative p.tokens p.tree := by
  intro fuel
  induction fuel with
  | zero =>
    intro ts args _ hread
    cases hread
  | succ fuel ih =>
    intro ts args htakes hread
    have htakes_next := @htakes fuel (Nat.lt_succ_self fuel) .alternative
    rw [readArgs] at hread
    split at hread
    · cases hread
    · rename_i tree out hfirst
      obtain ⟨used, rfl, hused⟩ := htakes_next hfirst
      split at hread
      · cases hread
      · rename_i args' out' hmore
        cases hread
        obtain ⟨next, phrases, rfl, rfl, hphrases⟩ :=
          ih (fun m hm => htakes m (Nat.lt_succ_of_lt hm)) hmore
        refine ⟨⟨used, tree⟩, next :: phrases, ?_, rfl, List.forall_mem_cons.2 ⟨hused, hphrases⟩⟩
        rw [Phrase.chain_cons, List.append_assoc, List.cons_append]
    · rename_i tree _ _ hfirst
      cases hread
      obtain ⟨used, rfl, hused⟩ := htakes_next hfirst
      exact ⟨⟨used, tree⟩, [], by simp [Phrase.chain], rfl, by simpa using hused⟩

/-! ## Phrases are read -/

theorem exists_fuel (hne : ts ≠ []) (hfuel : 6 * ts.length ≤ fuel + level.rank + 1) :
    ∃ n, fuel = n + 1 := by
  have hpos := List.length_pos_iff.2 hne
  have hrank := level.rank_le
  exact Nat.exists_eq_add_one.2 (by omega)

namespace Reads

theorem not (h : Reads .negation ts e) : Reads .negation (.bang :: ts) (.not e) := by
  intro fuel rest hfuel hrest
  obtain ⟨fuel, rfl⟩ := exists_fuel (List.cons_ne_nil _ _) hfuel
  rw [List.length_cons] at hfuel
  have hread : readUnary fuel (ts ++ rest) = .ok (e, rest) := h fuel rest (by omega) hrest
  change readUnary (fuel + 1) (.bang :: (ts ++ rest)) = _
  rw [readUnary, hread]

theorem comparison (hbegins : ∃ t us, ts = t :: us ∧ Level.comparison.Begins t)
    (h : Reads .comparison ts e) : Reads .negation ts e := by
  obtain ⟨t, us, rfl, ht⟩ := hbegins
  intro fuel rest hfuel hrest
  obtain ⟨fuel, rfl⟩ := exists_fuel (List.cons_ne_nil _ _) hfuel
  have hread : readCompare fuel (t :: us ++ rest) = .ok (e, rest) :=
    h fuel rest (by simp only [Level.rank] at hfuel ⊢; omega) (hrest.tighten (by decide))
  change readUnary (fuel + 1) (t :: (us ++ rest)) = _
  rw [readUnary]
  · exact hread
  · rintro vs ⟨⟩
    rcases ht with ht | ⟨_, hrank⟩
    · cases ht
    · exact absurd hrank (by decide)

theorem primary (hne : ts ≠ []) (h : Reads .primary ts e) :
    Reads .comparison ts e := by
  intro fuel rest hfuel hrest
  obtain ⟨fuel, rfl⟩ := exists_fuel hne hfuel
  have hread : readPrimary fuel (ts ++ rest) = .ok (e, rest) :=
    h fuel rest (by simp only [Level.rank] at hfuel ⊢; omega) (hrest.tighten (by decide))
  change readCompare (fuel + 1) (ts ++ rest) = _
  rw [readCompare, hread]
  cases rest with
  | nil => rfl
  | cons t rest =>
    have hsame := hrest.head_ne (t := .same) rfl (Nat.le_refl _)
    have hdiffers := hrest.head_ne (t := .differs) rfl (Nat.le_refl _)
    cases t <;> first | rfl | exact absurd rfl hsame | exact absurd rfl hdiffers

theorem compared {a b : Expr} (hop : op = .same ∧ join = .eq ∨ op = .differs ∧ join = .ne)
    (ha : Reads .primary ts a) (hb : Reads .primary us b) :
    Reads .comparison (ts ++ op :: us) (join a b) := by
  intro fuel rest hfuel hrest
  obtain ⟨fuel, rfl⟩ := exists_fuel (by simp) hfuel
  simp only [List.length_append, List.length_cons, Level.rank] at hfuel
  have hjoins : op.joins? = some Level.comparison.rank := by
    rcases hop with ⟨rfl, _⟩ | ⟨rfl, _⟩ <;> rfl
  have hleft : readPrimary fuel (ts ++ op :: (us ++ rest)) = .ok (a, op :: (us ++ rest)) :=
    ha fuel _ (by simp only [Level.rank]; omega) (Level.stops_cons hjoins (by decide))
  have hright : readPrimary fuel (us ++ rest) = .ok (b, rest) :=
    hb fuel rest (by simp only [Level.rank]; omega) (hrest.tighten (by decide))
  change readCompare (fuel + 1) (ts ++ op :: us ++ rest) = _
  rw [List.append_assoc, List.cons_append, readCompare, hleft]
  rcases hop with ⟨rfl, rfl⟩ | ⟨rfl, rfl⟩ <;> simp only [hright]

theorem group (h : Reads .alternative ts e) :
    Reads .primary (.opening :: (ts ++ [.closing])) e := by
  intro fuel rest hfuel _
  obtain ⟨fuel, rfl⟩ := exists_fuel (List.cons_ne_nil _ _) hfuel
  simp only [List.length_cons, List.length_append, List.length_nil, Level.rank] at hfuel
  have hread : readOr fuel (ts ++ .closing :: rest) = .ok (e, .closing :: rest) :=
    h fuel _ (by omega) (Level.stops_of_none rfl)
  change readPrimary (fuel + 1) (.opening :: (ts ++ [.closing] ++ rest)) = _
  rw [List.append_assoc, List.singleton_append, readPrimary, hread]
  rfl

theorem fact {name : String} : Reads .primary [.word name] (.fact name) := by
  intro fuel rest hfuel hrest
  obtain ⟨fuel, rfl⟩ := exists_fuel (List.cons_ne_nil _ _) hfuel
  have hopening := hrest.head_ne (t := .opening) rfl (Nat.le_refl _)
  cases rest with
  | nil => rfl
  | cons t rest => cases t <;> first | rfl | exact absurd rfl hopening

theorem call {name : String} (hne : first.tokens ≠ [])
    (hclosing : first.tokens.head? ≠ some .closing)
    (h : ∀ p ∈ first :: phrases, Reads .alternative p.tokens p.tree) :
    Reads .primary (.word name :: .opening :: (Phrase.chain .comma first phrases ++ [.closing]))
      (.call name (first.tree :: phrases.map (·.tree))) := by
  intro fuel rest hfuel _
  obtain ⟨fuel, rfl⟩ := exists_fuel (List.cons_ne_nil _ _) hfuel
  simp only [List.length_cons, List.length_append, List.length_nil, Level.rank] at hfuel
  change readPrimary (fuel + 1)
    (.word name :: .opening :: (Phrase.chain .comma first phrases ++ [.closing] ++ rest)) = _
  rw [List.append_assoc, List.singleton_append, readPrimary, readArgs_chain h (by omega)]
  · rfl
  · obtain ⟨t, us, hts⟩ := List.exists_cons_of_ne_nil hne
    rw [Phrase.chain, hts]
    rintro vs ⟨⟩
    exact hclosing (hts ▸ rfl)

end Reads

/-- A phrase is read as its tree, wherever it stands as a phrase. -/
theorem Derives.reads (h : Derives level ts e) : Reads level ts e := by
  induction h with
  | alternative hfirst _ ih ihs => exact loops_or.reads hfirst.tidy.some ih ihs
  | conjunction hfirst _ ih ihs => exact loops_and.reads hfirst.tidy.some ih ihs
  | not _ ih => exact ih.not
  | comparison h ih => exact ih.comparison h.begins
  | eq _ _ iha ihb => exact .compared (.inl ⟨rfl, rfl⟩) iha ihb
  | ne _ _ iha ihb => exact .compared (.inr ⟨rfl, rfl⟩) iha ihb
  | primary h ih => exact ih.primary h.tidy.some
  | group _ ih => exact ih.group
  | fact => exact .fact
  | call h _ ih ihs =>
    exact .call h.tidy.some (fun hc => (h.head_ne _ hc).2 rfl) (List.forall_mem_cons.2 ⟨ih, ihs⟩)
  | str | yes | no | callNone =>
    intro fuel rest hfuel _
    obtain ⟨fuel, rfl⟩ := exists_fuel (List.cons_ne_nil _ _) hfuel
    rfl

/-! ## What is read is a phrase -/

theorem expect_map_eq_ok_iff {tree : Expr} :
    ((expect t ts).map fun ts => (tree, ts)) = .ok (e, rest) ↔ tree = e ∧ ts = t :: rest := by
  cases ts with
  | nil => simp [expect, Except.map]
  | cons u ts => by_cases hu : u = t <;> simp [expect, Except.map, hu]

theorem takes_unary (h : ∀ m < fuel, Takes m) (hread : readUnary fuel ts = .ok (e, rest)) :
    ∃ used, ts = used ++ rest ∧ Derives .negation used e := by
  obtain _ | fuel := fuel
  · cases hread
  have htakes := @h fuel (Nat.lt_succ_self fuel)
  rw [readUnary.eq_def] at hread
  dsimp only at hread
  split at hread
  · split at hread
    · cases hread
    · rename_i us _ tree out hnot
      cases hread
      obtain ⟨used, rfl, hused⟩ := @htakes .negation _ _ _ hnot
      exact ⟨.bang :: used, rfl, .not hused⟩
  · obtain ⟨used, rfl, hused⟩ := @htakes .comparison _ _ _ hread
    exact ⟨used, rfl, .comparison hused⟩

theorem takes_compare (h : ∀ m < fuel, Takes m) (hread : readCompare fuel ts = .ok (e, rest)) :
    ∃ used, ts = used ++ rest ∧ Derives .comparison used e := by
  obtain _ | fuel := fuel
  · cases hread
  have htakes := @h fuel (Nat.lt_succ_self fuel) .primary
  rw [readCompare.eq_def] at hread
  dsimp only at hread
  split at hread
  · cases hread
  · rename_i left us hleft
    obtain ⟨used, rfl, hused⟩ := htakes hleft
    split at hread
    · cases hread
    · rename_i right out hright
      cases hread
      obtain ⟨more, rfl, hmore⟩ := htakes hright
      exact ⟨used ++ .same :: more, by simp, .eq hused hmore⟩
  · rename_i left us hleft
    obtain ⟨used, rfl, hused⟩ := htakes hleft
    split at hread
    · cases hread
    · rename_i right out hright
      cases hread
      obtain ⟨more, rfl, hmore⟩ := htakes hright
      exact ⟨used ++ .differs :: more, by simp, .ne hused hmore⟩
  · rename_i hleft
    cases hread
    obtain ⟨used, rfl, hused⟩ := htakes hleft
    exact ⟨used, rfl, .primary hused⟩

theorem takes_primary (h : ∀ m < fuel, Takes m) (hread : readPrimary fuel ts = .ok (e, rest)) :
    ∃ used, ts = used ++ rest ∧ Derives .primary used e := by
  obtain _ | fuel := fuel
  · cases hread
  have hless (m : Nat) (hm : m < fuel) : Takes m := h m (Nat.lt_succ_of_lt hm)
  rw [readPrimary.eq_def] at hread
  dsimp only at hread
  split at hread
  · cases hread
  · split at hread
    · cases hread
    · rename_i hinner
      obtain ⟨used, rfl, hused⟩ := @h fuel (Nat.lt_succ_self fuel) .alternative _ _ _ hinner
      obtain ⟨rfl, rfl⟩ := expect_map_eq_ok_iff.1 hread
      exact ⟨.opening :: (used ++ [.closing]), by simp, .group hused⟩
  · cases hread
    exact ⟨[_], rfl, .str⟩
  · cases hread
    exact ⟨[_], rfl, .yes⟩
  · cases hread
    exact ⟨[_], rfl, .no⟩
  · cases hread
    exact ⟨[_, _, _], rfl, .callNone⟩
  · split at hread
    · cases hread
    · rename_i hargs
      obtain ⟨first, phrases, rfl, rfl, hderives⟩ := takes_args hless hargs
      obtain ⟨hfirst, hphrases⟩ := List.forall_mem_cons.1 hderives
      obtain ⟨rfl, rfl⟩ := expect_map_eq_ok_iff.1 hread
      exact ⟨_ :: .opening :: (Phrase.chain .comma first phrases ++ [.closing]), by simp,
        .call hfirst hphrases⟩
  · cases hread
    exact ⟨[_], rfl, .fact⟩
  · cases hread

theorem takes (fuel : Nat) : Takes fuel := by
  induction fuel using Nat.strong_induction_on with
  | _ fuel ih =>
    intro level ts rest e hread
    cases level with
    | alternative =>
      obtain _ | fuel := fuel
      · cases hread
      obtain ⟨first, phrases, rfl, rfl, hfirst, hphrases⟩ :=
        loops_or.takes (fun m hm => ih m (Nat.lt_succ_of_le hm)) hread
      exact ⟨_, rfl, .alternative hfirst hphrases⟩
    | conjunction =>
      obtain _ | fuel := fuel
      · cases hread
      obtain ⟨first, phrases, rfl, rfl, hfirst, hphrases⟩ :=
        loops_and.takes (fun m hm => ih m (Nat.lt_succ_of_le hm)) hread
      exact ⟨_, rfl, .conjunction hfirst hphrases⟩
    | negation => exact takes_unary ih hread
    | comparison => exact takes_compare ih hread
    | primary => exact takes_primary ih hread

/-! ## Conditions -/

theorem readAll_eq_ok_iff : readAll ts = .ok e ↔ Derives .alternative ts e := by
  constructor
  · intro h
    rw [readAll.eq_def] at h
    split at h
    · cases h
    · split at h
      · cases h
      · cases h
      · rename_i hread
        cases h
        obtain ⟨used, rfl, hused⟩ := @takes (6 * ts.length + 6) .alternative ts [] e hread
        rwa [List.append_nil]
  · intro h
    have hread : readOr (6 * ts.length + 6) (ts ++ []) = .ok (e, []) :=
      h.reads (6 * ts.length + 6) [] (by simp only [Level.rank]; omega) Level.stops_nil
    rw [List.append_nil] at hread
    rw [readAll]
    · simp only [hread]
    · exact h.tidy.some

theorem Derives.unique {e' : Expr} (h : Derives .alternative ts e)
    (h' : Derives .alternative ts e') : e = e' := by
  have hread := (readAll_eq_ok_iff.2 h).symm.trans (readAll_eq_ok_iff.2 h')
  injection hread

theorem Derives.scan_eq {source : String} (h : Derives level ts e)
    (hspells : Spells source.toList ts) : Token.scan source = .ok ts :=
  scan_of_spells hspells h.tidy.apart

/-- A text is parsed to exactly the well-named trees of the conditions that it spells. -/
theorem parse_eq_ok_iff {source : String} : parse source = .ok e ↔
    ∃ ts, Spells source.toList ts ∧ Derives .alternative ts e ∧ e.WellNamed := by
  rw [parse]
  constructor
  · intro h
    split at h
    · cases h
    · rename_i ts hscan
      split at h
      · cases h
      · rename_i hread
        split at h
        · cases h
        · rename_i hcheck
          cases h
          exact ⟨ts, spells_of_scan hscan, readAll_eq_ok_iff.1 hread,
            Expr.check_eq_ok_iff _ |>.1 hcheck⟩
  · rintro ⟨ts, hspells, hderives, hnamed⟩
    simp only [hderives.scan_eq hspells, readAll_eq_ok_iff.2 hderives,
      (Expr.check_eq_ok_iff e).2 hnamed]

end Condition
end Conveyor
