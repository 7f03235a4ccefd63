import Conveyor.Proofs.Condition.Reading

/-!
# Conveyor.Proofs.Condition.Rendering

The ways to write a tree as a condition.

A rendering is a tree with parentheses that its author has put around some of its parts. It is
written with these, and with those that the binding of the operators needs: `&&` binds tighter
than `||`, `!` applies to a whole comparison, both joining operators group from the left, and the
sides of a comparison are neither comparisons nor negations.

* `Rendering.tokens`            — the tokens of a rendering.
* `derives_iff_exists_rendering` — the phrases of the grammar are the renderings of their trees.
* `Derives.writes_iff`          — which trees have tokens that can be written at all.
* `parse_exact`                 — a text is parsed exactly if it renders a tree, and to that tree.
-/

namespace Conveyor
namespace Condition

/-- A tree with parentheses around some of its parts. -/
inductive Rendering where
  | bool (b : Bool)
  | str (s : String)
  | fact (name : String)
  | call (name : String) (args : List Rendering)
  | not (r : Rendering)
  | and (a b : Rendering)
  | or (a b : Rendering)
  | eq (a b : Rendering)
  | ne (a b : Rendering)
  | group (r : Rendering)

/-- The tokens of a phrase of the inner kind, in parentheses if the outer kind is tighter. -/
def Level.fit (outer inner : Level) (ts : List Token) : List Token :=
  if outer.rank ≤ inner.rank then ts else .opening :: (ts ++ [.closing])

namespace Rendering

def level : Rendering → Level
  | .or _ _ => .alternative
  | .and _ _ => .conjunction
  | .not _ => .negation
  | .eq _ _ | .ne _ _ => .comparison
  | .bool _ | .str _ | .fact _ | .call _ _ | .group _ => .primary

mutual

def tree : Rendering → Expr
  | .bool b => .bool b
  | .str s => .str s
  | .fact name => .fact name
  | .call name args => .call name (trees args)
  | .not r => .not r.tree
  | .and a b => .and a.tree b.tree
  | .or a b => .or a.tree b.tree
  | .eq a b => .eq a.tree b.tree
  | .ne a b => .ne a.tree b.tree
  | .group r => r.tree

def trees : List Rendering → List Expr
  | [] => []
  | r :: rest => r.tree :: trees rest

end

mutual

def tokens : Rendering → List Token
  | .bool b => [if b then .yes else .no]
  | .str s => [.str s]
  | .fact name => [.word name]
  | .call name [] => [.word name, .opening, .closing]
  | .call name (r :: rest) =>
    .word name :: .opening :: (r.tokens ++ tokensAfterComma rest ++ [.closing])
  | .not r => .bang :: Level.negation.fit r.level r.tokens
  | .and a b =>
    Level.conjunction.fit a.level a.tokens ++ .both :: Level.negation.fit b.level b.tokens
  | .or a b =>
    Level.alternative.fit a.level a.tokens ++ .either :: Level.conjunction.fit b.level b.tokens
  | .eq a b => Level.primary.fit a.level a.tokens ++ .same :: Level.primary.fit b.level b.tokens
  | .ne a b =>
    Level.primary.fit a.level a.tokens ++ .differs :: Level.primary.fit b.level b.tokens
  | .group r => .opening :: (r.tokens ++ [.closing])

def tokensAfterComma : List Rendering → List Token
  | [] => []
  | r :: rest => .comma :: (r.tokens ++ tokensAfterComma rest)

end

mutual

/-- The rendering of a tree with no more parentheses than it needs. -/
def bare : Expr → Rendering
  | .bool b => .bool b
  | .str s => .str s
  | .fact name => .fact name
  | .call name args => .call name (bareAll args)
  | .not e => .not (bare e)
  | .and a b => .and (bare a) (bare b)
  | .or a b => .or (bare a) (bare b)
  | .eq a b => .eq (bare a) (bare b)
  | .ne a b => .ne (bare a) (bare b)

def bareAll : List Expr → List Rendering
  | [] => []
  | e :: rest => bare e :: bareAll rest

end

mutual

theorem tree_bare : ∀ e : Expr, (bare e).tree = e
  | .bool _ | .str _ | .fact _ => rfl
  | .not e => by rw [bare, tree, tree_bare e]
  | .and a b | .or a b | .eq a b | .ne a b => by rw [bare, tree, tree_bare a, tree_bare b]
  | .call name args => by rw [bare, tree, trees_bareAll args]

theorem trees_bareAll : ∀ l : List Expr, trees (bareAll l) = l
  | [] => rfl
  | e :: rest => by rw [bareAll, trees, tree_bare e, trees_bareAll rest]

end

def phrase (r : Rendering) : Phrase := ⟨r.tokens, r.tree⟩

theorem trees_eq_map : ∀ l : List Rendering, trees l = l.map tree
  | [] => rfl
  | r :: rest => by rw [trees, trees_eq_map rest, List.map_cons]

theorem tokensAfterComma_eq : ∀ l : List Rendering,
    tokensAfterComma l = (l.map phrase).flatMap fun p => .comma :: p.tokens
  | [] => rfl
  | r :: rest => by
    rw [tokensAfterComma, tokensAfterComma_eq rest, List.map_cons, List.flatMap_cons,
      List.cons_append]
    rfl

end Rendering

variable {level outer inner : Level} {ts us : List Token} {e a b : Expr}

/-! ## Renderings are phrases -/

namespace Derives

theorem single_conjunction (h : Derives .conjunction ts e) : Derives .alternative ts e := by
  simpa [Phrase.chain, Phrase.joined] using
    @Derives.alternative ⟨ts, e⟩ [] h (List.forall_mem_nil _)

theorem single_negation (h : Derives .negation ts e) : Derives .conjunction ts e := by
  simpa [Phrase.chain, Phrase.joined] using
    @Derives.conjunction ⟨ts, e⟩ [] h (List.forall_mem_nil _)

theorem loosen (h : Derives inner ts e) (hrank : outer.rank ≤ inner.rank) :
    Derives outer ts e := by
  cases inner <;> cases outer <;>
    first
      | exact h
      | exact absurd hrank (by decide)
      | solve_by_elim [single_conjunction, single_negation, Derives.comparison, Derives.primary]

theorem fit (h : Derives inner ts e) : Derives outer (outer.fit inner ts) e := by
  rw [Level.fit]
  split
  · rename_i hrank
    exact h.loosen hrank
  · exact (Derives.group (h.loosen (Nat.zero_le _))).loosen outer.rank_le

theorem or (ha : Derives .alternative ts a) (hb : Derives .conjunction us b) :
    Derives .alternative (ts ++ .either :: us) (.or a b) := by
  cases ha with
  | @alternative first rest hfirst hrest =>
    have hmore : ∀ p ∈ rest ++ [⟨us, b⟩], Derives .conjunction p.tokens p.tree := by
      simpa [or_imp, forall_and] using And.intro hrest hb
    simpa [Phrase.chain, Phrase.joined] using Derives.alternative hfirst hmore

theorem and (ha : Derives .conjunction ts a) (hb : Derives .negation us b) :
    Derives .conjunction (ts ++ .both :: us) (.and a b) := by
  cases ha with
  | @conjunction first rest hfirst hrest =>
    have hmore : ∀ p ∈ rest ++ [⟨us, b⟩], Derives .negation p.tokens p.tree := by
      simpa [or_imp, forall_and] using And.intro hrest hb
    simpa [Phrase.chain, Phrase.joined] using Derives.conjunction hfirst hmore

end Derives

namespace Rendering

mutual

theorem derives : ∀ r : Rendering, Derives r.level r.tokens r.tree
  | .bool b => by cases b <;> rw [tokens, tree] <;> constructor
  | .str s => .str
  | .fact name => .fact
  | .call name [] => .callNone
  | .call name (r :: rest) => by
    have hrest : ∀ p ∈ rest.map phrase, Derives .alternative p.tokens p.tree := by
      simpa [phrase] using fun r hr => derives_all rest r hr
    have hcall : Derives .primary _ (.call name (r.tree :: (rest.map phrase).map (·.tree))) :=
      @Derives.call name r.phrase (rest.map phrase) ((derives r).loosen (Nat.zero_le _)) hrest
    rw [List.map_map] at hcall
    rw [tokens, tokensAfterComma_eq, tree, trees_eq_map]
    exact hcall
  | .not r => .not (derives r).fit
  | .and a b => .and (derives a).fit (derives b).fit
  | .or a b => .or (derives a).fit (derives b).fit
  | .eq a b => .eq (derives a).fit (derives b).fit
  | .ne a b => .ne (derives a).fit (derives b).fit
  | .group r => .group ((derives r).loosen (Nat.zero_le _))

theorem derives_all : ∀ l : List Rendering, ∀ r ∈ l, Derives .alternative r.tokens r.tree
  | [] => nofun
  | r :: rest => List.forall_mem_cons.2 ⟨(derives r).loosen (Nat.zero_le _), derives_all rest⟩

end

/-! ## Phrases are renderings -/

/-- The rendering is of this tree, and it is these tokens, as a phrase of the kind. -/
structure Gives (r : Rendering) (level : Level) (ts : List Token) (e : Expr) : Prop where
  tree : r.tree = e
  tokens : r.tokens = ts
  rank : level.rank ≤ r.level.rank

namespace Gives

variable {r s : Rendering}

theorem fit (h : r.Gives level ts e) : level.fit r.level r.tokens = ts := by
  rw [Level.fit, if_pos h.rank, h.tokens]

theorem loosen (h : r.Gives inner ts e) (hrank : outer.rank ≤ inner.rank) :
    r.Gives outer ts e :=
  ⟨h.tree, h.tokens, Nat.le_trans hrank h.rank⟩

theorem not (h : r.Gives .negation ts e) :
    (Rendering.not r).Gives .negation (.bang :: ts) (.not e) :=
  ⟨by rw [Rendering.tree, h.tree], by rw [Rendering.tokens, h.fit], Nat.le_refl _⟩

theorem and (ha : r.Gives .conjunction ts a) (hb : s.Gives .negation us b) :
    (Rendering.and r s).Gives .conjunction (ts ++ .both :: us) (.and a b) :=
  ⟨by rw [Rendering.tree, ha.tree, hb.tree], by rw [Rendering.tokens, ha.fit, hb.fit],
    Nat.le_refl _⟩

theorem or (ha : r.Gives .alternative ts a) (hb : s.Gives .conjunction us b) :
    (Rendering.or r s).Gives .alternative (ts ++ .either :: us) (.or a b) :=
  ⟨by rw [Rendering.tree, ha.tree, hb.tree], by rw [Rendering.tokens, ha.fit, hb.fit],
    Nat.le_refl _⟩

theorem eq (ha : r.Gives .primary ts a) (hb : s.Gives .primary us b) :
    (Rendering.eq r s).Gives .comparison (ts ++ .same :: us) (.eq a b) :=
  ⟨by rw [Rendering.tree, ha.tree, hb.tree], by rw [Rendering.tokens, ha.fit, hb.fit],
    Nat.le_refl _⟩

theorem ne (ha : r.Gives .primary ts a) (hb : s.Gives .primary us b) :
    (Rendering.ne r s).Gives .comparison (ts ++ .differs :: us) (.ne a b) :=
  ⟨by rw [Rendering.tree, ha.tree, hb.tree], by rw [Rendering.tokens, ha.fit, hb.fit],
    Nat.le_refl _⟩

theorem group (h : r.Gives .alternative ts e) :
    (Rendering.group r).Gives .primary (.opening :: (ts ++ [.closing])) e :=
  ⟨by rw [Rendering.tree, h.tree], by rw [Rendering.tokens, h.tokens], Nat.le_refl _⟩

/-- Renderings joined from the left. -/
theorem exists_joined {op : Token} {join : Expr → Expr → Expr}
    (hjoin : ∀ {r s : Rendering} {ts us : List Token} {a b : Expr}, r.Gives outer ts a →
      s.Gives inner us b → ∃ t : Rendering, t.Gives outer (ts ++ op :: us) (join a b)) :
    ∀ (phrases : List Phrase) {r : Rendering} {ts : List Token} {e : Expr},
      (∀ p ∈ phrases, ∃ s : Rendering, s.Gives inner p.tokens p.tree) → r.Gives outer ts e →
      ∃ t : Rendering, t.Gives outer (ts ++ phrases.flatMap fun p => op :: p.tokens)
        (Phrase.joined join e phrases) := by
  intro phrases
  induction phrases with
  | nil =>
    intro r ts e _ hr
    exact ⟨r, by simpa [Phrase.joined] using hr⟩
  | cons p phrases ih =>
    intro r ts e hphrases hr
    obtain ⟨⟨s, hs⟩, hphrases⟩ := List.forall_mem_cons.1 hphrases
    obtain ⟨t, ht⟩ := hjoin hr hs
    obtain ⟨all, hall⟩ := ih hphrases ht
    rw [List.append_assoc] at hall
    exact ⟨all, hall⟩

theorem exists_phrases : ∀ phrases : List Phrase,
    (∀ p ∈ phrases, ∃ r : Rendering, r.Gives .alternative p.tokens p.tree) →
      ∃ l : List Rendering, l.map phrase = phrases := by
  intro phrases
  induction phrases with
  | nil => exact fun _ => ⟨[], rfl⟩
  | cons p phrases ih =>
    intro h
    obtain ⟨⟨r, hr⟩, hphrases⟩ := List.forall_mem_cons.1 h
    obtain ⟨l, rfl⟩ := ih hphrases
    exact ⟨r :: l, by rw [List.map_cons, phrase, hr.tokens, hr.tree]⟩

end Gives
end Rendering

open Rendering in
theorem Derives.exists_gives (h : Derives level ts e) : ∃ r : Rendering, r.Gives level ts e := by
  induction h with
  | alternative _ _ ih ihs =>
    obtain ⟨r, hr⟩ := ih
    exact Gives.exists_joined (fun ha hb => ⟨_, ha.or hb⟩) _ ihs (hr.loosen (by decide))
  | conjunction _ _ ih ihs =>
    obtain ⟨r, hr⟩ := ih
    exact Gives.exists_joined (fun ha hb => ⟨_, ha.and hb⟩) _ ihs (hr.loosen (by decide))
  | not _ ih =>
    obtain ⟨r, hr⟩ := ih
    exact ⟨_, hr.not⟩
  | comparison _ ih | primary _ ih =>
    obtain ⟨r, hr⟩ := ih
    exact ⟨r, hr.loosen (by decide)⟩
  | eq _ _ iha ihb =>
    obtain ⟨r, hr⟩ := iha
    obtain ⟨s, hs⟩ := ihb
    exact ⟨_, hr.eq hs⟩
  | ne _ _ iha ihb =>
    obtain ⟨r, hr⟩ := iha
    obtain ⟨s, hs⟩ := ihb
    exact ⟨_, hr.ne hs⟩
  | group _ ih =>
    obtain ⟨r, hr⟩ := ih
    exact ⟨_, hr.group⟩
  | @str s => exact ⟨.str s, rfl, rfl, Nat.le_refl _⟩
  | yes => exact ⟨.bool true, rfl, rfl, Nat.le_refl _⟩
  | no => exact ⟨.bool false, rfl, rfl, Nat.le_refl _⟩
  | @fact name => exact ⟨.fact name, rfl, rfl, Nat.le_refl _⟩
  | @callNone name => exact ⟨.call name [], rfl, rfl, Nat.le_refl _⟩
  | @call name first rest _ _ ih ihs =>
    obtain ⟨r, hr⟩ := ih
    obtain ⟨l, rfl⟩ := Gives.exists_phrases rest ihs
    refine ⟨.call name (r :: l), ?_, ?_, Nat.le_refl _⟩
    · rw [tree, trees_eq_map, List.map_cons, hr.tree, List.map_map]
      rfl
    · rw [Rendering.tokens, hr.tokens, tokensAfterComma_eq]
      rfl

/-- The conditions of the grammar are the renderings of their trees. -/
theorem derives_iff_exists_rendering :
    Derives .alternative ts e ↔ ∃ r : Rendering, r.tree = e ∧ r.tokens = ts := by
  constructor
  · intro h
    obtain ⟨r, hr⟩ := h.exists_gives
    exact ⟨r, hr.tree, hr.tokens⟩
  · rintro ⟨r, rfl, rfl⟩
    exact r.derives.loosen (Nat.zero_le _)

/-! ## What can be written -/

namespace Token

def Writes (t : Token) : Prop := ∃ text, Lexeme text t

def isText : Token → Bool
  | .str _ | .word _ => true
  | _ => false

theorem writes_of_fixed {t : Token} (h : t.isText = false) : t.Writes := by
  cases t with
  | str s => cases h
  | word name => cases h
  | opening => exact ⟨_, .opening⟩
  | closing => exact ⟨_, .closing⟩
  | comma => exact ⟨_, .comma⟩
  | bang => exact ⟨_, .bang⟩
  | both => exact ⟨_, .both⟩
  | either => exact ⟨_, .either⟩
  | same => exact ⟨_, .same⟩
  | differs => exact ⟨_, .differs⟩
  | yes => exact ⟨_, .yes⟩
  | no => exact ⟨_, .no⟩

theorem writes_word {name : String} (hname : ofWord name = .word name)
    (hstart : name.toList.head?.any isWordStart = true)
    (hparts : name.toList.tail.all isWordPart = true) : (Token.word name).Writes := by
  obtain ⟨c, hc, hstart⟩ := (Option.any_eq_true _ _).1 hstart
  obtain ⟨cs, hcs⟩ := List.head?_eq_some_iff.1 hc
  rw [hcs] at hparts
  have hlexeme := lexeme_ofWord hstart (List.all_eq_true.1 hparts)
  rw [List.tail_cons, ← hcs, String.ofList_toList, hname] at hlexeme
  exact ⟨_, hlexeme⟩

theorem writes_str_iff {s : String} :
    (Token.str s).Writes ↔ '\'' ∉ s.toList ∨ '"' ∉ s.toList := by
  constructor
  · rintro ⟨text, h⟩
    cases h with
    | str hquote hnot =>
      rw [String.toList_ofList]
      rcases hquote with rfl | rfl
      · exact .inl hnot
      · exact .inr hnot
  · rintro (h | h)
    · exact ⟨_, by simpa using Lexeme.str (.inl rfl) h⟩
    · exact ⟨_, by simpa using Lexeme.str (.inr rfl) h⟩

end Token

namespace Expr

/-- The tokens of the tree itself, not of those in it, can be written. -/
def Writes : Expr → Prop
  | .str s => (Token.str s).Writes
  | .fact name | .call name _ => (Token.word name).Writes
  | _ => True

end Expr

theorem Phrase.forall_mem_chain {P : Token → Prop} {op : Token} {first : Phrase}
    {rest : List Phrase} (hop : P op) : (∀ t ∈ chain op first rest, P t) ↔
      (∀ t ∈ first.tokens, P t) ∧ ∀ p ∈ rest, ∀ t ∈ p.tokens, P t := by
  induction rest generalizing first with
  | nil => simp [chain]
  | cons p rest ih =>
    rw [chain_cons, List.forall_mem_append, List.forall_mem_cons, ih, List.forall_mem_cons]
    simp only [hop, true_and]

theorem Phrase.everywhere_joined {P : Expr → Prop} {join : Expr → Expr → Expr}
    (hjoin : ∀ a b, (join a b).Everywhere P ↔ a.Everywhere P ∧ b.Everywhere P)
    {rest : List Phrase} : (joined join e rest).Everywhere P ↔
      e.Everywhere P ∧ ∀ p ∈ rest, p.tree.Everywhere P := by
  induction rest generalizing e with
  | nil => simp [joined]
  | cons p rest ih =>
    have hstep : joined join e (p :: rest) = joined join (join e p.tree) rest := rfl
    rw [hstep, ih, hjoin, List.forall_mem_cons, and_assoc]

theorem Derives.writes_iff (h : Derives level ts e) :
    (∀ t ∈ ts, t.Writes) ↔ e.Everywhere Expr.Writes := by
  induction h with
  | alternative _ _ ih ihs =>
    have hjoin (a b : Expr) : (Expr.or a b).Everywhere Expr.Writes ↔
        a.Everywhere Expr.Writes ∧ b.Everywhere Expr.Writes := and_iff_right trivial
    rw [Phrase.forall_mem_chain (Token.writes_of_fixed rfl), Phrase.everywhere_joined hjoin]
    exact and_congr ih (forall₂_congr ihs)
  | conjunction _ _ ih ihs =>
    have hjoin (a b : Expr) : (Expr.and a b).Everywhere Expr.Writes ↔
        a.Everywhere Expr.Writes ∧ b.Everywhere Expr.Writes := and_iff_right trivial
    rw [Phrase.forall_mem_chain (Token.writes_of_fixed rfl), Phrase.everywhere_joined hjoin]
    exact and_congr ih (forall₂_congr ihs)
  | not _ ih =>
    rw [List.forall_mem_cons]
    exact and_congr (iff_of_true (Token.writes_of_fixed rfl) trivial) ih
  | comparison _ ih | primary _ ih => exact ih
  | eq _ _ iha ihb | ne _ _ iha ihb =>
    rw [List.forall_mem_append, List.forall_mem_cons]
    exact ⟨fun ⟨ha, _, hb⟩ => ⟨trivial, iha.1 ha, ihb.1 hb⟩,
      fun ⟨_, ha, hb⟩ => ⟨iha.2 ha, Token.writes_of_fixed rfl, ihb.2 hb⟩⟩
  | group _ ih =>
    rw [List.forall_mem_cons, List.forall_mem_append, List.forall_mem_singleton]
    exact ⟨fun ⟨_, h, _⟩ => ih.1 h,
      fun h => ⟨Token.writes_of_fixed rfl, ih.2 h, Token.writes_of_fixed rfl⟩⟩
  | str | fact =>
    rw [List.forall_mem_singleton]
    rfl
  | yes | no =>
    rw [List.forall_mem_singleton]
    exact iff_of_true (Token.writes_of_fixed rfl) trivial
  | callNone =>
    simp only [List.forall_mem_cons]
    exact ⟨fun h => ⟨h.1, trivial⟩,
      fun h => ⟨h.1, Token.writes_of_fixed rfl, Token.writes_of_fixed rfl, nofun⟩⟩
  | @call _ first rest _ _ ih ihs =>
    rw [List.forall_mem_cons, List.forall_mem_cons, List.forall_mem_append,
      List.forall_mem_singleton, Phrase.forall_mem_chain (Token.writes_of_fixed rfl),
      Expr.Everywhere, Expr.EverywhereIn, Expr.everywhereIn_iff, List.forall_mem_map]
    have hargs := and_congr ih (forall₂_congr ihs)
    exact ⟨fun ⟨hname, _, h, _⟩ => ⟨hname, hargs.1 h⟩, fun ⟨hname, h⟩ =>
      ⟨hname, Token.writes_of_fixed rfl, hargs.2 h, Token.writes_of_fixed rfl⟩⟩

theorem Spells.writes {text : List Char} (h : Spells text ts) : ∀ t ∈ ts, t.Writes := by
  induction h with
  | done => nofun
  | token _ hlexeme _ ih => exact List.forall_mem_cons.2 ⟨⟨_, hlexeme⟩, ih⟩

theorem exists_spells : ∀ {ts : List Token}, (∀ t ∈ ts, t.Writes) →
    ∃ source : String, Spells source.toList ts := by
  intro ts
  induction ts with
  | nil => exact fun _ => ⟨"", .done nofun⟩
  | cons t ts ih =>
    intro h
    obtain ⟨⟨text, htext⟩, hts⟩ := List.forall_mem_cons.1 h
    obtain ⟨source, hsource⟩ := ih hts
    refine ⟨String.ofList (text ++ source.toList), ?_⟩
    rw [String.toList_ofList]
    exact hsource.cons htext

namespace Expr

theorem writes_of_nameFits (hname : e.NameFits) (hquotes : e.Quotes) : e.Writes := by
  cases e with
  | str s => exact Token.writes_str_iff.2 hquotes
  | fact name =>
    rcases hname with rfl | rfl | rfl <;> exact Token.writes_word rfl rfl (by decide)
  | call name args =>
    obtain ⟨f, hf, _⟩ := hname
    unfold Function.ofName? at hf
    split at hf <;> first
      | exact Token.writes_word rfl rfl (by decide)
      | cases hf
  | _ => trivial

theorem quotes_of_writes (h : e.Writes) : e.Quotes := by
  cases e with
  | str s => exact Token.writes_str_iff.1 h
  | _ => trivial

theorem WellNamed.quotable_iff (h : e.WellNamed) : e.Quotable ↔ e.Everywhere Expr.Writes :=
  ⟨Everywhere.imp (fun _ hfits hquotes => writes_of_nameFits hfits.self hquotes.self) h,
    fun hwrites => hwrites.imp (fun _ hw _ => quotes_of_writes hw.self) hwrites⟩

end Expr

/-! ## Parsing -/

/-- A text is parsed exactly if its lexemes are a condition of the grammar whose names are known,
and to the one tree of that condition. The conditions of the grammar are the renderings of trees.
Every tree has renderings; those of a tree with known names, in which no string holds both kinds
of quotes, can be written, and are parsed to the tree however they are written; and no other trees
are ever parsed. -/
theorem parse_exact :
    (∀ (source : String) (e : Expr), parse source = .ok e ↔
      ∃ ts, Spells source.toList ts ∧ Derives .alternative ts e ∧ e.WellNamed) ∧
    (∀ (source : String) (ts us : List Token) (a b : Expr),
      Spells source.toList ts → Derives .alternative ts a →
      Spells source.toList us → Derives .alternative us b → ts = us ∧ a = b) ∧
    (∀ (ts : List Token) (e : Expr), Derives .alternative ts e ↔
      ∃ r : Rendering, r.tree = e ∧ r.tokens = ts) ∧
    (∀ e : Expr, ∃ r : Rendering, r.tree = e) ∧
    (∀ r : Rendering, r.tree.WellNamed → r.tree.Quotable →
      (∃ source : String, Spells source.toList r.tokens) ∧
      ∀ source : String, Spells source.toList r.tokens → parse source = .ok r.tree) ∧
    ∀ e : Expr, (∃ source, parse source = .ok e) ↔ e.WellNamed ∧ e.Quotable := by
  have hderives (r : Rendering) : Derives .alternative r.tokens r.tree :=
    r.derives.loosen (Nat.zero_le _)
  have hwritten (r : Rendering) (hnamed : r.tree.WellNamed) (hquotable : r.tree.Quotable) :
      ∃ source : String, Spells source.toList r.tokens :=
    exists_spells ((hderives r).writes_iff.2 (hnamed.quotable_iff.1 hquotable))
  have hparsed (r : Rendering) (hnamed : r.tree.WellNamed) (source : String)
      (hspells : Spells source.toList r.tokens) : parse source = .ok r.tree :=
    parse_eq_ok_iff.2 ⟨r.tokens, hspells, hderives r, hnamed⟩
  refine ⟨fun _ _ => parse_eq_ok_iff, ?_, fun _ _ => derives_iff_exists_rendering,
    fun e => ⟨.bare e, Rendering.tree_bare e⟩,
    fun r hnamed hquotable => ⟨hwritten r hnamed hquotable, hparsed r hnamed⟩, fun e => ⟨?_, ?_⟩⟩
  · intro source ts us a b hts ha hus hb
    have hscan := (ha.scan_eq hts).symm.trans (hb.scan_eq hus)
    injection hscan with htokens
    subst htokens
    exact ⟨rfl, ha.unique hb⟩
  · rintro ⟨source, hparse⟩
    obtain ⟨ts, hspells, hts, hnamed⟩ := parse_eq_ok_iff.1 hparse
    exact ⟨hnamed, hnamed.quotable_iff.2 (hts.writes_iff.1 hspells.writes)⟩
  · rintro ⟨hnamed, hquotable⟩
    rw [← Rendering.tree_bare e] at hnamed hquotable
    obtain ⟨source, hspells⟩ := hwritten _ hnamed hquotable
    exact ⟨source, (hparsed _ hnamed source hspells).trans (by rw [Rendering.tree_bare])⟩

/-- A condition with blanks, with parentheses that it does not need, and with a string that is
written in the quotes it does not hold. -/
theorem parse_exact_spaced :
    parse " branch\t|| !(event==\"it's\")" =
      .ok (.or (.fact "branch") (.not (.eq (.fact "event") (.str "it's")))) := by
  let r : Rendering :=
    .or (.fact "branch") (.not (.group (.eq (.fact "event") (.str "it's"))))
  have hnamed : r.tree.WellNamed :=
    ⟨trivial, .inr (.inr rfl), trivial, trivial, .inl rfl, trivial⟩
  have hquotable : r.tree.Quotable :=
    ⟨trivial, trivial, trivial, trivial, trivial, .inr (by decide)⟩
  have hranch : "ranch".toList.all isWordPart = true := by decide
  have hvent : "vent".toList.all isWordPart = true := by decide
  have hspells : Spells " branch\t|| !(event==\"it's\")".toList r.tokens :=
    .blank rfl <|
    .cons (Lexeme.word (show isWordStart 'b' = true from rfl) (List.all_eq_true.1 hranch)
      (by decide) (by decide)) <|
    .blank rfl <| .cons .either <| .blank rfl <| .cons .bang <| .cons .opening <|
    .cons (Lexeme.word (show isWordStart 'e' = true from rfl) (List.all_eq_true.1 hvent)
      (by decide) (by decide)) <|
    .cons .same <| .cons (@Lexeme.str '"' "it's".toList (.inr rfl) (by decide)) <|
    .cons .closing <| .done nofun
  exact (parse_exact.2.2.2.2.1 r hnamed hquotable).2 _ hspells

end Condition
end Conveyor
