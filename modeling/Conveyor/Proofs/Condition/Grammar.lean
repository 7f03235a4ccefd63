import Conveyor.Condition.Parser
import Conveyor.Proofs.Condition.Scanning

/-!
# Conveyor.Proofs.Condition.Grammar

The grammar of conditions, and the tree that each derivation stands for.

    alternative := conjunction ( "||" conjunction )*
    conjunction := negation ( "&&" negation )*
    negation    := "!" negation | comparison
    comparison  := primary ( ( "==" | "!=" ) primary )?
    primary     := "(" alternative ")" | string | true | false | word | word "(" args ")"
    args        := ( alternative ( "," alternative )* )?

The repetitions of the first two rules group from the left, and a condition is an alternative.

* `Derives`           — some tokens are a phrase of a kind, with a tree.
* `Derives.begins`    — the tokens that a phrase of a kind can begin with.
* `Derives.tidy`      — the tokens of a phrase stay apart when they are written.
* `Expr.Everywhere`   — something holds of a tree and of all trees in it.
* `Expr.WellNamed`    — the facts and functions in a tree are known, with the right arguments.
* `check_eq_ok_iff`   — the check of a tree is passed exactly by trees that are well named.
-/

namespace Conveyor
namespace Condition

/-! ## Phrases -/

/-- The kinds of phrases, from the loosest to the tightest. -/
inductive Level where
  | alternative
  | conjunction
  | negation
  | comparison
  | primary
  deriving DecidableEq, Repr

/-- Tokens with the tree that they stand for. -/
structure Phrase where
  tokens : List Token
  tree : Expr

namespace Phrase

/-- The tokens of a phrase and of more phrases, each of them after a separator. -/
def chain (separator : Token) (first : Phrase) (rest : List Phrase) : List Token :=
  first.tokens ++ rest.flatMap fun p => separator :: p.tokens

/-- A tree joined with the trees of more phrases, from the left. -/
def joined (join : Expr → Expr → Expr) (first : Expr) (rest : List Phrase) : Expr :=
  rest.foldl (fun left p => join left p.tree) first

theorem chain_cons (separator : Token) (first next : Phrase) (rest : List Phrase) :
    chain separator first (next :: rest) =
      first.tokens ++ separator :: chain separator next rest := by
  simp [chain]

end Phrase

/-- The tokens are a phrase of this kind, and the tree is theirs. -/
inductive Derives : Level → List Token → Expr → Prop where
  | alternative {first : Phrase} {rest : List Phrase} :
      Derives .conjunction first.tokens first.tree →
      (∀ p ∈ rest, Derives .conjunction p.tokens p.tree) →
      Derives .alternative (Phrase.chain .either first rest) (Phrase.joined .or first.tree rest)
  | conjunction {first : Phrase} {rest : List Phrase} :
      Derives .negation first.tokens first.tree →
      (∀ p ∈ rest, Derives .negation p.tokens p.tree) →
      Derives .conjunction (Phrase.chain .both first rest) (Phrase.joined .and first.tree rest)
  | not {ts : List Token} {e : Expr} :
      Derives .negation ts e → Derives .negation (.bang :: ts) (.not e)
  | comparison {ts : List Token} {e : Expr} :
      Derives .comparison ts e → Derives .negation ts e
  | eq {ts us : List Token} {a b : Expr} :
      Derives .primary ts a → Derives .primary us b →
      Derives .comparison (ts ++ .same :: us) (.eq a b)
  | ne {ts us : List Token} {a b : Expr} :
      Derives .primary ts a → Derives .primary us b →
      Derives .comparison (ts ++ .differs :: us) (.ne a b)
  | primary {ts : List Token} {e : Expr} : Derives .primary ts e → Derives .comparison ts e
  | group {ts : List Token} {e : Expr} :
      Derives .alternative ts e → Derives .primary (.opening :: (ts ++ [.closing])) e
  | str {s : String} : Derives .primary [.str s] (.str s)
  | yes : Derives .primary [.yes] (.bool true)
  | no : Derives .primary [.no] (.bool false)
  | fact {name : String} : Derives .primary [.word name] (.fact name)
  | callNone {name : String} : Derives .primary [.word name, .opening, .closing] (.call name [])
  | call {name : String} {first : Phrase} {rest : List Phrase} :
      Derives .alternative first.tokens first.tree →
      (∀ p ∈ rest, Derives .alternative p.tokens p.tree) →
      Derives .primary (.word name :: .opening :: (Phrase.chain .comma first rest ++ [.closing]))
        (.call name (first.tree :: rest.map (·.tree)))

variable {level : Level} {ts us : List Token} {t : Token} {e : Expr}

/-! ## How phrases begin -/

def Level.rank : Level → Nat
  | .alternative => 0
  | .conjunction => 1
  | .negation => 2
  | .comparison => 3
  | .primary => 4

def Token.opensPrimary : Token → Bool
  | .word _ | .str _ | .yes | .no | .opening => true
  | _ => false

/-- A phrase of the kind can begin with the token. Only the looser kinds begin with `!`. -/
def Level.Begins (level : Level) (t : Token) : Prop :=
  t.opensPrimary = true ∨ t = .bang ∧ level.rank ≤ Level.negation.rank

theorem Level.Begins.loosen {looser : Level} (h : level.Begins t)
    (hrank : looser.rank ≤ level.rank) : looser.Begins t :=
  h.imp id fun ⟨ht, hlevel⟩ => ⟨ht, Nat.le_trans hrank hlevel⟩

theorem Derives.begins (h : Derives level ts e) : ∃ t more, ts = t :: more ∧ level.Begins t := by
  induction h with
  | alternative _ _ ih | conjunction _ _ ih =>
    obtain ⟨t, more, hts, ht⟩ := ih
    rw [Phrase.chain, hts]
    exact ⟨t, _, rfl, ht.loosen (by decide)⟩
  | comparison _ ih | primary _ ih =>
    obtain ⟨t, more, hts, ht⟩ := ih
    exact ⟨t, more, hts, ht.loosen (by decide)⟩
  | eq _ _ ih | ne _ _ ih =>
    obtain ⟨t, more, rfl, ht⟩ := ih
    exact ⟨t, _, rfl, ht.loosen (by decide)⟩
  | not => exact ⟨_, _, rfl, .inr ⟨rfl, Nat.le_refl _⟩⟩
  | group | str | yes | no | fact | callNone | call => exact ⟨_, _, rfl, .inl rfl⟩

/-- A token that a phrase begins with, whatever its kind. -/
theorem Derives.head_ne (h : Derives level ts e) :
    ∀ t ∈ ts.head?, t ≠ .same ∧ t ≠ .closing := by
  obtain ⟨t, more, rfl, ht⟩ := h.begins
  rintro u ⟨⟩
  constructor <;> rintro rfl <;> rcases ht with ht | ⟨ht, _⟩ <;> cases ht

/-! ## How phrases are written -/

/-- Tokens that stay apart, and from punctuation that comes after them. -/
structure Tidy (ts : List Token) : Prop where
  some : ts ≠ []
  ends : ∀ t ∈ ts.getLast?, t ≠ .bang
  apart : ts.IsChain Token.Apart

namespace Tidy

theorem singleton (h : t ≠ .bang) : Tidy [t] := by
  refine ⟨by simp, ?_, .singleton t⟩
  rintro u ⟨⟩
  exact h

theorem cons (h : Tidy ts) (ht : ∀ u ∈ ts.head?, t.Apart u) : Tidy (t :: ts) := by
  refine ⟨by simp, ?_, List.isChain_cons.2 ⟨ht, h.apart⟩⟩
  have happend : t :: ts = [t] ++ ts := rfl
  rw [happend, List.getLast?_append_of_ne_nil _ h.some]
  exact h.ends

/-- Two phrases with a token between them that is neither a word nor `!`. -/
theorem between (ht : Tidy ts) (hu : Tidy us) (hword : t.isWord = false) (hbang : t ≠ .bang) :
    Tidy (ts ++ t :: us) := by
  have hright : Tidy (t :: us) :=
    hu.cons fun u _ => ⟨by rw [hword]; rfl, fun ⟨h, _⟩ => hbang h⟩
  refine ⟨by simp, ?_, List.isChain_append.2 ⟨ht.apart, hright.apart, ?_⟩⟩
  · rw [List.getLast?_append_of_ne_nil _ hright.some]
    exact hright.ends
  · rintro u hu' _ ⟨⟩
    exact ⟨by rw [hword, Bool.and_false], fun ⟨h, _⟩ => ht.ends u hu' h⟩

theorem closed (h : Tidy ts) : Tidy (ts ++ [.closing]) := by
  refine ⟨by simp, ?_, List.isChain_append.2 ⟨h.apart, .singleton _, ?_⟩⟩
  · rw [List.getLast?_concat]
    rintro u ⟨⟩
    decide
  · rintro u _ _ ⟨⟩
    exact ⟨Bool.and_false _, nofun⟩

theorem opened (h : Tidy ts) : Tidy (.opening :: ts) := h.cons fun _ _ => ⟨rfl, nofun⟩

theorem called (h : Tidy ts) (name : String) : Tidy (.word name :: .opening :: ts) := by
  refine h.opened.cons ?_
  rintro u ⟨⟩
  exact ⟨rfl, nofun⟩

theorem chain (hword : t.isWord = false) (hbang : t ≠ .bang) :
    ∀ {rest : List Phrase} {first : Phrase}, Tidy first.tokens → (∀ p ∈ rest, Tidy p.tokens) →
      Tidy (Phrase.chain t first rest) := by
  intro rest
  induction rest with
  | nil =>
    intro first hfirst _
    simpa [Phrase.chain] using hfirst
  | cons next rest ih =>
    intro first hfirst hrest
    rw [Phrase.chain_cons]
    obtain ⟨hnext, hrest⟩ := List.forall_mem_cons.1 hrest
    exact hfirst.between (ih hnext hrest) hword hbang

end Tidy

theorem Derives.tidy (h : Derives level ts e) : Tidy ts := by
  induction h with
  | alternative _ _ ih ihs | conjunction _ _ ih ihs => exact .chain rfl (by decide) ih ihs
  | not h ih => exact ih.cons fun u hu => ⟨rfl, fun ⟨_, hsame⟩ => (h.head_ne u hu).1 hsame⟩
  | comparison _ ih | primary _ ih => exact ih
  | eq _ _ iha ihb | ne _ _ iha ihb => exact iha.between ihb rfl (by decide)
  | group _ ih => exact ih.closed.opened
  | str | yes | no | fact => exact .singleton nofun
  | callNone => exact Tidy.called (.singleton (by decide)) _
  | call _ _ ih ihs => exact (Tidy.closed (.chain rfl (by decide) ih ihs)).called _

/-! ## Names -/

namespace Expr

mutual

def Everywhere (P : Expr → Prop) : Expr → Prop
  | .bool b => P (.bool b)
  | .str s => P (.str s)
  | .fact name => P (.fact name)
  | .call name args => P (.call name args) ∧ EverywhereIn P args
  | .not e => P (.not e) ∧ Everywhere P e
  | .and a b => P (.and a b) ∧ Everywhere P a ∧ Everywhere P b
  | .or a b => P (.or a b) ∧ Everywhere P a ∧ Everywhere P b
  | .eq a b => P (.eq a b) ∧ Everywhere P a ∧ Everywhere P b
  | .ne a b => P (.ne a b) ∧ Everywhere P a ∧ Everywhere P b

def EverywhereIn (P : Expr → Prop) : List Expr → Prop
  | [] => True
  | e :: rest => Everywhere P e ∧ EverywhereIn P rest

end

/-- A fact is one that can be read, and a call is one of a known function with as many arguments
as it takes. -/
def NameFits : Expr → Prop
  | .fact name => name = "event" ∨ name = "ref" ∨ name = "branch"
  | .call name args => ∃ f, Function.ofName? name = some f ∧ args.length = f.arity
  | _ => True

def WellNamed (e : Expr) : Prop := e.Everywhere NameFits

/-- A string that can be written: one kind of quotes is not in it. -/
def Quotes : Expr → Prop
  | .str s => '\'' ∉ s.toList ∨ '"' ∉ s.toList
  | _ => True

def Quotable (e : Expr) : Prop := e.Everywhere Quotes

theorem everywhereIn_iff {P : Expr → Prop} {l : List Expr} :
    EverywhereIn P l ↔ ∀ e ∈ l, e.Everywhere P := by
  induction l with
  | nil => simp [EverywhereIn]
  | cons e rest ih => simp [EverywhereIn, ih]

section
variable {P Q R : Expr → Prop}

theorem Everywhere.self {e : Expr} (h : e.Everywhere P) : P e := by
  cases e with
  | bool | str | fact => exact h
  | call | not | and | or | eq | ne => exact h.1

mutual

theorem Everywhere.imp (h : ∀ e, e.Everywhere P → e.Everywhere Q → R e) :
    ∀ {e : Expr}, e.Everywhere P → e.Everywhere Q → e.Everywhere R
  | .bool _, hp, hq | .str _, hp, hq | .fact _, hp, hq => h _ hp hq
  | .not _, hp, hq => ⟨h _ hp hq, hp.2.imp h hq.2⟩
  | .and _ _, hp, hq | .or _ _, hp, hq | .eq _ _, hp, hq | .ne _ _, hp, hq =>
    ⟨h _ hp hq, hp.2.1.imp h hq.2.1, hp.2.2.imp h hq.2.2⟩
  | .call _ _, hp, hq => ⟨h _ hp hq, EverywhereIn.imp h hp.2 hq.2⟩

theorem EverywhereIn.imp (h : ∀ e, e.Everywhere P → e.Everywhere Q → R e) :
    ∀ {l : List Expr}, EverywhereIn P l → EverywhereIn Q l → EverywhereIn R l
  | [], _, _ => trivial
  | _ :: _, hp, hq => ⟨hp.1.imp h hq.1, EverywhereIn.imp h hp.2 hq.2⟩

end

end

theorem ofName?_isSome_iff {name : String} :
    (∃ f, Fact.ofName? name = some f) ↔ name = "event" ∨ name = "ref" ∨ name = "branch" := by
  unfold Fact.ofName?
  split <;> simp_all

theorem contains_factNames_iff {name : String} :
    factNames.contains name = true ↔ name = "event" ∨ name = "ref" ∨ name = "branch" := by
  simp [factNames]

theorem functionArity?_eq (name : String) :
    functionArity? name = (Function.ofName? name).map Function.arity := by
  unfold functionArity? Function.ofName?
  split <;> rfl

theorem both_ok_iff {x y : Except SyntaxError Unit} :
    (match x with
      | .error e => Except.error e
      | .ok () => y) = .ok () ↔ x = .ok () ∧ y = .ok () := by
  cases x <;> simp

mutual

theorem check_eq_ok_iff : ∀ e : Expr, e.check = .ok () ↔ e.WellNamed
  | .bool _ | .str _ => by simp [check, WellNamed, Everywhere, NameFits]
  | .fact name => by
    rw [WellNamed, Everywhere, NameFits, ← contains_factNames_iff, check]
    split <;> simp_all
  | .not e => by
    rw [check, check_eq_ok_iff e]
    simp [WellNamed, Everywhere, NameFits]
  | .and a b | .or a b | .eq a b | .ne a b => by
    rw [check]
    refine both_ok_iff.trans ?_
    rw [check_eq_ok_iff a, check_eq_ok_iff b]
    simp [WellNamed, Everywhere, NameFits]
  | .call name args => by
    rw [WellNamed, Everywhere, NameFits, ← checkAll_eq_ok_iff args, check, functionArity?_eq]
    cases hf : Function.ofName? name with
    | none => simp
    | some f => by_cases hargs : args.length = f.arity <;> simp [hargs]

theorem checkAll_eq_ok_iff : ∀ l : List Expr, checkAll l = .ok () ↔ EverywhereIn NameFits l
  | [] => by simp [checkAll, EverywhereIn]
  | e :: rest => by
    rw [checkAll]
    refine both_ok_iff.trans ?_
    rw [check_eq_ok_iff e, checkAll_eq_ok_iff rest]
    rfl

end

end Expr
end Condition
end Conveyor
