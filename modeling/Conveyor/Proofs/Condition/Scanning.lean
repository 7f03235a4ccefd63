import Conveyor.Condition.Token
import Conveyor.Text.Search
import Mathlib.Data.List.Chain
import Mathlib.Data.List.TakeWhile

/-!
# Conveyor.Proofs.Condition.Scanning

Which texts stand for which tokens.

A text spells tokens if it can be cut into their lexemes, with any blanks around them. Nothing is
said of where to cut, and the scanner always takes the longest lexeme it can. The two agree as
long as no token would run together with the next one, as two words would, or `!` and `==`.

* `Lexeme`          — the ways to write one token.
* `Spells`          — a text is lexemes with blanks around them.
* `spells_of_scan`  — what the scanner answers is spelled by the text.
* `Token.Apart`     — two tokens stay apart without a blank between them.
* `scan_of_spells`  — the scanner finds tokens that stay apart, however they are spelled.
-/

namespace Conveyor
namespace Condition

/-! ## Spellings -/

/-- The ways to write one token. A string is written in quotes of a kind that it does not hold. -/
inductive Lexeme : List Char → Token → Prop where
  | opening : Lexeme ['('] .opening
  | closing : Lexeme [')'] .closing
  | comma : Lexeme [','] .comma
  | bang : Lexeme ['!'] .bang
  | both : Lexeme ['&', '&'] .both
  | either : Lexeme ['|', '|'] .either
  | same : Lexeme ['=', '='] .same
  | differs : Lexeme ['!', '='] .differs
  | yes : Lexeme ['t', 'r', 'u', 'e'] .yes
  | no : Lexeme ['f', 'a', 'l', 's', 'e'] .no
  | str {quote : Char} {value : List Char} : quote = '\'' ∨ quote = '"' → quote ∉ value →
      Lexeme (quote :: (value ++ [quote])) (.str (String.ofList value))
  | word {c : Char} {cs : List Char} : isWordStart c = true → (∀ d ∈ cs, isWordPart d = true) →
      String.ofList (c :: cs) ≠ "true" → String.ofList (c :: cs) ≠ "false" →
      Lexeme (c :: cs) (.word (String.ofList (c :: cs)))

/-- The text is lexemes of the tokens, one after the other, with any blanks around them. -/
inductive Spells : List Char → List Token → Prop where
  | done {blanks : List Char} : (∀ c ∈ blanks, isBlank c = true) → Spells blanks []
  | token {blanks lexeme rest : List Char} {t : Token} {ts : List Token} :
      (∀ c ∈ blanks, isBlank c = true) → Lexeme lexeme t → Spells rest ts →
      Spells (blanks ++ (lexeme ++ rest)) (t :: ts)

variable {c quote : Char} {s value rest text : List Char} {t u : Token} {ts : List Token}

namespace Spells

theorem blank (hc : isBlank c = true) (h : Spells s ts) : Spells (c :: s) ts := by
  cases h with
  | done hblanks => exact .done (List.forall_mem_cons.2 ⟨hc, hblanks⟩)
  | token hblanks hlexeme hrest =>
    exact .token (List.forall_mem_cons.2 ⟨hc, hblanks⟩) hlexeme hrest

theorem cons (hlexeme : Lexeme text t) (h : Spells rest ts) : Spells (text ++ rest) (t :: ts) :=
  @Spells.token [] text rest t ts nofun hlexeme h

theorem concat (h : Spells s ts) (hlexeme : Lexeme text t) : Spells (s ++ text) (ts ++ [t]) := by
  induction h with
  | done hblanks => simpa using Spells.token hblanks hlexeme (.done (List.forall_mem_nil _))
  | token hblanks hfirst _ ih => simpa using Spells.token hblanks hfirst ih

end Spells

/-! ## What the scanner answers -/

theorem readQuoted_eq_splitOnce : readQuoted quote s = Text.splitOnce quote s := by
  induction s with
  | nil => rfl
  | cons c cs ih =>
    rw [readQuoted, Text.splitOnce, ih]
    cases Text.splitOnce quote cs <;> rfl

theorem readQuoted_eq_some_iff :
    readQuoted quote s = some (value, rest) ↔ s = value ++ quote :: rest ∧ quote ∉ value := by
  rw [readQuoted_eq_splitOnce]
  exact Text.splitOnce_eq_some_iff

/-- A word, or the literal that it is. -/
theorem lexeme_ofWord {cs : List Char} (hc : isWordStart c = true)
    (hcs : ∀ d ∈ cs, isWordPart d = true) :
    Lexeme (c :: cs) (Token.ofWord (String.ofList (c :: cs))) := by
  unfold Token.ofWord
  split
  · rename_i h
    have hlist : c :: cs = ['t', 'r', 'u', 'e'] := String.ofList_injective h
    rw [hlist]
    exact .yes
  · rename_i h
    have hlist : c :: cs = ['f', 'a', 'l', 's', 'e'] := String.ofList_injective h
    rw [hlist]
    exact .no
  · rename_i hyes hno
    exact .word hc hcs hyes hno

theorem ofWord_eq_word {name : String} (hyes : name ≠ "true") (hno : name ≠ "false") :
    Token.ofWord name = .word name := by
  unfold Token.ofWord
  split
  · exact absurd rfl hyes
  · exact absurd rfl hno
  · rfl

/-- A lexeme before a text of which the same is known. -/
theorem spells_of_map {result : Except SyntaxError (List Token)} (hlexeme : Lexeme text t)
    (hrest : ∀ {ts}, result = .ok ts → Spells rest ts) (h : result.map (t :: ·) = .ok ts) :
    Spells (text ++ rest) ts := by
  cases result with
  | error e => cases h
  | ok more =>
    cases h
    exact .cons hlexeme (hrest rfl)

theorem spells_of_scanFrom {pos : Nat} (h : Token.scanFrom pos s = .ok ts) : Spells s ts := by
  fun_induction Token.scanFrom pos s generalizing ts with
  | case1 =>
    cases h
    exact .done nofun
  | case2 _ c _ hblank ih => exact .blank hblank (ih h)
  | case3 _ _ _ ih => exact spells_of_map .opening ih h
  | case4 _ _ _ _ ih => exact spells_of_map .closing ih h
  | case5 _ _ _ _ _ ih => exact spells_of_map .comma ih h
  | case6 _ _ _ _ _ _ ih => exact spells_of_map .differs ih h
  | case7 _ _ _ _ _ _ _ ih => exact spells_of_map .bang ih h
  | case8 _ _ _ _ _ _ _ ih => exact spells_of_map .same ih h
  | case10 _ _ _ _ _ _ _ _ ih => exact spells_of_map .both ih h
  | case12 _ _ _ _ _ _ _ _ _ ih => exact spells_of_map .either ih h
  | case14 _ c cs _ _ _ _ _ _ _ _ hquote value rest hread ih =>
    obtain ⟨rfl, hnot⟩ := readQuoted_eq_some_iff.1 hread
    have hspells := spells_of_map (.str hquote hnot) ih h
    simpa using hspells
  | case16 _ c cs _ _ _ _ _ _ _ _ _ hstart =>
    rename_i ih
    have hparts : ∀ d ∈ cs.takeWhile isWordPart, isWordPart d = true :=
      fun d hd => List.mem_takeWhile_imp hd
    have hspells := spells_of_map (lexeme_ofWord hstart hparts) ih h
    rwa [List.cons_append, List.takeWhile_append_dropWhile] at hspells
  | case9 | case11 | case13 | case15 | case17 => cases h

theorem spells_of_scan {source : String} (h : Token.scan source = .ok ts) :
    Spells source.toList ts :=
  spells_of_scanFrom h

/-! ## What the scanner finds -/

/-- A token that would go on with the letters of a word after it. -/
def Token.isWord : Token → Bool
  | .word _ | .yes | .no => true
  | _ => false

/-- The two tokens stay apart without a blank between them: they are not two words, and not `!`
and `==`. -/
def Token.Apart (t u : Token) : Prop :=
  (t.isWord && u.isWord) = false ∧ ¬ (t = .bang ∧ u = .same)

theorem isWordPart_of_isWordStart (h : isWordStart c = true) : isWordPart c = true := by
  simp only [isWordStart, isWordPart, Char.isAlphanum, Bool.or_eq_true] at h ⊢
  exact h.imp .inl id

theorem isBlank_of_isWordPart (h : isWordPart c = true) : isBlank c = false := by
  have hn : 65 ≤ c.toNat ∧ c.toNat ≤ 90 ∨ 97 ≤ c.toNat ∧ c.toNat ≤ 122 ∨
      48 ≤ c.toNat ∧ c.toNat ≤ 57 ∨ c.toNat = 95 := by
    have halpha : c.isAlpha = (c.isUpper || c.isLower) := rfl
    have hupper : c.isUpper = decide (c.val ≥ 'A'.val ∧ c.val ≤ 'Z'.val) := rfl
    have hlower : c.isLower = (decide (c.val ≥ 'a'.val) && decide (c.val ≤ 'z'.val)) := rfl
    simp only [isWordPart, Char.isAlphanum, halpha, hupper, hlower, Char.isDigit,
      Bool.or_eq_true, Bool.and_eq_true, decide_eq_true_eq, UInt32.le_iff_toNat_le] at h
    rcases h with ((h | h) | h) | rfl
    · exact .inl h
    · exact .inr (.inl h)
    · exact .inr (.inr (.inl h))
    · exact .inr (.inr (.inr rfl))
  simp only [isBlank, Bool.or_eq_false_iff, Bool.and_eq_false_iff, decide_eq_false_iff_not,
    beq_eq_false_iff_ne]
  omega

/-- How a text can go on after a token without changing it. -/
def Token.StopsAt (t : Token) (rest : List Char) : Prop :=
  ∀ c ∈ rest.head?, (t.isWord = true → isWordPart c = false) ∧ (t = .bang → c ≠ '=')

theorem scanFrom_word {cs : List Char} (hc : isWordStart c = true)
    (hcs : ∀ d ∈ cs, isWordPart d = true) (hstop : ∀ d ∈ rest.head?, isWordPart d = false)
    (pos : Nat) : Token.scanFrom pos (c :: cs ++ rest) =
      (Token.scanFrom (pos + (c :: cs).length) rest).map
        (Token.ofWord (String.ofList (c :: cs)) :: ·) := by
  have hblank := isBlank_of_isWordPart (isWordPart_of_isWordStart hc)
  have hother : ∀ d : Char, isWordStart d = false → c ≠ d := by
    rintro d hd rfl
    rw [hc] at hd
    cases hd
  have htake : (cs ++ rest).takeWhile isWordPart = cs := by
    rw [List.takeWhile_append_of_pos hcs]
    cases rest with
    | nil => simp
    | cons d rest => simp [hstop d rfl]
  have hdrop : (cs ++ rest).dropWhile isWordPart = rest := by
    rw [List.dropWhile_append_of_pos hcs]
    cases rest with
    | nil => rfl
    | cons d rest => simp [hstop d rfl]
  rw [List.cons_append, Token.scanFrom.eq_def]
  simp only [hblank, hother '(' (by decide), hother ')' (by decide), hother ',' (by decide),
    hother '!' (by decide), hother '=' (by decide), hother '&' (by decide),
    hother '|' (by decide), hother '\'' (by decide), hother '"' (by decide), hc, htake, hdrop,
    or_false, if_true, if_false, Bool.false_eq_true]

/-- What the scanner does with a lexeme does not depend on where it is. -/
theorem scanFrom_lexeme (hlexeme : Lexeme text t) (hstop : t.StopsAt rest) (pos : Nat) :
    ∃ next, Token.scanFrom pos (text ++ rest) =
      (Token.scanFrom next rest).map (t :: ·) := by
  cases hlexeme with
  | opening | closing | comma =>
    refine ⟨pos + 1, ?_⟩
    rw [List.singleton_append, Token.scanFrom.eq_def]
    simp +decide only [if_true, if_false]
  | bang =>
    refine ⟨pos + 1, ?_⟩
    rw [List.singleton_append, Token.scanFrom.eq_def]
    simp +decide only [if_true, if_false]
    split
    · exact absurd rfl ((hstop '=' rfl).2 rfl)
    · rfl
  | both | either | same | differs =>
    refine ⟨pos + 2, ?_⟩
    rw [List.cons_append, List.singleton_append, Token.scanFrom.eq_def]
    simp +decide only [if_true, if_false]
  | yes =>
    have hword : "rue".toList.all isWordPart = true := by decide
    exact ⟨_, scanFrom_word rfl (List.all_eq_true.1 hword) (fun d hd => (hstop d hd).1 rfl) pos⟩
  | no =>
    have hword : "alse".toList.all isWordPart = true := by decide
    exact ⟨_, scanFrom_word rfl (List.all_eq_true.1 hword) (fun d hd => (hstop d hd).1 rfl) pos⟩
  | word hc hcs hyes hno =>
    have hword := scanFrom_word hc hcs (fun d hd => (hstop d hd).1 rfl) pos
    rw [ofWord_eq_word hyes hno] at hword
    exact ⟨_, hword⟩
  | @str quote value hquote hnot =>
    have hread : readQuoted quote (value ++ quote :: rest) = some (value, rest) :=
      readQuoted_eq_some_iff.2 ⟨rfl, hnot⟩
    refine ⟨pos + 2 + byteLength value, ?_⟩
    rw [List.cons_append, List.append_assoc, List.singleton_append, Token.scanFrom.eq_def]
    rcases hquote with rfl | rfl
    all_goals
      simp +decide only [if_true, if_false]
      split
      · rename_i hfound
        rw [hread] at hfound
        cases hfound
        rfl
      · rename_i hfound
        rw [hread] at hfound
        cases hfound

/-- The first character of a lexeme: a letter only of a word, and `=` only of `==`. -/
theorem Lexeme.head (hlexeme : Lexeme text u) :
    ∃ c more, text = c :: more ∧ (isWordPart c = true → u.isWord = true) ∧
      (c = '=' → u = .same) := by
  cases hlexeme with
  | same => exact ⟨_, _, rfl, by decide, fun _ => rfl⟩
  | @str quote value hquote =>
    have hplain : isWordPart quote = false ∧ quote ≠ '=' := by
      rcases hquote with rfl | rfl <;> decide
    refine ⟨quote, _, rfl, ?_, fun heq => absurd heq hplain.2⟩
    intro hpart
    rw [hplain.1] at hpart
    cases hpart
  | @word c cs hc =>
    refine ⟨c, cs, rfl, fun _ => rfl, ?_⟩
    rintro rfl
    cases hc
  | _ => exact ⟨_, _, rfl, by decide, by decide⟩

/-- A token stops before a text that begins with a blank, or with a token that it stays apart
from. -/
theorem stopsAt_of_spells (h : Spells rest ts) (hapart : ∀ u ∈ ts.head?, t.Apart u) :
    t.StopsAt rest := by
  intro c hc
  have hblank : isBlank c = true → (t.isWord = true → isWordPart c = false) ∧
      (t = .bang → c ≠ '=') := by
    intro hblank
    refine ⟨fun _ => Bool.eq_false_iff.2 fun hpart => ?_, ?_⟩
    · rw [isBlank_of_isWordPart hpart] at hblank
      cases hblank
    · rintro _ rfl
      cases hblank
  cases h with
  | done hblanks => exact hblank (hblanks c (List.mem_of_mem_head? hc))
  | @token blanks lexeme rest u ts hblanks hlexeme =>
    cases blanks with
    | cons b blanks =>
      cases hc
      exact hblank (hblanks _ List.mem_cons_self)
    | nil =>
      obtain ⟨c', more, rfl, hword, hsame⟩ := hlexeme.head
      cases hc
      obtain ⟨hwords, hbang⟩ := hapart u rfl
      refine ⟨fun ht => Bool.eq_false_iff.2 fun hpart => ?_, fun ht heq => ?_⟩
      · rw [ht, hword hpart] at hwords
        cases hwords
      · exact hbang ⟨ht, hsame heq⟩

theorem scanFrom_blanks {blanks : List Char} (h : ∀ c ∈ blanks, isBlank c = true) (pos : Nat) :
    ∃ next, Token.scanFrom pos (blanks ++ s) = Token.scanFrom next s := by
  induction blanks generalizing pos with
  | nil => exact ⟨pos, rfl⟩
  | cons c blanks ih =>
    obtain ⟨next, hnext⟩ := ih (fun d hd => h d (List.mem_cons_of_mem c hd)) (pos + c.utf8Size)
    refine ⟨next, ?_⟩
    rw [List.cons_append, Token.scanFrom.eq_def]
    simp only [h c List.mem_cons_self, if_true, hnext]

/-- The scanner finds tokens that stay apart, however they are spelled. -/
theorem scanFrom_of_spells (h : Spells s ts) (hapart : ts.IsChain Token.Apart) (pos : Nat) :
    Token.scanFrom pos s = .ok ts := by
  induction h generalizing pos with
  | done hblanks =>
    obtain ⟨next, hnext⟩ := scanFrom_blanks (s := []) hblanks pos
    rw [List.append_nil] at hnext
    rw [hnext, Token.scanFrom.eq_def]
  | @token blanks text rest t ts hblanks hlexeme hrest ih =>
    obtain ⟨hhead, htail⟩ := List.isChain_cons.1 hapart
    obtain ⟨start, hstart⟩ := scanFrom_blanks (s := text ++ rest) hblanks pos
    obtain ⟨next, hnext⟩ := scanFrom_lexeme hlexeme (stopsAt_of_spells hrest hhead) start
    rw [hstart, hnext, ih htail]
    rfl

theorem scan_of_spells {source : String} (h : Spells source.toList ts)
    (hapart : ts.IsChain Token.Apart) : Token.scan source = .ok ts :=
  scanFrom_of_spells h hapart 0

end Condition
end Conveyor
